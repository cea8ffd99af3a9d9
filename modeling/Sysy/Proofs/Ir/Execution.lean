import Sysy.Proofs.Lowering.Soundness

/-!
Runs of intermediate code. The state of a run is a stack of activations and a store of regions, one
for each global and one for each local of an activation. A step reserves the locals that come next
and runs the instruction after them; it is stuck when an access leaves its region. What a new local
holds is not specified and comes from outside, and so is what the run-time library reads.
-/

namespace Sysy

/-- A call of the run-time library and the words passed to it; an array is passed with its
contents. -/
structure Event where
  name : String
  args : List Word
  deriving DecidableEq, Repr

/-- What the library reads for a program, given the calls made before, the latest first. -/
structure Library where
  getint : List Event → Option Word
  getch : List Event → Option Word
  getarray : List Event → Option (List Word)

inductive Service where
  | getint | getch | getarray | putint | putch | putarray | starttime | stoptime
  deriving DecidableEq, Repr

namespace Service

def all : List Service := [getint, getch, getarray, putint, putch, putarray, starttime, stoptime]

def name : Service → String
  | getint => "getint"
  | getch => "getch"
  | getarray => "getarray"
  | putint => "putint"
  | putch => "putch"
  | putarray => "putarray"
  | starttime => "starttime"
  | stoptime => "stoptime"

def ofName? (name : String) : Option Service := all.find? (·.name == name)

end Service

end Sysy

namespace Sysy.Ir
open Lowering

def Arith.eval? : Arith → Word → Word → Option Word
  | add, x, y => some (x + y)
  | sub, x, y => some (x - y)
  | mul, x, y => some (x * y)
  | div, x, y => some (if y = 0 then -1 else x.sdiv y)
  | mod, x, y => some (if y = 0 then x else x.srem y)
  | eq, x, y => some (Word.ofBool (x == y))
  | ne, x, y => some (Word.ofBool (x != y))
  | lt, x, y => some (Word.ofBool (x.slt y))
  | gt, x, y => some (Word.ofBool (y.slt x))
  | le, x, y => some (Word.ofBool (x.sle y))
  | ge, x, y => some (Word.ofBool (y.sle x))
  | unnamed, _, _ => none

/-- A piece of storage: a global variable, or a local of one activation. -/
inductive Region where
  | global (id : ValueId)
  | local (number : Nat)
  deriving DecidableEq, Repr

/-- What a value is during a run: a word, or a place in a region by its distance in bytes. -/
inductive Val where
  | word (w : Word)
  | addr (region : Region) (offset : Int)
  deriving DecidableEq, Repr

structure Store where
  /-- The words of each region in use. -/
  mem : Region → Option (List Val)
  /-- The number of the next local. -/
  next : Nat := 0
  /-- The calls of the library, the latest first. -/
  trace : List Event := []

namespace Store

def load (s : Store) (r : Region) (o : Int) : Option Val := do
  let cells ← s.mem r
  if 0 ≤ o ∧ 4 ∣ o then cells[(o / 4).toNat]? else none

def store (s : Store) (r : Region) (o : Int) (v : Val) : Option Store := do
  let cells ← s.mem r
  if 0 ≤ o ∧ 4 ∣ o ∧ (o / 4).toNat < cells.length then
    some { s with mem := Function.update s.mem r (some (cells.set (o / 4).toNat v)) }
  else none

def loadWords (s : Store) (r : Region) : (o : Int) → (count : Nat) → Option (List Word)
  | _, 0 => some []
  | o, n + 1 =>
    match s.load r o with
    | some (.word w) => (s.loadWords r (o + 4) n).map (w :: ·)
    | _ => none

def storeWords (r : Region) : (o : Int) → List Word → Store → Option Store
  | _, [], s => some s
  | o, w :: ws, s => do storeWords r (o + 4) ws (← s.store r o (.word w))

def reserve (s : Store) (cells : List Val) : Store :=
  { s with mem := Function.update s.mem (.local s.next) (some cells), next := s.next + 1 }

def free (s : Store) (locals : List Nat) : Store :=
  { s with mem := fun r => match r with
    | .local n => if n ∈ locals then none else s.mem r
    | .global _ => s.mem r }

def record (s : Store) (name : String) (args : List Word) : Store :=
  { s with trace := ⟨name, args⟩ :: s.trace }

end Store

end Sysy.Ir

namespace Sysy.Library
open Ir

def serve (lib : Library) (s : Store) (k : Service) (args : List Val) :
    Option (Option Val × Store) :=
  match k with
  | .getint =>
    match args with
    | [] => do return (some (.word (← lib.getint s.trace)), s.record "getint" [])
    | _ => none
  | .getch =>
    match args with
    | [] => do return (some (.word (← lib.getch s.trace)), s.record "getch" [])
    | _ => none
  | .getarray =>
    match args with
    | [.addr r o] => do
      let ws ← lib.getarray s.trace
      let s ← s.storeWords r o ws
      return (some (.word (BitVec.ofNat 32 ws.length)), s.record "getarray" [])
    | _ => none
  | .putint =>
    match args with
    | [.word w] => some (none, s.record "putint" [w])
    | _ => none
  | .putch =>
    match args with
    | [.word w] => some (none, s.record "putch" [w])
    | _ => none
  | .putarray =>
    match args with
    | [.word n, .addr r o] => do
        return (none, s.record "putarray" (n :: (← s.loadWords r o n.toInt.toNat)))
    | _ => none
  | .starttime =>
    match args with
    | [] => some (none, s.record "starttime" [])
    | _ => none
  | .stoptime =>
    match args with
    | [] => some (none, s.record "stoptime" [])
    | _ => none

end Sysy.Library

namespace Sysy.Ir
open Lowering

structure Activation where
  func : FuncId
  block : BlockId
  /-- The instructions of the block that are still to be run. Behind a call that has not returned
  yet, the first one is the call. -/
  rest : List ValueId
  args : List Val
  env : ValueId → Option Val
  /-- The numbers of the locals reserved so far. -/
  locals : List Nat

inductive Config where
  | running (top : Activation) (callers : List Activation) (store : Store)
  | done (result : Option Val) (store : Store)

namespace Activation

def enter (fn : Func) (args : List Val) : Activation :=
  { func := fn.id, block := fn.entry, rest := fn.code fn.entry, args, env := fun _ => none,
    locals := [] }

def read (m : Module) (a : Activation) (id : ValueId) : Option Val := do
  match ← m.node? id with
  | .integer w => some (.word w)
  | .global _ => some (.addr (.global id) 0)
  | .arg i => a.args[i]?
  | _ => a.env id

def word? (m : Module) (a : Activation) (id : ValueId) : Option Word :=
  match a.read m id with
  | some (.word w) => some w
  | _ => none

def addr? (m : Module) (a : Activation) (id : ValueId) : Option (Region × Int) :=
  match a.read m id with
  | some (.addr r o) => some (r, o)
  | _ => none

def set (a : Activation) (id : ValueId) (v : Val) : Activation :=
  { a with env := Function.update a.env id (some v) }

def give (a : Activation) (id : ValueId) : Option Val → Activation
  | some v => a.set id v
  | none => a

def resume (a : Activation) (result : Option Val) : Activation :=
  match a.rest with
  | [] => a
  | id :: rest => { a.give id result with rest }

def goTo (m : Module) (a : Activation) (bb : BlockId) : Option Activation := do
  let fn ← m.func? a.func
  return { a with block := bb, rest := fn.code bb }

def own (a : Activation) (id : ValueId) (number : Nat) : Activation :=
  { a.set id (.addr (.local number) 0) with locals := number :: a.locals }

@[simp] theorem func_set (a : Activation) (id : ValueId) (v : Val) :
    (a.set id v).func = a.func := rfl

@[simp] theorem func_give (a : Activation) (id : ValueId) (r : Option Val) :
    (a.give id r).func = a.func := by cases r <;> rfl

@[simp] theorem block_give (a : Activation) (id : ValueId) (r : Option Val) :
    (a.give id r).block = a.block := by cases r <;> rfl

@[simp] theorem locals_give (a : Activation) (id : ValueId) (r : Option Val) :
    (a.give id r).locals = a.locals := by
  cases r <;> rfl

theorem env_give_of_ne (a : Activation) {id x : ValueId} (r : Option Val) (h : x ≠ id) :
    (a.give id r).env x = a.env x := by
  cases r with
  | none => rfl
  | some v => exact Function.update_of_ne h ..

theorem give_withRest (a : Activation) (rest : List ValueId) (id : ValueId) (r : Option Val) :
    ({ a with rest } : Activation).give id r = { a.give id r with rest } := by cases r <;> rfl

@[simp] theorem env_set_self (a : Activation) (id : ValueId) (v : Val) :
    (a.set id v).env id = some v := by
  simp [set]

theorem env_set_of_ne (a : Activation) {id id' : ValueId} (v : Val) (h : id' ≠ id) :
    (a.set id v).env id' = a.env id' := by
  simp [set, h]

@[simp] theorem func_own (a : Activation) (id : ValueId) (n : Nat) :
    (a.own id n).func = a.func := rfl

theorem rest_self (a : Activation) {id : ValueId} {rest : List ValueId} (h : a.rest = id :: rest) :
    { a with rest := id :: rest } = a := by
  cases a
  cases h
  rfl

end Activation

/-- Reserves the locals that come next. New storage holds `fill`, by the number of the region and
the word in it. -/
def reserve (m : Module) (fill : Nat → Nat → Word) : (ids : List ValueId) → Activation → Store →
    Activation × Store
  | [], a, s => ({ a with rest := [] }, s)
  | id :: ids, a, s =>
    if m.node? id = some .alloc then
      reserve m fill ids (a.own id s.next)
        (s.reserve ((List.range ((m.tyOf id).elem.size / 4).toNat).map fun i =>
          .word (fill s.next i)))
    else ({ a with rest := id :: ids }, s)

def exec (m : Module) (lib : Library) (id : ValueId) (a : Activation) (callers : List Activation)
    (s : Store) :
    Node → Option Config
  | .load src => do
    let (r, o) ← a.addr? m src
    return .running (a.set id (← s.load r o)) callers s
  | .store val dest => do
    let v ← a.read m val
    let (r, o) ← a.addr? m dest
    return .running a callers (← s.store r o v)
  | .getPtr src index => do
    let (r, o) ← a.addr? m src
    let i ← a.word? m index
    return .running (a.set id (.addr r (o + i.toInt * (m.tyOf src).elem.size))) callers s
  | .getElemPtr src index => do
    let (r, o) ← a.addr? m src
    let i ← a.word? m index
    return .running (a.set id (.addr r (o + i.toInt * (m.tyOf src).elem.elem.size))) callers s
  | .binary op lhs rhs => do
    let x ← a.word? m lhs
    let y ← a.word? m rhs
    return .running (a.set id (.word (← op.eval? x y))) callers s
  | .jump target => do return .running (← a.goTo m target) callers s
  | .branch cond yes no => do
    let w ← a.word? m cond
    return .running (← a.goTo m (if w = 0 then no else yes)) callers s
  | .call g args => do
    let vs ← args.mapM (a.read m)
    let fn ← m.func? g
    if fn.isDeclared then
      let (result, s) ← lib.serve s (← Service.ofName? fn.name) vs
      return .running (a.give id result) callers s
    else return .running (.enter fn vs) ({ a with rest := id :: a.rest } :: callers) s
  | .ret val => do
    let result ← val.mapM (a.read m)
    match callers with
    | [] => return .done result (s.free a.locals)
    | c :: outer => return .running (c.resume result) outer (s.free a.locals)
  | _ => none

def step (m : Module) (lib : Library) (fill : Nat → Nat → Word) : Config → Option Config
  | .running a callers s =>
    let (a, s) := reserve m fill a.rest a s
    match a.rest with
    | [] => none
    | id :: rest => do exec m lib id { a with rest } callers s (← m.node? id)
  | .done _ _ => none

def runs (m : Module) (lib : Library) (fill : Nat → Nat → Word) :
    (count : Nat) → Config → Option Config
  | 0, c => some c
  | n + 1, c => do step m lib fill (← runs m lib fill n c)

def initWords (m : Module) : (depth : Nat) → ValueId → List Word
  | 0, _ => []
  | depth + 1, id =>
    match m.value? id with
    | none => []
    | some v =>
      match v.node with
      | .integer w => [w]
      | .zeroInit => List.replicate (v.ty.size / 4).toNat 0
      | .aggregate es => es.flatMap (initWords m depth)
      | _ => []

def globalWords (m : Module) (id : ValueId) : List Word :=
  match m.node? id with
  | some (.global init) => initWords m (m.values.size + 1) init
  | _ => []

def Store.start (m : Module) : Store where
  mem
    | .global id => if id ∈ m.globals then some ((globalWords m id).map .word) else none
    | .local _ => none

def start (m : Module) : Option Config := do
  let fn ← m.funcNamed? "main"
  return .running (.enter fn []) [] (.start m)

/-! What a step that is not stuck has done. -/

theorem Store.load_cases {s : Store} {r : Region} {o : Int} {y : Val} (h : s.load r o = some y) :
    ∃ cells, ∃ i : Nat, s.mem r = some cells ∧ o = 4 * i ∧ cells[i]? = some y := by
  obtain ⟨cells, hcells, h⟩ := Option.bind_eq_some_iff.mp h
  split at h
  · exact ⟨cells, _, hcells, by omega, h⟩
  · cases h

theorem Store.store_cases {s s' : Store} {r : Region} {o : Int} {y : Val}
    (h : s.store r o y = some s') :
    ∃ cells, ∃ i : Nat, s.mem r = some cells ∧ o = 4 * i ∧ i < cells.length ∧
      s' = { s with mem := Function.update s.mem r (some (cells.set i y)) } := by
  obtain ⟨cells, hcells, h⟩ := Option.bind_eq_some_iff.mp h
  split at h
  · exact ⟨cells, _, hcells, by omega, by omega, (Option.some.inj h).symm⟩
  · cases h

theorem Store.mem_free {s : Store} {locals : List Nat} {r : Region} {cells : List Val}
    (h : (s.free locals).mem r = some cells) :
    s.mem r = some cells := by
  cases r with
  | global => exact h
  | «local» k =>
    dsimp only [Store.free] at h
    split at h
    · cases h
    · exact h

theorem Activation.word?_eq_some {m : Module} {a : Activation} {id : ValueId} {w : Word} :
    a.word? m id = some w ↔ a.read m id = some (.word w) := by
  rw [word?]
  split <;> simp_all

theorem Activation.addr?_eq_some {m : Module} {a : Activation} {id : ValueId} {r : Region}
    {o : Int} : a.addr? m id = some (r, o) ↔ a.read m id = some (.addr r o) := by
  rw [addr?]
  split <;> simp_all

inductive Served (lib : Library) (s : Store) : Service → List Val → Option Val → Store → Prop
  | number {k : Service} {w : Word}
      (hread : k = .getint ∧ lib.getint s.trace = some w ∨ k = .getch ∧
        lib.getch s.trace = some w) :
      Served lib s k [] (some (.word w)) (s.record k.name [])
  | array {r : Region} {o : Int} {ws : List Word} {s₁ : Store}
      (hread : lib.getarray s.trace = some ws)
      (hstore : s.storeWords r o ws = some s₁) :
      Served lib s .getarray [.addr r o] (some (.word (BitVec.ofNat 32 ws.length)))
        (s₁.record "getarray" [])
  | put {k : Service} {w : Word} (hk : k = .putint ∨ k = .putch) : Served lib s k [.word w] none
      (s.record k.name [w])
  | putArray {n : Word} {r : Region} {o : Int} {ws : List Word}
      (hload : s.loadWords r o n.toInt.toNat = some ws) :
      Served lib s .putarray [.word n, .addr r o] none (s.record "putarray" (n :: ws))
  | clock {k : Service} (hk : k = .starttime ∨ k = .stoptime) : Served lib s k [] none
      (s.record k.name [])

theorem served_of_serve {lib : Library} {s s' : Store} {k : Service} {vs : List Val}
    {result : Option Val} (h : lib.serve s k vs = some (result, s')) :
    Served lib s k vs result s' := by
  cases k with
  | getint =>
    dsimp only [Library.serve] at h
    split at h
    · obtain ⟨w, hw, h⟩ := Option.bind_eq_some_iff.mp h
      cases h
      exact .number (.inl ⟨rfl, hw⟩)
    · cases h
  | getch =>
    dsimp only [Library.serve] at h
    split at h
    · obtain ⟨w, hw, h⟩ := Option.bind_eq_some_iff.mp h
      cases h
      exact .number (.inr ⟨rfl, hw⟩)
    · cases h
  | getarray =>
    dsimp only [Library.serve] at h
    split at h
    · obtain ⟨ws, hws, h⟩ := Option.bind_eq_some_iff.mp h
      obtain ⟨s₁, hs₁, h⟩ := Option.bind_eq_some_iff.mp h
      cases h
      exact .array hws hs₁
    · cases h
  | putarray =>
    dsimp only [Library.serve] at h
    split at h
    · obtain ⟨ws, hws, h⟩ := Option.bind_eq_some_iff.mp h
      cases h
      exact .putArray hws
    · cases h
  | putint | putch =>
    dsimp only [Library.serve] at h
    split at h <;> cases h
    exact .put (by simp)
  | starttime | stoptime =>
    dsimp only [Library.serve] at h
    split at h <;> cases h
    exact .clock (by simp)

section
variable {m : Module} {lib : Library} {id src dest val index lhs rhs cond : ValueId}
  {a : Activation}
  {callers : List Activation} {s : Store} {cfg : Config} {op : Arith}

theorem exec_load (h : exec m lib id a callers s (.load src) = some cfg) : ∃ r o y,
    a.read m src = some (.addr r o) ∧ s.load r o = some y ∧
    cfg = .running (a.set id y) callers s := by
  obtain ⟨⟨r, o⟩, haddr, h⟩ := Option.bind_eq_some_iff.mp h
  obtain ⟨y, hy, h⟩ := Option.bind_eq_some_iff.mp h
  exact ⟨r, o, y, Activation.addr?_eq_some.mp haddr, hy, (Option.some.inj h).symm⟩

theorem exec_store (h : exec m lib id a callers s (.store val dest) = some cfg) : ∃ r o y s',
    a.read m val = some y ∧ a.read m dest = some (.addr r o) ∧ s.store r o y = some s' ∧
      cfg = .running a callers s' := by
  obtain ⟨y, hy, h⟩ := Option.bind_eq_some_iff.mp h
  obtain ⟨⟨r, o⟩, haddr, h⟩ := Option.bind_eq_some_iff.mp h
  obtain ⟨s', hs, h⟩ := Option.bind_eq_some_iff.mp h
  exact ⟨r, o, y, s', hy, Activation.addr?_eq_some.mp haddr, hs, (Option.some.inj h).symm⟩

theorem exec_stride (d : Stride) (h : exec m lib id a callers s (d.node src index) = some cfg) :
    ∃ r o i,
    a.read m src = some (.addr r o) ∧ a.read m index = some (.word i) ∧
      cfg = .running (a.set id (.addr r (o + i.toInt * d.size m src))) callers s := by
  cases d
  all_goals
    obtain ⟨⟨r, o⟩, haddr, h⟩ := Option.bind_eq_some_iff.mp h
    obtain ⟨i, hi, h⟩ := Option.bind_eq_some_iff.mp h
    exact ⟨r, o, i, Activation.addr?_eq_some.mp haddr, Activation.word?_eq_some.mp hi,
      (Option.some.inj h).symm⟩

theorem exec_binary (h : exec m lib id a callers s (.binary op lhs rhs) = some cfg) : ∃ x y z,
    a.read m lhs = some (.word x) ∧ a.read m rhs = some (.word y) ∧ op.eval? x y = some z ∧
      cfg = .running (a.set id (.word z)) callers s := by
  obtain ⟨x, hx, h⟩ := Option.bind_eq_some_iff.mp h
  obtain ⟨y, hy, h⟩ := Option.bind_eq_some_iff.mp h
  obtain ⟨z, hz, h⟩ := Option.bind_eq_some_iff.mp h
  exact ⟨x, y, z, Activation.word?_eq_some.mp hx, Activation.word?_eq_some.mp hy, hz,
    (Option.some.inj h).symm⟩

theorem goTo_cases {a' : Activation} {bb : BlockId} (h : a.goTo m bb = some a') : ∃ fn,
    m.func? a.func = some fn ∧ a' = { a with block := bb, rest := fn.code bb } := by
  obtain ⟨fn, hfn, h⟩ := Option.bind_eq_some_iff.mp h
  exact ⟨fn, hfn, (Option.some.inj h).symm⟩

theorem exec_jump {target : BlockId} (h : exec m lib id a callers s (.jump target) = some cfg) :
    ∃ fn,
    m.func? a.func = some fn ∧ cfg = .running { a with block := target, rest := fn.code target }
      callers s := by
  obtain ⟨a', ha', h⟩ := Option.bind_eq_some_iff.mp h
  obtain ⟨fn, hfn, rfl⟩ := goTo_cases ha'
  exact ⟨fn, hfn, (Option.some.inj h).symm⟩

theorem exec_branch {yes no : BlockId}
    (h : exec m lib id a callers s (.branch cond yes no) = some cfg) :
    ∃ w fn, a.read m cond = some (.word w) ∧ m.func? a.func = some fn ∧
      cfg = .running { a with block := if w = 0 then no else yes,
                              rest := fn.code (if w = 0 then no else yes) }
        callers s := by
  obtain ⟨w, hw, h⟩ := Option.bind_eq_some_iff.mp h
  obtain ⟨a', ha', h⟩ := Option.bind_eq_some_iff.mp h
  obtain ⟨fn, hfn, rfl⟩ := goTo_cases ha'
  exact ⟨w, fn, Activation.word?_eq_some.mp hw, hfn, (Option.some.inj h).symm⟩

theorem exec_call {g : FuncId} {args : List ValueId}
    (h : exec m lib id a callers s (.call g args) = some cfg) :
    ∃ vs fn, args.mapM (a.read m) = some vs ∧ m.func? g = some fn ∧
      ((fn.isDeclared = true ∧ ∃ k result s', Service.ofName? fn.name = some k ∧
          lib.serve s k vs = some (result, s') ∧ cfg = .running (a.give id result) callers s') ∨
        fn.isDeclared = false ∧
          cfg = .running (.enter fn vs) ({ a with rest := id :: a.rest } :: callers) s) := by
  obtain ⟨vs, hvs, h⟩ := Option.bind_eq_some_iff.mp h
  obtain ⟨fn, hfn, h⟩ := Option.bind_eq_some_iff.mp h
  refine ⟨vs, fn, hvs, hfn, ?_⟩
  split at h
  · obtain ⟨k, hk, h⟩ := Option.bind_eq_some_iff.mp h
    obtain ⟨⟨result, s'⟩, hserve, h⟩ := Option.bind_eq_some_iff.mp h
    exact .inl ⟨‹_›, k, result, s', hk, hserve, (Option.some.inj h).symm⟩
  · rename_i hdecl
    exact .inr ⟨by simpa using hdecl, (Option.some.inj h).symm⟩

theorem exec_ret {val : Option ValueId} (h : exec m lib id a callers s (.ret val) = some cfg) :
    ∃ result,
    val.mapM (a.read m) = some result ∧
      (callers = [] ∧ cfg = .done result (s.free a.locals) ∨
        ∃ c outer, callers = c :: outer ∧ cfg = .running (c.resume result) outer
          (s.free a.locals)) := by
  obtain ⟨result, hresult, h⟩ := Option.bind_eq_some_iff.mp h
  refine ⟨result, hresult, ?_⟩
  cases callers with
  | nil => exact .inl ⟨rfl, (Option.some.inj h).symm⟩
  | cons c outer => exact .inr ⟨c, outer, rfl, (Option.some.inj h).symm⟩

end

end Sysy.Ir
