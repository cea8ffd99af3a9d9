import Sysy.Lowering.Shape
import Sysy.Proofs.Ir.Execution

/-!
The meaning of a program, given by evaluating its tree. Names are looked up in the scope where they
stand, and every declaration that is passed makes a new object. Evaluation goes on for as long as
there is fuel; it has no result if a word is read that was never written, if an access leaves its
object, if a division has no quotient, or if a number is needed where there is none.
-/

namespace Sysy.Meaning
open Lowering

abbrev Cell := Option Word

/-- What evaluation changes: the objects made so far, and the calls of the library, the latest
first. -/
structure Memory where
  objects : List (List Cell) := []
  trace : List Event := []
  deriving DecidableEq, Repr

namespace Memory

def read (σ : Memory) (o : Nat) (i : Int) : Option Word := do
  let cells ← σ.objects[o]?
  if 0 ≤ i then cells[i.toNat]?.join else none

def write (σ : Memory) (o : Nat) (i : Int) (w : Word) : Option Memory := do
  let cells ← σ.objects[o]?
  if 0 ≤ i ∧ i.toNat < cells.length then
    some { σ with objects := σ.objects.set o (cells.set i.toNat (some w)) }
  else none

def readWords (σ : Memory) (o : Nat) : (i : Int) → (count : Nat) → Option (List Word)
  | _, 0 => some []
  | i, n + 1 => do
    let w ← σ.read o i
    let ws ← σ.readWords o (i + 1) n
    return w :: ws

def writeWords (o : Nat) : (i : Int) → List Word → Memory → Option Memory
  | _, [], σ => some σ
  | i, w :: ws, σ => do writeWords o (i + 1) ws (← σ.write o i w)

def record (σ : Memory) (name : String) (args : List Word) : Memory :=
  { σ with trace := ⟨name, args⟩ :: σ.trace }

end Memory

/-- A place in an object, and the dimensions of what begins there; a number has none. An index may
leave a row, as long as the access stays in the object. -/
structure Location where
  object : Nat
  /-- The distance from the start of the object, in words. -/
  offset : Int := 0
  dims : List Nat
  deriving DecidableEq, Repr

def Location.elem (l : Location) (i : Word) : Location :=
  { object := l.object, offset := l.offset + i.toInt * product l.dims.tail, dims := l.dims.tail }

inductive Referent where
  | const (value : Word)
  | object (l : Location)
  | func (d : FuncDef)
  | service (k : Service)

abbrev Env := String → Option Referent

def Env.bind (env : Env) (name : String) (r : Referent) : Env := Function.update env name (some r)

inductive Value where
  | nothing
  | number (w : Word)
  /-- An array is passed by its place. -/
  | array (l : Location)
  deriving DecidableEq, Repr

inductive Outcome where
  | normal
  | leave
  | next
  | ret (value : Option Word)
  deriving DecidableEq, Repr

abbrev Run := StateT Memory Option

def new (cells : List Cell) : Run Nat :=
  fun σ => some (σ.objects.length, { σ with objects := σ.objects ++ [cells] })

def fetch (l : Location) : Run Word := fun σ => (σ.read l.object l.offset).map (·, σ)

def assign (l : Location) (w : Word) : Run Unit :=
  fun σ => (σ.write l.object l.offset w).map ((), ·)

def serve (lib : Library) (k : Service) (vs : List Value) : Run Value := fun σ =>
  match k, vs with
  | .getint, [] => do return (.number (← lib.getint σ.trace), σ.record "getint" [])
  | .getch, [] => do return (.number (← lib.getch σ.trace), σ.record "getch" [])
  | .getarray, [.array l] => do
    let ws ← lib.getarray σ.trace
    let σ ← σ.writeWords l.object l.offset ws
    return (.number (BitVec.ofNat 32 ws.length), σ.record "getarray" [])
  | .putint, [.number w] => some (.nothing, σ.record "putint" [w])
  | .putch, [.number w] => some (.nothing, σ.record "putch" [w])
  | .putarray, [.number n, .array l] => do
    let ws ← σ.readWords l.object l.offset n.toInt.toNat
    return (.nothing, σ.record "putarray" (n :: ws))
  | .starttime, [] => some (.nothing, σ.record "starttime" [])
  | .stoptime, [] => some (.nothing, σ.record "stoptime" [])
  | _, _ => none

def number (ev : Expr → Run Value) (e : Expr) : Run Word := do
  match ← ev e with
  | .number w => return w
  | _ => failure

def argument (ev : Expr → Run Value) (e : Expr) : Run Value := do
  match ← ev e with
  | .nothing => failure
  | v => return v

section
variable (ev : Expr → Run Word)

def walk : Location → List Expr → Run Location
  | l, [] => return l
  | l, e :: es => if l.dims = [] then failure else do walk (l.elem (← ev e)) es

def shape : List Expr → Run (List Nat)
  | [] => return []
  | e :: es => do
    let n := (← ev e).toInt
    if 0 < n then
      let rest ← shape es
      return n.toNat :: rest
    else failure

def cellWord : Option Expr → Run Word
  | none => return 0
  | some e => ev e

def arrayCells (blank : Cell) (dims : List Nat) : Option Init → Run (List Cell)
  | none => return List.replicate (product dims) blank
  | some i =>
    match flatten dims i with
    | .error _ => failure
    | .ok cells => do
      let ws ← cells.toList.mapM (cellWord ev)
      return ws.map some

def initCell (blank : Cell) : Option Init → Run Cell
  | none => return blank
  | some (.expr e) => return some (← ev e)
  | some (.list _ _) => failure

def declare (isConst : Bool) (blank : Cell) (env : Env) (d : VarDef) : Run Env := do
  if d.dims.isEmpty then
    if isConst then
      match d.init with
      | some (.expr e) => return env.bind d.name (.const (← ev e))
      | _ => failure
    else
      let c ← initCell ev blank d.init
      return env.bind d.name (.object { object := ← new [c], dims := [] })
  else
    let dims ← shape ev d.dims
    let cells ← arrayCells ev blank dims d.init
    return env.bind d.name (.object { object := ← new cells, dims })

def paramReferent (p : Param) (v : Value) : Run Referent := do
  match p.dims, v with
  | none, .number w => return .object { object := ← new [some w], dims := [] }
  | some es, .array l =>
    let ds ← shape ev es
    return .object { l with dims := 0 :: ds }
  | _, _ => failure

def bindParams (env : Env) : List Param → List Value → Run Env
  | [], [] => return env
  | p :: ps, v :: vs => do
    let r ← paramReferent ev p v
    bindParams (env.bind p.name r) ps vs
  | _, _ => failure

end

def declareAll (ev : Env → Expr → Run Word) (isConst : Bool) (blank : Cell) (env : Env) :
    List VarDef → Run Env
  | [] => return env
  | d :: ds => do
    let env ← declare (ev env) isConst blank env d
    declareAll ev isConst blank env ds

mutual

def eval (lib : Library) (globals : Env) : (fuel : Nat) → Env → Expr → Run Value
  | 0, _, _ => failure
  | _ + 1, _, .lit _ w => return .number w
  | n + 1, env, .lval _ name indices =>
    match env name with
    | some (.const w) => if indices.isEmpty then return .number w else failure
    | some (.object l) => do
      let l ← walk (number (eval lib globals n env)) l indices
      if l.dims.isEmpty then return .number (← fetch l) else return .array l
    | _ => failure
  | n + 1, env, .unary _ op e => do
    let x ← number (eval lib globals n env) e
    return .number (op.apply x)
  | n + 1, env, .binary _ op l r => do
    let x ← number (eval lib globals n env) l
    match op.shortcut? x with
    | some w => return .number w
    | none =>
      let y ← number (eval lib globals n env) r
      match op.onWords? x y with
      | some w => return .number w
      | none => failure
  | n + 1, env, .call _ name args =>
    match env name with
    | some (.func d) => do
      let vs ← args.mapM (argument (eval lib globals n env))
      match ← call lib globals n d vs with
      | some w => return .number w
      | none => return .nothing
    | some (.service k) => do
      let vs ← args.mapM (argument (eval lib globals n env))
      serve lib k vs
    | _ => failure

def call (lib : Library) (globals : Env) : (fuel : Nat) → FuncDef → List Value → Run (Option Word)
  | 0, _, _ => failure
  | n + 1, d, vs => do
    let env ← bindParams (number (eval lib globals n globals)) globals d.params vs
    match ← execAll lib globals n env d.body with
    | .normal => return none
    | .ret w => return w
    | _ => failure

def exec (lib : Library) (globals : Env) : (fuel : Nat) → Env → Stmt → Run (Env × Outcome)
  | 0, _, _ => failure
  | n + 1, env, .block _ ss => do
    let out ← execAll lib globals n env ss
    return (env, out)
  | n + 1, env, .decl _ d => do
    let env ← declareAll (fun env => number (eval lib globals n env)) d.isConst none env d.defs
    return (env, .normal)
  | n + 1, env, .assign _ _ name indices value =>
    match env name with
    | some (.object l) => do
      let l ← walk (number (eval lib globals n env)) l indices
      let w ← number (eval lib globals n env) value
      if l.dims.isEmpty then
        assign l w
        return (env, .normal)
      else failure
    | _ => failure
  | _ + 1, env, .expr _ none => return (env, .normal)
  | n + 1, env, .expr _ (some e) => do
    let _ ← eval lib globals n env e
    return (env, .normal)
  | n + 1, env, .cond _ test yes no => do
    let c ← number (eval lib globals n env) test
    if c = 0 then
      match no with
      | none => return (env, .normal)
      | some s =>
        let (_, out) ← exec lib globals n env s
        return (env, out)
    else
      let (_, out) ← exec lib globals n env yes
      return (env, out)
  | n + 1, env, .loop _ test body => do
    let out ← iterate lib globals n env test body
    return (env, out)
  | _ + 1, env, .leave _ => return (env, .leave)
  | _ + 1, env, .next _ => return (env, .next)
  | _ + 1, env, .ret _ none => return (env, .ret none)
  | n + 1, env, .ret _ (some e) => do
    let w ← number (eval lib globals n env) e
    return (env, .ret (some w))

/-- Runs statements up to the first one that does not end normally. -/
def execAll (lib : Library) (globals : Env) : (fuel : Nat) → Env → List Stmt → Run Outcome
  | 0, _, _ => failure
  | _ + 1, _, [] => return .normal
  | n + 1, env, s :: ss => do
    match ← exec lib globals n env s with
    | (env, .normal) => execAll lib globals n env ss
    | (_, out) => return out

def iterate (lib : Library) (globals : Env) :
    (fuel : Nat) → Env → (test : Expr) → (body : Stmt) → Run Outcome
  | 0, _, _, _ => failure
  | n + 1, env, test, body => do
    let c ← number (eval lib globals n env) test
    if c = 0 then return .normal
    else
      let (_, out) ← exec lib globals n env body
      match out with
      | .normal | .next => iterate lib globals n env test body
      | .leave => return .normal
      | .ret w => return .ret w

end

def library : Env := fun name => (Service.ofName? name).map .service

/-- Declares the items of a program one after the other. Globals without an initialiser are zero. -/
def declareItems (lib : Library) (n : Nat) (env : Env) : List Item → Run Env
  | [] => return env
  | .decl _ d :: is => do
    let env ← declareAll (fun env => number (eval lib env n env)) d.isConst (some 0) env d.defs
    declareItems lib n env is
  | .func _ d :: is => declareItems lib n (env.bind d.name (.func d)) is

def isDecl : Stmt → Bool
  | .decl _ _ => true
  | _ => false

mutual

/-- Whether no branch of a condition and no body of a loop is a declaration that stands by
itself. -/
def isPlain : Stmt → Bool
  | .block _ ss => arePlain ss
  | .cond _ _ yes none => !isDecl yes && isPlain yes
  | .cond _ _ yes (some no) => !isDecl yes && isPlain yes && !isDecl no && isPlain no
  | .loop _ _ body => !isDecl body && isPlain body
  | _ => true

def arePlain : List Stmt → Bool
  | [] => true
  | s :: ss => isPlain s && arePlain ss

end

/-! What evaluation has done when it has a result. -/

section
variable {α β : Type} {σ σ' : Memory}

theorem bind_some {x : Run α} {k : α → Run β} {b : β} :
    (x >>= k) σ = some (b, σ') ↔ ∃ a σ₁, x σ = some (a, σ₁) ∧ k a σ₁ = some (b, σ') := by
  change (x σ).bind (fun p => k p.1 p.2) = some (b, σ') ↔ _
  rw [Option.bind_eq_some_iff, Prod.exists]

theorem pure_some {a b : α} : (pure a : Run α) σ = some (b, σ') ↔ a = b ∧ σ = σ' := by
  change some (a, σ) = some (b, σ') ↔ _
  rw [Option.some.injEq, Prod.mk.injEq]

theorem failure_some {b : α} : (failure : Run α) σ = some (b, σ') ↔ False := by
  change none = some (b, σ') ↔ False
  simp

theorem number_some {ev : Expr → Run Value} {e : Expr} {w : Word} :
    number ev e σ = some (w, σ') ↔ ev e σ = some (.number w, σ') := by
  rw [number, bind_some]
  constructor
  · rintro ⟨v, σ₁, hv, h⟩
    cases v with
    | number w' =>
      obtain ⟨rfl, rfl⟩ := pure_some.mp h
      exact hv
    | nothing => exact (failure_some.mp h).elim
    | array l => exact (failure_some.mp h).elim
  · exact fun h => ⟨_, _, h, rfl⟩

theorem argument_some {ev : Expr → Run Value} {e : Expr} {v : Value} :
    argument ev e σ = some (v, σ') ↔ ev e σ = some (v, σ') ∧ v ≠ .nothing := by
  rw [argument, bind_some]
  constructor
  · rintro ⟨x, σ₁, hx, h⟩
    cases x with
    | nothing => exact (failure_some.mp h).elim
    | number w =>
      obtain ⟨rfl, rfl⟩ := pure_some.mp h
      exact ⟨hx, by simp⟩
    | array l =>
      obtain ⟨rfl, rfl⟩ := pure_some.mp h
      exact ⟨hx, by simp⟩
  · rintro ⟨h, hv⟩
    refine ⟨v, σ', h, ?_⟩
    cases v with
    | nothing => exact absurd rfl hv
    | number w => rfl
    | array l => rfl

theorem fetch_some {l : Location} {w : Word} :
    fetch l σ = some (w, σ') ↔ σ.read l.object l.offset = some w ∧ σ' = σ := by
  simp [fetch, eq_comm]

theorem assign_some {l : Location} {w : Word} {u : Unit} :
    assign l w σ = some (u, σ') ↔ σ.write l.object l.offset w = some σ' := by
  simp [assign]

theorem new_some {cells : List Cell} {o : Nat} :
    new cells σ = some (o, σ') ↔ o = σ.objects.length ∧
    σ' = { σ with objects := σ.objects ++ [cells] } := by
  simp [new, eq_comm]

inductive Served (lib : Library) (σ : Memory) : Service → List Value → Value → Memory → Prop
  | number {k : Service} {w : Word}
      (hread : k = .getint ∧ lib.getint σ.trace = some w ∨ k = .getch ∧
        lib.getch σ.trace = some w) :
      Served lib σ k [] (.number w) (σ.record k.name [])
  | array {l : Location} {ws : List Word} {σ₁ : Memory} (hread : lib.getarray σ.trace = some ws)
      (hwrite : σ.writeWords l.object l.offset ws = some σ₁) :
      Served lib σ .getarray [.array l] (.number (BitVec.ofNat 32 ws.length))
        (σ₁.record "getarray" [])
  | put {k : Service} {w : Word} (hk : k = .putint ∨ k = .putch) :
      Served lib σ k [.number w] .nothing (σ.record k.name [w])
  | putArray {n : Word} {l : Location} {ws : List Word}
      (hread : σ.readWords l.object l.offset n.toInt.toNat = some ws) :
      Served lib σ .putarray [.number n, .array l] .nothing (σ.record "putarray" (n :: ws))
  | clock {k : Service} (hk : k = .starttime ∨ k = .stoptime) : Served lib σ k [] .nothing
      (σ.record k.name [])

theorem served_of_serve {lib : Library} {k : Service} {vs : List Value} {v : Value}
    (h : serve lib k vs σ = some (v, σ')) : Served lib σ k vs v σ' := by
  -- what is passed must be what the function takes
  cases k with
  | getint =>
    cases vs with
    | cons => cases h
    | nil =>
      obtain ⟨w, hw, h⟩ := Option.bind_eq_some_iff.mp h
      cases h
      exact .number (.inl ⟨rfl, hw⟩)
  | getch =>
    cases vs with
    | cons => cases h
    | nil =>
      obtain ⟨w, hw, h⟩ := Option.bind_eq_some_iff.mp h
      cases h
      exact .number (.inr ⟨rfl, hw⟩)
  | getarray =>
    obtain _ | ⟨_ | _ | l, _ | _⟩ := vs
    any_goals cases h
    obtain ⟨ws, hws, h⟩ := Option.bind_eq_some_iff.mp h
    obtain ⟨σ₁, hwrite, h⟩ := Option.bind_eq_some_iff.mp h
    cases h
    exact .array hws hwrite
  | putarray =>
    obtain _ | ⟨_ | n | _, _ | ⟨_ | _ | l, _ | _⟩⟩ := vs
    any_goals cases h
    obtain ⟨ws, hws, h⟩ := Option.bind_eq_some_iff.mp h
    cases h
    exact .putArray hws
  | putint | putch =>
    obtain _ | ⟨_ | w | _, _ | _⟩ := vs
    all_goals cases h
    exact .put (by simp)
  | starttime | stoptime =>
    cases vs <;> cases h
    exact .clock (by simp)

theorem declared_some {cells : List Cell} {env env' : Env} {name : String} {dims : List Nat} :
    (do return env.bind name (.object { object := ← new cells, dims }) : Run Env) σ =
      some (env', σ') ↔
      env' = env.bind name (.object { object := σ.objects.length, dims }) ∧
        σ' = { σ with objects := σ.objects ++ [cells] } := by
  rw [bind_some]
  constructor
  · rintro ⟨o, σ₁, hnew, hpure⟩
    obtain ⟨rfl, rfl⟩ := new_some.mp hnew
    obtain ⟨rfl, rfl⟩ := pure_some.mp hpure
    exact ⟨rfl, rfl⟩
  · rintro ⟨rfl, rfl⟩
    exact ⟨_, _, rfl, rfl⟩

theorem declare_cases {ev : Expr → Run Word} {isConst : Bool} {blank : Cell} {env env' : Env}
    {d : VarDef} (h : declare ev isConst blank env d σ = some (env', σ')) :
    (d.dims = [] ∧ isConst = true ∧ ∃ e w, d.init = some (.expr e) ∧ ev e σ = some (w, σ') ∧
        env' = env.bind d.name (.const w)) ∨
      ((d.dims = [] → isConst = false) ∧ ∃ dims cells σ₁, (if d.dims = [] then
          dims = [] ∧ ∃ c, initCell ev blank d.init σ = some (c, σ₁) ∧ cells = [c]
        else ∃ σ₀, shape ev d.dims σ = some (dims, σ₀) ∧ arrayCells ev blank dims d.init σ₀ =
          some (cells, σ₁)) ∧
        env' = env.bind d.name (.object { object := σ₁.objects.length, dims }) ∧
        σ' = { σ₁ with objects := σ₁.objects ++ [cells] }) := by
  rw [declare] at h
  cases hdims : d.dims with
  | cons e es =>
    rw [hdims] at h
    obtain ⟨dims, σ₀, hshape, h⟩ := bind_some.mp h
    obtain ⟨cells, σ₁, hcells, h⟩ := bind_some.mp h
    exact .inr ⟨by simp, dims, cells, σ₁, ⟨σ₀, hshape, hcells⟩, declared_some.mp h⟩
  | nil =>
    rw [hdims] at h
    cases isConst with
    | false =>
      obtain ⟨c, σ₁, hc, h⟩ := bind_some.mp h
      exact .inr ⟨fun _ => rfl, [], [c], σ₁, ⟨rfl, c, hc, rfl⟩, declared_some.mp h⟩
    | true =>
      cases hinit : d.init with
      | none =>
        rw [hinit] at h
        exact (failure_some.mp h).elim
      | some i =>
        rw [hinit] at h
        cases i with
        | list span elems => exact (failure_some.mp h).elim
        | expr e =>
          obtain ⟨w, σ₁, hw, h⟩ := bind_some.mp h
          obtain ⟨rfl, rfl⟩ := pure_some.mp h
          exact .inl ⟨rfl, rfl, e, w, rfl, hw, rfl⟩

theorem walk_cons {ev : Expr → Run Word} {e : Expr} {es : List Expr} {l l' : Location} :
    walk ev l (e :: es) σ = some (l', σ') ↔
      l.dims ≠ [] ∧ ∃ i σ₁, ev e σ = some (i, σ₁) ∧ walk ev (l.elem i) es σ₁ = some (l', σ') := by
  rw [walk]
  split <;> simp [failure_some, bind_some, *]

variable {lib : Library} {globals env : Env} {n : Nat} {span : Span} {v : Value}

-- the equations of the evaluator are made here, once, and not by each of the lemmas that open it
attribute [local simp] eval call exec iterate execAll

theorem eval_lval {name : String} {indices : List Expr}
    (h : eval lib globals (n + 1) env (.lval span name indices) σ = some (v, σ')) :
    (∃ w, env name = some (.const w) ∧ indices = [] ∧ v = .number w ∧ σ' = σ) ∨
      ∃ l l', env name = some (.object l) ∧ walk (number (eval lib globals n env)) l indices σ =
        some (l', σ') ∧
        if l'.dims = [] then ∃ w, σ'.read l'.object l'.offset = some w ∧ v = .number w else v =
          .array l' := by
  rw [eval] at h
  cases hname : env name with
  | none =>
    rw [hname] at h
    exact (failure_some.mp h).elim
  | some r =>
    rw [hname] at h
    cases r with
    | func d | service k => exact (failure_some.mp h).elim
    | const w =>
      cases indices with
      | nil =>
        obtain ⟨rfl, rfl⟩ := pure_some.mp h
        exact .inl ⟨w, rfl, rfl, rfl, rfl⟩
      | cons => exact (failure_some.mp h).elim
    | object l =>
      obtain ⟨l', σ₁, hwalk, h⟩ := bind_some.mp h
      refine .inr ⟨l, l', rfl, ?_⟩
      cases hdims : l'.dims with
      | nil =>
        rw [hdims] at h
        obtain ⟨w, σ₂, hfetch, hpure⟩ := bind_some.mp h
        obtain ⟨hread, rfl⟩ := fetch_some.mp hfetch
        obtain ⟨rfl, rfl⟩ := pure_some.mp hpure
        exact ⟨hwalk, w, hread, rfl⟩
      | cons d ds =>
        rw [hdims] at h
        obtain ⟨rfl, rfl⟩ := pure_some.mp h
        exact ⟨hwalk, rfl⟩

theorem eval_unary {op : UnaryOp} {e : Expr}
    (h : eval lib globals (n + 1) env (.unary span op e) σ = some (v, σ')) :
    ∃ x, number (eval lib globals n env) e σ = some (x, σ') ∧ v = .number (op.apply x) := by
  rw [eval] at h
  obtain ⟨x, σ₁, hx, hpure⟩ := bind_some.mp h
  obtain ⟨rfl, rfl⟩ := pure_some.mp hpure
  exact ⟨x, hx, rfl⟩

theorem eval_binary {op : BinaryOp} {l r : Expr}
    (h : eval lib globals (n + 1) env (.binary span op l r) σ = some (v, σ')) :
    ∃ x σ₁ w, number (eval lib globals n env) l σ = some (x, σ₁) ∧ v = .number w ∧
      (op.shortcut? x = some w ∧ σ' = σ₁ ∨
        op.shortcut? x = none ∧ ∃ y, number (eval lib globals n env) r σ₁ = some (y, σ') ∧
          op.onWords? x y = some w) := by
  rw [eval] at h
  obtain ⟨x, σ₁, hx, h⟩ := bind_some.mp h
  refine ⟨x, σ₁, ?_⟩
  cases hshort : op.shortcut? x with
  | some w =>
    rw [hshort] at h
    obtain ⟨rfl, rfl⟩ := pure_some.mp h
    exact ⟨w, hx, rfl, .inl ⟨rfl, rfl⟩⟩
  | none =>
    rw [hshort] at h
    obtain ⟨y, σ₂, hy, h⟩ := bind_some.mp h
    cases hw : op.onWords? x y with
    | none =>
      rw [hw] at h
      exact (failure_some.mp h).elim
    | some w =>
      rw [hw] at h
      obtain ⟨rfl, rfl⟩ := pure_some.mp h
      exact ⟨w, hx, rfl, .inr ⟨rfl, y, hy, hw⟩⟩

theorem eval_call {name : String} {args : List Expr}
    (h : eval lib globals (n + 1) env (.call span name args) σ = some (v, σ')) :
    ∃ vs σ₁, args.mapM (argument (eval lib globals n env)) σ = some (vs, σ₁) ∧
      ((∃ d r, env name = some (.func d) ∧ call lib globals n d vs σ₁ = some (r, σ') ∧
        v = r.elim .nothing .number) ∨
        ∃ k, env name = some (.service k) ∧ serve lib k vs σ₁ = some (v, σ')) := by
  rw [eval] at h
  cases hname : env name with
  | none =>
    rw [hname] at h
    exact (failure_some.mp h).elim
  | some r =>
    rw [hname] at h
    cases r with
    | const w | object l => exact (failure_some.mp h).elim
    | service k =>
      obtain ⟨vs, σ₁, hvs, h⟩ := bind_some.mp h
      exact ⟨vs, σ₁, hvs, .inr ⟨k, rfl, h⟩⟩
    | func d =>
      obtain ⟨vs, σ₁, hvs, h⟩ := bind_some.mp h
      obtain ⟨r, σ₂, hcall, h⟩ := bind_some.mp h
      refine ⟨vs, σ₁, hvs, .inl ⟨d, r, rfl, ?_⟩⟩
      cases r with
      | none | some w =>
        obtain ⟨rfl, rfl⟩ := pure_some.mp h
        exact ⟨hcall, rfl⟩

variable {env' : Env} {out : Outcome}

theorem exec_block {ss : List Stmt}
    (h : exec lib globals (n + 1) env (.block span ss) σ = some ((env', out), σ')) :
    env' = env ∧ execAll lib globals n env ss σ = some (out, σ') := by
  rw [exec] at h
  obtain ⟨out', σ₁, hss, hpure⟩ := bind_some.mp h
  obtain ⟨heq, rfl⟩ := pure_some.mp hpure
  cases heq
  exact ⟨rfl, hss⟩

theorem exec_assign {target : Span} {name : String} {indices : List Expr} {value : Expr}
    (h : exec lib globals (n + 1) env (.assign span target name indices value) σ =
      some ((env', out), σ')) :
    env' = env ∧ out = .normal ∧ ∃ l l' w σ₁ σ₂, env name = some (.object l) ∧
      walk (number (eval lib globals n env)) l indices σ = some (l', σ₁) ∧
      number (eval lib globals n env) value σ₁ = some (w, σ₂) ∧ l'.dims = [] ∧
      σ₂.write l'.object l'.offset w = some σ' := by
  rw [exec] at h
  cases hname : env name with
  | none =>
    rw [hname] at h
    exact (failure_some.mp h).elim
  | some r =>
    rw [hname] at h
    cases r with
    | const w | func d | service k => exact (failure_some.mp h).elim
    | object l =>
      obtain ⟨l', σ₁, hwalk, h⟩ := bind_some.mp h
      obtain ⟨w, σ₂, hw, h⟩ := bind_some.mp h
      cases hdims : l'.dims with
      | cons d ds =>
        rw [hdims] at h
        exact (failure_some.mp h).elim
      | nil =>
        rw [hdims] at h
        obtain ⟨u, σ₃, hassign, hpure⟩ := bind_some.mp h
        obtain ⟨heq, rfl⟩ := pure_some.mp hpure
        cases heq
        exact ⟨rfl, rfl, l, l', w, σ₁, σ₂, rfl, hwalk, hw, hdims, assign_some.mp hassign⟩

theorem exec_cond {test : Expr} {yes : Stmt} {no : Option Stmt}
    (h : exec lib globals (n + 1) env (.cond span test yes no) σ = some ((env', out), σ')) :
    env' = env ∧ ∃ c σ₁, number (eval lib globals n env) test σ = some (c, σ₁) ∧
      (c = 0 ∧ no = none ∧ out = .normal ∧ σ' = σ₁ ∨
        c = 0 ∧ (∃ x env₁, no = some x ∧ exec lib globals n env x σ₁ = some ((env₁, out), σ')) ∨
        c ≠ 0 ∧ ∃ env₁, exec lib globals n env yes σ₁ = some ((env₁, out), σ')) := by
  rw [exec.eq_def] at h
  dsimp only at h
  obtain ⟨c, σ₁, hc, h⟩ := bind_some.mp h
  by_cases hzero : c = 0
  · rw [if_pos hzero] at h
    cases no with
    | none =>
      obtain ⟨heq, rfl⟩ := pure_some.mp h
      cases heq
      exact ⟨rfl, c, σ₁, hc, .inl ⟨hzero, rfl, rfl, rfl⟩⟩
    | some x =>
      obtain ⟨⟨env₁, out₁⟩, σ₂, hx, hpure⟩ := bind_some.mp h
      obtain ⟨heq, rfl⟩ := pure_some.mp hpure
      cases heq
      exact ⟨rfl, c, σ₁, hc, .inr (.inl ⟨hzero, x, env₁, rfl, hx⟩)⟩
  · rw [if_neg hzero] at h
    obtain ⟨⟨env₁, out₁⟩, σ₂, hyes, hpure⟩ := bind_some.mp h
    obtain ⟨heq, rfl⟩ := pure_some.mp hpure
    cases heq
    exact ⟨rfl, c, σ₁, hc, .inr (.inr ⟨hzero, env₁, hyes⟩)⟩

theorem exec_loop {test : Expr} {body : Stmt}
    (h : exec lib globals (n + 1) env (.loop span test body) σ = some ((env', out), σ')) :
    env' = env ∧ iterate lib globals n env test body σ = some (out, σ') := by
  rw [exec] at h
  obtain ⟨out', σ₁, hloop, hpure⟩ := bind_some.mp h
  obtain ⟨heq, rfl⟩ := pure_some.mp hpure
  cases heq
  exact ⟨rfl, hloop⟩

theorem exec_ret {value : Option Expr}
    (h : exec lib globals (n + 1) env (.ret span value) σ = some ((env', out), σ')) :
    env' = env ∧ match value with
      | none => out = .ret none ∧ σ' = σ
      | some e =>
        ∃ w, number (eval lib globals n env) e σ = some (w, σ') ∧ out = .ret (some w) := by
  cases value with
  | none =>
    rw [exec] at h
    obtain ⟨heq, rfl⟩ := pure_some.mp h
    cases heq
    exact ⟨rfl, rfl, rfl⟩
  | some e =>
    rw [exec] at h
    obtain ⟨w, σ₁, hw, hpure⟩ := bind_some.mp h
    obtain ⟨heq, rfl⟩ := pure_some.mp hpure
    cases heq
    exact ⟨rfl, w, hw, rfl⟩

theorem iterate_cases {test : Expr} {body : Stmt}
    (h : iterate lib globals (n + 1) env test body σ = some (out, σ')) :
    ∃ c σ₁, number (eval lib globals n env) test σ = some (c, σ₁) ∧
      (c = 0 ∧ out = .normal ∧ σ' = σ₁ ∨
        c ≠ 0 ∧ ∃ env₁ out₁ σ₂, exec lib globals n env body σ₁ = some ((env₁, out₁), σ₂) ∧
          ((out₁ = .normal ∨ out₁ = .next) ∧ iterate lib globals n env test body σ₂ =
            some (out, σ') ∨
            out₁ = .leave ∧ out = .normal ∧ σ' = σ₂ ∨ ∃ r, out₁ = .ret r ∧ out = .ret r ∧
              σ' = σ₂)) := by
  rw [iterate] at h
  obtain ⟨c, σ₁, hc, h⟩ := bind_some.mp h
  refine ⟨c, σ₁, hc, ?_⟩
  by_cases hzero : c = 0
  · rw [if_pos hzero] at h
    obtain ⟨rfl, rfl⟩ := pure_some.mp h
    exact .inl ⟨hzero, rfl, rfl⟩
  · rw [if_neg hzero] at h
    obtain ⟨⟨env₁, out₁⟩, σ₂, hbody, h⟩ := bind_some.mp h
    refine .inr ⟨hzero, env₁, out₁, σ₂, hbody, ?_⟩
    cases out₁ with
    | normal => exact .inl ⟨.inl rfl, h⟩
    | next => exact .inl ⟨.inr rfl, h⟩
    | leave =>
      obtain ⟨rfl, rfl⟩ := pure_some.mp h
      exact .inr (.inl ⟨rfl, rfl, rfl⟩)
    | ret r =>
      obtain ⟨rfl, rfl⟩ := pure_some.mp h
      exact .inr (.inr ⟨r, rfl, rfl, rfl⟩)

theorem execAll_cons {x : Stmt} {xs : List Stmt}
    (h : execAll lib globals (n + 1) env (x :: xs) σ = some (out, σ')) :
    ∃ env₁ out₁ σ₁, exec lib globals n env x σ = some ((env₁, out₁), σ₁) ∧
      (out₁ = .normal ∧ execAll lib globals n env₁ xs σ₁ = some (out, σ') ∨
        out₁ ≠ .normal ∧ out = out₁ ∧ σ' = σ₁) := by
  rw [execAll] at h
  obtain ⟨⟨env₁, out₁⟩, σ₁, hx, h⟩ := bind_some.mp h
  refine ⟨env₁, out₁, σ₁, hx, ?_⟩
  cases out₁ with
  | normal => exact .inl ⟨rfl, h⟩
  | leave | next | ret r =>
    obtain ⟨rfl, rfl⟩ := pure_some.mp h
    exact .inr ⟨by simp, rfl, rfl⟩

theorem call_some {d : FuncDef} {vs : List Value} {r : Option Word}
    (h : call lib globals (n + 1) d vs σ = some (r, σ')) : ∃ env out σ₁,
      bindParams (number (eval lib globals n globals)) globals d.params vs σ = some (env, σ₁) ∧
      execAll lib globals n env d.body σ₁ = some (out, σ') ∧
      (out = .normal ∧ r = none ∨ out = .ret r) := by
  rw [call] at h
  obtain ⟨env, σ₁, henv, h⟩ := bind_some.mp h
  obtain ⟨out, σ₂, hbody, h⟩ := bind_some.mp h
  refine ⟨env, out, σ₁, henv, ?_⟩
  cases out with
  | leave | next => exact (failure_some.mp h).elim
  | normal =>
    obtain ⟨rfl, rfl⟩ := pure_some.mp h
    exact ⟨hbody, .inl ⟨rfl, rfl⟩⟩
  | ret w =>
    obtain ⟨rfl, rfl⟩ := pure_some.mp h
    exact ⟨hbody, .inr rfl⟩

end

end Sysy.Meaning
