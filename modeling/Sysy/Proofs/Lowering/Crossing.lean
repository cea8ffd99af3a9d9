import Sysy.Proofs.Ir.Execution
import Sysy.Proofs.Lowering.Availability

/-!
Runs through code that has just been added. While a body is lowered, a run of the complete module
may stand where code is added next; when the code for a part of the body is there, the run crosses
it. For each step of lowering there is a lemma that tells how its code is crossed.
-/

namespace Sysy.Ir

theorem Extends.size_values {m m' : Module} (h : Extends m m') :
    m.values.size ≤ m'.values.size := by
  rcases Nat.eq_zero_or_pos m.values.size with hzero | hpos
  · omega
  · obtain ⟨v, hv⟩ := m.exists_value? hpos le_rfl
    exact (Module.bounds_of_value? (h.value hv)).2

def IsLocal (m : Module) (f : FuncId) (x : ValueId) : Prop :=
  ∃ v, m.value? x = some v ∧ v.node = .alloc ∧ v.func = f

theorem IsLocal.node {m : Module} {f : FuncId} {x : ValueId} (h : IsLocal m f x) :
    m.node? x = some .alloc := by
  obtain ⟨v, hv, hnode, -⟩ := h
  rw [Module.node?_eq hv, hnode]

theorem Activation.read_integer {m : Module} {id : ValueId} {w : Word}
    (h : m.node? id = some (.integer w)) (a : Activation) : a.read m id = some (.word w) := by
  simp [read, h]

theorem Activation.read_alloc {m : Module} {id : ValueId} (h : m.node? id = some .alloc)
    (a : Activation) :
    a.read m id = a.env id := by
  simp [read, h]

theorem reserve_eq_self {m : Module} {fill : Nat → Nat → Word} {a : Activation} {st : Store}
    {id : ValueId} {rest : List ValueId} {node : Node} (hrest : a.rest = id :: rest)
    (hnode : m.node? id = some node) (halloc : node ≠ .alloc) :
    reserve m fill a.rest a st = (a, st) := by
  rw [hrest, reserve, if_neg (by rw [hnode]; simpa using halloc), Activation.rest_self a hrest]

end Sysy.Ir

namespace Sysy.Lowering
open Ir

variable {t : Target} {s s' s'' : State} {P : Set Nat} {m : Module} {a a' a'' : Activation}
  {st st' st'' : Store}
  {n n' id : Nat}

theorem eq_of_build {α : Type} {x : Build α} {r r' : α} {m' : Module}
    (hrun : build x s = .ok (r, s')) (hx : x s.module = .ok (r', m')) :
    r = r' ∧ s' = { s with module := m' } := by
  obtain ⟨hmod, hscope⟩ := build_ok.mp hrun
  obtain ⟨rfl, rfl⟩ := Prod.mk.inj (Except.ok.inj (hx.symm.trans hmod))
  refine ⟨rfl, ?_⟩
  rw [← hscope]

/-- Behind some steps an activation still knows what it knew when the module had `n` values, and the
places of its locals. -/
structure Kept (m : Module) (n : Nat) (a a' : Activation) : Prop where
  func : a'.func = a.func
  args : a'.args = a.args
  locals : a'.locals = a.locals
  env : ∀ x, x ≤ n ∨ m.node? x = some .alloc → a'.env x = a.env x

namespace Kept

theorem refl (m : Module) (n : Nat) (a : Activation) : Kept m n a a :=
  ⟨rfl, rfl, rfl, fun _ _ => rfl⟩

theorem trans (h : Kept m n a a') (h' : Kept m n' a' a'') (hn : n ≤ n') : Kept m n a a'' where
  func := h'.func.trans h.func
  args := h'.args.trans h.args
  locals := h'.locals.trans h.locals
  env x hx := (h'.env x (hx.imp_left fun hle => hle.trans hn)).trans (h.env x hx)

theorem mono (h : Kept m n' a a') (hn : n ≤ n') : Kept m n a a' :=
  ⟨h.func, h.args, h.locals, fun x hx => h.env x (hx.imp_left fun hle => hle.trans hn)⟩

theorem read (h : Kept m n a a') (hx : id ≤ n ∨ m.node? id = some .alloc) :
    a'.read m id = a.read m id := by
  simp only [Activation.read, h.args, h.env id hx]

theorem give (hn : n < id) (hnode : m.node? id ≠ some .alloc) (rest : List ValueId)
    (r : Option Val) :
    Kept m n a (({ a with rest } : Activation).give id r) := by
  refine ⟨Activation.func_give .., by cases r <;> rfl, Activation.locals_give .., fun x hx => ?_⟩
  refine Activation.env_give_of_ne _ r ?_
  rintro rfl
  rcases hx with hx | hx
  · omega
  · exact hnode hx

end Kept

/-- What a run depends on, apart from the activation at its top and the store. -/
structure Setting where
  module : Module
  lib : Library
  fill : Nat → Nat → Word
  /-- The instructions that may be run. -/
  ok : Node → Prop
  callers : List Activation

namespace Setting

def Allows (k : Setting) : Config → Prop
  | .running a _ _ =>
    ∃ id rest node, a.rest = id :: rest ∧ k.module.node? id = some node ∧ k.ok node
  | .done _ _ => False

def Leads (k : Setting) : Config → Config → Prop :=
  Relation.ReflTransGen fun c c' => k.Allows c ∧ step k.module k.lib k.fill c = some c'

/-- The activation stands where the next code of the function is added. -/
structure Standing (k : Setting) (t : Target) (s : State) (a : Activation) : Prop where
  func : a.func = t.func
  rest : ∃ fn fn', s.module.func? t.func = some fn ∧ k.module.func? t.func = some fn' ∧
    a.block = fn.current ∧
    fn'.code fn.current = fn.code fn.current ++ a.rest

def Led (k : Setting) (a : Activation) : Prop :=
  ∃ fn bb id v, k.module.func? a.func = some fn ∧ id ∈ fn.code bb ∧ k.module.value? id = some v ∧
    a.block ∈ v.node.successors

/-- A run crosses the code that was added between two states of lowering. -/
structure Crosses (k : Setting) (t : Target) (s : State) (a : Activation) (st : Store) (s' : State)
    (a' : Activation) (st' : Store) : Prop where
  leads : k.Leads (.running a k.callers st) (.running a' k.callers st')
  standing : k.Standing t s' a'
  kept : Kept k.module s.module.values.size a a'
  size : s.module.values.size ≤ s'.module.values.size
  led : k.Led a → k.Led a'

structure Entered (k : Setting) (t : Target) (bb : BlockId) (a : Activation) : Prop where
  func : a.func = t.func
  block : a.block = bb
  rest : ∃ fn, k.module.func? t.func = some fn ∧ a.rest = fn.code bb

structure Arrives (k : Setting) (t : Target) (n : Nat) (a : Activation) (st : Store) (bb : BlockId)
    (a' : Activation) (st' : Store) : Prop where
  leads : k.Leads (.running a k.callers st) (.running a' k.callers st')
  entered : k.Entered t bb a'
  kept : Kept k.module n a a'
  led : k.Led a'

variable {k : Setting}

namespace Crosses

theorem refl (h : k.Standing t s a) (st : Store) : k.Crosses t s a st s a st :=
  ⟨.refl, h, .refl _ _ _, le_rfl, id⟩

theorem trans (h : k.Crosses t s a st s' a' st') (h' : k.Crosses t s' a' st' s'' a'' st'') :
    k.Crosses t s a st s'' a'' st'' :=
  ⟨h.leads.trans h'.leads, h'.standing, h.kept.trans h'.kept h.size, h.size.trans h'.size,
    fun hl => h'.led (h.led hl)⟩

theorem read_eq {ty : Ty} (h : k.Crosses t s a st s' a' st')
    (hid : s.module.Readable t.func id ty) :
    a'.read k.module id = a.read k.module id := by
  obtain ⟨v, hv, -⟩ := hid
  exact h.kept.read (.inl (Module.bounds_of_value? hv).2)

theorem arrives {bb : BlockId} (h : k.Crosses t s a st s' a' st')
    (h' : k.Arrives t s'.module.values.size a' st' bb a'' st'') :
    k.Arrives t s.module.values.size a st bb a'' st'' :=
  ⟨h.leads.trans h'.leads, h'.entered, h.kept.trans h'.kept h.size, h'.led⟩

end Crosses

/-! Single instructions. -/

theorem step_eq {id : ValueId} {rest : List ValueId} {node : Node} (hrest : a.rest = id :: rest)
    (hnode : k.module.node? id = some node) (halloc : node ≠ .alloc) (callers : List Activation)
    (st : Store) :
    step k.module k.lib k.fill (.running a callers st) = exec k.module k.lib id { a with rest }
      callers st node := by
  simp only [step, reserve_eq_self hrest hnode halloc]
  rw [hrest]
  dsimp only
  rw [hnode]
  rfl

theorem Leads.next {id : ValueId} {rest : List ValueId} {node : Node} {c : Config}
    (hrest : a.rest = id :: rest) (hnode : k.module.node? id = some node) (halloc : node ≠ .alloc)
    (hok : k.ok node) {callers : List Activation}
    (h : exec k.module k.lib id { a with rest } callers st node = some c) :
    k.Leads (.running a callers st) c :=
  .single ⟨⟨id, rest, node, hrest, hnode, hok⟩, (step_eq hrest hnode halloc callers st).trans h⟩

theorem Standing.close {fn : Func} {v : Value} (hs : k.Standing t s a)
    (hf : s.module.func? t.func = some fn) (htakes : Build.Takes s.module t.func fn.current)
    (hblock : v.block = fn.current) (he : Extends (s.module.close t.func v) k.module) : ∃ rest,
      a.rest = (s.module.values.size + 1) :: rest ∧
      k.module.value? (s.module.values.size + 1) = some v ∧
      k.Standing t { s with module := s.module.close t.func v } { a with rest } ∧
      ∃ fn', k.module.func? a.func = some fn' ∧ s.module.values.size + 1 ∈ fn'.code a.block := by
  obtain ⟨hfunc, fn₀, fn', hf₀, hf', hcur, hcode⟩ := hs
  obtain rfl := Option.some.inj (hf.symm.trans hf₀)
  have hv : k.module.value? (s.module.values.size + 1) = some v :=
    he.value (by rw [Module.value?_close, if_pos rfl])
  have hfound := Module.func?_close s.module v (g := t.func) hf
  rw [if_pos rfl] at hfound
  obtain ⟨fn₁, hf₁, hb⟩ := he.func hfound
  obtain rfl := Option.some.inj (hf'.symm.trans hf₁)
  have hpush := Coded.code_close (v := v) (s.module.values.size + 1) (hblock ▸ htakes) hf fn.current
  rw [if_pos hblock.symm] at hpush
  obtain ⟨rest, hrest⟩ := hb.code fn.current
  rw [hpush, hcode, List.append_assoc, List.append_cancel_left_eq] at hrest
  refine ⟨rest, hrest.symm, hv, ⟨hfunc, _, fn', hfound, hf', hcur, ?_⟩, fn', hfunc ▸ hf', ?_⟩
  · change fn'.code fn.current = Func.code _ fn.current ++ rest
    rw [hpush, hcode, ← hrest, List.append_assoc]
  · rw [hcur, hcode, ← hrest]
    simp

/-- A new instruction that does not leave its block comes next. It is crossed, whatever its result
is, if a run gets behind it. -/
theorem Standing.next {node : Node} {ty : Ty} {x : Build ValueId} (hs : k.Standing t s a)
    (h : At t false P s) (hrun : build x s = .ok (id, s'))
    (hx : x s.module = Build.emit t.func node ty s.module) (he : Extends s'.module k.module)
    (hkind : node.successors = [] ∧ node.isInst = true ∧ node ≠ .alloc) : ∃ rest,
      a.rest = id :: rest ∧ k.module.node? id = some node ∧ ∀ (st st' : Store) (r : Option Val),
        k.Leads (.running a k.callers st) (.running (({ a with rest } : Activation).give id r)
          k.callers st') → k.Crosses t s a st s' (({ a with rest } : Activation).give id r) st' ∧
          ∀ y, r = some y → (({ a with rest } : Activation).give id r).read k.module id =
            some y := by
  obtain ⟨hsucc, hinst, halloc⟩ := hkind
  obtain ⟨fn, hf, -, -⟩ := h.func
  rw [Build.emit_eq hf (h.takes hf), ← Module.close_eq_append _ hsucc] at hx
  obtain ⟨rfl, rfl⟩ := eq_of_build hrun hx
  obtain ⟨rest, hrest, hv, hs', -⟩ := hs.close hf (h.takes hf) rfl he
  have hnode := Module.node?_eq hv
  refine ⟨rest, hrest, hnode, fun st st' r hleads => ⟨⟨hleads, ?_,
    .give (Nat.lt_succ_self _) (by rw [hnode]; simpa using halloc) rest r,
      by simp, fun hl => ?_⟩, ?_⟩⟩
  · cases r with
    | none => exact hs'
    | some y => exact ⟨hs'.func, hs'.rest⟩
  · cases r with
    | none => exact hl
    | some y => exact hl
  · rintro y rfl
    simp only [Activation.read, hnode]
    cases hn : node with
    | integer _ | zeroInit | aggregate _ | arg _ | global _ =>
      rw [hn] at hinst
      cases hinst
    | _ => exact Activation.env_set_self _ _ y

/-- An instruction that gives a result, or none, and does not leave its block is crossed, if a run
gets behind it. -/
theorem crosses_inst {node : Node} {ty : Ty} {x : Build ValueId} (st st' : Store) (r : Option Val)
    (h : At t false P s) (hs : k.Standing t s a) (hrun : build x s = .ok (id, s'))
    (hx : x s.module = Build.emit t.func node ty s.module) (he : Extends s'.module k.module)
    (hkind : node.successors = [] ∧ node.isInst = true ∧ node ≠ .alloc)
    (hleads : ∀ rest, a.rest = id :: rest → k.module.node? id = some node →
      k.Leads (.running a k.callers st) (.running (({ a with rest } : Activation).give id r)
        k.callers st')) :
    ∃ a', k.Crosses t s a st s' a' st' ∧ ∀ y, r = some y → a'.read k.module id = some y := by
  obtain ⟨rest, hrest, hnode, hcross⟩ := hs.next h hrun hx he hkind
  exact ⟨_, hcross st st' r (hleads rest hrest hnode)⟩

theorem crosses_emit {node : Node} {ty : Ty} {x : Build ValueId} (st st' : Store) (r : Option Val)
    (h : At t false P s) (hs : k.Standing t s a) (hrun : build x s = .ok (id, s'))
    (hx : x s.module = Build.emit t.func node ty s.module) (he : Extends s'.module k.module)
    (hok : k.ok node) (hkind : node.successors = [] ∧ node.isInst = true ∧ node ≠ .alloc)
    (hexec : ∀ rest, exec k.module k.lib id { a with rest } k.callers st node =
      some (.running (({ a with rest } : Activation).give id r) k.callers st')) :
    ∃ a', k.Crosses t s a st s' a' st' ∧ ∀ y, r = some y → a'.read k.module id = some y := by
  exact crosses_inst st st' r h hs hrun hx he hkind fun rest hrest hnode =>
    .next hrest hnode hkind.2.2 hok (hexec rest)

theorem crosses_binary {op : Arith} {lhs rhs : ValueId} {x y z : Word} (h : At t false P s)
    (hs : k.Standing t s a) (hrun : build (Build.binary t.func op lhs rhs) s = .ok (id, s'))
    (he : Extends s'.module k.module) (hok : k.ok (.binary op lhs rhs))
    (hx : a.read k.module lhs = some (.word x)) (hy : a.read k.module rhs = some (.word y))
    (hz : op.eval? x y = some z) (st : Store) :
    ∃ a', k.Crosses t s a st s' a' st ∧ a'.read k.module id = some (.word z) := by
  obtain ⟨a', hcross, hread⟩ := crosses_emit st st (some (.word z)) h hs hrun rfl he hok
    ⟨rfl, rfl, by simp⟩ fun rest => by
      have hx' : ({ a with rest } : Activation).word? k.module lhs = some x :=
        Activation.word?_eq_some.mpr hx
      have hy' : ({ a with rest } : Activation).word? k.module rhs = some y :=
        Activation.word?_eq_some.mpr hy
      simp only [exec, hx', hy', hz, Option.bind_eq_bind, Option.bind_some]
      rfl
  exact ⟨a', hcross, hread _ rfl⟩

theorem crosses_load {src : ValueId} {r : Region} {o : Int} {y : Val} (h : At t false P s)
    (hs : k.Standing t s a) (hrun : build (Build.load t.func src) s = .ok (id, s'))
    (he : Extends s'.module k.module) (hok : k.ok (.load src))
    (hsrc : a.read k.module src = some (.addr r o)) (hy : st.load r o = some y) :
    ∃ a', k.Crosses t s a st s' a' st ∧ a'.read k.module id = some y := by
  obtain ⟨a', hcross, hread⟩ := crosses_emit st st (some y) h hs hrun rfl he hok
    ⟨rfl, rfl, by simp⟩ fun rest => by
      have hsrc' : ({ a with rest } : Activation).addr? k.module src = some (r, o) :=
        Activation.addr?_eq_some.mpr hsrc
      simp only [exec, hsrc', hy, Option.bind_eq_bind, Option.bind_some]
      rfl
  exact ⟨a', hcross, hread _ rfl⟩

theorem crosses_store {val dest : ValueId} {r : Region} {o : Int} {y : Val} (h : At t false P s)
    (hs : k.Standing t s a) (hrun : build (Build.store t.func val dest) s = .ok (id, s'))
    (he : Extends s'.module k.module) (hok : k.ok (.store val dest))
    (hval : a.read k.module val = some y) (hdest : a.read k.module dest = some (.addr r o))
    (hst : st.store r o y = some st') :
    ∃ a', k.Crosses t s a st s' a' st' := by
  obtain ⟨a', hcross, -⟩ := crosses_emit st st' none h hs hrun rfl he hok
    ⟨rfl, rfl, by simp⟩ fun rest => by
      have hval' : ({ a with rest } : Activation).read k.module val = some y := hval
      have hdest' : ({ a with rest } : Activation).addr? k.module dest = some (r, o) :=
        Activation.addr?_eq_some.mpr hdest
      simp only [exec, hval', hdest', hst, Option.bind_eq_bind, Option.bind_some]
      rfl
  exact ⟨a', hcross⟩

theorem crosses_stride (d : Stride) {src index : ValueId} {r : Region} {o : Int} {i : Word}
    (h : At t false P s) (hs : k.Standing t s a)
    (hrun : build (d.build t.func src index) s = .ok (id, s')) (he : Extends s'.module k.module)
    (hok : k.ok (d.node src index)) (hsrc : a.read k.module src = some (.addr r o))
    (hindex : a.read k.module index = some (.word i)) (st : Store) :
    ∃ a', k.Crosses t s a st s' a' st ∧
      a'.read k.module id = some (.addr r (o + i.toInt * d.size k.module src)) := by
  have hexec (rest : List ValueId) : exec k.module k.lib id { a with rest } k.callers st
    (d.node src index) =
      some (.running (({ a with rest } : Activation).set id
        (.addr r (o + i.toInt * d.size k.module src))) k.callers st) := by
    have hsrc' : ({ a with rest } : Activation).addr? k.module src = some (r, o) :=
      Activation.addr?_eq_some.mpr hsrc
    have hindex' : ({ a with rest } : Activation).word? k.module index = some i :=
      Activation.word?_eq_some.mpr hindex
    cases d
    all_goals
      simp only [Stride.node, Stride.size, exec, hsrc', hindex', Option.bind_eq_bind,
        Option.bind_some]
      rfl
  obtain ⟨ty, hx⟩ : ∃ ty, d.build t.func src index s.module =
      Build.emit t.func (d.node src index) ty s.module := by
    cases d <;> exact ⟨_, rfl⟩
  obtain ⟨a', hcross, hread⟩ :=
    crosses_emit st st (some (.addr r (o + i.toInt * d.size k.module src))) h hs
    hrun hx he hok (by cases d <;> exact ⟨rfl, rfl, by simp [Stride.node]⟩) hexec
  exact ⟨a', hcross, hread _ rfl⟩

/-! Steps that add no code to the current block. -/

theorem crosses_integer {w : Word} (hs : k.Standing t s a)
    (hrun : build (Build.integer w) s = .ok (id, s')) (he : Extends s'.module k.module)
    (st : Store) :
    k.Crosses t s a st s' a st ∧ a.read k.module id = some (.word w) := by
  obtain ⟨rfl, rfl⟩ := eq_of_build hrun (Build.integer_eq _ w)
  have hv := he.value ((s.module.value?_add _).trans (if_pos rfl))
  exact ⟨⟨.refl, ⟨hs.func, hs.rest⟩, .refl _ _ _, by simp, id⟩,
    Activation.read_integer (Module.node?_eq hv) a⟩

theorem crosses_elementAddr {r : Region} (hok : ∀ src index, k.ok (.getElemPtr src index))
    (st : Store) (dims : List Nat) :
    ∀ (o : Int) {P : Set Nat} {s s' : State} {a : Activation} {ptr addr : ValueId} {n : Nat}, Shaped
      dims → n < product dims →
    At t false P s → s.module.Readable t.func ptr (.ptr (.ofDims dims)) →
    elementAddr t ptr (indicesOf dims n) s = .ok (addr, s') → Extends s'.module k.module →
    k.Standing t s a → a.read k.module ptr = some (.addr r (4 * o)) →
    ∃ a', k.Crosses t s a st s' a' st ∧ a'.read k.module addr = some (.addr r (4 * (o + n))) := by
  induction dims with
  | nil =>
    intro o P s s' a ptr addr n hdims hn h hptr hrun he hs hread
    obtain ⟨rfl, rfl⟩ := pure_ok.mp hrun
    obtain rfl : n = 0 := by simpa [product_nil] using hn
    exact ⟨a, .refl hs st, by simpa using hread⟩
  | cons d ds ih =>
    intro o P s s' a ptr addr n hdims hn h hptr hrun he hs hread
    rw [product_cons] at hn
    have hpos : 0 < product ds := product_pos fun e he => hdims.1 e (by simp [he])
    have hrow : n / product ds < d := Nat.div_lt_of_lt_mul (by rwa [Nat.mul_comm] at hn)
    have hd : d ≤ maxArrayWords :=
      (Nat.le_mul_of_pos_right d hpos).trans (product_cons d ds ▸ hdims.2)
    rw [indicesOf, elementAddr] at hrun
    obtain ⟨index, s₁, hindexRun, hrun⟩ := bind_ok.mp hrun
    obtain ⟨next, s₂, hnextRun, hrun⟩ := bind_ok.mp hrun
    obtain ⟨hm₁, h₁, hindex⟩ := (yields_integer h _).ok hindexRun
    obtain ⟨hm₂, h₂, hnext⟩ := (yields_getElemPtr h₁ hdims (hm₁.readable hptr) hindex).ok hnextRun
    obtain ⟨hm₃, -, -⟩ :=
      (yields_elementAddr _ ds (length_indicesOf ds _) hdims.tail h₂ hnext).ok hrun
    have he₂ := hm₃.extends.trans he
    have he₁ := hm₂.extends.trans he₂
    obtain ⟨hcross₁, hindexv⟩ := crosses_integer hs hindexRun he₁ st
    obtain ⟨a₂, hcross₂, hnextv⟩ :=
      crosses_stride .element h₁ hcross₁.standing hnextRun he₂ (hok _ _)
      ((hcross₁.read_eq hptr).trans hread) hindexv st
    have hty : k.module.tyOf ptr = .ptr (.ofDims (d :: ds)) :=
      (he₁.readable (hm₁.readable hptr)).tyOf_eq
    -- no array has so many words that an index would be negative
    have hint : (BitVec.ofNat 32 (n / product ds)).toInt = (n / product ds : Nat) := by
      have hlt : n / product ds < 0x10000000 := lt_of_lt_of_le hrow hd
      generalize n / product ds = q at hlt ⊢
      rw [BitVec.toInt_eq_toNat_of_lt (by rw [BitVec.toNat_ofNat]; omega), BitVec.toNat_ofNat,
        Nat.mod_eq_of_lt (by omega)]
    have haddr : 4 * o + ((n / product ds : Nat) : Int) * (4 * (product ds : Int)) = 4 *
      (o + (n / product ds * product ds : Nat)) := by
      push_cast
      ring
    rw [Stride.size, hty, Ty.elem, Ty.ofDims, Ty.elem, size_ofDims hdims.tail, hint,
      haddr] at hnextv
    obtain ⟨a₃, hcross₃, haddrv⟩ :=
      ih _ hdims.tail (Nat.mod_lt n hpos) h₂ hnext hrun he hcross₂.standing hnextv
    refine ⟨a₃, hcross₁.trans (hcross₂.trans hcross₃), ?_⟩
    rw [haddrv, add_assoc, ← Nat.cast_add, Nat.div_add_mod']

theorem crosses_alloc {ty : Ty} {name : String} (h : At t false P s) (hs : k.Standing t s a)
    (hrun : build (Build.alloc t.func ty name) s = .ok (id, s')) (he : Extends s'.module k.module)
    (st : Store) :
    k.Crosses t s a st s' a st ∧ id = s.module.values.size + 1 ∧ s'.module.values.size =
      s.module.values.size + 1 ∧
      ∃ v, k.module.value? id = some v ∧ v.node = .alloc ∧ v.func = t.func ∧ v.ty = .ptr ty := by
  obtain ⟨fn, hf, hentry, hcur⟩ := h.func
  obtain ⟨rfl, rfl⟩ := eq_of_build hrun (Build.alloc_eq hf (h.entry_takes hf) ty name)
  have hv := he.value ((s.module.value?_append _).trans (if_pos rfl))
  refine ⟨⟨.refl, ⟨hs.func, ?_⟩, .refl _ _ _, by simp, id⟩, rfl, by simp, _, hv, rfl, rfl, rfl⟩
  obtain ⟨fn₀, fn', hf₀, hf', hblock, hcode⟩ := hs.rest
  obtain rfl := Option.some.inj (hf.symm.trans hf₀)
  obtain ⟨fn₁, b, hf₁, hb, -⟩ := h.entry_takes hf
  obtain rfl := Option.some.inj (hf.symm.trans hf₁)
  refine ⟨fn.push fn.entry (s.module.values.size + 1), fn', ?_, hf', hblock, ?_⟩
  · rw [Module.func?_append _ _ hf, if_pos rfl]
  change fn'.code fn.current = Func.code (fn.push fn.entry _) fn.current ++ a.rest
  rw [Func.code_push hb, if_neg (by rw [hentry]; exact hcur)]
  exact hcode

theorem crosses_newBlock {name : String} {bb : BlockId} (hs : k.Standing t s a)
    (hrun : newBlock t name s = .ok (bb, s')) (st : Store) : k.Crosses t s a st s' a st := by
  obtain ⟨fn, fn', hf, hf', hblock, hcode⟩ := hs.rest
  obtain ⟨rfl, rfl⟩ := eq_of_build hrun (Build.addBlock_eq hf name)
  refine ⟨.refl, ⟨hs.func, (fn.addBlock name).2, fn', ?_, hf', hblock, ?_⟩, .refl _ _ _, le_rfl, id⟩
  · rw [Module.func?_modifyFunc _ _ (Module.bounds_of_func? hf).1, if_pos rfl, hf]
    rfl
  · rw [Func.code_addBlock]
    exact hcode

/-! Ways from one block to another. -/

theorem arrives_of_close {fn : Func} {v : Value} {bb : BlockId} (hs : k.Standing t s a)
    (hf : s.module.func? t.func = some fn) (htakes : Build.Takes s.module t.func fn.current)
    (hblock : v.block = fn.current) (he : Extends (s.module.close t.func v) k.module)
    (hok : k.ok v.node) (hbb : bb ∈ v.node.successors)
    (hexec : ∀ id rest a', ({ a with rest } : Activation).goTo k.module bb = some a' →
      exec k.module k.lib id { a with rest } k.callers st v.node =
        some (.running a' k.callers st)) :
    ∃ a', k.Arrives t s.module.values.size a st bb a' st := by
  obtain ⟨rest, hrest, hv, -, fn', hf', hmem⟩ := hs.close hf htakes hblock he
  have halloc : v.node ≠ .alloc := by
    intro heq
    rw [heq] at hbb
    cases hbb
  have hgo : ({ a with rest } : Activation).goTo k.module bb =
    some { a with block := bb, rest := fn'.code bb } := by
    simp [Activation.goTo, hf']
  exact ⟨_, .next hrest (Module.node?_eq hv) halloc hok (hexec _ rest _ hgo),
    ⟨hs.func, rfl, fn', hs.func ▸ hf', rfl⟩,
    ⟨rfl, rfl, rfl, fun _ _ => rfl⟩, fn', a.block, _, v, hf', hmem, hv, hbb⟩

theorem arrives_jump {bb : BlockId} (h : At t false P s) (hs : k.Standing t s a)
    (hrun : build (Build.jump t.func bb) s = .ok (id, s')) (he : Extends s'.module k.module)
    (hok : k.ok (.jump bb)) (st : Store) :
    ∃ a', k.Arrives t s.module.values.size a st bb a' st := by
  obtain ⟨fn, hf, -, -⟩ := h.func
  obtain ⟨rfl, rfl⟩ := eq_of_build hrun (Build.jump_eq hf (h.takes hf) bb)
  refine arrives_of_close (v := { node := .jump bb, ty := .unit, func := t.func,
                                  block := fn.current }) hs hf
    (h.takes hf) rfl he hok (by simp [Node.successors]) fun id rest a' hgo => ?_
  simp only [exec, hgo, Option.bind_eq_bind, Option.bind_some]
  rfl

theorem arrives_branch {cond : ValueId} {yes no : BlockId} {w : Word} (h : At t false P s)
    (hs : k.Standing t s a) (hrun : build (Build.branch t.func cond yes no) s = .ok (id, s'))
    (he : Extends s'.module k.module) (hok : k.ok (.branch cond yes no))
    (hcond : a.read k.module cond = some (.word w)) (st : Store) :
    ∃ a', k.Arrives t s.module.values.size a st (if w = 0 then no else yes) a' st := by
  obtain ⟨fn, hf, -, -⟩ := h.func
  obtain ⟨rfl, rfl⟩ := eq_of_build hrun (Build.branch_eq hf (h.takes hf) cond yes no)
  refine arrives_of_close (v := { node := .branch cond yes no, ty := .unit, func := t.func,
                                  block := fn.current }) hs hf
    (h.takes hf) rfl he hok (by split <;> simp [Node.successors]) fun id rest a' hgo => ?_
  have hcond' : ({ a with rest } : Activation).word? k.module cond = some w :=
    Activation.word?_eq_some.mpr hcond
  simp only [exec, hcond', hgo, Option.bind_eq_bind, Option.bind_some]
  rfl

theorem Entered.standing {bb : BlockId} (hent : k.Entered t bb a) (h : At t true P s) (hbb : bb ∈ P)
    (hrun : startBlock t bb s = .ok ((), s')) : k.Standing t s' a := by
  obtain ⟨fn, hbody, -, hP⟩ := h.body
  obtain ⟨hfunc, hblock, fn', hf', hrest⟩ := hent
  let m' := (s.module.modifyFunc t.func (·.place bb)).modifyFunc t.func fun fn =>
    { fn with current := bb }
  have heq : startBlock t bb s = .ok ((), { s with module := m' }) := rfl
  obtain rfl := (Prod.mk.inj (Except.ok.inj (heq.symm.trans hrun))).2
  refine ⟨hfunc, fn.start bb, fn', ?_, hf', hblock, ?_⟩
  · dsimp only [m']
    rw [Module.modifyFunc_modifyFunc, Module.func?_modifyFunc _ _
      (Module.bounds_of_func? hbody.found).1, if_pos rfl,
      hbody.found]
    rfl
  · have hnil : (fn.start bb).code (fn.start bb).current = [] := hbody.empty bb ((hP bb).mp hbb).2.2
    rw [hnil, hrest]
    rfl

theorem Arrives.crosses {s₁ : State} {bb : BlockId}
    (ha : k.Arrives t s.module.values.size a st bb a' st') (h : At t true P s₁) (hbb : bb ∈ P)
    (hrun : startBlock t bb s₁ = .ok ((), s'))
    (hsize : s.module.values.size ≤ s'.module.values.size) : k.Crosses t s a st s' a' st' :=
  ⟨ha.leads, ha.entered.standing h hbb hrun, ha.kept, hsize, fun _ => ha.led⟩

/-- A block that is gone to early is opened behind code that leaves for it too. -/
theorem Arrives.joins {s₁ : State} {bb target : BlockId}
    (ha : k.Arrives t s.module.values.size a st bb a' st') (h : At t false P s₁) (hbb : bb ∈ P)
    (htarget : IsTarget s₁.module t.func target) (hrun : leaveFor t target bb s₁ = .ok ((), s'))
    (hsize : s.module.values.size ≤ s'.module.values.size) :
    k.Crosses t s a st s' a' st' := by
  obtain ⟨id, s₂, hjump, hstart⟩ := bind_ok.mp hrun
  obtain ⟨-, h₂⟩ := (gives_jump h htarget).ok hjump
  exact ha.crosses h₂ hbb hstart hsize

theorem crosses_leaveFor {bb : BlockId} (h : At t false (insert bb P) s) (hbb : bb ∉ P)
    (hne : bb ≠ 2) (hs : k.Standing t s a) (hrun : leaveFor t bb bb s = .ok ((), s'))
    (he : Extends s'.module k.module) (hok : k.ok (.jump bb)) (st : Store) :
    ∃ a', k.Crosses t s a st s' a' st := by
  have htarget := h.isTarget (Set.mem_insert bb P)
  have hsize := ((gives_leaveFor h htarget hbb hne).ok hrun).1.extends.size_values
  obtain ⟨id, s₁, hjump, hstart⟩ := bind_ok.mp hrun
  obtain ⟨-, h₁⟩ := (gives_jump h htarget).ok hjump
  obtain ⟨hm₂, -⟩ := (gives_openBlock h₁ hbb hne).ok hstart
  obtain ⟨a', ha⟩ := arrives_jump h hs hjump (hm₂.extends.trans he) hok st
  exact ⟨a', ha.crosses h₁ (Set.mem_insert _ _) hstart hsize⟩

/-! Numbers. -/

structure Lenient (k : Setting) : Prop where
  binary : ∀ op lhs rhs, k.ok (.binary op lhs rhs)
  branch : ∀ cond yes no, k.ok (.branch cond yes no)
  jump : ∀ bb, k.ok (.jump bb)

/-- Wherever code for the expression stands between the values `lo` and `hi`, running it from the
store `st` ends with a number and a store as `Q` tells. -/
def Computes (k : Setting) (t : Target) (scope : Scope Binding) (lo hi : Nat) (a₀ : Activation)
    (e : Expr) (st : Store) (Q : Word → Store → Prop) : Prop :=
  ∀ ⦃P s id s' a⦄, At t false P s → s.scope = scope → lowerScalar t e s = .ok (id, s') →
    lo ≤ s.module.values.size → s'.module.values.size ≤ hi → Extends s'.module k.module →
      k.Standing t s a →
    Kept k.module lo a₀ a →
    ∃ a' st' w, k.Crosses t s a st s' a' st' ∧ a'.read k.module id = some (.word w) ∧ Q w st'

section
variable {scope : Scope Binding} {lo hi : Nat} {a₀ : Activation} {span : Span} {e l r : Expr}

theorem Computes.mono {Q R : Word → Store → Prop} (h : k.Computes t scope lo hi a₀ e st Q)
    (hQ : ∀ w st', Q w st' → R w st') : k.Computes t scope lo hi a₀ e st R := by
  intro P s id s' a hat hscope hrun hlo hhi he hs hkept
  obtain ⟨a', st', w, hcross, hread, hw⟩ := h hat hscope hrun hlo hhi he hs hkept
  exact ⟨a', st', w, hcross, hread, hQ w st' hw⟩

theorem computes_lit (span : Span) (w : Word) (st : Store) :
    k.Computes t scope lo hi a₀ (.lit span w) st fun w' st' => w' = w ∧ st' = st := by
  intro P s id s' a h hscope hrun hlo hhi he hs hkept
  obtain ⟨v, s₁, hrun, hint⟩ := bind_ok.mp hrun
  rw [lowerExpr] at hrun
  obtain ⟨id', s₁, hrun, hpure⟩ := bind_ok.mp hrun
  obtain ⟨rfl, rfl⟩ := pure_ok.mp hpure
  obtain ⟨rfl, rfl⟩ := pure_ok.mp hint
  obtain ⟨hcross, hread⟩ := crosses_integer hs hrun he st
  exact ⟨a, st, w, hcross, hread, rfl, rfl⟩

theorem computes_const {name : String} {w : Word} (hname : scope.resolve name = .ok (.const w))
    (span : Span) (st : Store) :
    k.Computes t scope lo hi a₀ (.lval span name []) st fun w' st' => w' = w ∧ st' = st := by
  intro P s id s' a h hscope hrun hlo hhi he hs hkept
  subst hscope
  obtain ⟨v, s₁, hrun, hint⟩ := bind_ok.mp hrun
  rw [lowerExpr] at hrun
  obtain ⟨r, s₁, hrun, hrest⟩ := bind_ok.mp hrun
  have hresolve : resolve name span s = .ok (.const w, s) := resolve_ok.mpr ⟨hname, rfl⟩
  rw [lowerName, run_bind hresolve] at hrun
  obtain ⟨id', s₁, hbuild, hpure⟩ := bind_ok.mp hrun
  obtain ⟨rfl, rfl⟩ := pure_ok.mp hpure
  obtain ⟨rfl, rfl⟩ := pure_ok.mp hrest
  obtain ⟨rfl, rfl⟩ := pure_ok.mp hint
  obtain ⟨hcross, hread⟩ := crosses_integer hs hbuild he st
  exact ⟨a, st, w, hcross, hread, rfl, rfl⟩

theorem computes_unary {op : UnaryOp} {Q : Word → Store → Prop} (hk : k.Lenient)
    (h : k.Computes t scope lo hi a₀ e st fun x st' => Q (op.apply x) st') :
    k.Computes t scope lo hi a₀ (.unary span op e) st Q := by
  intro P s id s' a hat hscope hrun hlo hhi he hs hkept
  obtain ⟨v, s₃, hrun, hint⟩ := bind_ok.mp hrun
  rw [lowerExpr_unary] at hrun
  obtain ⟨x, s₁, hrunE, hop⟩ := bind_ok.mp hrun
  obtain ⟨-, h₁, hx⟩ := (yields_lowerScalar hat e).ok hrunE
  obtain ⟨hm₃, h₃, hv⟩ := (yields_lowerUnary h₁ hx op).ok hop
  obtain ⟨hm', -, -⟩ := (yields_toInt h₃ hv _).ok hint
  have he₁ := (hm₃.trans hm').extends.trans he
  obtain ⟨a₁, st', w, hcross₁, hxv, hQ⟩ :=
    h hat hscope hrunE hlo ((hm₃.trans hm').extends.size_values.trans hhi) he₁ hs hkept
  obtain ⟨zeroId, s₂, hzeroRun, hop⟩ := bind_ok.mp hop
  obtain ⟨hm₂, h₂, hzero⟩ := (yields_integer h₁ 0).ok hzeroRun
  have hx₂ := hm₂.readable hx
  cases op with
  | plus =>
    obtain ⟨rfl, rfl⟩ := pure_ok.mp hop
    obtain ⟨rfl, rfl⟩ := pure_ok.mp hint
    obtain ⟨hcross₂, -⟩ := crosses_integer hcross₁.standing hzeroRun he st'
    exact ⟨a₁, st', w, hcross₁.trans hcross₂, (hcross₂.read_eq hx).trans hxv, hQ⟩
  | minus =>
    obtain ⟨id', s₃, hbinRun, hpure⟩ := bind_ok.mp hop
    obtain ⟨rfl, rfl⟩ := pure_ok.mp hpure
    obtain ⟨rfl, rfl⟩ := pure_ok.mp hint
    have he₂ := ((yields_binary h₂ (by decide) hzero hx₂).ok hbinRun).1.extends.trans he
    obtain ⟨hcross₂, hzerov⟩ := crosses_integer hcross₁.standing hzeroRun he₂ st'
    obtain ⟨a₃, hcross₃, hread⟩ :=
      crosses_binary h₂ hcross₂.standing hbinRun he (hk.binary _ _ _) hzerov
      ((hcross₂.read_eq hx).trans hxv) rfl st'
    rw [show (0 : Word) - w = -w from BitVec.zero_sub w] at hread
    exact ⟨a₃, st', _, hcross₁.trans (hcross₂.trans hcross₃), hread, hQ⟩
  | not =>
    obtain ⟨id', s₃, hbinRun, hpure⟩ := bind_ok.mp hop
    obtain ⟨rfl, rfl⟩ := pure_ok.mp hpure
    obtain ⟨rfl, rfl⟩ := pure_ok.mp hint
    have he₂ := ((yields_binary h₂ (by decide) hx₂ hzero).ok hbinRun).1.extends.trans he
    obtain ⟨hcross₂, hzerov⟩ := crosses_integer hcross₁.standing hzeroRun he₂ st'
    obtain ⟨a₃, hcross₃, hread⟩ := crosses_binary h₂ hcross₂.standing hbinRun he (hk.binary _ _ _)
      ((hcross₂.read_eq hx).trans hxv) hzerov rfl st'
    exact ⟨a₃, st', _, hcross₁.trans (hcross₂.trans hcross₃), hread, hQ⟩

theorem eval?_arithOf {op : BinaryOp} {x y w : Word} (hop : op.isLogical = false)
    (h : op.onWords? x y = some w) :
    (arithOf op).eval? x y = some w := by
  cases op <;> simp_all [BinaryOp.isLogical, BinaryOp.onWords?, arithOf, Arith.eval?]

theorem computes_arith {op : BinaryOp} {I J : Word → Store → Prop} (hk : k.Lenient)
    (hop : op.isLogical = false) (hl : k.Computes t scope lo hi a₀ l st I)
    (hr : ∀ x st₁, I x st₁ → k.Computes t scope lo hi a₀ r st₁ fun y st₂ => ∃ w, op.onWords? x y =
      some w ∧ J w st₂) : k.Computes t scope lo hi a₀ (.binary span op l r) st J := by
  intro P s id s' a hat hscope hrun hlo hhi he hs hkept
  obtain ⟨v, s₃, hrun, hint⟩ := bind_ok.mp hrun
  rw [lowerExpr_arith hop] at hrun
  obtain ⟨lhs, s₁, hlhsRun, hrun⟩ := bind_ok.mp hrun
  obtain ⟨rhs, s₂, hrhsRun, hrun⟩ := bind_ok.mp hrun
  obtain ⟨id', s₃, hbinRun, hpure⟩ := bind_ok.mp hrun
  obtain ⟨rfl, rfl⟩ := pure_ok.mp hpure
  obtain ⟨rfl, rfl⟩ := pure_ok.mp hint
  obtain ⟨hm₁, h₁, hlhs⟩ := (yields_lowerScalar hat l).ok hlhsRun
  obtain ⟨hm₂, h₂, hrhs⟩ := (yields_lowerScalar h₁ r).ok hrhsRun
  obtain ⟨hm₃, -, -⟩ := (yields_binary h₂ (arithOf_ne hop) (hm₂.readable hlhs) hrhs).ok hbinRun
  have he₂ := hm₃.extends.trans he
  have hhi₂ := hm₃.extends.size_values.trans hhi
  obtain ⟨a₁, st₁, x, hcross₁, hxv, hI⟩ :=
    hl hat hscope hlhsRun hlo (hm₂.extends.size_values.trans hhi₂)
    (hm₂.extends.trans he₂) hs hkept
  obtain ⟨a₂, st₂, y, hcross₂, hyv, w, hw, hJ⟩ := hr x st₁ hI h₁ (hm₁.scope.trans hscope) hrhsRun
    (hlo.trans hcross₁.size) hhi₂ he₂ hcross₁.standing (hkept.trans hcross₁.kept hlo)
  obtain ⟨a₃, hcross₃, hread⟩ := crosses_binary h₂ hcross₂.standing hbinRun he (hk.binary _ _ _)
    ((hcross₂.read_eq hlhs).trans hxv) hyv (eval?_arithOf hop hw) st₂
  exact ⟨a₃, st₂, w, hcross₁.trans (hcross₂.trans hcross₃), hread, hJ⟩

end

def Scratch (I : Store → Prop) (r : Region) : Prop :=
  ∀ st w, I st → ∃ st', st.store r 0 (.word w) = some st' ∧ st'.load r 0 = some (.word w) ∧ I st'

structure Slot (k : Setting) (I : Store → Prop) (a : Activation) (x : ValueId)
    (r : Region) : Prop where
  read : a.read k.module x = some (.addr r 0)
  scratch : Scratch I r
  store : ∀ v, k.ok (.store v x)

theorem Slot.kept {I : Store → Prop} {x : ValueId} {r : Region} (h : k.Slot I a x r)
    (hkept : Kept k.module n a a') (hx : k.module.node? x = some .alloc) : k.Slot I a' x r :=
  { h with read := (hkept.read (.inr hx)).trans h.read }

theorem crosses_noteTruth {I : Store → Prop} {slot zeroId x : ValueId} {r : Region} {w : Word}
    (hk : k.Lenient) (h : At t false P s) (hs : k.Standing t s a)
    (hrun : noteTruth t zeroId slot x s = .ok (id, s')) (he : Extends s'.module k.module)
    (hx : s.module.Readable t.func x .i32) (hzero : s.module.Readable t.func zeroId .i32)
    (hslot : s.module.Readable t.func slot (.ptr .i32)) (hxv : a.read k.module x = some (.word w))
    (hzerov : a.read k.module zeroId = some (.word 0)) (hslotv : k.Slot I a slot r) (hI : I st) :
    ∃ a' st', k.Crosses t s a st s' a' st' ∧ a'.read k.module id =
      some (.word (Word.ofBool (w != 0))) ∧
      st'.load r 0 = some (.word (Word.ofBool (w != 0))) ∧ I st' := by
  obtain ⟨truth, s₁, hbin, hrun⟩ := bind_ok.mp hrun
  obtain ⟨u, s₂, hstore, hpure⟩ := bind_ok.mp hrun
  obtain ⟨rfl, rfl⟩ := pure_ok.mp hpure
  obtain ⟨hm₁, h₁, hid⟩ := (yields_binary h (by decide) hx hzero).ok hbin
  obtain ⟨hm', -, -⟩ := (yields_store h₁ hid (hm₁.readable hslot)).ok hstore
  obtain ⟨a₁, hcross₁, hread₁⟩ :=
    crosses_binary h hs hbin (hm'.extends.trans he) (hk.binary _ _ _) hxv hzerov rfl st
  obtain ⟨st', hst', hload, hI'⟩ := hslotv.scratch st (Word.ofBool (w != 0)) hI
  obtain ⟨a', hcross'⟩ := crosses_store h₁ hcross₁.standing hstore he (hslotv.store _) hread₁
    ((hcross₁.read_eq hslot).trans hslotv.read) hst'
  exact ⟨a', st', hcross₁.trans hcross', (hcross'.read_eq hid).trans hread₁, hload, hI'⟩

/-- The second operand of a logical operator is skipped just when the first one decides. -/
theorem logic_cases {op : BinaryOp} (hop : op.isLogical = true) (x : Word) (more done : BlockId) :
    (op.shortcut? x = some (Word.ofBool (x != 0)) ∧
      (if Word.ofBool (x != 0) = 0 then (if (logicShape op).2 then done else more)
        else if (logicShape op).2 then more else done) = done) ∨
    (op.shortcut? x = none ∧ (∀ y, op.onWords? x y = some (Word.ofBool (y != 0))) ∧
      (if Word.ofBool (x != 0) = 0 then (if (logicShape op).2 then done else more)
        else if (logicShape op).2 then more else done) = more) := by
  by_cases hx : x = 0
  · subst hx
    cases op <;> simp_all [BinaryOp.isLogical, BinaryOp.shortcut?, BinaryOp.onWords?, logicShape,
      Word.ofBool]
  · cases op <;> simp_all [BinaryOp.isLogical, BinaryOp.shortcut?, BinaryOp.onWords?, logicShape,
      Word.ofBool]

theorem crosses_forkLogic {op : BinaryOp} {first : ValueId} {done : BlockId} {x : Word}
    (hk : k.Lenient) (hop : op.isLogical = true) (h : At t false P s) (hs : k.Standing t s a)
    (hrun : forkLogic t op first s = .ok (done, s')) (he : Extends s'.module k.module)
    (hfirst : s.module.Readable t.func first .i32)
    (hread : a.read k.module first = some (.word (Word.ofBool (x != 0)))) (st : Store) : ∃ a',
      (op.shortcut? x = some (Word.ofBool (x != 0)) ∧
        k.Arrives t s.module.values.size a st done a' st) ∨
      (op.shortcut? x = none ∧ (∀ y, op.onWords? x y = some (Word.ofBool (y != 0))) ∧
        k.Crosses t s a st s' a' st) := by
  have hsize := ((gives_forkLogic h hfirst op).ok hrun).1.extends.size_values
  obtain ⟨hmoreHint, hdoneHint⟩ := logicShape_hints op
  have hcases := logic_cases hop x
  obtain ⟨more, s₁, hmoreRun, hrun⟩ := bind_ok.mp hrun
  obtain ⟨done, s₂, hdoneRun, hrun⟩ := bind_ok.mp hrun
  obtain ⟨u, s₃, hbranchRun, hrun⟩ := bind_ok.mp hrun
  obtain ⟨⟨⟩, s₄, hopenRun, hpure⟩ := bind_ok.mp hrun
  obtain ⟨rfl, rfl⟩ := pure_ok.mp hpure
  obtain ⟨hm₁, h₁, hmore, hmore2⟩ := (gives_newBlock h hmoreHint).ok hmoreRun
  obtain ⟨hm₂, h₂, -⟩ := (gives_newBlock h₁ hdoneHint).ok hdoneRun
  have hmoreP : more ∈ insert done (insert more P) := by simp
  obtain ⟨-, h₃⟩ :=
    (gives_branchOn h₂ ((hm₁.trans hm₂).readable hfirst) hmoreP (by simp) _).ok hbranchRun
  obtain ⟨hm₄, -⟩ := (gives_startBlock h₃ hmoreP hmore2).ok hopenRun
  have hcross := (crosses_newBlock hs hmoreRun st).trans
    (crosses_newBlock (crosses_newBlock hs hmoreRun st).standing
    hdoneRun st)
  generalize (logicShape op).2 = onTrue at hcases hbranchRun
  have hbranchRun' : build (Build.branch t.func first (if onTrue then more else done)
    (if onTrue then done else more)) s₂ =
      .ok (u, s₃) := by
    cases onTrue <;> exact hbranchRun
  obtain ⟨a', harrives⟩ :=
    arrives_branch h₂ hcross.standing hbranchRun' (hm₄.extends.trans he) (hk.branch _ _ _) hread st
  refine ⟨a', (hcases more done).imp ?_ ?_⟩
  · rintro ⟨hshort, htarget⟩
    exact ⟨hshort, hcross.arrives (htarget ▸ harrives)⟩
  · rintro ⟨hshort, hwords, htarget⟩
    exact ⟨hshort, hwords, (hcross.arrives (htarget ▸ harrives)).crosses h₃ hmoreP hopenRun hsize⟩

theorem computes_logical {scope : Scope Binding} {lo hi : Nat} {a₀ : Activation} {span : Span}
    {op : BinaryOp} {l r : Expr} {x w : Word} {I J : Store → Prop} (hk : k.Lenient)
    (hop : op.isLogical = true) (hl : k.Computes t scope lo hi a₀ l st fun x' st' => x' = x ∧ I st')
    (hskip : ∀ v, op.shortcut? x = some v → v = w ∧ ∀ st, I st → J st)
    (hr : op.shortcut? x = none → ∀ st, I st → k.Computes t scope lo hi a₀ r st fun y st' =>
      op.onWords? x y = some w ∧ J st')
    (hslot : ∀ y, lo < y → y ≤ hi → IsLocal k.module t.func y → k.module.tyOf y = .ptr .i32 →
      k.ok (.load y) ∧ ∃ r, k.Slot I a₀ y r ∧ k.Slot J a₀ y r) :
    k.Computes t scope lo hi a₀ (.binary span op l r) st fun w' st' => w' = w ∧ J st' := by
  intro P s id s' a h hscope hrun hlo hhi he hs hkept
  obtain ⟨v, sv, hrun, hint⟩ := bind_ok.mp hrun
  obtain ⟨c⟩ := exists_logicSteps h hop hrun
  rw [c.result] at hint
  obtain ⟨rfl, rfl⟩ := pure_ok.mp hint
  -- all that is made stays, and the code made later does not reach back
  have he₈ : Extends c.joined.module k.module := c.moves_load.extends.trans he
  have he₇ : Extends c.settled.module k.module := c.moves_join.extends.trans he₈
  have he₆ : Extends c.recomputed.module k.module := c.moves_settle.extends.trans he₇
  have he₅ : Extends c.forked.module k.module := c.moves_recompute.extends.trans he₆
  have he₄ : Extends c.noted.module k.module := c.moves_fork.extends.trans he₅
  have he₃ : Extends c.computed.module k.module := c.moves_note.extends.trans he₄
  have he₂ : Extends c.reserved.module k.module := c.moves_compute.extends.trans he₃
  have hhi₆ :=
    (c.moves_settle.trans (c.moves_join.trans c.moves_load)).extends.size_values.trans hhi
  have hhi₃ := c.moves_second.extends.size_values.trans hhi₆
  have hhi₂ := c.moves_compute.extends.size_values.trans hhi₃
  -- the code of the first operand
  obtain ⟨hcross₁, hzerov⟩ := crosses_integer hs c.zeroes (c.moves_reserve.extends.trans he₂) st
  obtain ⟨hcross₂, hslotId, hsize₂, v, hv, hvnode, hvfunc, hvty⟩ :=
    crosses_alloc c.zeroed_at hcross₁.standing c.reserves he₂ st
  have hcross := hcross₁.trans hcross₂
  have hlocal : IsLocal k.module t.func c.slot := ⟨v, hv, hvnode, hvfunc⟩
  have hlt : lo < c.slot := by
    rw [hslotId]
    exact Nat.lt_succ_of_le (hlo.trans hcross₁.size)
  have hle : c.slot ≤ hi := by rwa [hslotId, ← hsize₂]
  obtain ⟨hloadOk, region, hslotI, hslotJ⟩ :=
    hslot c.slot hlt hle hlocal ((Module.tyOf_eq hv).trans hvty)
  obtain ⟨a₃, st₃, _, hcross₃, hxv, rfl, hI⟩ :=
    hl c.reserved_at ((c.moves_zero.trans c.moves_reserve).scope.trans hscope)
    c.computes (hlo.trans hcross.size) hhi₃ he₃ hcross₂.standing (hkept.trans hcross.kept hlo)
  have htotal₃ := hcross.trans hcross₃
  have hzerov₃ := ((hcross₂.trans hcross₃).read_eq c.zero_ok).trans hzerov
  obtain ⟨a₄, st₄, hcross₄, hfirstv, hload₄, hI₄⟩ :=
    crosses_noteTruth hk c.computed_at hcross₃.standing c.notes he₄ c.lhs_ok
    c.zero_computed c.slot_computed hxv hzerov₃ (hslotI.kept (hkept.trans htotal₃.kept hlo)
      hlocal.node) hI
  have htotal₄ := htotal₃.trans hcross₄
  -- all ways end with reading the slot
  have hfinal {a' : Activation} {st' : Store} (hcross' : k.Crosses t s a st c.joined a' st')
      (hload : st'.load region 0 = some (.word w)) (hJ : J st') :
        ∃ a' st' w', k.Crosses t s a st sv a' st' ∧
        a'.read k.module c.id = some (.word w') ∧ w' = w ∧ J st' := by
    have hslotv := (hslotJ.kept (hkept.trans hcross'.kept hlo) hlocal.node).read
    obtain ⟨a'', hcross'', hread⟩ :=
      crosses_load c.joined_at hcross'.standing c.loads he hloadOk hslotv hload
    exact ⟨a'', st', w, hcross'.trans hcross'', hread, rfl, hJ⟩
  obtain ⟨a₅, ⟨hshort, harrives⟩ | ⟨hshort, hwords, hcross₅⟩⟩ :=
    crosses_forkLogic hk hop c.noted_at hcross₄.standing c.forks he₅ c.first_ok hfirstv st₄
  · -- the first operand settles the result, and the code of the second one is passed by
    obtain ⟨rfl, hJ⟩ := hskip _ hshort
    have hsize :=
      (c.moves_fork.trans
        (c.moves_recompute.trans (c.moves_settle.trans c.moves_join))).extends.size_values
    have hcross₈ := harrives.joins c.settled_at (Set.mem_insert _ _) c.done_isTarget c.leaves hsize
    exact hfinal (htotal₄.trans hcross₈) hload₄ (hJ st₄ hI₄)
  · have htotal₅ := htotal₄.trans hcross₅
    have hscope₅ := (c.moves_zero.trans (c.moves_reserve.trans (c.moves_compute.trans
      (c.moves_note.trans c.moves_fork)))).scope.trans hscope
    obtain ⟨a₆, st₆, y, hcross₆, hyv, hy, hJ⟩ :=
      hr hshort st₄ hI₄ c.forked_at hscope₅ c.recomputes (hlo.trans htotal₅.size)
      hhi₆ he₆ hcross₅.standing (hkept.trans htotal₅.kept hlo)
    have htotal₆ := htotal₅.trans hcross₆
    have hzerov₆ := ((hcross₄.trans (hcross₅.trans hcross₆)).read_eq c.zero_computed).trans hzerov₃
    obtain ⟨a₇, st₇, hcross₇, -, hload₇, hJ₇⟩ :=
      crosses_noteTruth hk c.recomputed_at hcross₆.standing c.settles he₇ c.rhs_ok
      c.zero_recomputed c.slot_recomputed hyv hzerov₆ (hslotJ.kept (hkept.trans htotal₆.kept hlo)
        hlocal.node) hJ
    obtain ⟨a₈, hcross₈⟩ := crosses_leaveFor c.settled_at c.done_new c.done_ne hcross₇.standing
      c.leaves he₈ (hk.jump _) st₇
    rw [hwords] at hy
    rw [Option.some.inj hy] at hload₇
    exact hfinal (htotal₆.trans (hcross₇.trans hcross₈)) hload₇ hJ₇

end Setting

end Sysy.Lowering
