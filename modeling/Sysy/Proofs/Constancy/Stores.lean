import Sysy.Proofs.Lowering.Availability
import Sysy.Proofs.Lowering.Visits

/-!
Stores into one piece of storage. Every place in a variable is found from the local or the global
that was made for the variable, by instructions that go to an element. An assignment asks for a
place that is not constant; so while a piece of storage goes by constant names only, no code is
added that stores into it.
-/

namespace Sysy.Ir

/-- The value is found from the storage `x` by indices. -/
inductive Module.Rooted (m : Module) (x : ValueId) : ValueId → Prop
  | root : m.Rooted x x
  | elem {id src index : ValueId} (hnode : m.node? id = some (.getElemPtr src index))
      (hsrc : m.Rooted x src) : m.Rooted x id
  | ptr {id src index : ValueId} (hnode : m.node? id = some (.getPtr src index))
      (hsrc : m.Rooted x src) : m.Rooted x id

def Module.IsStorage (m : Module) (x : ValueId) : Prop :=
  m.node? x = some .alloc ∨ ∃ init, m.node? x = some (.global init)

def Node.IsPlace : Node → Prop
  | .alloc | .global _ | .getPtr _ _ | .getElemPtr _ _ => True
  | _ => False

namespace Module.Rooted
variable {m : Module} {x y src index : ValueId} {node : Node}

theorem eq_of_node (h : m.Rooted x y) (hnode : m.node? y = some node)
    (hne : ∀ src index, node ≠ .getElemPtr src index)
    (hne' : ∀ src index, node ≠ .getPtr src index) : y = x := by
  cases h with
  | root => rfl
  | elem hnode' _ => exact (hne _ _ (Option.some.inj (hnode.symm.trans hnode'))).elim
  | ptr hnode' _ => exact (hne' _ _ (Option.some.inj (hnode.symm.trans hnode'))).elim

theorem src_of_stride (d : Stride) (h : m.Rooted x y) (hx : m.IsStorage x)
    (hnode : m.node? y = some (d.node src index)) : m.Rooted x src := by
  cases h with
  | root => cases d <;> rcases hx with hx | ⟨init, hx⟩ <;> cases hx.symm.trans hnode
  | elem hnode' hsrc | ptr hnode' hsrc =>
    cases d <;> cases hnode.symm.trans hnode'
    exact hsrc

theorem isPlace (h : m.Rooted x y) (hx : m.IsStorage x) (hnode : m.node? y = some node) :
    node.IsPlace := by
  cases h with
  | root =>
    rcases hx with hx | ⟨init, hx⟩
    · cases hx.symm.trans hnode
      trivial
    · cases hx.symm.trans hnode
      trivial
  | elem hnode' _ | ptr hnode' _ =>
    cases hnode'.symm.trans hnode
    trivial

end Module.Rooted

end Sysy.Ir

namespace Sysy.Lowering
open Ir

variable {t : Target} {s s' s'' s₁ s₂ : State} {P : Set Nat} {S : Set ValueId} {m : Module}
  {x : ValueId} {id : ValueId}
  {node : Node} {bb : BlockId} {loops : List Loop}

theorem Linked.lt_of_operand {y z : ValueId} (hl : Linked m) (hnode : m.node? y = some node)
    (hz : z ∈ node.operands) :
    z < y := by
  obtain ⟨v, hv, rfl⟩ := Option.map_eq_some_iff.mp hnode
  exact (hl.operand y v hv z hz).1

theorem Linked.le_of_rooted {y : ValueId} (hl : Linked m) (h : m.Rooted x y) : x ≤ y := by
  have hstep {src id : ValueId} {node : Node} (hnode : m.node? id = some node) (hsrc : src ≠ 0 →
    src ∈ node.operands)
      (ih : x ≤ src) : x ≤ id := by
    rcases Nat.eq_zero_or_pos src with rfl | hpos
    · exact ih.trans (Nat.zero_le _)
    · exact ih.trans (hl.lt_of_operand hnode (hsrc hpos.ne')).le
  induction h with
  | root => exact le_rfl
  | elem hnode _ ih | ptr hnode _ ih => exact hstep hnode (by simp [Node.operands]) ih

/-- Nothing that is added between the two states stores into `x`. -/
def Spares (m : Module) (x : ValueId) (s s' : State) : Prop :=
  ∀ id val dest, s.module.values.size < id → id ≤ s'.module.values.size →
    m.node? id = some (.store val dest) →
    ¬ m.Rooted x dest

def Guarded (m : Module) (x : ValueId) (scope : Scope Binding) : Prop :=
  scope.All fun b => ∀ a, b = .var a false → ¬ m.Rooted x a

namespace Spares

theorem of_size (h : s'.module.values.size = s.module.values.size) : Spares m x s s' := by
  intro id val dest hlt hle
  lia

theorem trans (h : Spares m x s s') (h' : Spares m x s' s'') : Spares m x s s'' := by
  intro id val dest hlt hle hnode
  rcases le_or_gt id s'.module.values.size with hid | hid
  · exact h id val dest hlt hid hnode
  · exact h' id val dest hid hle hnode

end Spares

theorem Adds.size (h : Adds t node s s') : s'.module.values.size = s.module.values.size + 1 := by
  obtain ⟨fn, ty, -, -, rfl⟩ := h
  exact Module.size_values_close _ _

theorem Reserves.size (h : Reserves t s s') : s'.module.values.size = s.module.values.size + 1 := by
  obtain ⟨fn, ty, name, -, -, -, rfl⟩ := h
  exact Module.size_values_close _ _

theorem Makes.size (h : Makes t bb s s') : s'.module.values.size = s.module.values.size := by
  obtain ⟨fn, name, -, -, rfl⟩ := h
  rfl

theorem size_startBlock {u : Unit} (hrun : startBlock t bb s = .ok (u, s')) :
    s'.module.values.size = s.module.values.size := by
  rw [startBlock_eq] at hrun
  obtain ⟨-, rfl⟩ := Prod.mk.inj (Except.ok.inj hrun)
  rfl

theorem Adds.spares (h : Adds t node s s') (he : Extends s'.module m)
    (hnode : ∀ val dest, node = .store val dest → ¬ m.Rooted x dest) : Spares m x s s' := by
  intro id val dest hlt hle hstore
  obtain rfl : id = s.module.values.size + 1 := by
    have := h.size
    lia
  exact hnode val dest (Option.some.inj ((h.node_eq he).symm.trans hstore))

theorem Reserves.spares (h : Reserves t s s') (he : Extends s'.module m) : Spares m x s s' := by
  intro id val dest hlt hle hstore
  obtain rfl : id = s.module.values.size + 1 := by
    have := h.size
    lia
  cases (h.node_eq he).symm.trans hstore

theorem not_rooted_of_storage (hle : x ≤ s.module.values.size) (hlt : s.module.values.size < id)
    (h : m.IsStorage id) :
    ¬ m.Rooted x id := by
  intro hrooted
  rcases h with hnode | ⟨init, hnode⟩
  · have := hrooted.eq_of_node hnode (by simp) (by simp)
    lia
  · have := hrooted.eq_of_node hnode (by simp) (by simp)
    lia

theorem spreads_spared (hx : m.IsStorage x) {n : Nat} (hle : x ≤ n) :
    Spreads m {d | ¬ m.Rooted x d} n where
  elem _ _ _ hnode hsrc hrooted := hsrc (hrooted.src_of_stride .element hx hnode)
  fresh id hlt hnode hrooted := by
    have := hrooted.eq_of_node hnode (by simp) (by simp)
    lia

theorem Course.spares (h : Course t S s s') (he : Extends s'.module m)
    (hS : ∀ d ∈ S, ¬ m.Rooted x d) (hle : x ≤ s.module.values.size) : Spares m x s s' := by
  induction h with
  | refl S s => exact .of_size rfl
  | trans h h' ih ih' =>
    exact (ih (h'.extends.trans he) hS hle).trans (ih' he hS (hle.trans h.extends.size_values))
  | constant S s w =>
    intro id val dest hlt hid hstore
    obtain rfl : id = s.module.values.size + 1 := by
      rw [Module.size_values_add] at hid
      lia
    have hv : m.value? (s.module.values.size + 1) = some { node := .integer w, ty := .i32 } :=
      he.value (by rw [Module.value?_add, if_pos rfl])
    cases (Module.node?_eq hv).symm.trans hstore
  | inst hnode h =>
    refine h.spares he ?_
    rintro val dest rfl
    cases hnode
  | store hdest h =>
    refine h.spares he ?_
    rintro val dest ⟨⟩
    exact hS _ hdest
  | reserve h => exact h.spares he
  | label h => exact .of_size h.size
  | names S s scope => exact .of_size rfl
  | @logic S s s₁ s₂ s₃ s₄ s₅ s₆ s₇ slot _ _ _ _ _ hslot hid h₁ hbranch _ hopen h₂ hjump
      hjoin ih₁ ih₂ =>
    have he₆ := (extends_startBlock hjump.found hjoin).trans he
    have he₅ := hjump.extends.trans he₆
    have he₄ := h₂.extends.trans he₅
    have he₃ := (extends_startBlock hbranch.found hopen).trans he₄
    have he₂ := hbranch.extends.trans he₃
    have he₁ := h₁.extends.trans he₂
    -- the slot of the result is a local that is younger than `x`, so it is none of its places
    have hslotS : ∀ d ∈ insert slot S, ¬ m.Rooted x d := by
      intro d hd
      rcases hd with rfl | hd
      · exact not_rooted_of_storage hle (by lia) (.inl (hid ▸ hslot.node_eq he₁))
      · exact hS d hd
    have hle₁ : x ≤ s₁.module.values.size := by
      rw [hslot.size]
      lia
    have hle₄ :=
      hle₁.trans (h₁.extends.trans
        (hbranch.extends.trans (extends_startBlock hbranch.found hopen))).size_values
    have hfirst := (hslot.spares he₁).trans (ih₁ he₂ hslotS hle₁)
    have hturn : Spares m x s₂ s₄ :=
      (hbranch.spares he₃ (by simp)).trans (.of_size (size_startBlock hopen))
    have hjoined : Spares m x s₅ s₇ :=
      (hjump.spares he₆ (by simp)).trans (.of_size (size_startBlock hjoin))
    exact hfirst.trans (hturn.trans ((ih₂ he₅ hslotS hle₄).trans hjoined))

/-! What an assignment writes. -/

def Walk.addr : Walk → ValueId
  | .inside ptr _ | .atFirst ptr _ => ptr

theorem step_spared {w w' : Walk} {index : ValueId} (hx : m.IsStorage x) (h : At t false P s)
    (hrun : w.step t index s = .ok (w', s')) (he : Extends s'.module m) (hw : ¬ m.Rooted x w.addr) :
    ¬ m.Rooted x w'.addr := by
  cases w with
  | inside ptr pointee =>
    obtain ⟨id, s₁, helem, hpure⟩ := bind_ok.mp hrun
    obtain ⟨rfl, rfl⟩ := pure_ok.mp hpure
    obtain ⟨hadds, rfl⟩ := (adds_of_emit h helem rfl rfl : Adds t (.getElemPtr ptr index) s s₁ ∧ _)
    exact fun hrooted => hw (hrooted.src_of_stride .element hx (hadds.node_eq he))
  | atFirst ptr pointee =>
    obtain ⟨id, s₁, helem, hpure⟩ := bind_ok.mp hrun
    obtain ⟨rfl, rfl⟩ := pure_ok.mp hpure
    obtain ⟨hadds, rfl⟩ := (adds_of_emit h helem rfl rfl : Adds t (.getPtr ptr index) s s₁ ∧ _)
    exact fun hrooted => hw (hrooted.src_of_stride .whole hx (hadds.node_eq he))

theorem indices_spared {span : Span} {name : String} (hx : m.IsStorage x) (es : List Expr) :
    ∀ {s : State} {w w' : Walk}, At t false P s → WalkOk s.module t.func w →
    lowerIndices t span name w es s = .ok (w', s') →
      Extends s'.module m → ¬ m.Rooted x w.addr → ¬ m.Rooted x w'.addr := by
  induction es with
  | nil =>
    intro s w w' _ _ hrun _ hw
    rw [lowerIndices] at hrun
    obtain ⟨rfl, rfl⟩ := pure_ok.mp hrun
    exact hw
  | cons e es ih =>
    intro s w w' h hok hrun he hw
    rw [lowerIndices] at hrun
    split at hrun
    · rename_i hcan
      obtain ⟨v, s₁, hrun₁, hrun⟩ := bind_ok.mp hrun
      obtain ⟨index, s₂, hrun₂, hrun⟩ := bind_ok.mp hrun
      obtain ⟨w₁, s₃, hstep, hrun⟩ := bind_ok.mp hrun
      obtain ⟨hm₁, h₁, hv⟩ := (yields_lowerExpr h e).ok hrun₁
      obtain ⟨hm₂, h₂, hindex⟩ := (yields_toInt h₁ hv e.span).ok hrun₂
      obtain ⟨hm₃, h₃, hok₃⟩ :=
        (yields_step h₂ ((hok.extends hm₁.extends).extends hm₂.extends) hcan hindex).ok hstep
      obtain ⟨hm₄, -⟩ := (yields_lowerIndices h₃ span name es hok₃).ok hrun
      exact ih h₃ hok₃ hrun he (step_spared hx h₂ hstep (hm₄.extends.trans he) hw)
    · exact (reject_ok.mp hrun).elim

/-- A name leads to a number, or, if it is not constant, to other places than `x`. -/
theorem name_spared {name : String} {span : Span} {isIndexed : Bool} {r : Operand ⊕ (Walk × Bool)}
    (hx : m.IsStorage x) (h : At t false P s) (hg : Guarded m x s.scope)
    (hrun : lowerName t span name isIndexed s = .ok (r, s')) (he : Extends s'.module m) :
    (∃ i, r = .inl (.int i true)) ∨ ∃ w c, r = .inr (w, c) ∧ (c = false → ¬ m.Rooted x w.addr) := by
  obtain ⟨b, s₁, hres, hrun⟩ := bind_ok.mp hrun
  obtain ⟨hbound, rfl⟩ := resolve_ok.mp hres
  cases b with
  | func g => exact (reject_ok.mp hrun).elim
  | const c =>
    cases isIndexed with
    | true => exact (reject_ok.mp hrun).elim
    | false =>
      obtain ⟨id, s₂, -, hpure⟩ := bind_ok.mp hrun
      obtain ⟨rfl, -⟩ := pure_ok.mp hpure
      exact .inl ⟨id, rfl⟩
  | var ptr isConst =>
    obtain ⟨ty, s₂, hty, hrun⟩ := bind_ok.mp hrun
    obtain ⟨-, rfl⟩ : s.module.tyOf ptr = ty ∧ s = s₂ := pure_ok.mp hty
    generalize ty.elem = pointee at hrun
    cases pointee with
    | ptr inner =>
      obtain ⟨id, s₃, hload, hpure⟩ := bind_ok.mp hrun
      obtain ⟨rfl, rfl⟩ := pure_ok.mp hpure
      obtain ⟨hadds, rfl⟩ := (adds_of_emit h hload rfl rfl : Adds t (.load ptr) s s₃ ∧ _)
      exact .inr ⟨_, isConst, rfl, fun _ hrooted => hrooted.isPlace hx (hadds.node_eq he)⟩
    | _ =>
      obtain ⟨rfl, -⟩ := pure_ok.mp hrun
      exact .inr ⟨_, isConst, rfl, fun hconst => hg.resolve hbound ptr (hconst ▸ rfl)⟩

theorem stop_eq_place {w : Walk} {isConst c : Bool} {place : ValueId}
    (h : w.stop isConst = .place place c) :
    w.addr = place ∧ isConst = c := by
  cases w with
  | inside ptr pointee =>
    cases harray : pointee.isArray with
    | true => simp [Walk.stop, harray] at h
    | false => simpa [Walk.stop, Walk.addr, harray] using h
  | atFirst ptr pointee => simp [Walk.stop] at h

theorem place_spared {name : String} {span : Span} {indices : List Expr} {v : Operand}
    {place : ValueId} (hx : m.IsStorage x) (h : At t false P s) (hg : Guarded m x s.scope)
    (hrun : lowerExpr t (.lval span name indices) s = .ok (v, s₁))
    (hplace : v.toPlace name span s₁ = .ok (place, s₁)) (he : Extends s₁.module m) :
    ¬ m.Rooted x place := by
  obtain ⟨rfl, -⟩ := toPlace_ok hplace
  rw [lowerExpr] at hrun
  obtain ⟨r, s₃, hname, hrun⟩ := bind_ok.mp hrun
  obtain ⟨-, h₃, -, hok⟩ := (yields_lowerName h span name (!indices.isEmpty)).ok hname
  cases r with
  | inl v =>
    obtain ⟨rfl, rfl⟩ := pure_ok.mp hrun
    rcases name_spared hx h hg hname he with ⟨i, heq⟩ | ⟨w, c, heq, -⟩
    · cases heq
    · cases heq
  | inr p =>
    obtain ⟨w, isConst⟩ := p
    obtain ⟨w', s₄, hindices, hpure⟩ := bind_ok.mp hrun
    obtain ⟨hstop, rfl⟩ := pure_ok.mp hpure
    obtain ⟨hm₄, -⟩ := (yields_lowerIndices h₃ span name indices (hok w isConst rfl)).ok hindices
    have hw : isConst = false → ¬ m.Rooted x w.addr := by
      rcases name_spared hx h hg hname (hm₄.extends.trans he) with ⟨i, heq⟩ | ⟨w₁, c, heq, hw⟩
      · cases heq
      · cases heq
        exact hw
    have hw' :=
      fun hconst => indices_spared hx indices h₃ (hok w isConst rfl) hindices he (hw hconst)
    obtain ⟨rfl, rfl⟩ := stop_eq_place hstop
    exact hw' rfl

/-! Declarations. -/

structure NewStorage (m : Module) (isConst : Bool) (name : String) (x : ValueId)
    (s s' : State) : Prop where
  named : s.scope.define name (.var x isConst) = .ok s'.scope
  lt : s.module.values.size < x
  le : x ≤ s'.module.values.size
  storage : m.IsStorage x

/-- A name that a declaration brings in: if it is a variable, its storage is new, and the name of a
constant is constant. -/
def Binds (m : Module) (isConst : Bool) (name : String) (s s' : State) : Prop :=
  ∃ b, s.scope.define name b = .ok s'.scope ∧
    ∀ a c, b = .var a c → s.module.values.size < a ∧ m.IsStorage a ∧ (isConst = true → c = true)

theorem NewStorage.binds {isConst : Bool} {name : String} (h : NewStorage m isConst name x s s') :
    Binds m isConst name s s' := by
  refine ⟨_, h.named, ?_⟩
  rintro a c ⟨⟩
  exact ⟨h.lt, h.storage, id⟩

section
variable {isConst : Bool} {d : VarDef} {u : Unit}

theorem newStorage_alloc {ty : Ty} {hint : String} {slot : ValueId} {scope : Scope Binding}
    (h : At t false P s₁) (hle : s.module.values.size ≤ s₁.module.values.size)
    (hscope : s₁.scope = s.scope) (halloc : build (Build.alloc t.func ty hint) s₁ = .ok (slot, s₂))
    (he' : Extends s₂.module s'.module) (he : Extends s'.module m)
    (hdef : s₁.scope.define d.name (.var slot isConst) = .ok scope) :
    NewStorage m isConst d.name slot s { s' with scope } := by
  obtain ⟨hreserves, rfl⟩ := reserves_alloc h halloc
  have hsize := he'.size_values
  rw [hreserves.size] at hsize
  exact ⟨hscope ▸ hdef, by lia, hsize, .inl (hreserves.node_eq (he'.trans he))⟩

theorem binds_lowerLocalScalar (h : At t false P s) (hrun : lowerLocalScalar t d s = .ok (u, s'))
    (he : Extends s'.module m) :
    Binds m false d.name s s' := by
  rcases localScalar_cases h hrun with ⟨-, slot, s₁, halloc, hdefine⟩ |
    ⟨e, v, slot, s₁, s₂, s₃, hsteps⟩
  · obtain ⟨hm₁, -⟩ := (yields_alloc h Ty.isObject_i32 _).ok halloc
    obtain ⟨scope, hdef, rfl⟩ := define_ok.mp hdefine
    exact (newStorage_alloc h le_rfl rfl halloc (.refl _) he (hm₁.scope ▸ hdef)).binds
  · obtain ⟨scope, hdef, rfl⟩ := define_ok.mp hsteps.define
    exact (newStorage_alloc hsteps.at_value hsteps.moves_value.extends.size_values
      hsteps.moves_value.scope hsteps.alloc hsteps.moves_store.extends he
      ((hsteps.moves_slot.trans hsteps.moves_store).scope ▸ hdef)).binds

theorem newStorage_lowerLocalArray (h : At t false P s)
    (hrun : lowerLocalArray t isConst d s = .ok (u, s')) (he : Extends s'.module m) :
    ∃ x, NewStorage m isConst d.name x s s' := by
  obtain ⟨dims, values, slot, s₁, s₂, s₃, hsteps⟩ := exists_arraySteps h hrun
  obtain ⟨scope, hdef, rfl⟩ := define_ok.mp hsteps.define
  exact ⟨slot, newStorage_alloc hsteps.at_cells hsteps.moves_cells.extends.size_values
    hsteps.moves_cells.scope hsteps.alloc hsteps.moves_stores.extends he
    ((hsteps.moves_slot.trans hsteps.moves_stores).scope ▸ hdef)⟩

theorem binds_defineConst {c : Bool} (hrun : defineConst d s = .ok (u, s')) :
    Binds m c d.name s s' := by
  obtain ⟨e, w, scope, -, -, hdef, rfl⟩ := defineConst_ok hrun
  exact ⟨_, hdef, by simp⟩

theorem binds_lowerLocal (h : At t false P s) (hrun : lowerLocal t isConst d s = .ok (u, s'))
    (he : Extends s'.module m) :
    Binds m isConst d.name s s' := by
  unfold lowerLocal at hrun
  split at hrun
  · cases isConst with
    | false => exact binds_lowerLocalScalar h hrun he
    | true => exact binds_defineConst hrun
  · obtain ⟨x, hnew⟩ := newStorage_lowerLocalArray h hrun he
    exact hnew.binds

end

theorem Binds.guarded {isConst : Bool} {name : String} (h : Binds m isConst name s s')
    (hnew : x ≤ s.module.values.size ∨ isConst = true) (hg : Guarded m x s.scope) :
    Guarded m x s'.scope := by
  obtain ⟨b, hdef, hb⟩ := h
  refine hg.define ?_ hdef
  rintro a rfl
  obtain ⟨hlt, hnode, hconst⟩ := hb a false rfl
  rcases hnew with hle | htrue
  · exact not_rooted_of_storage hle hlt hnode
  · cases hconst htrue

/-- Storage that is not there yet has no name. -/
theorem not_rooted_of_bound {g : FuncId} {a : ValueId} {c : Bool} (hl : Linked m)
    (hb : BindingOk s.module g (.var a c)) (hlt : s.module.values.size < x) : ¬ m.Rooted x a := by
  obtain ⟨ty, ⟨v, hv, -⟩, -⟩ := hb
  intro hrooted
  have := hl.le_of_rooted hrooted
  have := Module.bounds_of_value? hv
  lia

theorem guarded_of_scopeOk {f : FuncId} (hl : Linked m) (h : ScopeOk s.module f s.scope)
    (hlt : s.module.values.size < x) :
    Guarded m x s.scope := by
  refine ⟨fun p hp a ha => ?_, fun fr hfr p hp a ha => ?_⟩
  · have hb := h.outer p hp f
    rw [ha] at hb
    exact not_rooted_of_bound hl hb hlt
  · have hb := h.inner fr hfr p hp
    rw [ha] at hb
    exact not_rooted_of_bound hl hb hlt

structure Shields (m : Module) (x : ValueId) (s s' : State) : Prop where
  spares : Spares m x s s'
  guarded : Guarded m x s'.scope

theorem Spares.shields (h : Spares m x s s') (hscope : s'.scope = s.scope)
    (hg : Guarded m x s.scope) : Shields m x s s' :=
  ⟨h, hscope ▸ hg⟩

theorem Shields.trans (h : Shields m x s s') (h' : Shields m x s' s'') : Shields m x s s'' :=
  ⟨h.spares.trans h'.spares, h'.guarded⟩

section
variable {isConst : Bool} {d : VarDef}

theorem shields_lowerLocal (hx : m.IsStorage x) (h : At t false P s)
    (hle : x ≤ s.module.values.size) (hg : Guarded m x s.scope) {u : Unit}
    (hrun : lowerLocal t isConst d s = .ok (u, s')) (he : Extends s'.module m) :
    Shields m x s s' :=
  ⟨(course_lowerLocal h (spreads_spared hx hle) hrun he).spares he (fun _ hd => hd) hle,
    (binds_lowerLocal h hrun he).guarded (.inl hle) hg⟩

theorem shields_lowerLocals (hx : m.IsStorage x) (ds : List VarDef) :
    ∀ {s : State} {u : Unit}, At t false P s →
    x ≤ s.module.values.size → Guarded m x s.scope → ds.forM (lowerLocal t isConst) s =
      .ok (u, s') → Extends s'.module m →
    Shields m x s s' := by
  induction ds with
  | nil =>
    intro s u _ _ hg hrun _
    obtain ⟨-, rfl⟩ := pure_ok.mp hrun
    exact ⟨.of_size rfl, hg⟩
  | cons d ds ih =>
    intro s u h hle hg hrun he
    rw [List.forM] at hrun
    obtain ⟨⟨⟩, s₁, hd, hds⟩ := bind_ok.mp hrun
    obtain ⟨hp₁, h₁⟩ := (lasts_lowerLocal h isConst d).ok hd
    obtain ⟨hp₂, -⟩ := (lasts_lowerLocals isConst ds h₁).ok hds
    have hfirst := shields_lowerLocal hx h hle hg hd (hp₂.grows.extends.trans he)
    exact hfirst.trans (ih h₁ (hle.trans hp₁.grows.extends.size_values) hfirst.guarded hds he)

end

/-! Statements. -/

theorem spares_openCond {test : Expr} {hasElse : Bool} {p : BlockId × BlockId} (h : At t false P s)
    (hrun : openCond t test hasElse s = .ok (p, s')) (he : Extends s'.module m)
    (hle : x ≤ s.module.values.size) :
    Spares m x s s' := by
  obtain ⟨noBlock, after⟩ := p
  obtain ⟨c, yesBlock, s₁, s₂, hcourse, hadds, hstart⟩ := openCond_course h hrun
  have he₂ := (extends_startBlock hadds.found hstart).trans he
  exact (hcourse.spares (hadds.extends.trans he₂) (by simp) hle).trans
    ((hadds.spares he₂ (by simp)).trans
    (.of_size (size_startBlock hstart)))

theorem spares_leaveFor {target onward : BlockId} (h : At t false P s)
    (hrun : leaveFor t target onward s = .ok ((), s')) (he : Extends s'.module m) :
    Spares m x s s' := by
  obtain ⟨id, s₁, hjump, hstart⟩ := bind_ok.mp hrun
  obtain ⟨hadds, -⟩ := adds_jump h hjump
  exact (hadds.spares ((extends_startBlock hadds.found hstart).trans he) (by simp)).trans
    (.of_size (size_startBlock hstart))

theorem shields_leaveFor {target onward : BlockId} (h : At t false P s) (hg : Guarded m x s.scope)
    (hrun : leaveFor t target onward s = .ok ((), s')) (he : Extends s'.module m) :
    Shields m x s s' := by
  have hspares := spares_leaveFor (x := x) h hrun he
  obtain ⟨id, s₁, hjump, hstart⟩ := bind_ok.mp hrun
  obtain ⟨⟨fn, ty, -, -, rfl⟩, -⟩ := adds_jump h hjump
  rw [startBlock_eq] at hstart
  obtain ⟨-, rfl⟩ := Prod.mk.inj (Except.ok.inj hstart)
  exact hspares.shields rfl hg

theorem spares_openLoop {test : Expr} {l : Loop} (h : At t false P s)
    (hrun : openLoop t test s = .ok (l, s')) (he : Extends s'.module m)
    (hle : x ≤ s.module.values.size) : Spares m x s s' := by
  obtain ⟨c, bb, s₁, s₂, s₃, s₄, hlabels, ⟨Q, h₁⟩, hleave, hcourse, hadds, hstart⟩ :=
    openLoop_course h hrun
  have he₄ := (extends_startBlock hadds.found hstart).trans he
  have he₃ := hadds.extends.trans he₄
  have he₂ := hcourse.extends.trans he₃
  have hm₂ := extends_leaveFor h₁ hleave
  have henter : Spares m x s s₂ :=
    (hlabels.spares (hm₂.trans he₂) (by simp) hle).trans (spares_leaveFor h₁ hleave he₂)
  exact henter.trans
    ((hcourse.spares he₃ (by simp) (hle.trans (hlabels.extends.trans hm₂).size_values)).trans
    ((hadds.spares he₄ (by simp)).trans (.of_size (size_startBlock hstart))))

theorem spares_openFresh {target : BlockId} {id : ValueId} (h : At t false P s)
    (htarget : IsTarget s.module t.func target)
    (hjump : build (Build.jump t.func target) s = .ok (id, s₁))
    (hfresh : openFresh t s₁ = .ok ((), s')) (he : Extends s'.module m) : Spares m x s s' := by
  obtain ⟨fresh, s₂, hnew, hstart⟩ := bind_ok.mp hfresh
  obtain ⟨hadds, -⟩ := adds_jump h hjump
  have hmakes := makes_newBlock ((gives_jump h htarget).ok hjump).2 hnew
  obtain ⟨fn, hf⟩ := hadds.found
  obtain ⟨fn', hf', -⟩ := hmakes.extends.func hf
  have he₁ := hmakes.extends.trans ((extends_startBlock ⟨fn', hf'⟩ hstart).trans he)
  exact (hadds.spares he₁ (by simp)).trans (.of_size ((size_startBlock hstart).trans hmakes.size))

mutual

/-- While `x` goes by constant names only, lowering a statement adds no store into it. -/
theorem shields_lowerStmt (hx : m.IsStorage x) (hresult : ∀ r, t.result = some r → ¬ m.Rooted x r)
    {s s' : State} {P : Set Nat} {loops : List Loop} (h : At t false P s)
    (hloops : LoopsOk s.module t.func loops) (hle : x ≤ s.module.values.size)
    (hg : Guarded m x s.scope) :
    ∀ y : Stmt, lowerStmt t loops y s = .ok ((), s') → Extends s'.module m → Shields m x s s'
  | .block span xs, hrun, he => by
    rw [lowerStmt, run_bind (enter_run .block)] at hrun
    obtain ⟨⟨⟩, s₁, hxs, hclose⟩ := bind_ok.mp hrun
    obtain rfl : { s₁ with scope := s₁.scope.exit } = s' := (Prod.mk.inj (Except.ok.inj hclose)).2
    have hbody := shields_lowerStmts hx hresult h.enter hloops hle (hg.enter .block) xs hxs he
    exact ⟨hbody.spares, hbody.guarded.exit⟩
  | .decl span d, hrun, he => by
    rw [lowerStmt] at hrun
    exact shields_lowerLocals hx d.defs h hle hg hrun he
  | .assign span target name indices value, hrun, he => by
    have hcourse : Course t {d | ¬ m.Rooted x d} s s' :=
      course_assign h hrun fun v place s₁ hlval hplace hm =>
      place_spared hx h hg hlval hplace (hm.trans he)
    exact (hcourse.spares he (fun _ hd => hd) hle).shields (moves_assign h hrun).scope hg
  | .expr span none, hrun, he => by
    rw [lowerStmt] at hrun
    obtain ⟨-, rfl⟩ := pure_ok.mp hrun
    exact ⟨.of_size rfl, hg⟩
  | .expr span (some e), hrun, he => by
    rw [lowerStmt] at hrun
    obtain ⟨v, s₁, hexpr, hpure⟩ := bind_ok.mp hrun
    obtain ⟨-, rfl⟩ := pure_ok.mp hpure
    exact ((course_lowerExpr (S := ∅) h e hexpr).spares he (by simp) hle).shields
      ((yields_lowerExpr h e).ok hexpr).1.scope hg
  | .cond span test yes none, hrun, he => by
    obtain ⟨p, s₁, hopen⟩ := exists_openCond hrun
    obtain ⟨s₂, Q, hm₁, hyes, hleave, hm₃⟩ := cond_parts h hloops hrun hopen
    have he₂ := hm₃.extends.trans he
    have hle₁ := hle.trans hm₁.extends.size_values
    have hopened :=
      (spares_openCond h hopen (hyes.passes.grows.extends.trans he₂) hle).shields hm₁.scope hg
    have harm :=
      shields_lowerStmt hx hresult hyes.here hyes.targets hle₁ hopened.guarded yes hyes.run he₂
    exact hopened.trans (harm.trans (shields_leaveFor hyes.behind harm.guarded hleave he))
  | .cond span test yes (some no), hrun, he => by
    obtain ⟨p, s₁, hopen⟩ := exists_openCond hrun
    obtain ⟨s₂, s₃, s₄, Q, R, hm₁, hyes, hturn, hm₃, hno, hleave, hm₅⟩ :=
      cond_else_parts h hloops hrun hopen
    have he₄ := hm₅.extends.trans he
    have he₃ := hno.passes.grows.extends.trans he₄
    have he₂ := hm₃.extends.trans he₃
    have hle₁ := hle.trans hm₁.extends.size_values
    have hle₃ := hle₁.trans (hyes.passes.grows.extends.trans hm₃.extends).size_values
    have hopened :=
      (spares_openCond h hopen (hyes.passes.grows.extends.trans he₂) hle).shields hm₁.scope hg
    have harm :=
      shields_lowerStmt hx hresult hyes.here hyes.targets hle₁ hopened.guarded yes hyes.run he₂
    have hturned := shields_leaveFor hyes.behind harm.guarded hturn he₃
    have harm' :=
      shields_lowerStmt hx hresult hno.here hno.targets hle₃ hturned.guarded no hno.run he₄
    exact hopened.trans (harm.trans
      (hturned.trans (harm'.trans (shields_leaveFor hno.behind harm'.guarded hleave he))))
  | .loop span test body, hrun, he => by
    obtain ⟨l, s₁, hopen⟩ := exists_openLoop hrun
    obtain ⟨s₂, Q, hm₁, hbody, hleave, hm₃⟩ := loop_parts h hloops hrun hopen
    have he₂ := hm₃.extends.trans he
    have hle₁ := hle.trans hm₁.extends.size_values
    have hopened :=
      (spares_openLoop h hopen (hbody.passes.grows.extends.trans he₂) hle).shields hm₁.scope hg
    have hturn :=
      shields_lowerStmt hx hresult hbody.here hbody.targets hle₁ hopened.guarded body hbody.run he₂
    exact hopened.trans (hturn.trans (shields_leaveFor hbody.behind hturn.guarded hleave he))
  | .leave span, hrun, he => by
    obtain ⟨l, ls, id, s₁, rfl, hjump, hfresh⟩ := jump_ok (.inl ⟨rfl, rfl⟩) hrun
    have htarget := (hloops l (List.mem_cons_self ..)).2
    exact (spares_openFresh h htarget hjump hfresh he).shields
      (moves_leave h htarget hjump hfresh).scope hg
  | .next span, hrun, he => by
    obtain ⟨l, ls, id, s₁, rfl, hjump, hfresh⟩ := jump_ok (.inr ⟨rfl, rfl⟩) hrun
    have htarget := (hloops l (List.mem_cons_self ..)).1
    exact (spares_openFresh h htarget hjump hfresh he).shields
      (moves_leave h htarget hjump hfresh).scope hg
  | .ret span value, hrun, he => by
    obtain ⟨id, s₁, s₂, hjump, hfresh, hvalue⟩ := ret_ok hrun
    cases value with
    | none =>
      dsimp only at hvalue
      subst hvalue
      exact (spares_openFresh h h.exit_isTarget hjump hfresh he).shields
        (moves_leave h h.exit_isTarget hjump hfresh).scope hg
    | some e =>
      obtain ⟨slot, v, u, s₀, hslot, hv, hstore⟩ := hvalue
      obtain ⟨hm₀, h₀, hvR⟩ := (yields_lowerScalar h e).ok hv
      obtain ⟨hm₁, h₁, -⟩ := (yields_store h₀ hvR (h₀.result slot hslot)).ok hstore
      have hm₂ := moves_leave h₁ h₁.exit_isTarget hjump hfresh
      have he₁ := hm₂.extends.trans he
      -- the slot of the result is no place of the program, so the scope says nothing of it
      have hcourse : Course t {d | ¬ m.Rooted x d} s s₁ :=
        (course_lowerScalar h hv).trans (.of_store h₀ hstore (hresult slot hslot))
      exact ((hcourse.spares he₁ (fun _ hd => hd) hle).trans
        (spares_openFresh h₁ h₁.exit_isTarget hjump hfresh he)).shields
        (hm₀.trans (hm₁.trans hm₂)).scope hg

theorem shields_lowerStmts (hx : m.IsStorage x) (hresult : ∀ r, t.result = some r → ¬ m.Rooted x r)
    {s s' : State} {P : Set Nat} {loops : List Loop} (h : At t false P s)
    (hloops : LoopsOk s.module t.func loops) (hle : x ≤ s.module.values.size)
    (hg : Guarded m x s.scope) :
    ∀ ys : List Stmt, lowerStmts t loops ys s = .ok ((), s') → Extends s'.module m →
    Shields m x s s'
  | [], hrun, he => by
    rw [lowerStmts] at hrun
    obtain ⟨-, rfl⟩ := pure_ok.mp hrun
    exact ⟨.of_size rfl, hg⟩
  | y :: ys, hrun, he => by
    rw [lowerStmts] at hrun
    obtain ⟨⟨⟩, s₁, hy, hys⟩ := bind_ok.mp hrun
    obtain ⟨hp₁, h₁⟩ := (lasts_lowerStmt h hloops y).ok hy
    have hloops₁ := hloops.extends hp₁.grows.extends
    obtain ⟨hp₂, -⟩ := (lasts_lowerStmts h₁ hloops₁ ys).ok hys
    have hfirst := shields_lowerStmt hx hresult h hloops hle hg y hy (hp₂.grows.extends.trans he)
    exact hfirst.trans (shields_lowerStmts hx hresult h₁ hloops₁
      (hle.trans hp₁.grows.extends.size_values) hfirst.guarded ys hys he)

end

end Sysy.Lowering
