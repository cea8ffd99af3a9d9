import Sysy.Proofs.Lowering.Stmt

/-!
Sound modules. `Linked` is about values and their uses, `Finished` about the code of a function that
is lowered to its end, and `Sound` about all of a module between two items of a program. Work on one
function touches no other one.
-/

namespace Sysy.Lowering
open Ir

variable {m m' m'' : Module} {f g : Nat} {fn gn : Func}

/-- Uses are recorded, and a value is made after the values that it uses. Nothing uses a value of
type `unit`. -/
structure Linked (m : Module) : Prop where
  callable : ∀ g fn, m.func? g = some fn → Callable fn
  uses : ∀ x y, (x, y) ∈ m.uses ↔ ∃ v, m.value? y = some v ∧ x ∈ v.node.operands
  operand : ∀ y v, m.value? y = some v → ∀ x ∈ v.node.operands, x < y ∧ ∃ w, m.value? x = some w ∧
    w.ty.isUnit = false

def Grounded (m : Module) (node : Node) : Prop :=
  ∀ x ∈ node.operands, ∃ w, m.value? x = some w ∧ w.ty.isUnit = false

theorem Linked.add {v : Value} (h : Linked m) (hv : Grounded m v.node) : Linked (m.add v).2 := by
  have he := Extends.add m v
  refine ⟨h.callable, fun x y => ?_, fun y w hw x hx => ?_⟩
  · rw [Module.mem_uses_add, h.uses, Module.value?_add]
    constructor
    · rintro (⟨w, hw, hx⟩ | ⟨hx, rfl⟩)
      · have := Module.bounds_of_value? hw
        exact ⟨w, by rw [if_neg (by lia)]; exact hw, hx⟩
      · exact ⟨v, if_pos rfl, hx⟩
    · rintro ⟨w, hw, hx⟩
      split at hw
      · obtain rfl := Option.some.inj hw
        exact .inr ⟨hx, ‹_›⟩
      · exact .inl ⟨w, hw, hx⟩
  · rw [Module.value?_add] at hw
    split at hw
    · obtain rfl := Option.some.inj hw
      obtain ⟨u, hu, hunit⟩ := hv x hx
      have := Module.bounds_of_value? hu
      exact ⟨by lia, u, he.value hu, hunit⟩
    · obtain ⟨hlt, u, hu, hunit⟩ := h.operand y w hw x hx
      exact ⟨hlt, u, he.value hu, hunit⟩

theorem Linked.modifyFunc (h : Linked m) (hf : m.func? f = some fn) {change : Func → Func}
    (hb : fn.Before (change fn)) : Linked (m.modifyFunc f change) := by
  refine ⟨fun g gn hg => ?_, h.uses, h.operand⟩
  rw [Module.func?_modifyFunc _ _ (Module.bounds_of_func? hf).1] at hg
  split at hg
  · rename_i heq
    subst heq
    rw [hf] at hg
    obtain rfl := Option.some.inj hg
    have hc := h.callable _ _ hf
    exact ⟨by rw [hb.params]; exact hc.params, by rw [hb.ret]; exact hc.ret⟩
  · exact h.callable g gn hg

theorem Linked.close {v : Value} {b : Block} (h : Linked m) (hf : m.func? f = some fn)
    (hb : fn.block? v.block = some b) (hv : Grounded m v.node) : Linked (m.close f v) := by
  have hfunc := m.func?_append v (g := f) hf
  rw [if_pos rfl] at hfunc
  have hf' : (m.add v).2.func? f = some fn := hf
  exact ((h.add hv).modifyFunc hf' (Func.before_push hb)).modifyFunc hfunc (Func.before_record _)

theorem Grounded.of_instOk {bb : Nat} {node : Node} {ty : Ty}
    (hc : ∀ g fn, m.func? g = some fn → Callable fn) (h : InstOk m f fn bb node ty) :
    Grounded m node := by
  intro x hx
  rcases h.operand_cases hx with ⟨_, ⟨w, hw, rfl, -⟩, hunit | ⟨g, callee, hg, hmem⟩⟩ | ⟨v, i, hv, -,
    -, -, -, hparam, -⟩
  · exact ⟨w, hw, hunit⟩
  · exact ⟨w, hw, ((hc g callee hg).params _ hmem).isUnit⟩
  · exact ⟨v, hv, hparam.isUnit⟩

theorem Linked.step (h : Linked m) (hs : Step f m m') : Linked m' := by
  cases hs with
  | constant w => exact h.add (by simp [Grounded, Node.operands])
  | inst hf _ htakes _ hok =>
    obtain ⟨_, b, hf', hb, -⟩ := htakes
    obtain rfl := Option.some.inj (hf.symm.trans hf')
    exact h.close hf hb (.of_instOk h.callable hok)
  | label hf _ => exact h.modifyFunc hf (Func.before_addBlock _)
  | start hf _ _ _ _ _ => exact h.modifyFunc hf Func.before_start

theorem Linked.grows (h : Linked m) (hg : Grows f m m') : Linked m' := by
  induction hg with
  | refl => exact h
  | tail _ hs ih => exact ih.step hs

structure Touches (f : FuncId) (m m' : Module) : Prop where
  grown : Extends m m'
  other : ∀ g, g ≠ f → m'.func? g = m.func? g
  fresh : ∀ id v, m'.value? id = some v →
    m.value? id = some v ∨ (v.func = f ∨ v.func = 0) ∧ ∀ init, v.node ≠ .global init
  globals : m'.globals = m.globals

namespace Touches

theorem refl (m : Module) : Touches f m m := ⟨.refl m, fun _ _ => rfl, fun _ _ h => .inl h, rfl⟩

theorem trans (h : Touches f m m') (h' : Touches f m' m'') : Touches f m m'' where
  grown := h.grown.trans h'.grown
  other g hg := (h'.other g hg).trans (h.other g hg)
  fresh id v hv := by
    rcases h'.fresh id v hv with hv | hnew
    · exact h.fresh id v hv
    · exact .inr hnew
  globals := h'.globals.trans h.globals

theorem add {v : Value} (hv : v.func = f ∨ v.func = 0) (hnode : ∀ init, v.node ≠ .global init) :
    Touches f m (m.add v).2 where
  grown := .add m v
  other _ _ := rfl
  fresh id w hw := by
    rw [Module.value?_add] at hw
    split at hw
    · obtain rfl := Option.some.inj hw
      exact .inr ⟨hv, hnode⟩
    · exact .inl hw
  globals := rfl

theorem modifyFunc (hf : m.func? f = some fn) {change : Func → Func} (hb : fn.Before (change fn)) :
    Touches f m (m.modifyFunc f change) where
  grown := .modifyFunc hf change hb
  other g hg := by rw [Module.func?_modifyFunc _ _ (Module.bounds_of_func? hf).1, if_neg hg]
  fresh _ _ h := .inl h
  globals := rfl

theorem close {v : Value} {b : Block} {bb : Nat} (hf : m.func? f = some fn)
    (hb : fn.block? v.block = some b) (hfunc : v.func = f) (hok : InstOk m f fn bb v.node v.ty) :
    Touches f m (m.close f v) := by
  have hnode : ∀ init, v.node ≠ .global init := by
    intro init hnode
    generalize v.ty = ty at hok
    rw [hnode] at hok
    cases hok with
    | plain _ ht => cases ht
    | leave _ hl => cases hl
  have hf' : (m.add v).2.func? f = some fn := hf
  have hfunc' := m.func?_append v (g := f) hf
  rw [if_pos rfl] at hfunc'
  exact ((add (.inl hfunc) hnode).trans (modifyFunc hf' (Func.before_push hb))).trans
    (modifyFunc hfunc' (Func.before_record _))

theorem of_step (hs : Step f m m') : Touches f m m' := by
  cases hs with
  | constant w => exact add (.inr rfl) (by simp)
  | inst hf hfunc htakes _ hok =>
    obtain ⟨_, b, hf', hb, -⟩ := htakes
    obtain rfl := Option.some.inj (hf.symm.trans hf')
    exact close hf hb hfunc hok
  | label hf _ => exact modifyFunc hf (Func.before_addBlock _)
  | start hf _ _ _ _ _ => exact modifyFunc hf Func.before_start

theorem of_grows (hg : Grows f m m') : Touches f m m' := by
  induction hg with
  | refl => exact refl _
  | tail _ hs ih => exact ih.trans (of_step hs)

end Touches

/-- A function whose code is complete: every block is finished, every jump goes to a block of the
layout, and the exit, which comes last, returns. -/
structure Finished (m : Module) (f : FuncId) (fn : Func) : Prop extends Coded m f fn where
  last : fn.layout.toList.getLast? = some 2
  ended : ∀ bb ∈ fn.layout.toList, m.Ended (fn.code bb) = true
  targets : ∀ bb id, (bb, id) ∈ fn.jumps → bb ∈ fn.layout.toList
  returns : ∃ id v val, (fn.code 2).getLast? = some id ∧ m.value? id = some v ∧ v.node = .ret val

theorem Finished.elsewhere (h : Finished m g gn) (he : Extends m m') (hfound : m'.func? g = some gn)
    (hnew : ∀ id v, m'.value? id = some v → v.func = g → m.value? id = some v) :
    Finished m' g gn := by
  obtain ⟨id, v, val, hid, hv, hnode⟩ := h.returns
  exact { h.toCoded.elsewhere he hfound hnew with
    last := h.last
    ended := fun bb hbb => by rw [h.ended_eq he]; exact h.ended bb hbb
    targets := h.targets
    returns := ⟨id, v, val, hid, he.value hv, hnode⟩ }

theorem Finished.isDeclared (h : Finished m f fn) : fn.isDeclared = false := by
  rw [Func.isDeclared, ← Bool.not_eq_true, Array.isEmpty_iff]
  intro hnil
  have hfirst := h.first
  rw [hnil] at hfirst
  cases hfirst

def Holds (m : Module) : (ds : List Nat) → ValueId → List Word → Prop
  | [], id, ws => ∃ v, m.value? id = some v ∧ v.ty = .i32 ∧
      (v.node = .zeroInit ∧ ws = [0] ∨ ∃ w, v.node = .integer w ∧ ws = [w])
  | n :: ns, id, ws => ∃ v, m.value? id = some v ∧ v.ty = .ofDims (n :: ns) ∧
      (v.node = .zeroInit ∧ ws = List.replicate (product (n :: ns)) 0 ∨
        ∃ elems rows, v.node = .aggregate elems ∧ elems.length = n ∧
          List.Forall₂ (Holds m ns) elems rows ∧ ws = rows.flatten)

def IsArg (m : Module) (f : FuncId) (id : ValueId) (p : Ty × Nat) : Prop :=
  ∃ v, m.value? id = some v ∧ v.node = .arg p.2 ∧ v.ty = p.1 ∧ v.func = f

def ArgsOk (m : Module) (fn : Func) : Prop := List.Forall₂ (IsArg m fn.id) fn.args fn.params.zipIdx

def GlobalOk (m : Module) (id : ValueId) : Prop :=
  ∃ v init ds ws, m.value? id = some v ∧ v.node = .global init ∧
    v.ty = .ptr (.ofDims ds) ∧ Shaped ds ∧
    Holds m ds init ws

def FuncOk (m : Module) (g : FuncId) (fn : Func) : Prop :=
  fn.id = g ∧ ArgsOk m fn ∧
    (fn.layout = #[] ∧ (fn.name, fn.params, fn.ret) ∈ Build.libraryFuncs ∨ Finished m g fn)

structure Sound (m : Module) : Prop where
  linked : Linked m
  funcs : ∀ g fn, m.func? g = some fn → FuncOk m g fn
  globals : ∀ id ∈ m.globals, GlobalOk m id
  listed : ∀ id v init, m.value? id = some v → v.node = .global init → id ∈ m.globals
  owner : ∀ id v, m.value? id = some v → v.func ≤ m.funcs.size

theorem IsArg.extends {id : Nat} {p : Ty × Nat} (h : IsArg m f id p) (he : Extends m m') :
    IsArg m' f id p := by
  obtain ⟨v, hv, hrest⟩ := h
  exact ⟨v, he.value hv, hrest⟩

theorem ArgsOk.extends (h : ArgsOk m fn) (he : Extends m m') : ArgsOk m' fn :=
  List.Forall₂.imp (fun _ _ harg => harg.extends he) h

theorem Holds.extends {ds : List Nat} {id : Nat} {ws : List Word} (h : Holds m ds id ws)
    (he : Extends m m') :
    Holds m' ds id ws := by
  induction ds generalizing id ws with
  | nil =>
    obtain ⟨v, hv, hrest⟩ := h
    exact ⟨v, he.value hv, hrest⟩
  | cons n ns ih =>
    obtain ⟨v, hv, hty, hzero | ⟨elems, rows, hnode, hlen, hrows, hws⟩⟩ := h
    · exact ⟨v, he.value hv, hty, .inl hzero⟩
    · exact ⟨v, he.value hv, hty, .inr ⟨elems, rows, hnode, hlen, hrows.imp fun _ _ => ih, hws⟩⟩

theorem GlobalOk.extends {id : Nat} (h : GlobalOk m id) (he : Extends m m') : GlobalOk m' id := by
  obtain ⟨v, init, ds, ws, hv, hnode, hty, hds, hholds⟩ := h
  exact ⟨v, init, ds, ws, he.value hv, hnode, hty, hds, hholds.extends he⟩

theorem FuncOk.touches (h : FuncOk m g gn) (hg : m.func? g = some gn) (hne : g ≠ f)
    (ht : Touches f m m') :
    FuncOk m' g gn := by
  obtain ⟨hid, hargs, hrest⟩ := h
  refine ⟨hid, hargs.extends ht.grown, hrest.imp_right fun hfin => ?_⟩
  refine hfin.elsewhere ht.grown ((ht.other g hne).trans hg) fun id v hv hfunc => ?_
  rcases ht.fresh id v hv with hold | ⟨hf | hzero, -⟩
  · exact hold
  · exact absurd (hfunc.symm.trans hf) hne
  · have := Module.bounds_of_func? hg
    lia

/-- After work on one function only that function needs to be looked at. -/
theorem Sound.touches (h : Sound m) (ht : Touches f m m') (hl : Linked m') (hf : f ≤ m'.funcs.size)
    (hok : ∀ fn, m'.func? f = some fn → FuncOk m' f fn) : Sound m' := by
  refine ⟨hl, fun g gn hg => ?_, fun id hid => ?_, fun id v init hv hnode => ?_, fun id v hv => ?_⟩
  · by_cases hne : g = f
    · subst hne
      exact hok gn hg
    · have hg' := (ht.other g hne).symm.trans hg
      exact (h.funcs g gn hg').touches hg' hne ht
  · rw [ht.globals] at hid
    exact (h.globals id hid).extends ht.grown
  · rw [ht.globals]
    rcases ht.fresh id v hv with hold | ⟨-, hnot⟩
    · exact h.listed id v init hold hnode
    · exact absurd hnode (hnot init)
  · rcases ht.fresh id v hv with hold | ⟨hf' | hzero, -⟩
    · exact (h.owner id v hold).trans ht.grown.size_funcs
    · rw [hf']
      exact hf
    · lia

theorem Sound.values (h : Sound m) (ht : Touches 0 m m') (hl : Linked m') : Sound m' :=
  h.touches ht hl (Nat.zero_le _) fun fn hf => by cases hf

end Sysy.Lowering
