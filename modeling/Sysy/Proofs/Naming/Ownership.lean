import Sysy.Proofs.Assembly.Loading
import Sysy.Proofs.Frame
import Sysy.Proofs.Naming.Order

/-!
Whose values the text of a function mentions: globals, and arguments and instructions of the
function itself, each of which it defines once.
-/

namespace Sysy.Ir

/-- The values that the text of a function defines: its arguments and the results of its
instructions. -/
def Func.definitions (m : Module) (fn : Func) : List ValueId :=
  fn.args ++ fn.insts.filter fun id => ((m.value? id).map (·.isResult)).getD false

def Module.defined (m : Module) : List Func := m.funcs.toList.filter (!·.isDeclared)

end Sysy.Ir

namespace Sysy.Lowering
open Ir Printer

variable {m : Module} {f g : FuncId} {fn gn : Func} {id x : ValueId} {ids : List ValueId}

def Owned (m : Module) (f : FuncId) (id : ValueId) : Prop :=
  id ∈ m.globals.toList ∨ ∃ v, m.value? id = some v ∧ v.func = f ∧ ∀ init, v.node ≠ .global init

theorem Owned.le (h : Sound m) (ho : Owned m f id) : id ≤ m.values.size := by
  rcases ho with hglobal | ⟨v, hv, -⟩
  · obtain ⟨v, init, ds, ws, hv, -⟩ := h.globals id (Array.mem_toList_iff.mp hglobal)
    exact (Module.bounds_of_value? hv).2
  · exact (Module.bounds_of_value? hv).2

theorem Owned.global (h : Owned m f id) (h' : Owned m g id) (hne : f ≠ g) :
    id ∈ m.globals.toList := by
  rcases h with hglobal | ⟨v, hv, hf, -⟩
  · exact hglobal
  · rcases h' with hglobal | ⟨v', hv', hg, -⟩
    · exact hglobal
    · obtain rfl := Option.some.inj (hv.symm.trans hv')
      exact absurd (hf.symm.trans hg) hne

theorem useMentions_cases (m : Module) (x : ValueId) (h : ∀ es, m.node? x ≠ some (.aggregate es)) :
    m.useMentions x = [] ∨ m.useMentions x = [x] ∧ ∀ w, m.node? x ≠ some (.integer w) := by
  rw [Module.useMentions, Spells.operandMentions_succ]
  cases hnode : m.node? x with
  | none => exact .inl rfl
  | some node =>
    cases node with
    | integer w | zeroInit => exact .inl rfl
    | aggregate es => exact absurd hnode (h es)
    | _ => exact .inr ⟨rfl, by simp⟩

theorem owned_of_readable {ty : Ty} (h : Sound m) (hr : m.Readable f x ty) : ∀ id ∈ m.useMentions x,
    Owned m f id := by
  obtain ⟨v, hv, -, hread⟩ := hr
  have hnode := Module.node?_eq hv
  rcases useMentions_cases m x fun es heq => by
      rw [hnode] at heq
      rw [Value.IsReadable, Option.some.inj heq] at hread
      exact hread with hnil | ⟨hself, hnot⟩
  · simp [hnil]
  · rw [hself]
    intro id hid
    obtain rfl := List.mem_singleton.mp hid
    rcases hread.cases with ⟨w, hw⟩ | ⟨init, hglobal⟩ | ⟨hf, -⟩
    · exact absurd (hw ▸ hnode) (hnot w)
    · exact .inl (Array.mem_toList_iff.mpr (h.listed _ v init hv hglobal))
    · by_cases hglobal : ∃ init, v.node = .global init
      · obtain ⟨init, hglobal⟩ := hglobal
        exact .inl (Array.mem_toList_iff.mpr (h.listed _ v init hv hglobal))
      · exact .inr ⟨v, hv, hf, not_exists.mp hglobal⟩

theorem owned_of_arg {i : Nat} {v : Value} (hv : m.value? x = some v) (hnode : v.node = .arg i)
    (hf : v.func = f) :
    ∀ id ∈ m.useMentions x, Owned m f id := by
  have hnode' := Module.node?_eq hv
  rw [hnode] at hnode'
  rcases useMentions_cases m x (by simp [hnode']) with hnil | ⟨hself, -⟩
  · simp [hnil]
  · rw [hself]
    intro id hid
    obtain rfl := List.mem_singleton.mp hid
    exact .inr ⟨v, hv, hf, by simp [hnode]⟩

theorem owned_of_inst (h : Sound m) (hfin : Finished m f fn) (hid : id ∈ fn.insts) :
    ∀ x ∈ m.instMentions id, Owned m f x := by
  obtain ⟨bb, hid⟩ := (Frame.mem_insts hfin).mp hid
  obtain ⟨v, hv, hf, -, hok⟩ := hfin.inst bb id hid
  have hself (hnot : ∀ init, v.node ≠ .global init) : Owned m f id := .inr ⟨v, hv, hf, hnot⟩
  intro x hx
  rw [Module.instMentions, hv] at hx
  dsimp only at hx
  generalize v.ty = ty at hok hx
  generalize v.node = node at hok hself hx
  cases hok with
  | alloc =>
    obtain rfl := List.mem_singleton.mp hx
    exact hself (by simp)
  | param _ harg harg' hfunc _ _ hdest =>
    rcases List.mem_append.mp hx with hx | hx
    · exact owned_of_arg harg harg' hfunc x hx
    · exact owned_of_readable h hdest x hx
  | enter => cases hx
  | ret => cases hx
  | retVal _ _ hval => exact owned_of_readable h hval x hx
  | leave _ hl =>
    cases hl with
    | jump => cases hx
    | branch hcond => exact owned_of_readable h hcond x hx
  | plain _ ht =>
    cases ht with
    | load hsrc =>
      rcases List.mem_cons.mp hx with rfl | hx
      · exact hself (by simp)
      · exact owned_of_readable h hsrc x hx
    | store hval hdest =>
      rcases List.mem_append.mp hx with hx | hx
      · exact owned_of_readable h hval x hx
      · exact owned_of_readable h hdest x hx
    | getPtr _ hl hr | getElemPtr _ hl hr | binary _ hl hr =>
      rcases List.mem_cons.mp hx with rfl | hx
      · exact hself (by simp)
      · rcases List.mem_append.mp hx with hx | hx
        · exact owned_of_readable h hl x hx
        · exact owned_of_readable h hr x hx
    | call _ hargs =>
      rcases List.mem_append.mp hx with hx | hx
      · obtain ⟨y, hy, hx⟩ := List.mem_flatMap.mp hx
        obtain ⟨i, hi, rfl⟩ := List.getElem_of_mem hy
        exact owned_of_readable h (hargs.get hi (hargs.length_eq ▸ hi)) x hx
      · split at hx
        · cases hx
        · obtain rfl := List.mem_singleton.mp hx
          exact hself (by simp)

theorem arg_of_mem (hargs : ArgsOk m fn) (hid : id ∈ fn.args) :
    ∃ v i, m.value? id = some v ∧ v.node = .arg i ∧ v.func = fn.id := by
  obtain ⟨i, hi, rfl⟩ := List.getElem_of_mem hid
  obtain ⟨v, hv, hnode, -, hf⟩ := hargs.get hi (hargs.length_eq ▸ hi)
  exact ⟨v, _, hv, hnode, hf⟩

theorem length_args (hargs : ArgsOk m fn) : fn.args.length = fn.params.length := by
  simpa using hargs.length_eq

theorem map_zip_args (hargs : ArgsOk m fn) : (fn.args.zip fn.params).map (·.1) = fn.args :=
  List.map_fst_zip (le_of_eq (length_args hargs))

/-- What the text of a function mentions is a global or belongs to the function. -/
theorem owned_of_mentions (h : Sound m) (hfin : Finished m f fn) (hx : x ∈ fn.mentions m) :
    Owned m f x := by
  obtain ⟨hident, hargs, -⟩ := h.funcs f fn hfin.found
  rw [Func.mentions, map_zip_args hargs] at hx
  rcases List.mem_append.mp hx with hx | hx
  · obtain ⟨v, i, hv, hnode, hf⟩ := arg_of_mem hargs hx
    exact .inr ⟨v, hv, hf.trans hident, by simp [hnode]⟩
  · obtain ⟨id, hid, hx⟩ := List.mem_flatMap.mp hx
    exact owned_of_inst h hfin hid x hx

theorem mem_instMentions {v : Value} (hv : m.value? id = some v) (h : v.isResult = true) :
    id ∈ m.instMentions id := by
  rw [Module.instMentions, hv]
  unfold Value.isResult at h
  cases hnode : v.node <;> simp only [hnode] at h ⊢
  case alloc | load | getPtr | getElemPtr | binary => exact List.mem_cons_self ..
  case call =>
    refine List.mem_append_right _ ?_
    rw [Bool.not_eq_true'] at h
    simp [h]
  all_goals cases h

theorem mem_mentions_of_definitions (h : Sound m) (hfin : Finished m f fn)
    (hid : id ∈ fn.definitions m) :
    id ∈ fn.mentions m := by
  obtain ⟨-, hargs, -⟩ := h.funcs f fn hfin.found
  rw [Func.mentions, map_zip_args hargs]
  rcases List.mem_append.mp hid with hid | hid
  · exact List.mem_append_left _ hid
  · obtain ⟨hmem, hresult⟩ := List.mem_filter.mp hid
    cases hv : m.value? id with
    | none =>
      rw [hv] at hresult
      cases hresult
    | some v =>
      rw [hv] at hresult
      exact List.mem_append_right _ (List.mem_flatMap.mpr ⟨id, hmem, mem_instMentions hv hresult⟩)

theorem nodup_args (hargs : ArgsOk m fn) : fn.args.Nodup := by
  rw [List.nodup_iff_injective_get]
  intro i j heq
  obtain ⟨v, hv, hnode, -⟩ := hargs.get i.2 (hargs.length_eq ▸ i.2)
  obtain ⟨w, hw, hnode', -⟩ := hargs.get j.2 (hargs.length_eq ▸ j.2)
  rw [List.get_eq_getElem] at hv hw
  rw [List.get_eq_getElem, List.get_eq_getElem] at heq
  rw [heq] at hv
  obtain rfl := Option.some.inj (hv.symm.trans hw)
  have hindex := Node.arg.inj (hnode.symm.trans hnode')
  simp only [List.get_eq_getElem, List.getElem_zipIdx] at hindex
  exact Fin.ext (by omega)

/-- Each value is defined once, and no global is among them. -/
theorem nodup_definitions (h : Sound m) (hglobals : m.globals.toList.Nodup)
    (hfin : Finished m f fn) :
    (m.globals.toList ++ fn.definitions m).Nodup := by
  obtain ⟨-, hargs, -⟩ := h.funcs f fn hfin.found
  have hinst {id : ValueId} (hid : id ∈ fn.insts) : ∃ v, m.value? id = some v ∧
    (∀ i, v.node ≠ .arg i) ∧ ∀ init, v.node ≠ .global init := by
    obtain ⟨bb, hid⟩ := (Frame.mem_insts hfin).mp hid
    obtain ⟨v, hv, -, -, hok⟩ := hfin.inst bb id hid
    refine ⟨v, hv, ?_⟩
    generalize v.ty = ty at hok
    generalize v.node = node at hok
    cases hok with
    | plain _ ht => cases ht <;> simp
    | leave _ hl => cases hl <;> simp
    | _ => simp
  refine List.nodup_append.mpr ⟨hglobals, List.nodup_append.mpr ⟨nodup_args hargs,
    (Frame.nodup_insts hfin).filter _, ?_⟩, ?_⟩
  · rintro id hid _ hid' rfl
    obtain ⟨v, i, hv, hnode, -⟩ := arg_of_mem hargs hid
    obtain ⟨w, hw, hnot, -⟩ := hinst (List.mem_of_mem_filter hid')
    obtain rfl := Option.some.inj (hv.symm.trans hw)
    exact hnot i hnode
  · rintro id hid _ hid' rfl
    obtain ⟨v, init, ds, ws, hv, hnode, -⟩ := h.globals id (Array.mem_toList_iff.mp hid)
    rcases List.mem_append.mp hid' with hid' | hid'
    · obtain ⟨w, i, hw, hnode', -⟩ := arg_of_mem hargs hid'
      obtain rfl := Option.some.inj (hv.symm.trans hw)
      cases hnode.symm.trans hnode'
    · obtain ⟨w, hw, -, hnot⟩ := hinst (List.mem_of_mem_filter hid')
      obtain rfl := Option.some.inj (hv.symm.trans hw)
      exact hnot init hnode

theorem operandMentions_of_holds (depth : Nat) :
    ∀ {ds : List Nat} {ws : List Word}, Holds m ds id ws →
    m.operandMentions depth id = [] := by
  induction depth generalizing id with
  | zero => exact fun _ => rfl
  | succ depth ih =>
    intro ds ws h
    rw [Spells.operandMentions_succ]
    cases ds with
    | nil =>
      obtain ⟨v, hv, -, ⟨hnode, -⟩ | ⟨w, hnode, -⟩⟩ := h <;> rw [Module.node?_eq hv, hnode]
    | cons n ns =>
      obtain ⟨v, hv, -, ⟨hnode, -⟩ | ⟨elems, rows, hnode, -, hrows, -⟩⟩ := h
      · rw [Module.node?_eq hv, hnode]
      · rw [Module.node?_eq hv, hnode]
        refine List.flatMap_eq_nil_iff.mpr fun e he => ?_
        obtain ⟨i, hi, rfl⟩ := List.getElem_of_mem he
        exact ih (hrows.get hi (hrows.length_eq ▸ hi))

theorem pairwise_ids (h : Sound m) : m.defined.Pairwise fun fn gn => fn.id ≠ gn.id := by
  refine List.Pairwise.filter _ (List.pairwise_iff_getElem.mpr fun i j hi hj hlt heq => ?_)
  have hi' := (h.funcs _ _ (Assembly.func?_succ hi)).1
  have hj' := (h.funcs _ _ (Assembly.func?_succ hj)).1
  rw [← heq, hi'] at hj'
  exact Nat.ne_of_lt hlt (Nat.succ_injective hj')

end Sysy.Lowering
