import Sysy.Ir.Validity
import Sysy.Proofs.Lowering.Program

/-!
The checks of `Ir.Validity` find nothing in a module that lowering gives.
-/

namespace Sysy.Lowering
open Ir

variable {m : Module} {f bb : Nat} {fn : Func}

theorem repeated_eq_nil (l : List Nat) : ∀ {seen : List Nat}, l.Nodup → (∀ x ∈ seen, x ∉ l) →
    Func.repeated seen l = [] := by
  induction l with
  | nil => exact fun _ _ => rfl
  | cons x l ih =>
    intro seen hnodup hseen
    obtain ⟨hx, hl⟩ := List.nodup_cons.mp hnodup
    have hnot : seen.contains x = false := by
      rw [← Bool.not_eq_true, List.contains_iff_mem]
      exact fun hmem => hseen x hmem (List.mem_cons_self ..)
    rw [Func.repeated, hnot, if_neg Bool.false_ne_true]
    refine ih hl fun y hy => ?_
    rcases List.mem_cons.mp hy with rfl | hy
    · exact hx
    · exact fun hmem => hseen y hy (List.mem_cons_of_mem _ hmem)

namespace Finished

theorem mem_layout (h : Finished m f fn) {id : Nat} (hid : id ∈ fn.code bb) :
    bb ∈ fn.layout.toList := by
  by_contra hnot
  rw [h.empty bb hnot] at hid
  cases hid

theorem isTerminator_iff (h : Finished m f fn) {i id : Nat} {v : Value}
    (hi : (fn.code bb)[i]? = some id) (hv : m.value? id = some v) :
    v.node.isTerminator = true ↔ i + 1 = (fn.code bb).length := by
  obtain ⟨hlt, hget⟩ := List.getElem?_eq_some_iff.mp hi
  have hmem : id ∈ fn.code bb := List.mem_of_getElem? hi
  have hended := h.ended bb (h.mem_layout hmem)
  constructor
  · intro hterm
    by_contra hne
    have hdrop : id ∈ (fn.code bb).dropLast := by
      rw [List.mem_iff_getElem]
      exact ⟨i, by rw [List.length_dropLast]; omega, by rw [List.getElem_dropLast]; exact hget⟩
    rw [h.straight bb id hdrop v hv] at hterm
    cases hterm
  · intro hlast
    have hl : (fn.code bb).getLast? = some id := by
      rw [List.getLast?_eq_getElem?, ← hlast, Nat.add_sub_cancel]
      exact hi
    simpa [Module.Ended, hl, Module.node?_eq hv] using hended

theorem successors_mem (h : Finished m f fn) {id : Nat} {v : Value} (hid : id ∈ fn.code bb)
    (hv : m.value? id = some v) : ∀ x ∈ v.node.successors, x ∈ fn.layout.toList :=
  fun x hx => h.targets x id ((h.jumps x id).mpr ⟨v, bb, hv, hid, hx⟩)

theorem instFaults_eq_nil (h : Finished m f fn) (hl : Linked m) {i id : Nat}
    (hi : (fn.code bb)[i]? = some id) :
    fn.instFaults m bb (i + 1 = (fn.code bb).length) id = [] := by
  have hid : id ∈ fn.code bb := List.mem_of_getElem? hi
  obtain ⟨v, hv, -, -, hok⟩ := h.inst bb id hid
  have horder : v.node.isTerminator = decide (i + 1 = (fn.code bb).length) := by
    rw [Bool.eq_iff_iff, h.isTerminator_iff hi hv, decide_eq_true_iff]
  have htargets : (v.node.successors.filter fun t => !fn.layout.contains t) = [] := by
    rw [List.filter_eq_nil_iff]
    intro x hx
    have := h.successors_mem hid hv x hx
    simpa using this
  have hoperands : (v.node.operands.filter fun op => (m.value? op).isNone) = [] := by
    rw [List.filter_eq_nil_iff]
    intro x hx
    obtain ⟨-, w, hw, -⟩ := hl.operand id v hv x hx
    simp [hw]
  simp only [Func.instFaults, hv, horder, htargets, hoperands, if_true, List.map_nil,
    List.append_nil, List.nil_append]
  generalize v.node = node at hok
  generalize v.ty = ty at hok
  cases hok with
  | alloc hbb _ => simp [hbb]
  | param | enter => rfl
  | plain _ ht => cases ht <;> rfl
  | leave _ hl => cases hl <;> rfl
  | ret hbb hret => simp [hbb, hret, Ty.isUnit]
  | retVal hbb hret _ => simp [hbb, hret, Ty.isUnit]

theorem blockFaults_eq_nil (h : Finished m f fn) (hl : Linked m) (hbb : bb ∈ fn.layout.toList) :
    fn.blockFaults m bb = [] := by
  have hended := h.ended bb hbb
  have hne : (fn.code bb).isEmpty = false := by
    rw [← Bool.not_eq_true, List.isEmpty_iff]
    intro hnil
    rw [hnil] at hended
    cases hended
  change (if (fn.code bb).isEmpty then _ else (fn.code bb).zipIdx.flatMap _) = []
  rw [hne, if_neg Bool.false_ne_true, List.flatMap_eq_nil_iff]
  rintro ⟨id, i⟩ hmem
  exact h.instFaults_eq_nil hl (List.mem_zipIdx_iff_getElem?.mp hmem)

theorem isRet_iff (h : Finished m f fn) {id : Nat} {v : Value} {val : Option ValueId}
    (hid : id ∈ fn.code bb) (hv : m.value? id = some v) (hnode : v.node = .ret val) :
    bb = 2 ∧ (fn.code 2).getLast? = some id := by
  obtain ⟨v', hv', -, -, hok⟩ := h.inst bb id hid
  obtain rfl := Option.some.inj (hv.symm.trans hv')
  have hbb : bb = 2 := by
    rw [← h.exit]
    generalize v.ty = ty at hok
    rw [hnode] at hok
    cases hok with
    | plain _ ht => cases ht
    | leave _ hl => cases hl
    | ret hbb _ | retVal hbb _ _ => exact hbb
  subst hbb
  obtain ⟨i, hi⟩ := List.mem_iff_getElem?.mp hid
  refine ⟨rfl, ?_⟩
  have hlast := (h.isTerminator_iff hi hv).mp (by rw [hnode]; rfl)
  rw [List.getLast?_eq_getElem?, ← hlast, Nat.add_sub_cancel]
  exact hi

/-- The exit has one return, and there is no other. -/
theorem length_filter_ret (h : Finished m f fn) {p : ValueId → Bool}
    (hp : ∀ x, p x = true ↔ ∃ w val, m.value? x = some w ∧ w.node = .ret val) :
    (fn.insts.filter p).length = 1 := by
  obtain ⟨id, v, val, hlast, hv, hnode⟩ := h.returns
  obtain ⟨before, hlayout⟩ := List.getLast?_eq_some_iff.mp h.last
  obtain ⟨pre, hcode⟩ := List.getLast?_eq_some_iff.mp hlast
  have hnodup := h.nodup
  rw [hlayout] at hnodup
  have hbefore : (before.flatMap fn.code).filter p = [] := by
    rw [List.filter_eq_nil_iff]
    intro x hx hpx
    obtain ⟨bb, hbb, hx⟩ := List.mem_flatMap.mp hx
    obtain ⟨w, val', hw, hn⟩ := (hp x).mp hpx
    exact (List.nodup_append.mp hnodup).2.2 bb hbb 2 (by simp) (h.isRet_iff hx hw hn).1
  have hpre : pre.filter p = [] := by
    rw [List.filter_eq_nil_iff]
    intro x hx hpx
    obtain ⟨w, val', hw, hn⟩ := (hp x).mp hpx
    have := h.straight 2 x (by rw [hcode, List.dropLast_concat]; exact hx) w hw
    rw [hn] at this
    cases this
  have hpos : p id = true := (hp id).mpr ⟨v, val, hv, hnode⟩
  change ((fn.layout.toList.flatMap fn.code).filter p).length = 1
  rw [hlayout, List.flatMap_append, List.filter_append, hbefore, List.nil_append,
    List.flatMap_singleton, hcode,
    List.filter_append, hpre, List.nil_append, List.filter_cons_of_pos hpos]
  rfl

theorem returns_eq_one (h : Finished m f fn) : fn.returns m = 1 := by
  refine h.length_filter_ret fun x => ?_
  constructor
  · intro hx
    split at hx
    · rename_i val heq
      obtain ⟨w, hw, hn⟩ := Option.map_eq_some_iff.mp heq
      exact ⟨w, val, hw, hn⟩
    · cases hx
  · rintro ⟨w, val, hw, hn⟩
    simp [Module.node?_eq hw, hn]

theorem faults_eq_nil (h : Finished m f fn) (hl : Linked m) : fn.faults m = [] := by
  have hfirst : fn.layout[0]? = some fn.entry := by
    rw [← Array.getElem?_toList, ← List.head?_eq_getElem?, h.first, h.entry]
  have hlast : fn.layout.back? = some fn.exit := by
    rw [← Array.getLast?_toList, h.last, h.exit]
  have hblocks : fn.layout.toList.flatMap (fn.blockFaults m) = [] := by
    rw [List.flatMap_eq_nil_iff]
    exact fun bb hbb => h.blockFaults_eq_nil hl hbb
  simp [Func.faults, hfirst, hlast, repeated_eq_nil _ h.nodup, hblocks, h.returns_eq_one]

theorem strictFaults_eq_nil (h : Finished m f fn) (hl : Linked m) : fn.strictFaults m = [] := by
  have hlast : fn.layout.back? = some fn.exit := by
    rw [← Array.getLast?_toList, h.last, h.exit]
  have hentry : fn.blockUsers fn.entry = [] := by
    rw [Func.blockUsers, List.map_eq_nil_iff, List.filter_eq_nil_iff]
    rintro ⟨x, id⟩ hmem heq
    obtain rfl : x = fn.entry := by simpa using heq
    obtain ⟨v, b, hv, hid, hsucc⟩ := (h.jumps _ id).mp (Array.mem_toList_iff.mp hmem)
    obtain ⟨v', hv', -, -, hok⟩ := h.inst b id hid
    obtain rfl := Option.some.inj (hv.symm.trans hv')
    exact lt_irrefl _ (hok.successors _ hsucc).1
  have hunit : ∀ id v, m.value? id = some v → v.ty.isUnit = true → m.users id = [] := by
    intro id v hv hty
    rw [Module.users, List.map_eq_nil_iff, List.filter_eq_nil_iff]
    rintro ⟨x, y⟩ hmem heq
    obtain rfl : x = id := by simpa using heq
    obtain ⟨w, hw, hx⟩ := (hl.uses x y).mp (Array.mem_toList_iff.mp hmem)
    obtain ⟨-, u, hu, hnot⟩ := hl.operand y w hw x hx
    obtain rfl := Option.some.inj (hv.symm.trans hu)
    rw [hty] at hnot
    cases hnot
  simp only [Func.strictFaults, hlast, hentry, h.returns_eq_one, List.append_eq_nil_iff,
    List.filterMap_eq_nil_iff]
  refine ⟨⟨⟨by simp, rfl⟩, fun id _ => ?_⟩, by simp⟩
  split
  · rename_i v hv
    cases hty : v.ty.isUnit
    · rfl
    · rw [hunit id v hv hty]
      rfl
  · rfl

end Finished

theorem Sound.finished {fn : Func} (h : Sound m) (hfn : fn ∈ m.funcs.toList)
    (hdecl : fn.isDeclared = false) :
    ∃ g, Finished m g fn := by
  obtain ⟨g, hg⟩ := Module.exists_func?_of_mem hfn
  obtain ⟨-, -, ⟨hlayout, -⟩ | hfin⟩ := h.funcs g fn hg
  · rw [Func.isDeclared, hlayout] at hdecl
    cases hdecl
  · exact ⟨g, hfin⟩

theorem Sound.strictFaults_eq_nil (h : Sound m) : m.strictFaults = [] := by
  have hglobals : m.globals.toList.filter (!m.isGlobal ·) = [] := by
    rw [List.filter_eq_nil_iff]
    intro id hid
    obtain ⟨v, init, _, _, hv, hnode, -⟩ := h.globals id (Array.mem_toList_iff.mp hid)
    simp [Module.isGlobal, Module.node?_eq hv, hnode]
  have hfuncs : ∀ fn ∈ m.funcs.toList.filter (!·.isDeclared), ∃ g, Finished m g fn := by
    intro fn hfn
    obtain ⟨hmem, hdecl⟩ := List.mem_filter.mp hfn
    exact h.finished hmem (by simpa using hdecl)
  have hfaults : m.faults = [] := by
    rw [Module.faults, hglobals, List.map_nil, List.nil_append, List.filterMap_eq_nil_iff]
    intro fn hfn
    obtain ⟨g, hfin⟩ := hfuncs fn hfn
    rw [hfin.faults_eq_nil h.linked]
  rw [Module.strictFaults, hfaults]
  dsimp only
  rw [List.flatMap_eq_nil_iff]
  intro fn hfn
  obtain ⟨g, hfin⟩ := hfuncs fn hfn
  exact hfin.strictFaults_eq_nil h.linked

theorem exists_of_isOk {ε α : Type} {x : Except ε α} (h : x.isOk = true) : ∃ a, x = .ok a := by
  cases x with
  | error e => cases h
  | ok a => exact ⟨a, rfl⟩

def sampleMain : FuncDef where
  name := "main"
  nameSpan := {}
  isVoid := false
  params := []
  bodySpan := {}
  body := [.ret {} (some (.binary {} .add (.lit {} 1) (.lit {} 2)))]

def sample : Program where
  span := {}
  items := [.func {} sampleMain]

theorem exists_lower_sample : ∃ m, sample.lower = .ok m := exists_of_isOk (by decide +kernel)

/-- Lowering never meets a fault of its builder, and the checks find nothing in a module that it
gives. No check is passed over: every instruction of a function that is laid out is a value of the
module. -/
theorem lower_valid (p : Program) : (∀ e, p.lower ≠ .error (.fault e)) ∧
    ∀ m, p.lower = .ok m → m.strictFaults = [] ∧
      ∀ fn ∈ m.funcs.toList, ∀ id ∈ fn.insts, ∃ v, m.value? id = some v := by
  refine ⟨lower_ne_fault p, fun m hm => ?_⟩
  obtain ⟨scope, hready⟩ := ready_of_lower hm
  refine ⟨hready.sound.strictFaults_eq_nil, fun fn hfn id hid => ?_⟩
  obtain ⟨bb, hbb, hid⟩ := List.mem_flatMap.mp hid
  have hdecl : fn.isDeclared = false := by
    rw [Func.isDeclared, ← Bool.not_eq_true, Array.isEmpty_iff]
    intro hnil
    rw [hnil] at hbb
    cases hbb
  obtain ⟨g, hfin⟩ := hready.sound.finished hfn hdecl
  have hcode : id ∈ fn.code bb := hid
  exact hfin.defined hcode

theorem lower_valid_sample : ∃ m, sample.lower = .ok m ∧ m.strictFaults = [] := by
  obtain ⟨m, hm⟩ := exists_lower_sample
  exact ⟨m, hm, ((lower_valid sample).2 m hm).1⟩

end Sysy.Lowering
