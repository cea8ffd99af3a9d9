import Sysy.Proofs.Ir.Extension
import Sysy.Proofs.Naming.Additions

/-!
What a module records beside its values: who uses a value, and which instructions go to a block.
Both are kept in lists of their own, apart from the operands and targets that they tell of. A module
is `Referenced` if the lists hold exactly what the values hold, in the order of the values; every
step of building keeps that.
-/

namespace Sysy.Ir

def listed (g : Nat → List Nat) (n : Nat) : List (Nat × Nat) :=
  (List.range n).flatMap fun i => (g (i + 1)).map fun x => (x, i + 1)

def rowsOf (l : List (Nat × Nat)) (x : Nat) : List Nat := (l.filter (·.1 = x)).map (·.2)

section Listed
variable {g g' : Nat → List Nat} {n u x : Nat}

theorem listed_succ (g : Nat → List Nat) (n : Nat) :
    listed g (n + 1) = listed g n ++ (g (n + 1)).map fun x => (x, n + 1) := by
  simp [listed, List.range_succ]

theorem listed_congr (h : ∀ u, 0 < u → u ≤ n → g u = g' u) : listed g n = listed g' n := by
  refine List.flatMap_congr fun i hi => ?_
  rw [h (i + 1) (Nat.succ_pos i) (List.mem_range.mp hi)]

theorem listed_eq_nil (h : ∀ u, 0 < u → u ≤ n → g u = []) : listed g n = [] := by
  refine List.flatMap_eq_nil_iff.mpr fun i hi => ?_
  rw [h (i + 1) (Nat.succ_pos i) (List.mem_range.mp hi), List.map_nil]

theorem rowsOf_append (l l' : List (Nat × Nat)) (x : Nat) :
    rowsOf (l ++ l') x = rowsOf l x ++ rowsOf l' x := by
  simp [rowsOf]

theorem rowsOf_map (xs : List Nat) (k x : Nat) :
    rowsOf (xs.map fun y => (y, k)) x = List.replicate (xs.count x) k := by
  induction xs with
  | nil => rfl
  | cons y ys ih =>
    rw [List.map_cons, ← List.singleton_append, rowsOf_append, ih, List.count_cons]
    by_cases hy : y = x
    · simp [rowsOf, hy, List.replicate_succ]
    · simp [rowsOf, hy]

theorem bounds_of_mem_rowsOf (h : u ∈ rowsOf (listed g n) x) : 0 < u ∧ u ≤ n := by
  obtain ⟨p, hp, rfl⟩ := List.mem_map.mp h
  obtain ⟨i, hi, hmem⟩ := List.mem_flatMap.mp (List.mem_filter.mp hp).1
  obtain ⟨y, -, rfl⟩ := List.mem_map.mp hmem
  exact ⟨Nat.succ_pos i, List.mem_range.mp hi⟩

theorem count_rowsOf (h : 0 < u) (h' : u ≤ n) :
    (rowsOf (listed g n) x).count u = (g u).count x := by
  induction n with
  | zero => omega
  | succ n ih =>
    rw [listed_succ, rowsOf_append, List.count_append, rowsOf_map, List.count_replicate]
    by_cases hu : n + 1 = u
    · have hnone : u ∉ rowsOf (listed g n) x := fun hmem => by
        have := (bounds_of_mem_rowsOf hmem).2
        omega
      rw [List.count_eq_zero_of_not_mem hnone, hu, beq_self_eq_true, if_pos rfl, Nat.zero_add]
    · rw [ih (by omega), if_neg (by simpa using hu), Nat.add_zero]

/-- What stands with `x` is in the order of the numbers. -/
theorem sorted_rowsOf (g : Nat → List Nat) (n x : Nat) :
    (rowsOf (listed g n) x).Pairwise (· ≤ ·) := by
  induction n with
  | zero => exact .nil
  | succ n ih =>
    rw [listed_succ, rowsOf_append, rowsOf_map]
    refine List.pairwise_append.mpr ⟨ih, List.pairwise_replicate.mpr (.inr (Nat.le_refl _)),
      fun a ha b hb => ?_⟩
    rw [List.eq_of_mem_replicate hb]
    exact Nat.le_succ_of_le (bounds_of_mem_rowsOf ha).2

end Listed

namespace Module

def operands (m : Module) (id : ValueId) : List ValueId := ((m.node? id).map (·.operands)).getD []

def targets (m : Module) (f : FuncId) (id : ValueId) : List BlockId :=
  match m.value? id with
  | none => []
  | some v => if v.func = f then v.node.successors else []

structure Referenced (m : Module) : Prop where
  uses : m.uses.toList = listed m.operands m.values.size
  jumps : ∀ f fn, m.func? f = some fn → fn.jumps.toList = listed (m.targets f) m.values.size
  /-- Only code of functions that are there goes anywhere. -/
  known : ∀ id v, m.value? id = some v → v.node.successors ≠ [] → v.func ≤ m.funcs.size

variable {m m' : Module} {v : Value} {f g id : Nat} {fn gn : Func}

theorem operands_eq_nil (h : m.value? id = none) : m.operands id = [] :=
  by simp [operands, node?, h]

theorem operands_eq (h : m.value? id = some v) : m.operands id = v.node.operands :=
  by simp [operands, node?_eq h]

theorem operands_add (m : Module) (v : Value) (id : Nat) :
    (m.add v).2.operands id = if id = m.values.size + 1 then v.node.operands
      else m.operands id := by
  simp only [operands, node?, value?_add]
  split <;> rfl

theorem targets_add (m : Module) (v : Value) (g id : Nat) : (m.add v).2.targets g id =
    if id = m.values.size + 1 then (if v.func = g then v.node.successors else [])
      else m.targets g id := by
  simp only [targets, value?_add]
  by_cases hid : id = m.values.size + 1 <;> simp [hid]

theorem listed_operands_add (m : Module) (v : Value) :
    listed (m.add v).2.operands (m.values.size + 1) =
    listed m.operands m.values.size ++ v.node.operands.map fun x => (x, m.values.size + 1) := by
  rw [listed_succ, operands_add, if_pos rfl]
  congr 1
  exact listed_congr fun u _ hu => (operands_add m v u).trans (if_neg (by omega))

theorem listed_targets_add (m : Module) (v : Value) (g : FuncId) :
    listed ((m.add v).2.targets g) (m.values.size + 1) =
    listed (m.targets g) m.values.size ++
      (if v.func = g then v.node.successors else []).map fun bb => (bb, m.values.size + 1) := by
  rw [listed_succ, targets_add, if_pos rfl]
  congr 1
  exact listed_congr fun u _ hu => (targets_add m v g u).trans (if_neg (by omega))

theorem toList_uses_add (m : Module) (v : Value) :
    (m.add v).2.uses.toList = m.uses.toList ++ v.node.operands.map fun x =>
      (x, m.values.size + 1) := by
  simp [Module.add]

theorem func?_modifyFunc_cases (change : Func → Func)
    (h : (m.modifyFunc f change).func? g = some gn) :
    ∃ fn, m.func? g = some fn ∧ (gn = fn ∨ gn = change fn) := by
  have hpos := (bounds_of_func? h).1
  rw [func?_of_pos _ hpos, modifyFunc, Array.getElem?_modify] at h
  split at h
  · obtain ⟨fn, hfn, rfl⟩ := Option.map_eq_some_iff.mp h
    exact ⟨fn, (func?_of_pos _ hpos).trans hfn, .inr rfl⟩
  · exact ⟨gn, (func?_of_pos _ hpos).trans h, .inl rfl⟩

theorem referenced_empty : Referenced {} :=
  ⟨rfl, fun f fn h => by simp [func?] at h, fun id v h => by simp [value?] at h⟩

namespace Referenced

/-! What the records say. -/

theorem count_users (h : m.Referenced) (u x : ValueId) :
    (m.users x).count u = (m.operands u).count x := by
  change (rowsOf m.uses.toList x).count u = _
  rw [h.uses]
  cases hu : m.value? u with
  | some w => exact count_rowsOf (bounds_of_value? hu).1 (bounds_of_value? hu).2
  | none =>
    rw [operands_eq_nil hu, List.count_nil, List.count_eq_zero]
    intro hmem
    obtain ⟨w, hw⟩ := exists_value? (bounds_of_mem_rowsOf hmem).1 (bounds_of_mem_rowsOf hmem).2
    rw [hu] at hw
    cases hw

theorem sorted_users (h : m.Referenced) (x : ValueId) : (m.users x).Pairwise (· ≤ ·) := by
  change (rowsOf m.uses.toList x).Pairwise _
  rw [h.uses]
  exact sorted_rowsOf ..

theorem count_blockUsers (h : m.Referenced) (hf : m.func? f = some fn) (u : ValueId)
    (bb : BlockId) :
    (fn.blockUsers bb).count u = (m.targets f u).count bb := by
  change (rowsOf fn.jumps.toList bb).count u = _
  rw [h.jumps f fn hf]
  cases hu : m.value? u with
  | some w => exact count_rowsOf (bounds_of_value? hu).1 (bounds_of_value? hu).2
  | none =>
    have hnone : m.targets f u = [] := by simp only [targets, hu]
    rw [hnone, List.count_nil, List.count_eq_zero]
    intro hmem
    obtain ⟨w, hw⟩ := exists_value? (bounds_of_mem_rowsOf hmem).1 (bounds_of_mem_rowsOf hmem).2
    rw [hu] at hw
    cases hw

theorem sorted_blockUsers (h : m.Referenced) (hf : m.func? f = some fn) (bb : BlockId) :
    (fn.blockUsers bb).Pairwise (· ≤ ·) := by
  change (rowsOf fn.jumps.toList bb).Pairwise _
  rw [h.jumps f fn hf]
  exact sorted_rowsOf ..

/-! Steps of building. -/

theorem add (h : m.Referenced) (hv : v.node.successors = []) : (m.add v).2.Referenced where
  uses := by
    rw [size_values_add, listed_operands_add, toList_uses_add, h.uses]
  jumps f fn hf := by
    rw [size_values_add, listed_targets_add, hv, ite_self, List.map_nil, List.append_nil]
    exact h.jumps f fn hf
  known id w hw hsucc := by
    rw [value?_add] at hw
    split at hw
    · cases hw
      exact absurd hv hsucc
    · exact h.known id w hw hsucc

theorem modifyFunc (h : m.Referenced) (f : FuncId) {change : Func → Func}
    (hchange : ∀ fn, (change fn).jumps = fn.jumps) :
    (m.modifyFunc f change).Referenced where
  uses := h.uses
  jumps g gn hg := by
    obtain ⟨fn, hfn, rfl | rfl⟩ := func?_modifyFunc_cases change hg
    · exact h.jumps g gn hfn
    · exact (congrArg Array.toList (hchange fn)).trans (h.jumps g fn hfn)
  known id v hv hsucc := by
    rw [size_funcs_modifyFunc]
    exact h.known id v hv hsucc

theorem close (h : m.Referenced) (hf : m.func? f = some fn) (hv : v.func = f) :
    (m.close f v).Referenced where
  uses := by
    change (m.add v).2.uses.toList = listed (m.add v).2.operands (m.close f v).values.size
    rw [size_values_close, listed_operands_add, toList_uses_add, h.uses]
  jumps g gn hg := by
    change gn.jumps.toList = listed ((m.add v).2.targets g) (m.close f v).values.size
    rw [size_values_close, listed_targets_add]
    rw [func?_close _ _ hf] at hg
    split at hg
    · subst g
      cases hg
      rw [if_pos hv, ← h.jumps f fn hf]
      simp [Func.record, Func.push]
    · rename_i hne
      rw [if_neg (hv ▸ Ne.symm hne), List.map_nil, List.append_nil]
      exact h.jumps g gn hg
  known id w hw hsucc := by
    have hsize : (m.close f v).funcs.size = m.funcs.size :=
      by simp [Module.close, Module.append, Module.add]
    rw [hsize]
    rw [value?_close] at hw
    split at hw
    · cases hw
      exact hv ▸ (bounds_of_func? hf).2
    · exact h.known id w hw hsucc

theorem pushFunc (h : m.Referenced) (hfn : fn.jumps = #[]) :
    Referenced { m with funcs := m.funcs.push fn } where
  uses := h.uses
  jumps g gn hg := by
    have hpos := (bounds_of_func? hg).1
    rw [func?_of_pos _ hpos, Array.getElem?_push] at hg
    split at hg
    · rename_i heq
      cases hg
      rw [hfn]
      refine (listed_eq_nil fun u _ _ => ?_).symm
      unfold targets
      split
      · rfl
      · rename_i w hw
        -- no code belongs to a function that was not there
        split
        · rename_i hfunc
          by_contra hsucc
          have hle : g ≤ m.funcs.size := hfunc ▸ h.known u w hw hsucc
          lia
        · rfl
    · exact h.jumps g gn ((func?_of_pos _ hpos).trans hg)
  known id v hv hsucc := Nat.le_trans (h.known id v hv hsucc) (by simp)

end Referenced

end Module

structure Durable (P : Module → Prop) : Prop where
  /-- A value is added that reads nothing. -/
  add : ∀ {m : Module} {v : Value}, v.node.operands = [] → v.node.successors = [] → P m →
    P (m.add v).2
  /-- An instruction is added to its function. -/
  close : ∀ {m : Module} {f : FuncId} {fn : Func} {v : Value}, m.func? f = some fn → v.func = f →
    Build.Takes m f v.block → P m → P (m.close f v)
  /-- A function is changed, but not its code. -/
  modifyFunc : ∀ {m : Module} (f : FuncId) {change : Func → Func},
    (∀ fn, (change fn).jumps = fn.jumps) →
    (∀ fn bb, (change fn).code bb = fn.code bb) → P m → P (m.modifyFunc f change)
  /-- A function is added that has no code. -/
  pushFunc : ∀ {m : Module} {fn : Func}, fn.jumps = #[] → P m →
    P { m with funcs := m.funcs.push fn }

theorem durable_referenced : Durable Module.Referenced where
  add _ hsucc h := h.add hsucc
  close hf hv _ h := h.close hf hv
  modifyFunc f _ hjumps _ h := h.modifyFunc f hjumps
  pushFunc hfn h := h.pushFunc hfn

namespace Build
variable {m m' : Module} {f : FuncId} {id : ValueId} {α β : Type}

theorem bind_ok {x : Build α} {k : α → Build β} {b : β} :
    (x >>= k) m = .ok (b, m') ↔ ∃ a m₁, x m = .ok (a, m₁) ∧ k a m₁ = .ok (b, m') := by
  change (x m).bind (fun r => k r.1 r.2) = _ ↔ _
  cases hx : x m with
  | ok r => exact ⟨fun h => ⟨r.1, r.2, rfl, h⟩, fun ⟨a, m₁, heq, h⟩ => by cases heq; exact h⟩
  | error e => exact ⟨fun h => (by cases h), fun ⟨a, m₁, heq, _⟩ => by cases heq⟩

theorem emit_ok {node : Node} {ty : Ty} (h : emit f node ty m = .ok (id, m')) :
    ∃ fn, m.func? f = some fn ∧ Takes m f fn.current := by
  have hinsert : emit f node ty m = insert f (((m.func? f).map (·.current)).getD 0) node
    ty "" m := rfl
  obtain ⟨⟨fn, b, hf, htakes⟩, -⟩ := insert_ok.mp (hinsert.symm.trans h)
  rw [hf] at htakes
  exact ⟨fn, hf, fn, b, hf, htakes⟩

end Build

namespace Durable
variable {P : Module → Prop} (hP : Durable P)
include hP

theorem keeps_add {v : Value} (hop : v.node.operands = []) (hsucc : v.node.successors = []) :
    Sysy.Keeps P (Build.add v) where
  ok m a m' hm hrun := by
    cases hrun
    exact hP.add hop hsucc hm

theorem keeps_modifyFunc (f : FuncId) {change : Func → Func}
    (hjumps : ∀ fn, (change fn).jumps = fn.jumps)
    (hcode : ∀ fn bb, (change fn).code bb = fn.code bb) :
    Sysy.Keeps P (modify (·.modifyFunc f change) : Build Unit) :=
      .modify fun _ hm => hP.modifyFunc f hjumps hcode hm

theorem insert (f : FuncId) (bb : BlockId) {node : Node} (ty : Ty) (name : String)
    (h : node.successors = []) :
    Sysy.Keeps P (Build.insert f bb node ty name) where
  ok m a m' hm hrun := by
    obtain ⟨⟨fn, b, hf, hb, ht⟩, -, rfl⟩ := Build.insert_ok.mp hrun
    exact m.close_eq_append (f := f) (v := { node, ty, name, func := f, block := bb }) h ▸
      hP.close hf rfl ⟨fn, b, hf, hb, ht⟩ hm

theorem emit (f : FuncId) {node : Node} (ty : Ty) (h : node.successors = []) :
    Sysy.Keeps P (Build.emit f node ty) :=
  (Sysy.Keeps.get_bind fun _ => .pure _).bind fun bb => hP.insert f bb ty "" h

theorem alloc (f : FuncId) (ty : Ty) (name : String) : Sysy.Keeps P (Build.alloc f ty name) :=
  .get_bind fun _ => hP.insert f _ (.ptr ty) name rfl

theorem load (f : FuncId) (src : ValueId) : Sysy.Keeps P (Build.load f src) :=
  .get_bind fun _ => hP.emit f _ rfl

theorem getElemPtr (f : FuncId) (src index : ValueId) :
    Sysy.Keeps P (Build.getElemPtr f src index) :=
  .get_bind fun _ => hP.emit f _ rfl

theorem getPtr (f : FuncId) (src index : ValueId) : Sysy.Keeps P (Build.getPtr f src index) :=
  .get_bind fun _ => hP.emit f _ rfl

theorem call (f callee : FuncId) (args : List ValueId) : Sysy.Keeps P (Build.call f callee args) :=
  .get_bind fun _ => hP.emit f _ rfl

theorem jump (f : FuncId) (target : BlockId) : Sysy.Keeps P (Build.jump f target) where
  ok m a m' hm hrun := by
    obtain ⟨id, m₁, hemit, -⟩ := Build.bind_ok.mp hrun
    obtain ⟨fn, hf, htakes⟩ := Build.emit_ok hemit
    obtain ⟨rfl, rfl⟩ :=
      Prod.mk.inj (Except.ok.inj ((Build.jump_eq hf htakes target).symm.trans hrun))
    exact hP.close hf rfl htakes hm

theorem branch (f : FuncId) (cond : ValueId) (yes no : BlockId) :
    Sysy.Keeps P (Build.branch f cond yes no) where
  ok m a m' hm hrun := by
    obtain ⟨id, m₁, hemit, -⟩ := Build.bind_ok.mp hrun
    obtain ⟨fn, hf, htakes⟩ := Build.emit_ok hemit
    obtain ⟨rfl, rfl⟩ :=
      Prod.mk.inj (Except.ok.inj ((Build.branch_eq hf htakes cond yes no).symm.trans hrun))
    exact hP.close hf rfl htakes hm

theorem setCurrent (f : FuncId) (bb : BlockId) : Sysy.Keeps P (Build.setCurrent f bb) :=
  hP.keeps_modifyFunc f (fun _ => rfl) fun _ _ => rfl

theorem jumpAt (f : FuncId) (bb target : BlockId) : Sysy.Keeps P (Build.jumpAt f bb target) :=
  (Sysy.Keeps.get_bind fun _ => .pure _).bind fun saved => (hP.setCurrent f bb).bind fun _ =>
    (hP.jump f target).bind fun id => (hP.setCurrent f saved).bind fun _ => .pure id

theorem addBlock (f : FuncId) (name : String) : Sysy.Keeps P (Build.addBlock f name) :=
  .get_bind fun _ =>
    .bind (hP.keeps_modifyFunc f (fun _ => rfl) fun _ _ => Func.code_addBlock name) fun _ => .pure _

theorem place (f : FuncId) (bb : BlockId) : Sysy.Keeps P (Build.place f bb) :=
  hP.keeps_modifyFunc f (fun _ => rfl) fun _ _ => rfl

theorem unplace (f : FuncId) (bb : BlockId) : Sysy.Keeps P (Build.unplace f bb) :=
  hP.keeps_modifyFunc f (fun _ => rfl) fun _ _ => rfl

theorem newFunc (name : String) (params : List Ty) (ret : Ty) :
    Sysy.Keeps P (Build.newFunc name params ret) := by
  have hfunc : Sysy.Keeps P (Build.func name params ret) :=
    .get_bind fun _ => (Sysy.Keeps.mapM _ fun _ _ => hP.keeps_add rfl rfl).bind fun _ =>
      .bind (.modify fun _ hm => hP.pushFunc rfl hm) fun _ => .pure _
  refine .get_bind fun m => ?_
  split
  · exact .pure _
  · exact hfunc.bind fun id => .pure _

theorem declareLibrary : Sysy.Keeps P Build.declareLibrary :=
  .forM _ fun _ _ => (hP.newFunc ..).bind fun _ => .pure ()

end Durable

namespace Build

/-! What reads other values and belongs to no function keeps the records, too. -/

theorem referenced_add {v : Value} (h : v.node.successors = []) :
    Sysy.Keeps Module.Referenced (add v) where
  ok m a m' hm hrun := by
    cases hrun
    exact hm.add h

theorem referenced_global (name : String) (init : ValueId) :
    Sysy.Keeps Module.Referenced (global name init) :=
  .get_bind fun _ => (referenced_add rfl).bind fun id =>
    .bind (.modify fun _ hm => ⟨hm.uses, hm.jumps, hm.known⟩) fun _ => .pure id

end Build

end Sysy.Ir
