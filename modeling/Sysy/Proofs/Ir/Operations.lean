import Sysy.Proofs.Frame
import Sysy.Proofs.Ir.References

/-!
Modules by the steps that build them. Whatever steps are made, in whatever order, the users of a
value and of a block are the ones that read it or go to it.
-/

namespace Sysy.Ir

inductive Op where
  | newFunc (name : String) (params : List Ty) (ret : Ty)
  | integer (w : Word)
  | zeroInit (ty : Ty)
  | aggregate (ty : Ty) (elems : List ValueId)
  | global (name : String) (init : ValueId)
  | addBlock (f : FuncId) (name : String)
  | place (f : FuncId) (bb : BlockId)
  | unplace (f : FuncId) (bb : BlockId)
  /-- Says where the code of a function begins and where it returns. -/
  | setEnds (f : FuncId) (entry exit : BlockId)
  | setCurrent (f : FuncId) (bb : BlockId)
  | alloc (f : FuncId) (ty : Ty) (name : String)
  | load (f : FuncId) (src : ValueId)
  | store (f : FuncId) (val dest : ValueId)
  | getElemPtr (f : FuncId) (src index : ValueId)
  | getPtr (f : FuncId) (src index : ValueId)
  | binary (f : FuncId) (op : Arith) (lhs rhs : ValueId)
  | call (f callee : FuncId) (args : List ValueId)
  | jump (f : FuncId) (target : BlockId)
  | branch (f : FuncId) (cond : ValueId) (yes no : BlockId)
  | ret (f : FuncId) (val : Option ValueId)
  | jumpAt (f : FuncId) (bb target : BlockId)

namespace Op

/-- What a step does. A function whose name is taken is not added. -/
def run : Op → Build Unit
  | newFunc name params result => discard (Build.newFunc name params result)
  | integer w => discard (Build.integer w)
  | zeroInit ty => discard (Build.zeroInit ty)
  | aggregate ty elems => discard (Build.aggregate ty elems)
  | global name init => discard (Build.global name init)
  | addBlock f name => discard (Build.addBlock f name)
  | place f bb => Build.place f bb
  | unplace f bb => Build.unplace f bb
  | setEnds f entry exit => modify (·.modifyFunc f fun fn => { fn with entry, exit })
  | setCurrent f bb => Build.setCurrent f bb
  | alloc f ty name => discard (Build.alloc f ty name)
  | load f src => discard (Build.load f src)
  | store f val dest => discard (Build.store f val dest)
  | getElemPtr f src index => discard (Build.getElemPtr f src index)
  | getPtr f src index => discard (Build.getPtr f src index)
  | binary f op lhs rhs => discard (Build.binary f op lhs rhs)
  | call f callee args => discard (Build.call f callee args)
  | jump f target => discard (Build.jump f target)
  | branch f cond yes no => discard (Build.branch f cond yes no)
  | ret f val => discard (Build.ret f val)
  | jumpAt f bb target => discard (Build.jumpAt f bb target)

theorem referenced_run (op : Op) : Sysy.Keeps Module.Referenced op.run := by
  have hP := durable_referenced
  cases op with
  | newFunc name params result => exact (hP.newFunc name params result).map _
  | integer w => exact (hP.keeps_add rfl rfl).map _
  | zeroInit ty => exact (hP.keeps_add rfl rfl).map _
  | aggregate ty elems => exact (Build.referenced_add rfl).map _
  | global name init => exact (Build.referenced_global name init).map _
  | addBlock f name => exact (hP.addBlock f name).map _
  | place f bb => exact hP.place f bb
  | unplace f bb => exact hP.unplace f bb
  | setEnds f entry exit => exact hP.keeps_modifyFunc f (fun _ => rfl) fun _ _ => rfl
  | setCurrent f bb => exact hP.setCurrent f bb
  | alloc f ty name => exact (hP.alloc f ty name).map _
  | load f src => exact (hP.load f src).map _
  | store f val dest => exact (hP.emit f .unit rfl).map _
  | getElemPtr f src index => exact (hP.getElemPtr f src index).map _
  | getPtr f src index => exact (hP.getPtr f src index).map _
  | binary f op lhs rhs => exact (hP.emit f .i32 rfl).map _
  | call f callee args => exact (hP.call f callee args).map _
  | jump f target => exact (hP.jump f target).map _
  | branch f cond yes no => exact (hP.branch f cond yes no).map _
  | ret f val => exact (hP.emit f .unit rfl).map _
  | jumpAt f bb target => exact (hP.jumpAt f bb target).map _

end Op

namespace Module
variable {m : Module} {f : FuncId} {fn : Func} {u : ValueId} {bb : BlockId}

theorem mem_targets : bb ∈ m.targets f u ↔ ∃ v, m.value? u = some v ∧ v.func = f ∧
    (v.node = .jump bb ∨ ∃ cond yes no, v.node = .branch cond yes no ∧ (bb = yes ∨ bb = no)) := by
  cases hu : m.value? u with
  | none => simp [targets, hu]
  | some v =>
    simp only [targets, hu, Option.some.injEq, exists_eq_left']
    by_cases hf : v.func = f
    · rw [if_pos hf]
      cases v.node <;> simp [Node.successors, hf, eq_comm]
    · simp [hf]

theorem Referenced.used (h : m.Referenced) {x : ValueId} (hx : x ≤ m.values.size) :
    m.usedTable.getD x false = true ↔ ∃ u, x ∈ m.operands u := by
  rw [Frame.usedTable_getD m x hx]
  have hmem (u : ValueId) : (x, u) ∈ m.uses ↔ u ∈ m.users x := by simp [users, Array.mem_toList_iff]
  exact exists_congr fun u => by
    rw [hmem, ← List.count_pos_iff, h.count_users, List.count_pos_iff]

/-- However a module was built, the users of a value are the values that read it, each as often as
it does and in the order in which they were made. The same holds of the users of a block, which are
the jumps and branches of its function that go there. -/
theorem users_of_run {ops : List Op} {m : Module} (h : ops.forM Op.run {} = .ok ((), m)) :
    (∀ x : ValueId, (m.users x).Pairwise (· ≤ ·) ∧
      (∀ u, (m.users x).count u = (m.operands u).count x) ∧
      (x ≤ m.values.size → (m.usedTable.getD x false = true ↔ ∃ u, x ∈ m.operands u))) ∧
    ∀ f fn, m.func? f = some fn → ∀ bb, (fn.blockUsers bb).Pairwise (· ≤ ·) ∧
      (∀ u, (fn.blockUsers bb).count u = (m.targets f u).count bb) ∧
      ∀ u, u ∈ fn.blockUsers bb ↔ ∃ v, m.value? u = some v ∧ v.func = f ∧ (v.node = .jump bb ∨
        ∃ cond yes no, v.node = .branch cond yes no ∧ (bb = yes ∨ bb = no)) := by
  have hm : m.Referenced :=
    (Sysy.Keeps.forM ops fun op _ => op.referenced_run).ok {} () m referenced_empty h
  refine ⟨fun x => ⟨hm.sorted_users x, fun u => hm.count_users u x, hm.used⟩, fun f fn hf bb => ?_⟩
  refine ⟨hm.sorted_blockUsers hf bb, fun u => hm.count_blockUsers hf u bb, fun u => ?_⟩
  rw [← mem_targets, ← List.count_pos_iff, hm.count_blockUsers hf, List.count_pos_iff]

/-- A function that multiplies its argument by itself. Its branch goes to the same block in any
case. -/
def squareOps : List Op :=
  [.newFunc "square" [.i32] .i32, .addBlock 1 "entry", .place 1 1, .addBlock 1 "end",
    .setEnds 1 1 2, .setCurrent 1 1,
    .binary 1 .mul 1 1, .branch 1 2 2 2, .place 1 2, .setCurrent 1 2, .ret 1 (some 2)]

theorem users_of_run_square : ∃ m, squareOps.forM Op.run {} = .ok ((), m) ∧ m.users 1 = [2, 2] ∧
    (m.users 1).count 2 = (m.operands 2).count 1 ∧ m.users 2 = [3, 4] ∧ ∃ fn, m.func? 1 = some fn ∧
      fn.blockUsers 2 = [3, 3] ∧ (fn.blockUsers 2).count 3 = (m.targets 1 3).count 2 := by
  refine ⟨_, rfl, by
    decide, (@users_of_run squareOps _ rfl).1 1 |>.2.1 2, by decide, _, rfl, by decide,
    ((@users_of_run squareOps _ rfl).2 1 _ rfl 2).2.1 3⟩

end Module

end Sysy.Ir
