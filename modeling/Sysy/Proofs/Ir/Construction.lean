import Sysy.Ir.Module
import Mathlib.Data.List.Basic

/-!
What the steps of building a module do to it. Every instruction goes through `Module.append`;
lookups in the module after a step are given by lookups in the module before it.
-/

namespace Sysy.Ir

namespace Func
variable {fn : Func} {bb x : Nat} {b : Block} {id : Nat}

def push (fn : Func) (bb : BlockId) (id : ValueId) : Func :=
  { fn with blocks := fn.blocks.modify (bb - 1) fun b => { b with insts := b.insts.push id } }

def record (fn : Func) (targets : List BlockId) (id : ValueId) : Func :=
  { fn with jumps := fn.jumps ++ (targets.map fun bb => (bb, id)).toArray }

theorem block?_of_pos (fn : Func) (h : 0 < bb) : fn.block? bb = fn.blocks[bb - 1]? :=
  if_neg (Nat.pos_iff_ne_zero.mp h)

theorem block?_eq_some : fn.block? bb = some b ↔ 0 < bb ∧ fn.blocks[bb - 1]? = some b := by
  rcases Nat.eq_zero_or_pos bb with rfl | h
  · simp [block?]
  · simp [fn.block?_of_pos h, h]

theorem exists_block? (h : 0 < bb) (h' : bb ≤ fn.blocks.size) : ∃ b, fn.block? bb = some b := by
  rw [fn.block?_of_pos h]
  exact ⟨_, Array.getElem?_eq_getElem (by omega)⟩

theorem bounds_of_block? (h : fn.block? bb = some b) : 0 < bb ∧ bb ≤ fn.blocks.size := by
  obtain ⟨hpos, hb⟩ := block?_eq_some.mp h
  have := (Array.getElem?_eq_some_iff.mp hb).1
  omega

theorem block?_push (fn : Func) (id : ValueId) (h : 0 < bb) :
    (fn.push bb id).block? x =
      if x = bb then (fn.block? x).map fun b =>
        { b with insts := b.insts.push id } else fn.block? x := by
  rcases Nat.eq_zero_or_pos x with rfl | hx
  · have : ¬ 0 = bb := by omega
    simp [block?, this]
  · have heq : bb - 1 = x - 1 ↔ x = bb := by omega
    rw [block?_of_pos _ hx, block?_of_pos _ hx, push, Array.getElem?_modify]
    simp only [heq]

theorem block?_addBlock (fn : Func) (name : String) :
    (fn.addBlock name).2.block? x = if x = fn.blocks.size + 1 then some { name }
      else fn.block? x := by
  rcases Nat.eq_zero_or_pos x with rfl | hx
  · simp [block?]
  · have heq : x - 1 = fn.blocks.size ↔ x = fn.blocks.size + 1 := by omega
    rw [block?_of_pos _ hx, block?_of_pos _ hx, addBlock, Array.getElem?_push]
    simp only [heq]

@[simp] theorem size_blocks_push : (fn.push bb id).blocks.size = fn.blocks.size := by simp [push]

@[simp] theorem block?_record (targets : List BlockId) :
    (fn.record targets id).block? x = fn.block? x := rfl

/-- Puts a block at the end of the layout and makes it the current one. -/
def start (fn : Func) (bb : BlockId) : Func := { fn.place bb with current := bb }

@[simp] theorem block?_start : (fn.start bb).block? x = fn.block? x := rfl

end Func

namespace Module
variable {m : Module} {v w : Value} {f g x y bb : Nat} {fn : Func}

theorem value?_of_pos (m : Module) (h : 0 < x) : m.value? x = m.values[x - 1]? :=
  if_neg (Nat.pos_iff_ne_zero.mp h)

theorem bounds_of_value? (h : m.value? x = some v) : 0 < x ∧ x ≤ m.values.size := by
  rcases Nat.eq_zero_or_pos x with rfl | hx
  · simp [value?] at h
  · rw [m.value?_of_pos hx] at h
    have := (Array.getElem?_eq_some_iff.mp h).1
    omega

theorem exists_value? (h : 0 < x) (h' : x ≤ m.values.size) : ∃ v, m.value? x = some v := by
  rw [m.value?_of_pos h]
  exact ⟨_, Array.getElem?_eq_getElem (by omega)⟩

theorem mem_values (h : m.value? x = some v) : v ∈ m.values.toList := by
  rw [m.value?_of_pos (bounds_of_value? h).1] at h
  exact Array.mem_toList_iff.mpr (Array.mem_of_getElem? h)

theorem exists_value?_of_mem (h : v ∈ m.values.toList) : ∃ x, m.value? x = some v := by
  obtain ⟨i, hi, rfl⟩ := List.getElem_of_mem h
  refine ⟨i + 1, ?_⟩
  rw [value?_of_pos _ (Nat.succ_pos i), Nat.succ_sub_one, ← Array.getElem?_toList,
    List.getElem?_eq_getElem hi]

theorem func?_of_pos (m : Module) (h : 0 < f) : m.func? f = m.funcs[f - 1]? :=
  if_neg (Nat.pos_iff_ne_zero.mp h)

theorem bounds_of_func? (h : m.func? f = some fn) : 0 < f ∧ f ≤ m.funcs.size := by
  rcases Nat.eq_zero_or_pos f with rfl | hf
  · simp [func?] at h
  · rw [m.func?_of_pos hf] at h
    have := (Array.getElem?_eq_some_iff.mp h).1
    omega

theorem mem_funcs (h : m.func? f = some fn) : fn ∈ m.funcs.toList := by
  rw [m.func?_of_pos (bounds_of_func? h).1] at h
  exact Array.mem_toList_iff.mpr (Array.mem_of_getElem? h)

theorem exists_func?_of_mem (h : fn ∈ m.funcs.toList) : ∃ f, m.func? f = some fn := by
  obtain ⟨i, hi, rfl⟩ := List.getElem_of_mem h
  refine ⟨i + 1, ?_⟩
  rw [func?_of_pos _ (Nat.succ_pos i), Nat.succ_sub_one, ← Array.getElem?_toList,
    List.getElem?_eq_getElem hi]

theorem value?_add (m : Module) (v : Value) :
    (m.add v).2.value? x = if x = m.values.size + 1 then some v else m.value? x := by
  rcases Nat.eq_zero_or_pos x with rfl | hx
  · simp [value?]
  · have heq : x - 1 = m.values.size ↔ x = m.values.size + 1 := by omega
    rw [value?_of_pos _ hx, value?_of_pos _ hx, add, Array.getElem?_push]
    simp only [heq]

theorem mem_uses_add (m : Module) (v : Value) :
    (x, y) ∈ (m.add v).2.uses ↔ (x, y) ∈ m.uses ∨ x ∈ v.node.operands ∧ y = m.values.size + 1 := by
  simp only [add, Array.mem_append, List.mem_toArray, List.mem_map, Prod.mk.injEq]
  constructor
  · rintro (h | ⟨_, h, rfl, rfl⟩)
    · exact .inl h
    · exact .inr ⟨h, rfl⟩
  · rintro (h | ⟨h, rfl⟩)
    · exact .inl h
    · exact .inr ⟨_, h, rfl, rfl⟩

@[simp] theorem size_values_add (m : Module) (v : Value) :
    (m.add v).2.values.size = m.values.size + 1 := by
  simp [add]

@[simp] theorem func?_add (m : Module) (v : Value) : (m.add v).2.func? f = m.func? f := rfl

theorem func?_modifyFunc (m : Module) (change : Func → Func) (h : 0 < f) :
    (m.modifyFunc f change).func? g = if g = f then (m.func? g).map change else m.func? g := by
  rcases Nat.eq_zero_or_pos g with rfl | hg
  · have : ¬ 0 = f := by omega
    simp [func?, this]
  · have heq : f - 1 = g - 1 ↔ g = f := by omega
    rw [func?_of_pos _ hg, func?_of_pos _ hg, modifyFunc, Array.getElem?_modify]
    simp only [heq]

@[simp] theorem value?_modifyFunc (m : Module) (change : Func → Func) :
    (m.modifyFunc f change).value? x = m.value? x := rfl

@[simp] theorem size_funcs_modifyFunc (m : Module) (change : Func → Func) :
    (m.modifyFunc f change).funcs.size = m.funcs.size := by simp [modifyFunc]

def append (m : Module) (f : FuncId) (v : Value) : Module :=
  (m.add v).2.modifyFunc f fun fn => fn.push v.block (m.values.size + 1)

theorem value?_append (m : Module) (v : Value) :
    (m.append f v).value? x = if x = m.values.size + 1 then some v else m.value? x := m.value?_add v

@[simp] theorem size_values_append (m : Module) (v : Value) :
    (m.append f v).values.size = m.values.size + 1 := m.size_values_add v

theorem func?_append (m : Module) (v : Value) (h : m.func? f = some fn) :
    (m.append f v).func? g = if g = f then some (fn.push v.block (m.values.size + 1))
      else m.func? g := by
  rw [append, func?_modifyFunc _ _ (bounds_of_func? h).1]
  split
  · rename_i hg
    subst hg
    simp [h]
  · rfl

theorem modifyFunc_modifyFunc (m : Module) (first second : Func → Func) :
    (m.modifyFunc f first).modifyFunc f second = m.modifyFunc f fun fn => second (first fn) := by
  simp only [modifyFunc, Module.mk.injEq, true_and]
  ext i h h'
  · simp
  · simp only [Array.getElem_modify]
    split <;> rfl

theorem modifyFunc_congr {change change' : Func → Func} (h : m.func? f = some fn)
    (heq : change fn = change' fn) : m.modifyFunc f change = m.modifyFunc f change' := by
  have hf : m.funcs[f - 1]? = some fn := by rwa [func?_of_pos _ (bounds_of_func? h).1] at h
  simp only [modifyFunc, Module.mk.injEq, true_and]
  ext i hi hi'
  · simp
  · simp only [Array.getElem_modify]
    split
    · rename_i hif
      obtain ⟨_, hget⟩ := Array.getElem?_eq_some_iff.mp hf
      subst hif
      rw [hget, heq]
    · rfl

def close (m : Module) (f : FuncId) (v : Value) : Module :=
  (m.append f v).modifyFunc f fun fn => fn.record v.node.successors (m.values.size + 1)

theorem value?_close (m : Module) (v : Value) :
    (m.close f v).value? x = if x = m.values.size + 1 then some v else m.value? x := m.value?_add v

@[simp] theorem size_values_close (m : Module) (v : Value) :
    (m.close f v).values.size = m.values.size + 1 := m.size_values_add v

theorem close_eq_append (m : Module) {v : Value} (h : v.node.successors = []) :
    m.close f v = m.append f v := by
  have hid : (fun fn : Func => fn.record [] (m.values.size + 1)) = id := by
    funext fn
    simp [Func.record]
  have hmodify (m : Module) : m.modifyFunc f id = m := by
    simp only [modifyFunc]
    congr 1
    ext i hi hi'
    · simp
    · simp [Array.getElem_modify]
  rw [close, h, hid, hmodify]

theorem func?_close (m : Module) (v : Value) (h : m.func? f = some fn) :
    (m.close f v).func? g = if g = f then
      some ((fn.push v.block (m.values.size + 1)).record v.node.successors (m.values.size + 1))
      else m.func? g := by
  rw [close, func?_modifyFunc _ _ (bounds_of_func? h).1, func?_append _ _ h]
  split <;> rfl

theorem tyOf_eq (h : m.value? x = some v) : m.tyOf x = v.ty := by simp [tyOf, h]

theorem node?_eq (h : m.value? x = some v) : m.node? x = some v.node := by simp [node?, h]

end Module

/-- What an index counts behind a pointer: whole values, or the elements of an array. -/
inductive Stride
  | whole
  | element

namespace Stride

def node : Stride → ValueId → ValueId → Node
  | whole => .getPtr
  | element => .getElemPtr

def build (f : FuncId) : Stride → ValueId → ValueId → Build ValueId
  | whole => Build.getPtr f
  | element => Build.getElemPtr f

def size (m : Module) (src : ValueId) : Stride → Int
  | whole => (m.tyOf src).elem.size
  | element => (m.tyOf src).elem.elem.size

end Stride

namespace Build
variable {m : Module} {f bb x y : Nat} {fn : Func} {b : Block}

def Takes (m : Module) (f : FuncId) (bb : BlockId) : Prop :=
  ∃ fn b, m.func? f = some fn ∧ fn.block? bb = some b ∧ m.isTerminated b = false

theorem integer_eq (m : Module) (w : Word) :
    integer w m = .ok (m.values.size + 1, (m.add { node := .integer w, ty := .i32 }).2) := rfl

theorem insert_eq (h : Takes m f bb) (node : Node) (ty : Ty) (name : String) :
    insert f bb node ty name m =
      .ok (m.values.size + 1, m.append f { node, ty, name, func := f, block := bb }) := by
  obtain ⟨fn, b, hf, hb, ht⟩ := h
  simp only [insert, bind, StateT.bind, get, getThe, MonadStateOf.get, StateT.get, pure,
    Except.pure,
    Except.bind, hf, Option.bind_some, hb, ht]
  rfl

theorem insert_ok {m' : Module} {id : ValueId} {node : Node} {ty : Ty} {name : String} :
    insert f bb node ty name m = .ok (id, m') ↔ Takes m f bb ∧ id = m.values.size + 1 ∧
      m' = m.append f { node, ty, name, func := f, block := bb } := by
  refine ⟨fun hrun => ?_, fun ⟨h, hid, hm'⟩ => hid ▸ hm' ▸ insert_eq h node ty name⟩
  cases hb : (m.func? f).bind (·.block? bb) with
  | none =>
    simp [insert, bind, StateT.bind, get, getThe, MonadStateOf.get, StateT.get, pure, Except.pure,
      Except.bind, hb,
      throw, throwThe, MonadExceptOf.throw, StateT.lift] at hrun
  | some b =>
    obtain ⟨fn, hf, hblock⟩ := Option.bind_eq_some_iff.mp hb
    cases ht : m.isTerminated b with
    | true =>
      simp [insert, bind, StateT.bind, get, getThe, MonadStateOf.get, StateT.get, pure, Except.pure,
        Except.bind, hb, ht,
        throw, throwThe, MonadExceptOf.throw, StateT.lift] at hrun
    | false =>
      have htakes : Takes m f bb := ⟨fn, b, hf, hblock, ht⟩
      rw [insert_eq htakes] at hrun
      obtain ⟨rfl, rfl⟩ := Prod.mk.inj (Except.ok.inj hrun)
      exact ⟨htakes, rfl, rfl⟩

theorem current_eq (hf : m.func? f = some fn) : current f m = .ok (fn.current, m) := by
  change Except.ok (((m.func? f).map (·.current)).getD 0, m) = _
  rw [hf]
  rfl

theorem emit_eq (hf : m.func? f = some fn) (h : Takes m f fn.current) (node : Node) (ty : Ty) :
    emit f node ty m =
      .ok (m.values.size + 1, m.append f { node, ty, func := f, block := fn.current }) := by
  simp only [emit, bind, StateT.bind, current_eq hf, Except.bind]
  exact insert_eq h node ty ""

theorem alloc_eq (hf : m.func? f = some fn) (h : Takes m f fn.entry) (ty : Ty) (name : String) :
    alloc f ty name m =
      .ok (m.values.size + 1,
        m.append f { node := .alloc, ty := .ptr ty, name, func := f, block := fn.entry }) := by
  simp only [alloc, bind, StateT.bind, get, getThe, MonadStateOf.get, StateT.get, pure, Except.pure,
    Except.bind, hf, Option.map_some, Option.getD_some]
  exact insert_eq h .alloc (.ptr ty) name

theorem load_eq (hf : m.func? f = some fn) (h : Takes m f fn.current) (src : Nat) :
    load f src m = .ok (m.values.size + 1,
      m.append f { node := .load src, ty := (m.tyOf src).elem, func := f, block := fn.current }) :=
  emit_eq hf h (.load src) (m.tyOf src).elem

theorem getElemPtr_eq (hf : m.func? f = some fn) (h : Takes m f fn.current) (src index : Nat) :
    getElemPtr f src index m = .ok (m.values.size + 1,
      m.append f { node := .getElemPtr src index, ty := .ptr (m.tyOf src).elem.elem, func := f,
                   block := fn.current }) :=
  emit_eq hf h (.getElemPtr src index) (.ptr (m.tyOf src).elem.elem)

theorem getPtr_eq (hf : m.func? f = some fn) (h : Takes m f fn.current) (src index : Nat) :
    getPtr f src index m = .ok (m.values.size + 1,
      m.append f { node := .getPtr src index, ty := m.tyOf src, func := f, block := fn.current }) :=
  emit_eq hf h (.getPtr src index) (m.tyOf src)

theorem call_eq {g : Nat} {callee : Func} (hf : m.func? f = some fn) (h : Takes m f fn.current)
    (hg : m.func? g = some callee) (args : List ValueId) :
    call f g args m = .ok (m.values.size + 1,
      m.append f { node := .call g args, ty := callee.ret, func := f, block := fn.current }) := by
  have : call f g args m = emit f (.call g args) (((m.func? g).map (·.ret)).getD .absent) m := rfl
  rw [this, hg]
  exact emit_eq hf h (.call g args) callee.ret

theorem jump_eq (hf : m.func? f = some fn) (h : Takes m f fn.current) (target : Nat) :
    jump f target m = .ok (m.values.size + 1,
      m.close f { node := .jump target, ty := .unit, func := f, block := fn.current }) := by
  simp only [jump, bind, StateT.bind, emit_eq hf h, Except.bind, Module.close, Node.successors,
    recordJump, Func.record]
  rfl

theorem branch_eq (hf : m.func? f = some fn) (h : Takes m f fn.current) (cond yes no : Nat) :
    branch f cond yes no m = .ok (m.values.size + 1,
      m.close f { node := .branch cond yes no, ty := .unit, func := f, block := fn.current }) := by
  simp only [branch, bind, StateT.bind, emit_eq hf h, Except.bind, recordJump, modify, modifyGet,
    MonadStateOf.modifyGet, StateT.modifyGet, pure, Except.pure, Module.modifyFunc_modifyFunc,
    Module.close, Node.successors, Func.record]
  have hpush (js : Array (Nat × Nat)) (p q : Nat × Nat) : (js.push p).push q = js ++
    [p, q].toArray := by
    apply Array.ext'
    simp
  simp only [hpush, List.map_cons, List.map_nil]
  rfl

theorem jumpAt_eq (hf : m.func? f = some fn) (h : Takes m f bb) (target : Nat) :
    jumpAt f bb target m = .ok (m.values.size + 1,
      m.close f { node := .jump target, ty := .unit, func := f, block := bb }) := by
  have hpos := (Module.bounds_of_func? hf).1
  let moved : Func := { fn with current := bb }
  have hm : (m.modifyFunc f fun fn => { fn with current := bb }).func? f = some moved := by
    rw [Module.func?_modifyFunc _ _ hpos, if_pos rfl, hf]
    rfl
  have ht : Takes (m.modifyFunc f fun fn => { fn with current := bb }) f bb := by
    obtain ⟨fn', b, hf', hb, ht⟩ := h
    obtain rfl : fn' = fn := Option.some.inj (hf'.symm.trans hf)
    exact ⟨moved, b, hm, hb, ht⟩
  have hj := jump_eq hm ht target
  simp only [jumpAt, bind, StateT.bind, current_eq hf, Except.bind, setCurrent, modify, modifyGet,
    MonadStateOf.modifyGet, StateT.modifyGet, pure, Except.pure, hj]
  -- the jump is added to a function that differs from the old one only in its current block
  have hcomm (v : Value) : (m.modifyFunc f fun fn => { fn with current := bb }).add v =
      ((m.add v).1, (m.add v).2.modifyFunc f fun fn => { fn with current := bb }) := rfl
  simp only [Module.close, Module.append, hcomm, Module.modifyFunc_modifyFunc]
  exact congrArg (fun m => Except.ok (_, m)) (Module.modifyFunc_congr hf rfl)

theorem addBlock_eq (hf : m.func? f = some fn) (name : String) :
    addBlock f name m = .ok (fn.blocks.size + 1, m.modifyFunc f fun fn =>
      (fn.addBlock name).2) := by
  simp only [addBlock, bind, StateT.bind, get, getThe, MonadStateOf.get, StateT.get, pure,
    Except.pure,
    Except.bind, hf, Option.map_some, Option.getD_some]
  rfl

end Build

end Sysy.Ir
