import Sysy.Lowering.Folding
import Sysy.Lowering.Shape
import Sysy.Proofs.Ir.Construction
import Mathlib.Tactic

/-!
Types of instructions. `Readable` are the values that the code of a function may read, `Typed`
relates an instruction to the type of its result, and `InstOk` tells what may stand in a block of a
function.
-/

namespace Sysy.Ir

namespace Ty

mutual

theorem eq_of_equal : ∀ a b : Ty, equal a b = true → a = b
  | absent, b | i32, b | unit, b => by cases b <;> simp [equal]
  | ptr a, b => by
    cases b <;> simp only [equal, Bool.false_eq_true, false_implies]
    exact fun h => congrArg ptr (eq_of_equal a _ h)
  | array a n, b => by
    cases b <;> simp only [equal, Bool.false_eq_true, false_implies, Bool.and_eq_true, beq_iff_eq]
    rintro ⟨rfl, h⟩
    rw [eq_of_equal a _ h]
  | func ps r, b => by
    cases b <;> simp only [equal, Bool.false_eq_true, false_implies, Bool.and_eq_true]
    rintro ⟨hs, h⟩
    rw [eq_of_equalAll ps _ hs, eq_of_equal r _ h]

theorem eq_of_equalAll : ∀ ps qs : List Ty, equalAll ps qs = true → ps = qs
  | [], qs => by cases qs <;> simp [equalAll]
  | p :: ps, qs => by
    cases qs <;> simp only [equalAll, Bool.false_eq_true, false_implies, Bool.and_eq_true]
    rintro ⟨h, hs⟩
    rw [eq_of_equal p _ h, eq_of_equalAll ps _ hs]

end

mutual

theorem equal_self : ∀ t : Ty, equal t t = true
  | absent | i32 | unit => by rw [equal]
  | ptr e => by rw [equal, equal_self e]
  | array e n => by rw [equal, equal_self e, beq_self_eq_true, Bool.and_self]
  | func ps r => by rw [equal, equalAll_self ps, equal_self r, Bool.and_self]

theorem equalAll_self : ∀ ts : List Ty, equalAll ts ts = true
  | [] => by rw [equalAll]
  | t :: ts => by rw [equalAll, equal_self t, equalAll_self ts, Bool.and_self]

end

end Ty

end Sysy.Ir

namespace Sysy.Lowering
open Ir

theorem product_nil : product [] = 1 := rfl

theorem product_cons (d : Nat) (ds : List Nat) : product (d :: ds) = d * product ds := by
  have h (ns : List Nat) (k : Nat) : ns.foldl (· * ·) k = k * ns.foldl (· * ·) 1 := by
    induction ns generalizing k with
    | nil => simp
    | cons n ns ih => rw [List.foldl_cons, List.foldl_cons, ih, ih (1 * n), one_mul, Nat.mul_assoc]
  rw [product, List.foldl_cons, h, one_mul]
  rfl

def Shaped (ds : List Nat) : Prop := (∀ d ∈ ds, 0 < d) ∧ product ds ≤ maxArrayWords

theorem Shaped.nil : Shaped [] := by simp [Shaped, product_nil, maxArrayWords]

theorem product_pos {ds : List Nat} (h : ∀ d ∈ ds, 0 < d) : 0 < product ds := by
  induction ds with
  | nil => simp [product_nil]
  | cons d ds ih =>
    rw [product_cons]
    exact Nat.mul_pos (h d (by simp)) (ih fun e he => h e (by simp [he]))

theorem Shaped.tail {d : Nat} {ds : List Nat} (h : Shaped (d :: ds)) : Shaped ds := by
  refine ⟨fun e he => h.1 e (by simp [he]), ?_⟩
  have hd : 0 < d := h.1 d (by simp)
  have hp : d * product ds ≤ maxArrayWords := product_cons d ds ▸ h.2
  exact le_trans (Nat.le_mul_of_pos_left _ hd) hp

theorem size_ofDims {ds : List Nat} (h : Shaped ds) : (Ty.ofDims ds).size = 4 * product ds := by
  induction ds with
  | nil => rfl
  | cons d ds ih =>
    have hle : product (d :: ds) ≤ 0x10000000 := h.2
    rw [product_cons] at hle
    have hmul : (d : Int) * (4 * product ds) = 4 * (d * product ds : Nat) := by
      push_cast
      ring
    rw [Ty.ofDims, Ty.size, ih h.tail, product_cons, hmul]
    exact Int.bmod_eq_of_le (by omega) (by omega)

theorem ofDims_inj {ds ds' : List Nat} (h : Ty.ofDims ds = Ty.ofDims ds') : ds = ds' := by
  induction ds generalizing ds' with
  | nil =>
    cases ds' with
    | nil => rfl
    | cons _ _ => cases h
  | cons d ds ih =>
    cases ds' with
    | nil => cases h
    | cons d' ds' =>
      simp only [Ty.ofDims, Ty.array.injEq, Nat.cast_inj] at h
      rw [ih h.1, h.2]

theorem ofDims_ne_ptr {ds : List Nat} {ty : Ty} : Ty.ofDims ds ≠ .ptr ty :=
  by cases ds <;> simp [Ty.ofDims]

end Sysy.Lowering

namespace Sysy.Ir
open Lowering

def Ty.IsObject (ty : Ty) : Prop := ∃ ds, Shaped ds ∧ (ty = .ofDims ds ∨ ty = .ptr (.ofDims ds))

theorem Ty.isObject_i32 : Ty.IsObject .i32 := ⟨[], Shaped.nil, .inl rfl⟩

def Ty.IsParam (ty : Ty) : Prop := ty = .i32 ∨ ∃ ds, Shaped ds ∧ ty = .ptr (.ofDims ds)

theorem Ty.IsParam.isObject {ty : Ty} (h : ty.IsParam) : ty.IsObject := by
  rcases h with rfl | ⟨ds, hds, rfl⟩
  · exact Ty.isObject_i32
  · exact ⟨ds, hds, .inr rfl⟩

theorem Ty.IsParam.isUnit {ty : Ty} (h : ty.IsParam) : ty.isUnit = false := by
  rcases h with rfl | ⟨_, _, rfl⟩ <;> rfl

/-- Whether the code of the function `f` may read a value. The arguments of a function are not among
these: they are only copied when it is entered. -/
def Value.IsReadable (v : Value) (f : FuncId) : Prop :=
  match v.node with
  | .integer _ | .global _ => True
  | .alloc | .load _ | .getPtr _ _ | .getElemPtr _ _ | .binary _ _ _ | .call _ _ => v.func = f
  | _ => False

theorem Value.IsReadable.cases {v : Value} {f : FuncId} (h : v.IsReadable f) :
    (∃ w, v.node = .integer w) ∨ (∃ init, v.node = .global init) ∨ v.func = f ∧
    ∀ i, v.node ≠ .arg i := by
  unfold IsReadable at h
  cases hn : v.node <;> simp only [hn] at h <;> simp [h]

def Module.Readable (m : Module) (f : FuncId) (id : ValueId) (ty : Ty) : Prop :=
  ∃ v, m.value? id = some v ∧ v.ty = ty ∧ v.IsReadable f

theorem Module.Readable.tyOf_eq {m : Module} {f : FuncId} {id : ValueId} {ty : Ty}
    (h : m.Readable f id ty) : m.tyOf id = ty := by
  obtain ⟨v, hv, hty, -⟩ := h
  rw [Module.tyOf_eq hv, hty]

inductive Typed (m : Module) (f : FuncId) : Node → Ty → Prop
  | load {src : ValueId} {ty : Ty} (hsrc : m.Readable f src (.ptr ty)) (hty : ty.IsParam) :
      Typed m f (.load src) ty
  | store {val dest : ValueId} (hval : m.Readable f val .i32)
      (hdest : m.Readable f dest (.ptr .i32)) :
      Typed m f (.store val dest) .unit
  | getPtr {src index : ValueId} {ds : List Nat} (hds : Shaped ds)
      (hsrc : m.Readable f src (.ptr (.ofDims ds))) (hindex : m.Readable f index .i32) :
      Typed m f (.getPtr src index) (.ptr (.ofDims ds))
  | getElemPtr {src index : ValueId} {d : Nat} {ds : List Nat} (hds : Shaped (d :: ds))
      (hsrc : m.Readable f src (.ptr (.ofDims (d :: ds)))) (hindex : m.Readable f index .i32) :
      Typed m f (.getElemPtr src index) (.ptr (.ofDims ds))
  | binary {op : Arith} {lhs rhs : ValueId} (hop : op ≠ .unnamed) (hlhs : m.Readable f lhs .i32)
      (hrhs : m.Readable f rhs .i32) : Typed m f (.binary op lhs rhs) .i32
  | call {g : FuncId} {callee : Func} {args : List ValueId} (hg : m.func? g = some callee)
      (hargs : List.Forall₂ (m.Readable f) args callee.params) : Typed m f (.call g args) callee.ret

inductive Leaves (m : Module) (f : FuncId) (fn : Func) : Node → Prop
  | jump {target : BlockId} (h : fn.entry < target) (h' : target ≤ fn.blocks.size) :
      Leaves m f fn (.jump target)
  | branch {cond : ValueId} {yes no : BlockId} (hcond : m.Readable f cond .i32)
      (hyes : fn.entry < yes) (hyes' : yes ≤ fn.blocks.size) (hno : fn.entry < no)
      (hno' : no ≤ fn.blocks.size) : Leaves m f fn (.branch cond yes no)

/-- What may stand in the block `bb` of a function: locals, copies of arguments and one jump in the
entry, the return in the exit, and everything else elsewhere. -/
inductive InstOk (m : Module) (f : FuncId) (fn : Func) (bb : BlockId) : Node → Ty → Prop
  | alloc {ty : Ty} (hbb : bb = fn.entry) (hty : ty.IsObject) : InstOk m f fn bb .alloc (.ptr ty)
  | param {arg dest : ValueId} {i : Nat} {v : Value} (hbb : bb = fn.entry)
      (harg : m.value? arg = some v)
      (hnode : v.node = .arg i) (hfunc : v.func = f) (hi : fn.params[i]? = some v.ty)
        (hty : v.ty.IsParam)
      (hdest : m.Readable f dest (.ptr v.ty)) : InstOk m f fn bb (.store arg dest) .unit
  | enter {target : BlockId} (hbb : bb = fn.entry) (h : fn.entry < target)
      (h' : target ≤ fn.blocks.size) :
      InstOk m f fn bb (.jump target) .unit
  | plain {node : Node} {ty : Ty} (hbb : bb ≠ fn.entry) (h : Typed m f node ty) :
      InstOk m f fn bb node ty
  | leave {node : Node} (hbb : bb ≠ fn.entry) (h : Leaves m f fn node) : InstOk m f fn bb node .unit
  | ret (hbb : bb = fn.exit) (hret : fn.ret = .unit) : InstOk m f fn bb (.ret none) .unit
  | retVal {val : ValueId} (hbb : bb = fn.exit) (hret : fn.ret = .i32)
      (hval : m.Readable f val .i32) :
      InstOk m f fn bb (.ret (some val)) .unit

theorem InstOk.block_of_alloc {m : Module} {f bb : Nat} {fn : Func} {ty : Ty}
    (h : InstOk m f fn bb .alloc ty) : bb = fn.entry := by
  cases h with
  | alloc hbb => exact hbb
  | plain _ ht => cases ht
  | leave _ hl => cases hl

theorem InstOk.successors {m : Module} {f bb : Nat} {fn : Func} {node : Node} {ty : Ty}
    (h : InstOk m f fn bb node ty) : ∀ x ∈ node.successors, fn.entry < x ∧ x ≤ fn.blocks.size := by
  intro x hx
  cases h with
  | alloc | param | ret | retVal => cases hx
  | enter _ h₁ h₂ =>
    obtain rfl := List.mem_singleton.mp hx
    exact ⟨h₁, h₂⟩
  | plain _ ht => cases ht <;> cases hx
  | leave _ hl =>
    cases hl with
    | jump h₁ h₂ =>
      obtain rfl := List.mem_singleton.mp hx
      exact ⟨h₁, h₂⟩
    | branch _ h₁ h₂ h₃ h₄ =>
      simp only [Node.successors, List.mem_cons, List.not_mem_nil, or_false] at hx
      rcases hx with rfl | rfl
      · exact ⟨h₁, h₂⟩
      · exact ⟨h₃, h₄⟩

/-- What an instruction uses can be read in its function and is no `unit`, as no function takes one;
or it is an argument that is copied in the entry. -/
theorem InstOk.operand_cases {m : Module} {f bb : Nat} {fn : Func} {node : Node} {ty : Ty}
    (h : InstOk m f fn bb node ty) {x : ValueId} (hx : x ∈ node.operands) :
    (∃ ty, m.Readable f x ty ∧ (ty.isUnit = false ∨ ∃ g callee, m.func? g = some callee ∧
      ty ∈ callee.params)) ∨
      ∃ v i, m.value? x = some v ∧ v.node = .arg i ∧ v.func = f ∧ bb = fn.entry ∧
      fn.params[i]? = some v.ty ∧ v.ty.IsParam ∧
        ∃ dest, node = .store x dest ∧ m.Readable f dest (.ptr v.ty) := by
  replace hx := (List.mem_filter.mp hx).1
  cases h with
  | alloc | enter | ret => cases hx
  | param hbb harg hnode hfunc hi hty hdest =>
    simp only [List.mem_cons, List.not_mem_nil, or_false] at hx
    rcases hx with rfl | rfl
    · exact .inr ⟨_, _, harg, hnode, hfunc, hbb, hi, hty, _, rfl, hdest⟩
    · exact .inl ⟨_, hdest, .inl rfl⟩
  | retVal _ _ hval =>
    simp only [Option.toList_some, List.mem_singleton] at hx
    exact .inl ⟨_, hx ▸ hval, .inl rfl⟩
  | leave _ hl =>
    cases hl with
    | jump => cases hx
    | branch hcond =>
      simp only [List.mem_singleton] at hx
      exact .inl ⟨_, hx ▸ hcond, .inl rfl⟩
  | plain _ ht =>
    cases ht with
    | load hsrc =>
      simp only [List.mem_singleton] at hx
      exact .inl ⟨_, hx ▸ hsrc, .inl rfl⟩
    | store h₁ h₂ | getPtr _ h₁ h₂ | getElemPtr _ h₁ h₂ | binary _ h₁ h₂ =>
      simp only [List.mem_cons, List.not_mem_nil, or_false] at hx
      rcases hx with rfl | rfl
      · exact .inl ⟨_, h₁, .inl rfl⟩
      · exact .inl ⟨_, h₂, .inl rfl⟩
    | call hg hargs =>
      obtain ⟨i, hi, rfl⟩ := List.getElem_of_mem hx
      have hi' := hargs.length_eq ▸ hi
      exact .inl ⟨_, hargs.get hi hi', .inr ⟨_, _, hg, List.get_mem _ _⟩⟩

theorem InstOk.ret_cases {m : Module} {f : FuncId} {fn : Func} {bb : BlockId} {val : Option ValueId}
    {ty : Ty} (h : InstOk m f fn bb (.ret val) ty) :
    (∀ x, val = some x → m.Readable f x .i32) ∧ (val = none → fn.ret = .unit) := by
  cases h with
  | plain _ ht => cases ht
  | leave _ hl => cases hl
  | ret _ hret => exact ⟨by simp, fun _ => hret⟩
  | retVal _ _ hval => exact ⟨fun x hx => Option.some.inj hx ▸ hval, by simp⟩

theorem InstOk.call_cases {m : Module} {f g : FuncId} {fn : Func} {bb : BlockId}
    {args : List ValueId} {ty : Ty} (h : InstOk m f fn bb (.call g args) ty) : bb ≠ fn.entry ∧
      ∃ callee, m.func? g = some callee ∧ ty = callee.ret ∧
      List.Forall₂ (m.Readable f) args callee.params := by
  cases h with
  | plain hbb ht =>
    cases ht with
    | call hg hargs => exact ⟨hbb, _, hg, rfl, hargs⟩
  | leave _ hl => cases hl

end Sysy.Ir
