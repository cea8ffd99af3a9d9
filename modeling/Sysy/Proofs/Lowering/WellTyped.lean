import Sysy.Proofs.Lowering.Validity

/-!
Modules that lowering gives are well typed. `Module.WellTyped` states the typing rule of each kind
of instruction and `Module.InitTyped` that of an initial value; the checks of `Ir.Validity` look at
neither.
-/

namespace Sysy.Ir

namespace Module

/-- The typing rule of an instruction whose result has the type `ty`. What is no instruction has no
rule. -/
def WellTyped (m : Module) (ty : Ty) : Node → Prop
  | .alloc => ty.isPtr = true
  | .load src => (m.tyOf src).equal (.ptr ty) = true ∧ (ty.isI32 || ty.isPtr) = true
  | .store val dest => ∃ e, m.tyOf dest = .ptr e ∧ (m.tyOf val).equal e = true ∧ ty = .unit
  | .getPtr src index => ∃ e, m.tyOf src = .ptr e ∧ ty = .ptr e ∧ m.tyOf index = .i32
  | .getElemPtr src index => ∃ e n, m.tyOf src = .ptr (.array e n) ∧ ty = .ptr e ∧
      m.tyOf index = .i32
  | .binary _ lhs rhs => m.tyOf lhs = .i32 ∧ m.tyOf rhs = .i32 ∧ ty = .i32
  | .branch cond _ _ => m.tyOf cond = .i32 ∧ ty = .unit
  | .jump _ => ty = .unit
  | .call g args => ∃ callee, m.func? g = some callee ∧ args.length = callee.params.length ∧
      List.Forall₂ (fun arg param => (m.tyOf arg).equal param = true) args callee.params ∧
        ty = callee.ret
  | .ret val => (∀ x, val = some x → m.tyOf x = .i32) ∧ ty = .unit
  | _ => False

inductive InitTyped (m : Module) : ValueId → Ty → Prop
  | integer {id : ValueId} {v : Value} {w : Word} (hv : m.value? id = some v)
      (hnode : v.node = .integer w)
      (hty : v.ty = .i32) : InitTyped m id .i32
  | zero {id : ValueId} {v : Value} (hv : m.value? id = some v) (hnode : v.node = .zeroInit) :
      InitTyped m id v.ty
  | aggregate {id : ValueId} {v : Value} {elems : List ValueId} {e : Ty} {n : Int}
      (hv : m.value? id = some v)
      (hnode : v.node = .aggregate elems) (hty : v.ty = .array e n)
        (hlen : (elems.length : Int) = n)
      (helems : ∀ x ∈ elems, InitTyped m x e) : InitTyped m id (.array e n)

theorem InitTyped.tyOf {m : Module} {id : ValueId} {ty : Ty} (h : m.InitTyped id ty) :
    m.tyOf id = ty := by
  cases h with
  | integer hv _ hty | aggregate hv _ hty => rw [Module.tyOf_eq hv, hty]
  | zero hv _ => exact Module.tyOf_eq hv

end Module

end Sysy.Ir

namespace Sysy.Lowering
open Ir

variable {m : Module} {f bb : Nat} {fn : Func}

theorem Typed.wellTyped {node : Node} {ty : Ty} (h : Typed m f node ty) : m.WellTyped ty node := by
  cases h with
  | load hsrc hty =>
    refine ⟨by rw [hsrc.tyOf_eq]; exact Ty.equal_self _, ?_⟩
    rcases hty with rfl | ⟨_, _, rfl⟩ <;> rfl
  | store hval hdest =>
    exact ⟨.i32, hdest.tyOf_eq, by rw [hval.tyOf_eq]; exact Ty.equal_self _, rfl⟩
  | getPtr _ hsrc hindex => exact ⟨_, hsrc.tyOf_eq, rfl, hindex.tyOf_eq⟩
  | getElemPtr _ hsrc hindex => exact ⟨_, _, hsrc.tyOf_eq, rfl, hindex.tyOf_eq⟩
  | binary _ hlhs hrhs => exact ⟨hlhs.tyOf_eq, hrhs.tyOf_eq, rfl⟩
  | call hg hargs =>
    refine ⟨_, hg, hargs.length_eq, hargs.imp fun arg param harg => ?_, rfl⟩
    rw [harg.tyOf_eq]
    exact Ty.equal_self param

theorem InstOk.wellTyped {node : Node} {ty : Ty} (h : InstOk m f fn bb node ty) :
    m.WellTyped ty node := by
  cases h with
  | alloc => rfl
  | param _ harg _ _ _ _ hdest =>
    exact ⟨_, hdest.tyOf_eq, by rw [Module.tyOf_eq harg]; exact Ty.equal_self _, rfl⟩
  | enter => rfl
  | plain _ ht => exact Typed.wellTyped ht
  | leave _ hl =>
    cases hl with
    | jump => rfl
    | branch hcond => exact ⟨hcond.tyOf_eq, rfl⟩
  | ret => exact ⟨by simp, rfl⟩
  | retVal _ _ hval =>
    refine ⟨fun x hx => ?_, rfl⟩
    obtain rfl := Option.some.inj hx
    exact hval.tyOf_eq

theorem Holds.initTyped {ds : List Nat} {id : Nat} {ws : List Word} (h : Holds m ds id ws) :
    m.InitTyped id (.ofDims ds) := by
  induction ds generalizing id ws with
  | nil =>
    obtain ⟨v, hv, hty, ⟨hnode, -⟩ | ⟨w, hnode, -⟩⟩ := h
    · have hzero := Module.InitTyped.zero hv hnode
      rwa [hty] at hzero
    · exact .integer hv hnode hty
  | cons n ns ih =>
    obtain ⟨v, hv, hty, ⟨hnode, -⟩ | ⟨elems, rows, hnode, hlen, hrows, -⟩⟩ := h
    · have hzero := Module.InitTyped.zero hv hnode
      rwa [hty] at hzero
    · refine .aggregate hv hnode hty (congrArg Nat.cast hlen) fun x hx => ?_
      obtain ⟨i, hi, rfl⟩ := List.getElem_of_mem hx
      have hrow := hrows.length_eq
      exact ih (hrows.get hi (by omega))

theorem Sound.instOk (h : Sound m) (hfn : fn ∈ m.funcs.toList) {id : Nat} (hid : id ∈ fn.insts) :
    ∃ f bb v, Finished m f fn ∧ bb ∈ fn.layout.toList ∧ id ∈ fn.code bb ∧ m.value? id = some v ∧
      InstOk m f fn bb v.node v.ty := by
  obtain ⟨bb, hbb, hcode⟩ := List.mem_flatMap.mp hid
  have hdecl : fn.isDeclared = false := by
    rw [Func.isDeclared, ← Bool.not_eq_true, Array.isEmpty_iff]
    intro hnil
    rw [hnil] at hbb
    cases hbb
  obtain ⟨f, hfin⟩ := h.finished hfn hdecl
  obtain ⟨v, hv, -, -, hok⟩ := hfin.inst bb id hcode
  exact ⟨f, bb, v, hfin, hbb, hcode, hv, hok⟩

/-- Every instruction that is laid out follows its typing rule, and every global has an initial
value of the type that it points to. -/
theorem lower_wellTyped {p : Program} (h : p.lower = .ok m) :
    (∀ fn ∈ m.funcs.toList, ∀ id ∈ fn.insts, ∃ v, m.value? id = some v ∧ m.WellTyped v.ty v.node) ∧
    ∀ id v init, m.value? id = some v → v.node = .global init →
      ∃ ty, v.ty = .ptr ty ∧ m.tyOf init = ty ∧ m.InitTyped init ty := by
  obtain ⟨scope, hready⟩ := ready_of_lower h
  refine ⟨fun fn hfn id hid => ?_, fun id v init hv hnode => ?_⟩
  · obtain ⟨f, bb, v, -, -, -, hv, hok⟩ := hready.sound.instOk hfn hid
    exact ⟨v, hv, InstOk.wellTyped hok⟩
  · obtain ⟨w, init', ds, ws, hw, hnode', hty, -, hholds⟩ :=
      hready.sound.globals id (hready.sound.listed id v init hv hnode)
    obtain rfl := Option.some.inj (hv.symm.trans hw)
    obtain rfl : init = init' := by simpa [hnode] using hnode'
    exact ⟨.ofDims ds, hty, hholds.initTyped.tyOf, hholds.initTyped⟩

/-- A function with an array parameter, called for a global and for a row of a local: `int g[2][2] =
{{1, 2}, 3}; int pick(int a[], int i) { return a[i] && i; }` `int main() { int x[2]; x[1] =
pick(g[1], 1); while (x[1]) { x[1] = pick(x, 0); } return g[0][1]; }`. -/
def gridSample : Program where
  span := {}
  items := [
    .decl {} { isConst := false, defs := [{
      name := "g", nameSpan := {}, dims := [.lit {} 2, .lit {} 2],
      init := some (.list {} [.list {} [.expr (.lit {} 1), .expr (.lit {} 2)],
        .expr (.lit {} 3)]) }] },
    .func {} {
      name := "pick", nameSpan := {}, isVoid := false, bodySpan := {}
      params := [⟨"a", {}, some []⟩, ⟨"i", {}, none⟩]
      body := [.ret {}
        (some (.binary {} .and (.lval {} "a" [.lval {} "i" []]) (.lval {} "i" [])))] },
    .func {} {
      name := "main", nameSpan := {}, isVoid := false, bodySpan := {}, params := []
      body := [
        .decl {} { isConst := false, defs := [⟨"x", {}, [.lit {} 2], none⟩] },
        .assign {} {} "x" [.lit {} 1] (.call {} "pick" [.lval {} "g" [.lit {} 1], .lit {} 1]),
        .loop {} (.lval {} "x" [.lit {} 1]) (.block {} [
          .assign {} {} "x" [.lit {} 1] (.call {} "pick" [.lval {} "x" [], .lit {} 0])]),
        .ret {} (some (.lval {} "g" [.lit {} 0, .lit {} 1]))] }]

theorem exists_lower_gridSample : ∃ m, gridSample.lower = .ok m :=
  exists_of_isOk (by decide +kernel)

theorem lower_wellTyped_gridSample : ∃ m, gridSample.lower = .ok m ∧
    ∀ fn ∈ m.funcs.toList, ∀ id ∈ fn.insts,
      ∃ v, m.value? id = some v ∧ m.WellTyped v.ty v.node := by
  obtain ⟨m, hm⟩ := exists_lower_gridSample
  exact ⟨m, hm, (lower_wellTyped hm).1⟩

end Sysy.Lowering
