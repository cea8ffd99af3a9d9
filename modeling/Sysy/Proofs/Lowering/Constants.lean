import Sysy.Proofs.Ir.Typing
import Sysy.Proofs.Lowering.Outcome

/-!
Constant expressions. What folding has done when it gives a number, and the dimensions of an array
that are folded.
-/

namespace Sysy.Lowering
open Ir

variable {scope : Scope Binding} {span : Span} {total : Nat} {e : Expr} {es : List Expr} {w : Word}
  {ds : List Nat}

theorem fold_name {name : String} {indices : List Expr} :
    fold scope (.lval span name indices) = .ok w ↔
    scope.resolve name = .ok (.const w) ∧ indices = [] := by
  rw [fold]
  split
  · simp [*]
  · rename_i v hname
    rw [hname]
    cases indices <;> simp
  · rename_i b hnot hname
    rw [hname]
    exact iff_of_false (by simp) fun ⟨hb, _⟩ => hnot w (Except.ok.inj hb)

theorem fold_unary {op : UnaryOp} :
    fold scope (.unary span op e) = .ok w ↔ ∃ x, fold scope e = .ok x ∧ w = op.apply x := by
  rw [fold, bind_eq_ok]
  exact exists_congr fun x => and_congr_right fun _ =>
    ⟨fun h => (Except.ok.inj h).symm, fun h => congrArg Except.ok h.symm⟩

/-- A logical operator may have a result without its second operand. -/
theorem fold_binary {op : BinaryOp} {l r : Expr} : fold scope (.binary span op l r) = .ok w ↔
    ∃ x, fold scope l = .ok x ∧ (op.shortcut? x = some w ∨
      op.shortcut? x = none ∧ ∃ y, fold scope r = .ok y ∧ op.onWords? x y = some w) := by
  rw [fold, bind_eq_ok]
  refine exists_congr fun x => and_congr_right fun _ => ?_
  cases op.shortcut? x with
  | some v => simp [pure, Except.pure]
  | none =>
    rw [bind_eq_ok]
    simp only [reduceCtorEq, true_and, false_or]
    refine exists_congr fun y => and_congr_right fun _ => ?_
    cases op.onWords? x y with
    | some v => simp [pure, Except.pure]
    | none => simp [throw, throwThe, MonadExceptOf.throw]

theorem shortcut?_of_not_logical {op : BinaryOp} (h : op.isLogical = false) (x : Word) :
    op.shortcut? x = none := by
  cases op <;> simp_all [BinaryOp.isLogical, BinaryOp.shortcut?]

theorem foldDims_cons :
    foldDims scope total (e :: es) = .ok ds ↔ ∃ w rest, fold scope e = .ok w ∧ 0 < w.toInt ∧
    total * w.toInt.toNat ≤ maxArrayWords ∧ foldDims scope (total * w.toInt.toNat) es = .ok rest ∧
      ds = w.toInt.toNat :: rest := by
  rw [foldDims, bind_eq_ok]
  refine exists_congr fun w => ?_
  dsimp only
  split
  · rename_i hbad
    refine iff_of_false (by simp [throw, throwThe, MonadExceptOf.throw]) ?_
    rintro ⟨rest, -, hpos, hle, -⟩
    omega
  · rename_i hok
    push Not at hok
    rw [bind_eq_ok]
    constructor
    · rintro ⟨hw, rest, hrest, hds⟩
      exact ⟨rest, hw, hok.1, hok.2, hrest, (Except.ok.inj hds).symm⟩
    · rintro ⟨rest, hw, -, -, hrest, rfl⟩
      exact ⟨hw, rest, hrest, rfl⟩

theorem foldDims_shaped (ht : total ≤ maxArrayWords) (h : foldDims scope total es = .ok ds) :
    ds.length = es.length ∧ (∀ d ∈ ds, 0 < d) ∧ total * product ds ≤ maxArrayWords := by
  induction es generalizing total ds with
  | nil =>
    simp only [foldDims, Except.ok.injEq] at h
    subst h
    simpa [product_nil] using ht
  | cons e es ih =>
    obtain ⟨w, rest, -, hw, hle, hrest, rfl⟩ := foldDims_cons.mp h
    obtain ⟨hlen, hpos, hle⟩ := ih hle hrest
    refine ⟨by simp [hlen], ?_, by rw [product_cons, ← Nat.mul_assoc]; exact hle⟩
    simp only [List.mem_cons, forall_eq_or_imp]
    exact ⟨by omega, hpos⟩

theorem shaped_of_foldDims (h : foldDims scope 1 es = .ok ds) : Shaped ds := by
  obtain ⟨-, hpos, hle⟩ := foldDims_shaped (by decide) h
  exact ⟨hpos, by rwa [one_mul] at hle⟩

end Sysy.Lowering
