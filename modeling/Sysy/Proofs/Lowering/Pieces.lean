import Sysy.Proofs.Lowering.Steps

/-!
The pieces that the code of a logical operator, a condition and a loop is put together from. The
steps of each piece have a name, and the lowering of the whole is told by the names, so that what is
to be known about a piece is said once.
-/

namespace Sysy.Lowering
open Ir

variable {t : Target} {s s' : State} {P : Set Nat} {bb target onward zeroId result x : Nat}

def leaveFor (t : Target) (target onward : BlockId) : Lower Unit := do
  let _ ← build (Build.jump t.func target)
  startBlock t onward

/-! Operators. -/

theorem lowerExpr_unary (t : Target) (span : Span) (op : UnaryOp) (e : Expr) :
    lowerExpr t (.unary span op e) = (do
      let x ← lowerScalar t e
      lowerUnary t op x) := by
  rw [lowerExpr]
  simp [lowerScalar]

theorem lowerExpr_arith {op : BinaryOp} (hop : op.isLogical = false) (t : Target) (span : Span)
    (l r : Expr) :
    lowerExpr t (.binary span op l r) = (do
      let lhs ← lowerScalar t l
      let rhs ← lowerScalar t r
      return .int (← build (Build.binary t.func (arithOf op) lhs rhs)) false) := by
  rw [lowerExpr, if_neg (by simp [hop])]
  simp [lowerScalar]

def noteTruth (t : Target) (zeroId result x : ValueId) : Lower ValueId := do
  let truth ← build (Build.binary t.func .ne x zeroId)
  let _ ← build (Build.store t.func truth result)
  return truth

def forkLogic (t : Target) (op : BinaryOp) (first : ValueId) : Lower BlockId := do
  let more ← newBlock t ((logicShape op).1 ++ "_rhs")
  let done ← newBlock t ((logicShape op).1 ++ "_end")
  let _ ← build (if (logicShape op).2 then Build.branch t.func first more done else Build.branch
    t.func first done more)
  startBlock t more
  return done

def endLogic (t : Target) (result : ValueId) (done : BlockId) : Lower Operand := do
  leaveFor t done done
  return .int (← build (Build.load t.func result)) false

theorem lowerExpr_logic {op : BinaryOp} (hop : op.isLogical = true) (t : Target) (span : Span)
    (l r : Expr) :
    lowerExpr t (.binary span op l r) = (do
      let zeroId ← build (Build.integer 0)
      let result ← build (Build.alloc t.func .i32 "")
      let first ← noteTruth t zeroId result (← lowerScalar t l)
      let done ← forkLogic t op first
      let _ ← noteTruth t zeroId result (← lowerScalar t r)
      endLogic t result done) := by
  rw [lowerExpr, if_pos hop]
  simp [noteTruth, forkLogic, endLogic, leaveFor, lowerScalar]

theorem lowerIndices_cons (t : Target) (span : Span) (name : String) (w : Walk) (e : Expr)
    (es : List Expr) :
    lowerIndices t span name w (e :: es) = if w.canStep then (do
      let index ← lowerScalar t e
      let w' ← w.step t index
      lowerIndices t span name w' es) else reject { flaw := .derefInt, name, span } := by
  rw [lowerIndices]
  simp [lowerScalar]

/-! Conditions and loops. -/

def elseBlock (t : Target) (hasElse : Bool) (after : BlockId) : Lower BlockId :=
  if hasElse then newBlock t "else" else pure after

/-- The steps of a condition before its first arm. The result is the block of the second arm and the
one behind both; they are the same if there is no second arm. -/
def openCond (t : Target) (test : Expr) (hasElse : Bool) : Lower (BlockId × BlockId) := do
  let c ← lowerScalar t test
  let yesBlock ← newBlock t "then"
  let after ← newBlock t "if_end"
  let noBlock ← elseBlock t hasElse after
  let _ ← build (Build.branch t.func c yesBlock noBlock)
  startBlock t yesBlock
  return (noBlock, after)

def labelLoop (t : Target) : Lower (Loop × BlockId) := do
  let testBlock ← newBlock t "while_cond"
  let bodyBlock ← newBlock t "while_body"
  let after ← newBlock t "while_end"
  return (⟨testBlock, after⟩, bodyBlock)

def testLoop (t : Target) (test : Expr) (bodyBlock after : BlockId) : Lower Unit := do
  let c ← lowerScalar t test
  let _ ← build (Build.branch t.func c bodyBlock after)
  startBlock t bodyBlock

def enterLoop (t : Target) (test : Expr) (l : Loop) (bodyBlock : BlockId) : Lower Unit := do
  leaveFor t l.test l.test
  let c ← lowerScalar t test
  let _ ← build (Build.branch t.func c bodyBlock l.exit)
  startBlock t bodyBlock

def openLoop (t : Target) (test : Expr) : Lower Loop := do
  let p ← labelLoop t
  enterLoop t test p.1 p.2
  return p.1

theorem enterLoop_eq (t : Target) (test : Expr) (l : Loop) (bodyBlock : BlockId) :
    enterLoop t test l bodyBlock = (do
      leaveFor t l.test l.test
      testLoop t test bodyBlock l.exit) := rfl

theorem lowerStmt_cond_none (t : Target) (loops : List Loop) (span : Span) (test : Expr)
    (yes : Stmt) :
    lowerStmt t loops (.cond span test yes none) = (do
      let p ← openCond t test false
      lowerStmt t loops yes
      leaveFor t p.2 p.2) := by
  rw [lowerStmt]
  simp [openCond, elseBlock, leaveFor, lowerElse]

theorem lowerStmt_cond_some (t : Target) (loops : List Loop) (span : Span) (test : Expr)
    (yes no : Stmt) :
    lowerStmt t loops (.cond span test yes (some no)) = (do
      let p ← openCond t test true
      lowerStmt t loops yes
      leaveFor t p.2 p.1
      lowerStmt t loops no
      leaveFor t p.2 p.2) := by
  rw [lowerStmt]
  simp [openCond, elseBlock, leaveFor, lowerElse]

theorem lowerStmt_loop (t : Target) (loops : List Loop) (span : Span) (test : Expr) (body : Stmt) :
    lowerStmt t loops (.loop span test body) = (do
      let l ← openLoop t test
      lowerStmt t (l :: loops) body
      leaveFor t l.test l.exit) := by
  rw [lowerStmt]
  simp [openLoop, labelLoop, enterLoop, leaveFor]

theorem lowerStmts_single (t : Target) (loops : List Loop) (x : Stmt) :
    lowerStmts t loops [x] = lowerStmt t loops x := by
  rw [lowerStmts, lowerStmts]
  exact bind_pure _

/-! Which blocks wait to be laid out behind a piece. -/

theorem gives_leaveFor (h : At t false (insert onward P) s)
    (htarget : IsTarget s.module t.func target) (honward : onward ∉ P) (hne : onward ≠ 2) :
    Gives (leaveFor t target onward) s fun _ s' => Moves t s s' ∧ At t false P s' :=
  Gives.along (gives_jump h htarget) fun _ _ _ h₁ => gives_openBlock h₁ honward hne

theorem yields_noteTruth (h : At t false P s) (hzero : s.module.Readable t.func zeroId .i32)
    (hresult : s.module.Readable t.func result (.ptr .i32)) (hx : s.module.Readable t.func x .i32) :
    Yields t P s (noteTruth t zeroId result x) fun id m => m.Readable t.func id .i32 := by
  refine .bind (yields_binary h (by decide) hx hzero) fun truth s₁ hm₁ h₁ htruth => ?_
  refine .bind (yields_store h₁ htruth (hm₁.readable hresult)) fun _ s₂ hm₂ h₂ _ => ?_
  exact .pure h₂ (hm₂.readable htruth)

theorem logicShape_hints (op : BinaryOp) :
    (logicShape op).1 ++ "_rhs" ∈ bodyHints ∧ (logicShape op).1 ++ "_end" ∈ bodyHints := by
  cases op <;> decide

/-- A branch that goes to its second target if the condition holds only on demand. -/
theorem gives_branchOn {cond yes no : Nat} (h : At t false P s)
    (hcond : s.module.Readable t.func cond .i32) (hyes : yes ∈ P) (hno : no ∈ P) (onTrue : Bool) :
    Gives (build (if onTrue then Build.branch t.func cond yes no else Build.branch t.func
      cond no yes)) s fun _ s' => Moves t s s' ∧ At t true P s' := by
  cases onTrue with
  | true => exact gives_branch h hcond (h.isTarget hyes) (h.isTarget hno)
  | false => exact gives_branch h hcond (h.isTarget hno) (h.isTarget hyes)

theorem gives_forkLogic {first : Nat} (h : At t false P s)
    (hfirst : s.module.Readable t.func first .i32) (op : BinaryOp) : Gives (forkLogic t op first) s
      fun done s' => Moves t s s' ∧ At t false (insert done P) s' ∧ done ∉ P ∧ done ≠ 2 := by
  obtain ⟨hmoreHint, hdoneHint⟩ := logicShape_hints op
  refine Gives.along (gives_newBlock h hmoreHint) fun more s₁ hm₁ ⟨h₁, hmore, hmore2⟩ => ?_
  refine Gives.along (gives_newBlock h₁ hdoneHint) fun done s₂ hm₂ ⟨h₂, hdone, hdone2⟩ => ?_
  refine Gives.along (gives_branchOn h₂ ((hm₁.trans hm₂).readable hfirst) (by simp) (by simp) _)
    fun _ s₃ _ h₃ => ?_
  obtain ⟨hmore', hdone'⟩ := notMem_insert_swap hmore hdone
  rw [Set.insert_comm] at h₃
  refine Gives.along (gives_openBlock h₃ hmore' hmore2) fun _ s₄ _ h₄ => ?_
  exact Gives.pure ⟨.refl t s₄, h₄, hdone', hdone2⟩

theorem gives_elseBlock {after : Nat} {hasElse : Bool} (h : At t false (insert after P) s) :
    Gives (elseBlock t hasElse after) s fun no s' =>
      Moves t s s' ∧ At t false (insert no (insert after P)) s' ∧
      (hasElse = true → no ∉ insert after P ∧ no ≠ 2) ∧ (hasElse = false → no = after) := by
  cases hasElse with
  | false => exact Gives.pure ⟨.refl t s, by rwa [Set.insert_idem], by simp, fun _ => rfl⟩
  | true =>
    refine (gives_newBlock h (by decide)).mono ?_
    rintro no s' ⟨hm, h', hno, hno2⟩
    exact ⟨hm, h', fun _ => ⟨hno, hno2⟩, by simp⟩

structure CondBlocks (P : Set Nat) (hasElse : Bool) (p : BlockId × BlockId) : Prop where
  after : p.2 ∉ P
  after_ne : p.2 ≠ 2
  second : hasElse = true → p.1 ∉ insert p.2 P ∧ p.1 ≠ 2
  joined : hasElse = false → p.1 = p.2

structure LoopBlocks (P : Set Nat) (l : Loop) (bb : BlockId) : Prop where
  test : l.test ∉ insert bb (insert l.exit P)
  test_ne : l.test ≠ 2
  body : bb ∉ insert l.exit P
  body_ne : bb ≠ 2
  exit : l.exit ∉ P
  exit_ne : l.exit ≠ 2

theorem gives_labelLoop (h : At t false P s) : Gives (labelLoop t) s fun p s' =>
    Moves t s s' ∧ At t false (insert p.1.test (insert p.2 (insert p.1.exit P))) s' ∧
    LoopBlocks P p.1 p.2 := by
  refine Gives.along (gives_newBlock h (by decide)) fun testBlock s₁ _ ⟨h₁, htest, htest2⟩ => ?_
  refine Gives.along (gives_newBlock h₁ (by decide)) fun bodyBlock s₂ _ ⟨h₂, hbody, hbody2⟩ => ?_
  refine Gives.along (gives_newBlock h₂ (by decide)) fun after s₃ _ ⟨h₃, hafter, hafter2⟩ => ?_
  refine Gives.pure ⟨.refl t s₃, ?_, ?_⟩
  · rwa [Set.insert_comm after, Set.insert_comm after, Set.insert_comm bodyBlock] at h₃
  · simp only [Set.mem_insert_iff, not_or] at hbody hafter
    exact { test := by simp [htest, Ne.symm hbody.1, Ne.symm hafter.2.1], test_ne := htest2,
            body := by
              simp [hbody.2, Ne.symm hafter.1], body_ne := hbody2, exit :=
                hafter.2.2, exit_ne := hafter2 }

end Sysy.Lowering
