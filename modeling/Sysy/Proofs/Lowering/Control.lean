import Sysy.Proofs.Lowering.Crossing

/-!
The states that lowering a condition or a loop goes through. Both are made of arms: a block that is
opened for one statement, behind which the code goes to a given block.
-/

namespace Sysy.Lowering
open Ir

variable {t : Target} {loops : List Loop} {s s' s₁ s₂ : State} {P Q : Set Nat} {bb after : BlockId}
  {x body : Stmt} {test : Expr}
  {span : Span}

structure Arm (t : Target) (loops : List Loop) (bb after : BlockId) (x : Stmt)
    (s s' : State) : Prop where
  closed : ∃ P, At t true P s ∧ bb ∈ P
  passes : Passes t s s'
  steps : ∃ s₁ s₂ id P, startBlock t bb s = .ok ((), s₁) ∧ Moves t s s₁ ∧ At t false P s₁ ∧
    LoopsOk s₁.module t.func loops ∧ lowerStmt t loops x s₁ = .ok ((), s₂) ∧ At t false P s₂ ∧
    build (Build.jump t.func after) s₂ = .ok (id, s') ∧ Moves t s₂ s'

theorem Arm.of_runs {id : ValueId} (h : At t true P s) (hbb : bb ∈ P) (hbb2 : bb ≠ 2)
    (hloops : LoopsOk s.module t.func loops) (hafter : IsTarget s.module t.func after)
    (hstart : startBlock t bb s = .ok ((), s₁)) (hstmt : lowerStmt t loops x s₁ = .ok ((), s₂))
    (hjump : build (Build.jump t.func after) s₂ = .ok (id, s')) :
    Arm t loops bb after x s s' ∧ At t true (P \ {bb}) s' := by
  obtain ⟨hm₁, h₁⟩ := (gives_startBlock h hbb hbb2).ok hstart
  have hloops₁ := hloops.extends hm₁.extends
  obtain ⟨hp₂, h₂⟩ := (lasts_lowerStmt h₁ hloops₁ x).ok hstmt
  obtain ⟨hm₃, h₃⟩ :=
    (gives_jump h₂ ((hafter.extends hm₁.extends).extends hp₂.grows.extends)).ok hjump
  exact ⟨⟨⟨P, h, hbb⟩, hm₁.passes.trans (hp₂.trans hm₃.passes),
    s₁, s₂, id, P \ {bb}, hstart, hm₁, h₁, hloops₁, hstmt, h₂, hjump, hm₃⟩, h₃⟩

def Labels (t : Target) (s s' : State) : Prop :=
  ∀ (k : Setting) a st, k.Standing t s a → k.Crosses t s a st s' a st

theorem Labels.trans {s'' : State} (h : Labels t s s') (h' : Labels t s' s'') : Labels t s s'' :=
  fun k a st hs =>
  (h k a st hs).trans (h' k a st (h k a st hs).standing)

theorem labels_newBlock {name : String} (h : newBlock t name s = .ok (bb, s')) : Labels t s s' :=
  fun _ _ st hs =>
  Setting.crosses_newBlock hs h st

structure CondSteps (t : Target) (loops : List Loop) (test : Expr) (yes : Stmt) (no : Option Stmt)
    (s s' : State) where
  cond : ValueId
  yesBlock : BlockId
  noBlock : BlockId
  after : BlockId
  tested : State
  labelled : State
  branched : State
  chosen : State
  closed : State
  tests : lowerScalar t test s = .ok (cond, tested)
  readable : tested.module.Readable t.func cond .i32
  labels : Labels t tested labelled
  here : ∃ P, At t false P labelled
  branch : ∃ u, build (Build.branch t.func cond yesBlock noBlock) labelled = .ok (u, branched)
  yes : Arm t loops yesBlock after yes branched chosen
  no : match no with
    | none => noBlock = after ∧ closed = chosen
    | some x => Arm t loops noBlock after x chosen closed
  joins : startBlock t after closed = .ok ((), s')
  closed_at : ∃ P, At t true P closed ∧ after ∈ P
  moves_tests : Moves t s tested
  moves_labels : Moves t tested labelled
  moves_branch : Moves t labelled branched
  moves_join : Moves t closed s'

theorem exists_condSteps {yes : Stmt} {no : Option Stmt} (h : At t false P s)
    (hloops : LoopsOk s.module t.func loops)
    (hrun : lowerStmt t loops (.cond span test yes no) s = .ok ((), s')) :
    Nonempty (CondSteps t loops test yes no s s') := by
  rw [lowerStmt] at hrun
  obtain ⟨cond, s₁, htest, hrun⟩ := bind_ok.mp hrun
  obtain ⟨yesBlock, s₂, hyesRun, hrun⟩ := bind_ok.mp hrun
  obtain ⟨after, s₃, hafterRun, hrun⟩ := bind_ok.mp hrun
  obtain ⟨hm₁, h₁, hcond⟩ := (yields_lowerScalar h test).ok htest
  obtain ⟨hm₂, h₂, hyes, hyes2⟩ := (gives_newBlock h₁ (by decide)).ok hyesRun
  obtain ⟨hm₃, h₃, hafter, hafter2⟩ := (gives_newBlock h₂ (by decide)).ok hafterRun
  have hne : after ≠ yesBlock := fun heq => hafter (heq ▸ Set.mem_insert _ _)
  have hlabels := (labels_newBlock hyesRun).trans (labels_newBlock hafterRun)
  have hm := hm₂.trans hm₃
  cases no with
  | none =>
    dsimp only [Option.isSome] at hrun
    rw [if_neg Bool.false_ne_true, pure_bind] at hrun
    obtain ⟨u, s₄, hbranch, hrun⟩ := bind_ok.mp hrun
    obtain ⟨⟨⟩, s₅, hstart, hrun⟩ := bind_ok.mp hrun
    obtain ⟨⟨⟩, s₆, hstmt, hrun⟩ := bind_ok.mp hrun
    obtain ⟨_, s₇, hjump, hrun⟩ := bind_ok.mp hrun
    rw [lowerElse, pure_bind] at hrun
    have hyesP : yesBlock ∈ insert after (insert yesBlock P) := by simp
    have hafterP : after ∈ insert after (insert yesBlock P) := by simp
    obtain ⟨hm₄, h₄⟩ :=
      (gives_branch h₃ (hm.readable hcond) (h₃.isTarget hyesP) (h₃.isTarget hafterP)).ok hbranch
    obtain ⟨harm, h₇⟩ :=
      Arm.of_runs h₄ hyesP hyes2 (hloops.extends (hm₁.trans (hm.trans hm₄)).extends)
      (h₄.isTarget hafterP) hstart hstmt hjump
    have hafterP' : after ∈ insert after (insert yesBlock P) \ {yesBlock} := ⟨hafterP, hne⟩
    exact ⟨cond, yesBlock, after, after, s₁, s₃, s₄, s₇, s₇, htest, hcond, hlabels, ⟨_, h₃⟩,
      ⟨u, hbranch⟩, harm, ⟨rfl, rfl⟩,
      hrun, ⟨_, h₇, hafterP'⟩, hm₁, hm, hm₄, ((gives_startBlock h₇ hafterP' hafter2).ok hrun).1⟩
  | some x =>
    dsimp only [Option.isSome] at hrun
    rw [if_pos rfl] at hrun
    obtain ⟨noBlock, s₄, hnoRun, hrun⟩ := bind_ok.mp hrun
    obtain ⟨u, s₅, hbranch, hrun⟩ := bind_ok.mp hrun
    obtain ⟨⟨⟩, s₆, hstart, hrun⟩ := bind_ok.mp hrun
    obtain ⟨⟨⟩, s₇, hstmt, hrun⟩ := bind_ok.mp hrun
    obtain ⟨_, s₈, hjump, hrun⟩ := bind_ok.mp hrun
    rw [lowerElse] at hrun
    obtain ⟨⟨⟩, s₉, helse, hrun⟩ := bind_ok.mp hrun
    obtain ⟨⟨⟩, sa, hstart', helse⟩ := bind_ok.mp helse
    obtain ⟨⟨⟩, sb, hstmt', helse⟩ := bind_ok.mp helse
    obtain ⟨_, sc, hjump', helse⟩ := bind_ok.mp helse
    obtain ⟨-, rfl⟩ := pure_ok.mp helse
    obtain ⟨hm₄, h₄, hno, hno2⟩ := (gives_newBlock h₃ (by decide)).ok hnoRun
    have hne' : noBlock ≠ yesBlock ∧ after ≠ noBlock := by
      simp only [Set.mem_insert_iff, not_or] at hno
      exact ⟨hno.2.1, Ne.symm hno.1⟩
    have hyesP : yesBlock ∈ insert noBlock (insert after (insert yesBlock P)) := by simp
    have hnoP : noBlock ∈ insert noBlock (insert after (insert yesBlock P)) := by simp
    have hafterP : after ∈ insert noBlock (insert after (insert yesBlock P)) := by simp
    have hm' := hm.trans hm₄
    obtain ⟨hm₅, h₅⟩ :=
      (gives_branch h₄ (hm'.readable hcond) (h₄.isTarget hyesP) (h₄.isTarget hnoP)).ok hbranch
    have hloops₅ := hloops.extends (hm₁.trans (hm'.trans hm₅)).extends
    obtain ⟨harm, h₈⟩ := Arm.of_runs h₅ hyesP hyes2 hloops₅ (h₅.isTarget hafterP) hstart hstmt hjump
    have hnoP' : noBlock ∈ insert noBlock (insert after (insert yesBlock P)) \ {yesBlock} :=
      ⟨hnoP, hne'.1⟩
    have hafterP' : after ∈ insert noBlock (insert after (insert yesBlock P)) \ {yesBlock} :=
      ⟨hafterP, hne⟩
    obtain ⟨harm', h₉⟩ := Arm.of_runs h₈ hnoP' hno2 (hloops₅.extends harm.passes.grows.extends)
      (h₈.isTarget hafterP') hstart'
      hstmt' hjump'
    have hafterP'' :=
      show after ∈ (insert noBlock (insert after (insert yesBlock P)) \ {yesBlock}) \ {noBlock} from
      ⟨hafterP', hne'.2⟩
    exact ⟨cond, yesBlock, noBlock, after, s₁, s₄, s₅, s₈, sc, htest, hcond,
      hlabels.trans (labels_newBlock hnoRun), ⟨_, h₄⟩,
      ⟨u, hbranch⟩, harm, harm', hrun, ⟨_, h₉, hafterP''⟩, hm₁, hm', hm₅,
      ((gives_startBlock h₉ hafterP'' hafter2).ok hrun).1⟩

structure LoopSteps (t : Target) (loops : List Loop) (test : Expr) (body : Stmt)
    (s s' : State) where
  cond : ValueId
  bodyBlock : BlockId
  loop : Loop
  labelled : State
  entered : State
  opened : State
  tested : State
  branched : State
  closed : State
  labels : Labels t s labelled
  here : ∃ P, At t false P labelled
  enters : ∃ u, build (Build.jump t.func loop.test) labelled = .ok (u, entered)
  entered_at : ∃ P, At t true P entered ∧ loop.test ∈ P
  opens : startBlock t loop.test entered = .ok ((), opened)
  opened_at : ∃ P, At t false P opened
  tests : lowerScalar t test opened = .ok (cond, tested)
  readable : tested.module.Readable t.func cond .i32
  tested_at : ∃ P, At t false P tested
  branch : ∃ u, build (Build.branch t.func cond bodyBlock loop.exit) tested = .ok (u, branched)
  body : Arm t (loop :: loops) bodyBlock loop.test body branched closed
  joins : startBlock t loop.exit closed = .ok ((), s')
  closed_at : ∃ P, At t true P closed ∧ loop.exit ∈ P
  moves_labels : Moves t s labelled
  moves_enter : Moves t labelled entered
  moves_open : Moves t entered opened
  moves_test : Moves t opened tested
  moves_branch : Moves t tested branched
  moves_join : Moves t closed s'

theorem exists_loopSteps (h : At t false P s) (hloops : LoopsOk s.module t.func loops)
    (hrun : lowerStmt t loops (.loop span test body) s = .ok ((), s')) :
    Nonempty (LoopSteps t loops test body s s') := by
  rw [lowerStmt] at hrun
  obtain ⟨testBlock, s₁, htestRun, hrun⟩ := bind_ok.mp hrun
  obtain ⟨bodyBlock, s₂, hbodyRun, hrun⟩ := bind_ok.mp hrun
  obtain ⟨after, s₃, hafterRun, hrun⟩ := bind_ok.mp hrun
  obtain ⟨u, s₄, hjump, hrun⟩ := bind_ok.mp hrun
  obtain ⟨⟨⟩, s₅, hopen, hrun⟩ := bind_ok.mp hrun
  obtain ⟨cond, s₆, htest, hrun⟩ := bind_ok.mp hrun
  obtain ⟨u', s₇, hbranch, hrun⟩ := bind_ok.mp hrun
  obtain ⟨⟨⟩, s₈, hstart, hrun⟩ := bind_ok.mp hrun
  obtain ⟨⟨⟩, s₉, hstmt, hrun⟩ := bind_ok.mp hrun
  obtain ⟨_, s₁₀, hback, hrun⟩ := bind_ok.mp hrun
  obtain ⟨hm₁, h₁, htestP, htest2⟩ := (gives_newBlock h (by decide)).ok htestRun
  obtain ⟨hm₂, h₂, hbodyP, hbody2⟩ := (gives_newBlock h₁ (by decide)).ok hbodyRun
  obtain ⟨hm₃, h₃, hafterP, hafter2⟩ := (gives_newBlock h₂ (by decide)).ok hafterRun
  have hm := hm₁.trans (hm₂.trans hm₃)
  simp only [Set.mem_insert_iff, not_or] at hbodyP hafterP
  have htestQ : testBlock ∈ insert after (insert bodyBlock (insert testBlock P)) := by simp
  have hbodyQ : bodyBlock ∈ insert after (insert bodyBlock (insert testBlock P)) \ {testBlock} :=
    ⟨by simp, hbodyP.1⟩
  have hafterQ : after ∈ insert after (insert bodyBlock (insert testBlock P)) \ {testBlock} :=
    ⟨by simp, hafterP.2.1⟩
  obtain ⟨hm₄, h₄⟩ := (gives_jump h₃ (h₃.isTarget htestQ)).ok hjump
  obtain ⟨hm₅, h₅⟩ := (gives_startBlock h₄ htestQ htest2).ok hopen
  obtain ⟨hm₆, h₆, hcond⟩ := (yields_lowerScalar h₅ test).ok htest
  obtain ⟨hm₇, h₇⟩ := (gives_branch h₆ hcond (h₆.isTarget hbodyQ) (h₆.isTarget hafterQ)).ok hbranch
  have htestT : IsTarget s₇.module t.func testBlock :=
    (h₃.isTarget htestQ).extends (hm₄.trans (hm₅.trans (hm₆.trans hm₇))).extends
  have hloops₇ : LoopsOk s₇.module t.func (⟨testBlock, after⟩ :: loops) := by
    intro l hl
    rcases List.mem_cons.mp hl with rfl | hl
    · exact ⟨htestT, h₇.isTarget hafterQ⟩
    · exact (hloops.extends (hm.trans (hm₄.trans (hm₅.trans (hm₆.trans hm₇)))).extends) l hl
  obtain ⟨harm, h₁₀⟩ := Arm.of_runs h₇ hbodyQ hbody2 hloops₇ htestT hstart hstmt hback
  have hafterQ' : after ∈ (insert after (insert bodyBlock (insert testBlock P)) \ {testBlock}) \
    {bodyBlock} :=
    ⟨hafterQ, hafterP.1⟩
  exact ⟨cond, bodyBlock, ⟨testBlock, after⟩, s₃, s₄, s₅, s₆, s₇, s₁₀,
    ((labels_newBlock htestRun).trans (labels_newBlock hbodyRun)).trans (labels_newBlock hafterRun),
      ⟨_, h₃⟩, ⟨u, hjump⟩,
    ⟨_, h₄, htestQ⟩, hopen, ⟨_, h₅⟩, htest, hcond, ⟨_, h₆⟩, ⟨u', hbranch⟩, harm, hrun,
      ⟨_, h₁₀, hafterQ'⟩, hm, hm₄, hm₅, hm₆,
    hm₇, ((gives_startBlock h₁₀ hafterQ' hafter2).ok hrun).1⟩

/-! Statements that leave for another block. What stands behind them goes to a block of its own. -/

theorem moves_leave {id : ValueId} (h : At t false P s) (hbb : IsTarget s.module t.func bb)
    (hjump : build (Build.jump t.func bb) s = .ok (id, s₁))
    (hfresh : openFresh t s₁ = .ok ((), s')) : Moves t s s' := by
  obtain ⟨hm₁, h₁⟩ := (gives_jump h hbb).ok hjump
  exact hm₁.trans ((gives_openFresh h₁).ok hfresh).1

theorem toPlace_ok {v : Operand} {name : String} {span : Span} {place : ValueId}
    (hrun : v.toPlace name span s = .ok (place, s')) :
    v = .place place false ∧ s' = s := by
  unfold Operand.toPlace at hrun
  split at hrun
  · exact (reject_ok.mp hrun).elim
  · exact (reject_ok.mp hrun).elim
  · exact (reject_ok.mp hrun).elim
  · obtain ⟨rfl, rfl⟩ := pure_ok.mp hrun
    exact ⟨rfl, rfl⟩
  · exact (reject_ok.mp hrun).elim

theorem assign_ok {span target : Span} {name : String} {indices : List Expr} {value : Expr}
    {loops : List Loop} {u : Unit} (h : At t false P s)
    (hrun : lowerStmt t loops (.assign span target name indices value) s = .ok (u, s')) :
    ∃ v place x w s₁ s₂, lowerExpr t (.lval target name indices) s = .ok (v, s₁) ∧ Moves t s s₁ ∧
      v.toPlace name target s₁ = .ok (place, s₁) ∧ (∃ Q, At t false Q s₁) ∧ lowerScalar t value s₁ =
        .ok (x, s₂) ∧
      Moves t s₁ s₂ ∧ (∃ Q, At t false Q s₂) ∧ build (Build.store t.func x place) s₂ = .ok (w, s') ∧
      Moves t s₂ s' := by
  rw [lowerStmt] at hrun
  obtain ⟨v, s₁, hlval, hrun⟩ := bind_ok.mp hrun
  obtain ⟨place, s₂, htoPlace, hrun⟩ := bind_ok.mp hrun
  obtain ⟨x, s₃, hvalue, hrun⟩ := bind_ok.mp hrun
  obtain ⟨w, s₄, hstore, hpure⟩ := bind_ok.mp hrun
  obtain ⟨-, rfl⟩ := pure_ok.mp hpure
  obtain ⟨hm₁, h₁, hv⟩ := (yields_lowerExpr h (.lval target name indices)).ok hlval
  obtain ⟨hm₂, h₂, hplace⟩ := (yields_toPlace h₁ hv name target).ok htoPlace
  obtain ⟨hm₃, h₃, hx⟩ := (yields_lowerScalar h₂ value).ok hvalue
  obtain ⟨hm₄, -, -⟩ := (yields_store h₃ hx (hm₃.readable hplace)).ok hstore
  obtain ⟨-, rfl⟩ := toPlace_ok htoPlace
  exact ⟨v, place, x, w, s₂, s₃, hlval, hm₁, htoPlace, ⟨P, h₁⟩, hvalue, hm₃, ⟨P, h₃⟩, hstore, hm₄⟩

theorem moves_assign {span target : Span} {name : String} {indices : List Expr} {value : Expr}
    {loops : List Loop} {u : Unit} (h : At t false P s)
    (hrun : lowerStmt t loops (.assign span target name indices value) s = .ok (u, s')) :
    Moves t s s' := by
  obtain ⟨v, place, x, w, s₁, s₂, -, hm₁, -, -, -, hm₂, -, -, hm₃⟩ := assign_ok h hrun
  exact hm₁.trans (hm₂.trans hm₃)

theorem jump_ok {x : Stmt} {target : Loop → BlockId}
    (hx : x = .leave span ∧ target = Loop.exit ∨ x = .next span ∧ target = Loop.test)
    (hrun : lowerStmt t loops x s = .ok ((), s')) : ∃ l ls id s₁, loops = l :: ls ∧
      build (Build.jump t.func (target l)) s = .ok (id, s₁) ∧ openFresh t s₁ = .ok ((), s') := by
  rcases hx with ⟨rfl, rfl⟩ | ⟨rfl, rfl⟩
  all_goals
    rw [lowerStmt.eq_def] at hrun
    cases loops with
    | nil => exact (reject_ok.mp hrun).elim
    | cons l ls =>
      obtain ⟨id, s₁, hjump, hfresh⟩ := bind_ok.mp hrun
      exact ⟨l, ls, id, s₁, rfl, hjump, hfresh⟩

theorem ret_ok {value : Option Expr} (hrun : lowerStmt t loops (.ret span value) s = .ok ((), s')) :
    ∃ id s₁ s₂, build (Build.jump t.func t.exit) s₁ = .ok (id, s₂) ∧ openFresh t s₂ = .ok ((), s') ∧
      match value with
      | none => s₁ = s
      | some e => ∃ slot v u s₀, t.result = some slot ∧ lowerScalar t e s = .ok (v, s₀) ∧
          build (Build.store t.func v slot) s₀ = .ok (u, s₁) := by
  rw [lowerStmt.eq_def] at hrun
  dsimp only at hrun
  cases value with
  | none =>
    obtain ⟨id, s₁, hjump, hfresh⟩ := bind_ok.mp hrun
    exact ⟨id, s, s₁, hjump, hfresh, rfl⟩
  | some e =>
    cases hresult : t.result with
    | none =>
      rw [hresult] at hrun
      obtain ⟨_, _, hreject, -⟩ := bind_ok.mp hrun
      exact (reject_ok.mp hreject).elim
    | some slot =>
      rw [hresult] at hrun
      obtain ⟨v, s₀, hv, hrun⟩ := bind_ok.mp hrun
      obtain ⟨u, s₁, hstore, hrun⟩ := bind_ok.mp hrun
      obtain ⟨id, s₂, hjump, hfresh⟩ := bind_ok.mp hrun
      exact ⟨id, s₁, s₂, hjump, hfresh, slot, v, u, s₀, rfl, hv, hstore⟩

end Sysy.Lowering
