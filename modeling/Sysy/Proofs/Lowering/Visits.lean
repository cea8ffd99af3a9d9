import Sysy.Proofs.Lowering.Course

/-!
Statements inside statements. `Visits` gives the state in which each statement of a body is lowered,
with the blocks of the loops around it, innermost first. A state inside a body is told by the steps
that lead there.
-/

namespace Sysy

/-- The statement stands in the list, or deeper in one of its statements, inside a number of
loops. -/
inductive Stmt.Nested : List Stmt → Nat → Stmt → Prop
  | here {xs : List Stmt} {x : Stmt} (h : x ∈ xs) : Nested xs 0 x
  | block {xs ys : List Stmt} {span : Span} {n : Nat} {x : Stmt} (h : .block span ys ∈ xs)
      (inner : Nested ys n x) :
      Nested xs n x
  | yes {xs : List Stmt} {span : Span} {test : Expr} {y : Stmt} {no : Option Stmt}
      {n : Nat} {x : Stmt}
      (h : .cond span test y no ∈ xs) (inner : Nested [y] n x) : Nested xs n x
  | no {xs : List Stmt} {span : Span} {test : Expr} {yes y : Stmt} {n : Nat} {x : Stmt}
      (h : .cond span test yes (some y) ∈ xs) (inner : Nested [y] n x) : Nested xs n x
  | body {xs : List Stmt} {span : Span} {test : Expr} {y : Stmt} {n : Nat} {x : Stmt}
      (h : .loop span test y ∈ xs)
      (inner : Nested [y] n x) : Nested xs (n + 1) x

end Sysy

namespace Sysy.Lowering
open Ir

variable {t : Target} {loops : List Loop} {s s' s₁ s₂ : State} {P : Set Nat}
  {bb noBlock after target onward : BlockId}
  {l : Loop} {x y : Stmt} {xs body : List Stmt} {test : Expr} {span : Span}

theorem extends_leaveFor (h : At t false P s) (hrun : leaveFor t target onward s = .ok ((), s')) :
    Extends s.module s'.module := by
  obtain ⟨id, s₁, hjump, hstart⟩ := bind_ok.mp hrun
  obtain ⟨hadds, -⟩ := adds_jump h hjump
  exact hadds.extends.trans (extends_startBlock hadds.found hstart)

theorem openCond_course {hasElse : Bool} (h : At t false P s)
    (hrun : openCond t test hasElse s = .ok ((noBlock, after), s')) :
    ∃ c yes s₁ s₂, Course t ∅ s s₁ ∧ Adds t (.branch c yes noBlock) s₁ s₂ ∧ startBlock t yes s₂ =
      .ok ((), s') := by
  obtain ⟨c, s₁, htest, hrun⟩ := bind_ok.mp hrun
  obtain ⟨yesBlock, s₂, hyesRun, hrun⟩ := bind_ok.mp hrun
  obtain ⟨after, s₃, hafterRun, hrun⟩ := bind_ok.mp hrun
  obtain ⟨noBlock, s₄, hnoRun, hrun⟩ := bind_ok.mp hrun
  obtain ⟨_, s₅, hbranch, hrun⟩ := bind_ok.mp hrun
  obtain ⟨⟨⟩, s₆, hstart, hpure⟩ := bind_ok.mp hrun
  obtain ⟨heq, rfl⟩ := pure_ok.mp hpure
  obtain ⟨rfl, rfl⟩ := Prod.mk.inj heq
  obtain ⟨-, h₁, -⟩ := (yields_lowerScalar h test).ok htest
  obtain ⟨-, h₂, -⟩ := (gives_newBlock h₁ (by decide)).ok hyesRun
  obtain ⟨-, h₃, -⟩ := (gives_newBlock h₂ (by decide)).ok hafterRun
  obtain ⟨-, h₄, -⟩ := (gives_elseBlock h₃).ok hnoRun
  have helse : Course t ∅ s₃ s₄ := by
    cases hasElse with
    | false =>
      obtain ⟨-, rfl⟩ := pure_ok.mp hnoRun
      exact .refl _ s₃
    | true => exact .newBlock h₃ hnoRun
  have hcourse : Course t ∅ s s₄ :=
    (course_lowerScalar h htest).trans ((Course.newBlock h₁ hyesRun).trans
    ((Course.newBlock h₂ hafterRun).trans helse))
  exact ⟨c, yesBlock, s₄, s₅, hcourse, (adds_branch h₄ hbranch).1, hstart⟩

theorem labelLoop_course {S : Set ValueId} {p : Loop × BlockId} (h : At t false P s)
    (hrun : labelLoop t s = .ok (p, s')) :
    Course t S s s' := by
  obtain ⟨testBlock, s₁, htestRun, hrun⟩ := bind_ok.mp hrun
  obtain ⟨bodyBlock, s₂, hbodyRun, hrun⟩ := bind_ok.mp hrun
  obtain ⟨after, s₃, hafterRun, hpure⟩ := bind_ok.mp hrun
  obtain ⟨-, rfl⟩ := pure_ok.mp hpure
  obtain ⟨-, h₁, -⟩ := (gives_newBlock h (by decide)).ok htestRun
  obtain ⟨-, h₂, -⟩ := (gives_newBlock h₁ (by decide)).ok hbodyRun
  exact (Course.newBlock h htestRun).trans ((Course.newBlock h₁ hbodyRun).trans
    (.newBlock h₂ hafterRun))

theorem openLoop_course (h : At t false P s) (hrun : openLoop t test s = .ok (l, s')) :
    ∃ c bb s₁ s₂ s₃ s₄, Course t ∅ s s₁ ∧ (∃ Q, At t false Q s₁) ∧ leaveFor t l.test l.test s₁ =
      .ok ((), s₂) ∧
      Course t ∅ s₂ s₃ ∧ Adds t (.branch c bb l.exit) s₃ s₄ ∧ startBlock t bb s₄ =
        .ok ((), s') := by
  obtain ⟨⟨l', bb⟩, s₁, hlabel, hrun⟩ := bind_ok.mp hrun
  obtain ⟨⟨⟩, s₅, henter, hpure⟩ := bind_ok.mp hrun
  obtain ⟨rfl, rfl⟩ := pure_ok.mp hpure
  obtain ⟨-, h₁, hl⟩ := (gives_labelLoop h).ok hlabel
  obtain ⟨⟨⟩, s₂, hleave, henter⟩ := bind_ok.mp henter
  obtain ⟨c, s₃, hcond, henter⟩ := bind_ok.mp henter
  obtain ⟨_, s₄, hbranch, hstart⟩ := bind_ok.mp henter
  obtain ⟨-, h₂⟩ :=
    (gives_leaveFor h₁ (h₁.isTarget (Set.mem_insert _ _)) hl.test hl.test_ne).ok hleave
  obtain ⟨-, h₃, -⟩ := (yields_lowerScalar h₂ test).ok hcond
  exact ⟨c, bb, s₁, s₂, s₃, s₄, labelLoop_course h hlabel, ⟨_, h₁⟩, hleave,
    course_lowerScalar h₂ hcond,
    (adds_branch h₃ hbranch).1, hstart⟩

/-! The parts of a statement, in a run that lowers it. -/

structure Part (t : Target) (loops : List Loop) (x : Stmt) (P : Set Nat) (s s' : State) : Prop where
  here : At t false P s
  targets : LoopsOk s.module t.func loops
  run : lowerStmt t loops x s = .ok ((), s')
  passes : Passes t s s'
  behind : At t false P s'

theorem Part.of_run (h : At t false P s) (hloops : LoopsOk s.module t.func loops)
    (hrun : lowerStmt t loops x s = .ok ((), s')) : Part t loops x P s s' := by
  obtain ⟨hp, h'⟩ := (lasts_lowerStmt h hloops x).ok hrun
  exact ⟨h, hloops, hrun, hp, h'⟩

theorem exists_openCond {no : Option Stmt}
    (hrun : lowerStmt t loops (.cond span test x no) s = .ok ((), s')) :
    ∃ p s₁, openCond t test no.isSome s = .ok (p, s₁) := by
  cases no with
  | none =>
    rw [lowerStmt_cond_none] at hrun
    obtain ⟨p, s₁, hopen, -⟩ := bind_ok.mp hrun
    exact ⟨p, s₁, hopen⟩
  | some y =>
    rw [lowerStmt_cond_some] at hrun
    obtain ⟨p, s₁, hopen, -⟩ := bind_ok.mp hrun
    exact ⟨p, s₁, hopen⟩

theorem cond_parts {p : BlockId × BlockId} (h : At t false P s)
    (hloops : LoopsOk s.module t.func loops)
    (hrun : lowerStmt t loops (.cond span test x none) s = .ok ((), s'))
    (hopen : openCond t test false s = .ok (p, s₁)) :
    ∃ s₂ Q, Moves t s s₁ ∧ Part t loops x Q s₁ s₂ ∧ leaveFor t p.2 p.2 s₂ = .ok ((), s') ∧
    Moves t s₂ s' := by
  rw [lowerStmt_cond_none, run_bind hopen] at hrun
  obtain ⟨⟨⟩, s₂, hx, hleave⟩ := bind_ok.mp hrun
  obtain ⟨hm₁, h₁, hp⟩ := (gives_openCond h test false).ok hopen
  rw [hp.joined rfl, Set.insert_idem] at h₁
  have hpart := Part.of_run h₁ (hloops.extends hm₁.extends) hx
  have htarget := hpart.behind.isTarget (Set.mem_insert _ _)
  exact ⟨s₂, _, hm₁, hpart, hleave,
    ((gives_leaveFor hpart.behind htarget hp.after hp.after_ne).ok hleave).1⟩

theorem cond_else_parts {p : BlockId × BlockId} (h : At t false P s)
    (hloops : LoopsOk s.module t.func loops)
    (hrun : lowerStmt t loops (.cond span test x (some y)) s = .ok ((), s'))
    (hopen : openCond t test true s = .ok (p, s₁)) :
    ∃ s₂ s₃ s₄ Q R, Moves t s s₁ ∧ Part t loops x Q s₁ s₂ ∧ leaveFor t p.2 p.1 s₂ = .ok ((), s₃) ∧
    Moves t s₂ s₃ ∧
      Part t loops y R s₃ s₄ ∧ leaveFor t p.2 p.2 s₄ = .ok ((), s') ∧ Moves t s₄ s' := by
  rw [lowerStmt_cond_some, run_bind hopen] at hrun
  obtain ⟨⟨⟩, s₂, hx, hrun⟩ := bind_ok.mp hrun
  obtain ⟨⟨⟩, s₃, hturn, hrun⟩ := bind_ok.mp hrun
  obtain ⟨⟨⟩, s₄, hy, hleave⟩ := bind_ok.mp hrun
  obtain ⟨hm₁, h₁, hp⟩ := (gives_openCond h test true).ok hopen
  obtain ⟨hno, hno2⟩ := hp.second rfl
  have hpart := Part.of_run h₁ (hloops.extends hm₁.extends) hx
  obtain ⟨hm₃, h₃⟩ :=
    (gives_leaveFor hpart.behind (hpart.behind.isTarget (by simp)) hno hno2).ok hturn
  have hpart' :=
    Part.of_run h₃ ((hpart.targets.extends hpart.passes.grows.extends).extends hm₃.extends) hy
  have htarget := hpart'.behind.isTarget (Set.mem_insert _ _)
  exact ⟨s₂, s₃, s₄, _, _, hm₁, hpart, hturn, hm₃, hpart', hleave,
    ((gives_leaveFor hpart'.behind htarget hp.after hp.after_ne).ok hleave).1⟩

theorem exists_openLoop (hrun : lowerStmt t loops (.loop span test x) s = .ok ((), s')) :
    ∃ l s₁, openLoop t test s = .ok (l, s₁) := by
  rw [lowerStmt_loop] at hrun
  obtain ⟨l, s₁, hopen, -⟩ := bind_ok.mp hrun
  exact ⟨l, s₁, hopen⟩

theorem loop_parts (h : At t false P s) (hloops : LoopsOk s.module t.func loops)
    (hrun : lowerStmt t loops (.loop span test x) s = .ok ((), s'))
    (hopen : openLoop t test s = .ok (l, s₁)) :
    ∃ s₂ Q, Moves t s s₁ ∧ Part t (l :: loops) x Q s₁ s₂ ∧ leaveFor t l.test l.exit s₂ =
      .ok ((), s') ∧ Moves t s₂ s' := by
  rw [lowerStmt_loop, run_bind hopen] at hrun
  obtain ⟨⟨⟩, s₂, hx, hleave⟩ := bind_ok.mp hrun
  obtain ⟨hm₁, h₁, hexit, hexit2, htest⟩ := (gives_openLoop h test).ok hopen
  have hpart := Part.of_run h₁ (hloops.cons hm₁.extends h₁ (Set.mem_insert _ _) htest) hx
  have htest₂ := htest.extends hpart.passes.grows.extends
  exact ⟨s₂, _, hm₁, hpart, hleave, ((gives_leaveFor hpart.behind htest₂ hexit hexit2).ok hleave).1⟩

/-- While the body of a function is lowered from the state `s₁` on, the statements `xs` are lowered
inside the loops `loops` from the state `s` on. -/
inductive Visits (t : Target) (body : List Stmt) (s₁ : State) : List Loop → List Stmt → State → Prop
  | start : Visits t body s₁ [] body s₁
  | next {loops : List Loop} {x : Stmt} {xs : List Stmt} {s s' : State}
      (h : Visits t body s₁ loops (x :: xs) s)
      (hx : lowerStmt t loops x s = .ok ((), s')) : Visits t body s₁ loops xs s'
  | block {loops : List Loop} {span : Span} {xs ys : List Stmt} {s : State}
      (h : Visits t body s₁ loops (.block span xs :: ys) s) :
      Visits t body s₁ loops xs { s with scope := s.scope.enter .block }
  | yes {loops : List Loop} {span : Span} {test : Expr} {x : Stmt} {no : Option Stmt}
      {ys : List Stmt} {s s' : State}
      {p : BlockId × BlockId} (h : Visits t body s₁ loops (.cond span test x no :: ys) s)
      (hopen : openCond t test no.isSome s = .ok (p, s')) : Visits t body s₁ loops [x] s'
  | no {loops : List Loop} {span : Span} {test : Expr} {x y : Stmt} {ys : List Stmt}
      {s s' s'' s''' : State}
      {p : BlockId × BlockId} (h : Visits t body s₁ loops (.cond span test x (some y) :: ys) s)
      (hopen : openCond t test true s = .ok (p, s')) (hx : lowerStmt t loops x s' = .ok ((), s''))
      (hleave : leaveFor t p.2 p.1 s'' = .ok ((), s''')) : Visits t body s₁ loops [y] s'''
  | body {loops : List Loop} {span : Span} {test : Expr} {x : Stmt} {ys : List Stmt}
      {s s' : State} {l : Loop}
      (h : Visits t body s₁ loops (.loop span test x :: ys) s)
        (hopen : openLoop t test s = .ok (l, s')) :
      Visits t body s₁ (l :: loops) [x] s'

/-- Statements are lowered in `s`, as a part of what ends in `s₂`. -/
structure Within (t : Target) (s₂ : State) (loops : List Loop) (xs : List Stmt)
    (s : State) : Prop where
  here : ∃ P, At t false P s
  targets : LoopsOk s.module t.func loops
  run : ∃ s', lowerStmts t loops xs s = .ok ((), s') ∧ Grows t.func s'.module s₂.module

namespace Within

theorem next (h : Within t s₂ loops (x :: xs) s) (hx : lowerStmt t loops x s = .ok ((), s')) :
    Within t s₂ loops xs s' := by
  obtain ⟨⟨P, hat⟩, hloops, s'', hrun, he⟩ := h
  rw [lowerStmts, run_bind hx] at hrun
  obtain ⟨hp, h'⟩ := (lasts_lowerStmt hat hloops x).ok hx
  exact ⟨⟨P, h'⟩, hloops.extends hp.grows.extends, s'', hrun, he⟩

theorem head (h : Within t s₂ loops (x :: xs) s) :
    ∃ s', lowerStmt t loops x s = .ok ((), s') ∧ Within t s₂ loops xs s' ∧
    Grows t.func s'.module s₂.module := by
  obtain ⟨s'', hrun, he⟩ := h.run
  rw [lowerStmts] at hrun
  obtain ⟨⟨⟩, s', hx, hrun⟩ := bind_ok.mp hrun
  have hnext := h.next hx
  obtain ⟨P, h'⟩ := hnext.here
  obtain ⟨hp, -⟩ := (lasts_lowerStmts h' hnext.targets xs).ok hrun
  exact ⟨s', hx, hnext, hp.grows.trans he⟩

theorem single (hat : At t false P s) (hloops : LoopsOk s.module t.func loops)
    (hx : lowerStmt t loops x s = .ok ((), s')) (he : Grows t.func s'.module s₂.module) :
    Within t s₂ loops [x] s :=
  ⟨⟨P, hat⟩, hloops, s', by rw [lowerStmts_single]; exact hx, he⟩

theorem block (h : Within t s₂ loops (.block span xs :: body) s) :
    Within t s₂ loops xs { s with scope := s.scope.enter .block } := by
  obtain ⟨s', hx, -, he⟩ := h.head
  obtain ⟨P, hat⟩ := h.here
  rw [lowerStmt, run_bind (enter_run .block)] at hx
  obtain ⟨⟨⟩, s₁, hxs, hexit⟩ := bind_ok.mp hx
  obtain rfl : { s₁ with scope := s₁.scope.exit } = s' := (Prod.mk.inj (Except.ok.inj hexit)).2
  exact ⟨⟨P, hat.enter⟩, h.targets, s₁, hxs, he⟩

theorem of_part (hpart : Part t loops x P s s') (he : Grows t.func s'.module s₂.module) :
    Within t s₂ loops [x] s :=
  .single hpart.here hpart.targets hpart.run he

theorem cond {no : Option Stmt} {p : BlockId × BlockId}
    (h : Within t s₂ loops (.cond span test x no :: xs) s)
    (hopen : openCond t test no.isSome s = .ok (p, s₁)) : Within t s₂ loops [x] s₁ ∧
      ∀ y s' s'', no = some y → lowerStmt t loops x s₁ = .ok ((), s') → leaveFor t p.2 p.1 s' =
        .ok ((), s'') → Within t s₂ loops [y] s'' := by
  obtain ⟨s', hx, -, he⟩ := h.head
  obtain ⟨P, hat⟩ := h.here
  cases no with
  | none =>
    obtain ⟨s₃, Q, -, hyes, -, hm₄⟩ := cond_parts hat h.targets hx hopen
    exact ⟨of_part hyes (hm₄.grows.trans he), by simp⟩
  | some y =>
    obtain ⟨s₃, s₄, s₅, Q, R, -, hyes, hturn, hm₄, hno, -, hm₆⟩ :=
      cond_else_parts hat h.targets hx hopen
    have he₅ := hm₆.grows.trans he
    refine ⟨of_part hyes (hm₄.grows.trans (hno.passes.grows.trans he₅)), ?_⟩
    rintro _ s' s'' ⟨⟩ hyes' hturn'
    obtain ⟨-, rfl⟩ := Prod.mk.inj (Except.ok.inj (hyes.run.symm.trans hyes'))
    obtain ⟨-, rfl⟩ := Prod.mk.inj (Except.ok.inj (hturn.symm.trans hturn'))
    exact of_part hno he₅

theorem loop (h : Within t s₂ loops (.loop span test x :: xs) s)
    (hopen : openLoop t test s = .ok (l, s₁)) :
    Within t s₂ (l :: loops) [x] s₁ := by
  obtain ⟨s', hx, -, he⟩ := h.head
  obtain ⟨P, hat⟩ := h.here
  obtain ⟨s₃, Q, -, hbody, -, hm₄⟩ := loop_parts hat h.targets hx hopen
  exact of_part hbody (hm₄.grows.trans he)

end Within

namespace Visits

/-- Whatever is lowered on the way is lowered as a part of the body. -/
theorem within (h : Visits t body s₁ loops xs s) (hbody : Within t s₂ [] body s₁) :
    Within t s₂ loops xs s := by
  induction h with
  | start => exact hbody
  | next _ hx ih => exact ih.next hx
  | block _ ih => exact ih.block
  | yes _ hopen ih => exact (ih.cond hopen).1
  | no _ hopen hx hleave ih => exact (ih.cond hopen).2 _ _ _ rfl hx hleave
  | body _ hopen ih => exact ih.loop hopen

theorem of_mem (h : Visits t body s₁ loops xs s) (hbody : Within t s₂ [] body s₁) (hx : x ∈ xs) :
    ∃ ys s', Visits t body s₁ loops (x :: ys) s' := by
  induction xs generalizing s with
  | nil => cases hx
  | cons y ys ih =>
    rcases List.mem_cons.mp hx with rfl | hx
    · exact ⟨ys, s, h⟩
    · obtain ⟨s', hy, -⟩ := (h.within hbody).head
      exact ih (h.next hy) hx

/-- Each statement comes up, however deep it stands, inside as many loops as there are around it. -/
theorem of_nested {n : Nat} (hx : Stmt.Nested xs n x) (h : Visits t body s₁ loops xs s)
    (hbody : Within t s₂ [] body s₁) :
    ∃ loops' ys s', loops'.length = loops.length + n ∧ Visits t body s₁ loops' (x :: ys) s' := by
  induction hx generalizing loops s with
  | here hmem =>
    obtain ⟨ys, s', h'⟩ := h.of_mem hbody hmem
    exact ⟨loops, ys, s', rfl, h'⟩
  | block hmem _ ih =>
    obtain ⟨ys, s', h'⟩ := h.of_mem hbody hmem
    exact ih h'.block
  | yes hmem _ ih =>
    obtain ⟨ys, s', h'⟩ := h.of_mem hbody hmem
    obtain ⟨s'', hcond, -⟩ := (h'.within hbody).head
    obtain ⟨p, s₃, hopen⟩ := exists_openCond hcond
    exact ih (h'.yes hopen)
  | no hmem _ ih =>
    obtain ⟨ys, s', h'⟩ := h.of_mem hbody hmem
    obtain ⟨s'', hcond, -⟩ := (h'.within hbody).head
    obtain ⟨p, s₃, hopen⟩ := exists_openCond hcond
    obtain ⟨P, hat⟩ := (h'.within hbody).here
    obtain ⟨s₄, s₅, _, _, _, -, hyes, hleave, -⟩ :=
      cond_else_parts hat (h'.within hbody).targets hcond hopen
    exact ih (h'.no hopen hyes.run hleave)
  | body hmem _ ih =>
    obtain ⟨ys, s', h'⟩ := h.of_mem hbody hmem
    obtain ⟨s'', hloop, -⟩ := (h'.within hbody).head
    obtain ⟨l, s₃, hopen⟩ := exists_openLoop hloop
    obtain ⟨loops', zs, s₄, hlen, h₄⟩ := ih (h'.body hopen)
    exact ⟨loops', zs, s₄, by rw [hlen, List.length_cons]; lia, h₄⟩

end Visits

end Sysy.Lowering
