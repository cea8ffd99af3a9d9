import Sysy.Proofs.Lowering.Control

/-!
What lowering an expression or a declaration does to the code. `Course` lists the pieces that all
such code is made of: single instructions in the current block, locals in the entry, and logical
operators, whose second operand has a block of its own. A property of such code is an induction on
`Course`; how the operands were found plays no part in it.
-/

namespace Sysy.Ir

def Node.IsInner : Node → Prop
  | .load _ | .getPtr _ _ | .getElemPtr _ _ | .binary _ _ _ | .call _ _ => True
  | _ => False

end Sysy.Ir

namespace Sysy.Lowering
open Ir

variable {α : Type} {t : Target} {s s' s'' : State} {P : Set Nat} {S S' : Set ValueId} {node : Node}
  {id : ValueId}

def Adds (t : Target) (node : Node) (s s' : State) : Prop :=
  ∃ fn ty, s.module.func? t.func = some fn ∧ Build.Takes s.module t.func fn.current ∧
    s' = { s with module := s.module.close t.func { node, ty, func := t.func,
                                                    block := fn.current } }

def Reserves (t : Target) (s s' : State) : Prop :=
  ∃ fn ty name, s.module.func? t.func = some fn ∧ Build.Takes s.module t.func fn.entry ∧
    fn.entry ≠ fn.current ∧
    s' = { s with module := s.module.close t.func { node := .alloc, ty, name, func := t.func,
                                                    block := fn.entry } }

def Makes (t : Target) (bb : BlockId) (s s' : State) : Prop :=
  ∃ fn name, s.module.func? t.func = some fn ∧ bb = fn.blocks.size + 1 ∧
    s' = { s with module := s.module.modifyFunc t.func fun fn => (fn.addBlock name).2 }

theorem adds_of_emit {ty : Ty} {x : Build ValueId} (h : At t false P s)
    (hrun : build x s = .ok (id, s')) (hx : x s.module = Build.emit t.func node ty s.module)
    (hsucc : node.successors = []) :
    Adds t node s s' ∧ id = s.module.values.size + 1 := by
  obtain ⟨fn, hf, -, -⟩ := h.func
  rw [Build.emit_eq hf (h.takes hf), ← Module.close_eq_append _ hsucc] at hx
  obtain ⟨rfl, rfl⟩ := eq_of_build hrun hx
  exact ⟨⟨fn, ty, hf, h.takes hf, rfl⟩, rfl⟩

theorem adds_jump {bb : BlockId} (h : At t false P s)
    (hrun : build (Build.jump t.func bb) s = .ok (id, s')) :
    Adds t (.jump bb) s s' ∧ id = s.module.values.size + 1 := by
  obtain ⟨fn, hf, -, -⟩ := h.func
  obtain ⟨rfl, rfl⟩ := eq_of_build hrun (Build.jump_eq hf (h.takes hf) bb)
  exact ⟨⟨fn, .unit, hf, h.takes hf, rfl⟩, rfl⟩

theorem adds_branch {cond : ValueId} {yes no : BlockId} (h : At t false P s)
    (hrun : build (Build.branch t.func cond yes no) s = .ok (id, s')) :
    Adds t (.branch cond yes no) s s' ∧ id = s.module.values.size + 1 := by
  obtain ⟨fn, hf, -, -⟩ := h.func
  obtain ⟨rfl, rfl⟩ := eq_of_build hrun (Build.branch_eq hf (h.takes hf) cond yes no)
  exact ⟨⟨fn, .unit, hf, h.takes hf, rfl⟩, rfl⟩

theorem reserves_alloc {ty : Ty} {name : String} (h : At t false P s)
    (hrun : build (Build.alloc t.func ty name) s = .ok (id, s')) :
    Reserves t s s' ∧ id = s.module.values.size + 1 := by
  obtain ⟨fn, hf, hentry, hcur⟩ := h.func
  have hx := Build.alloc_eq hf (h.entry_takes hf) ty name
  rw [← Module.close_eq_append _ rfl] at hx
  obtain ⟨rfl, rfl⟩ := eq_of_build hrun hx
  exact ⟨⟨fn, .ptr ty, name, hf, h.entry_takes hf, by rw [hentry]; exact hcur.symm, rfl⟩, rfl⟩

theorem makes_newBlock {e : Bool} {name : String} {bb : BlockId} (h : At t e P s)
    (hrun : newBlock t name s = .ok (bb, s')) :
    Makes t bb s s' := by
  obtain ⟨fn, hf, -, -⟩ := h.func
  obtain ⟨rfl, rfl⟩ := eq_of_build hrun (Build.addBlock_eq hf name)
  exact ⟨fn, name, hf, rfl, rfl⟩

inductive Course (t : Target) : Set ValueId → State → State → Prop
  | refl (S : Set ValueId) (s : State) : Course t S s s
  | trans {S : Set ValueId} {s s' s'' : State} (h : Course t S s s') (h' : Course t S s' s'') :
      Course t S s s''
  | constant (S : Set ValueId) (s : State) (w : Word) :
      Course t S s { s with module := (s.module.add { node := .integer w, ty := .i32 }).2 }
  | inst {S : Set ValueId} {s s' : State} {node : Node} (hnode : node.IsInner)
      (h : Adds t node s s') : Course t S s s'
  | store {S : Set ValueId} {s s' : State} {val dest : ValueId} (hdest : dest ∈ S)
      (h : Adds t (.store val dest) s s') :
      Course t S s s'
  | reserve {S : Set ValueId} {s s' : State} (h : Reserves t s s') : Course t S s s'
  | label {S : Set ValueId} {s s' : State} {bb : BlockId} (h : Makes t bb s s') : Course t S s s'
  | names (S : Set ValueId) (s : State) (scope : Scope Binding) : Course t S s { s with scope }
  /-- The slot of a logical operator, its first operand, and the blocks that the first operand
  decides between. -/
  | logic {S : Set ValueId} {s s₁ s₂ s₃ s₄ s₅ s₆ s₇ : State} {slot cond : ValueId}
      {more done yes no : BlockId}
      (hslot : Reserves t s s₁) (hid : slot = s.module.values.size + 1)
        (first : Course t (insert slot S) s₁ s₂)
      (hbranch : Adds t (.branch cond yes no) s₂ s₃) (hends : yes = more ∧ no = done ∨
        yes = done ∧ no = more)
      (hopen : startBlock t more s₃ = .ok ((), s₄)) (second : Course t (insert slot S) s₄ s₅)
      (hjump : Adds t (.jump done) s₅ s₆) (hjoin : startBlock t done s₆ = .ok ((), s₇)) :
        Course t S s s₇

namespace Course

theorem integer {w : Word} (hrun : build (Build.integer w) s = .ok (id, s')) : Course t S s s' := by
  obtain ⟨-, rfl⟩ := eq_of_build hrun (Build.integer_eq _ w)
  exact .constant S s w

theorem alloc {ty : Ty} {name : String} (h : At t false P s)
    (hrun : build (Build.alloc t.func ty name) s = .ok (id, s')) :
    Course t S s s' := .reserve (reserves_alloc h hrun).1

theorem emit {ty : Ty} {x : Build ValueId} (h : At t false P s) (hrun : build x s = .ok (id, s'))
    (hx : x s.module = Build.emit t.func node ty s.module) (hsucc : node.successors = [])
    (hnode : node.IsInner) :
    Course t S s s' := .inst hnode (adds_of_emit h hrun hx hsucc).1

theorem of_store {val dest : ValueId} (h : At t false P s)
    (hrun : build (Build.store t.func val dest) s = .ok (id, s')) (hdest : dest ∈ S) :
    Course t S s s' :=
  .store hdest (adds_of_emit h hrun rfl rfl).1

theorem newBlock {name : String} {bb : BlockId} (h : At t false P s)
    (hrun : newBlock t name s = .ok (bb, s')) :
    Course t S s s' := .label (makes_newBlock h hrun)

end Course

theorem course_toInt {v : Operand} {span : Span} (h : At t false P s)
    (hrun : v.toInt t span s = .ok (id, s')) :
    Course t S s s' := by
  cases v with
  | void => exact (reject_ok.mp hrun).elim
  | int x _ =>
    obtain ⟨-, rfl⟩ := pure_ok.mp hrun
    exact .refl S s
  | place a _ => exact .emit h hrun rfl rfl trivial
  | array _ _ _ => exact (reject_ok.mp hrun).elim

theorem course_toArrayArg {v : Operand} {a : Option ValueId} (h : At t false P s)
    (hrun : v.toArrayArg? t s = .ok (a, s')) : Course t S s s' := by
  cases v with
  | void | int _ _ | place _ _ =>
    obtain ⟨-, rfl⟩ := pure_ok.mp hrun
    exact .refl S s
  | array x decayed _ =>
    cases decayed with
    | true =>
      obtain ⟨-, rfl⟩ := pure_ok.mp hrun
      exact .refl S s
    | false =>
      obtain ⟨zeroId, s₁, hzero, hrun⟩ := bind_ok.mp hrun
      obtain ⟨id, s₂, helem, hpure⟩ := bind_ok.mp hrun
      obtain ⟨-, rfl⟩ := pure_ok.mp hpure
      exact (Course.integer hzero).trans (.emit ((yields_integer h 0).ok hzero).2.1 helem rfl
        rfl trivial)

theorem course_lowerArg {v : Operand} {callee : String} {span : Span} {param : Ty}
    (h : At t false P s) (hrun : lowerArg t callee span param v s = .ok (id, s')) :
    Course t S s s' := by
  unfold lowerArg at hrun
  split at hrun
  · obtain ⟨a, s₁, harg, hrun⟩ := bind_ok.mp hrun
    have hc : Course t S s s₁ := course_toArrayArg h harg
    cases a with
    | none => exact (reject_ok.mp hrun).elim
    | some x =>
      obtain ⟨ty, s₂, hty, hrun⟩ := bind_ok.mp hrun
      obtain ⟨-, rfl⟩ : s₁.module.tyOf x = ty ∧ s₁ = s₂ := pure_ok.mp hty
      split at hrun
      · obtain ⟨-, rfl⟩ := pure_ok.mp hrun
        exact hc
      · exact (reject_ok.mp hrun).elim
  · split at hrun
    · exact (reject_ok.mp hrun).elim
    · exact course_toInt h hrun

theorem course_step {w w' : Walk} {index : ValueId} (h : At t false P s)
    (hrun : w.step t index s = .ok (w', s')) :
    Course t S s s' := by
  cases w with
  | inside ptr pointee | atFirst ptr pointee =>
    obtain ⟨id, s₁, helem, hpure⟩ := bind_ok.mp hrun
    obtain ⟨-, rfl⟩ := pure_ok.mp hpure
    exact .emit h helem rfl rfl trivial

theorem course_lowerName {name : String} {span : Span} {isIndexed : Bool}
    {r : Operand ⊕ (Walk × Bool)} (h : At t false P s)
    (hrun : lowerName t span name isIndexed s = .ok (r, s')) : Course t S s s' := by
  obtain ⟨b, s₁, hres, hrun⟩ := bind_ok.mp hrun
  obtain ⟨-, rfl⟩ := resolve_ok.mp hres
  cases b with
  | func g => exact (reject_ok.mp hrun).elim
  | const w =>
    cases isIndexed with
    | true => exact (reject_ok.mp hrun).elim
    | false =>
      obtain ⟨id, s₂, hint, hpure⟩ := bind_ok.mp hrun
      obtain ⟨-, rfl⟩ := pure_ok.mp hpure
      exact .integer hint
  | var ptr isConst =>
    obtain ⟨ty, s₂, hty, hrun⟩ := bind_ok.mp hrun
    obtain ⟨-, rfl⟩ : (s.module.tyOf ptr) = ty ∧ s = s₂ := pure_ok.mp hty
    generalize ty.elem = pointee at hrun
    cases pointee with
    | ptr _ =>
      obtain ⟨id, s₃, hload, hpure⟩ := bind_ok.mp hrun
      obtain ⟨-, rfl⟩ := pure_ok.mp hpure
      exact .emit h hload rfl rfl trivial
    | _ =>
      obtain ⟨-, rfl⟩ := pure_ok.mp hrun
      exact .refl S s

theorem course_lowerUnary {op : UnaryOp} {x : ValueId} {v : Operand} (h : At t false P s)
    (hrun : lowerUnary t op x s = .ok (v, s')) : Course t S s s' := by
  obtain ⟨zeroId, s₁, hzero, hrun⟩ := bind_ok.mp hrun
  obtain ⟨-, h₁, -⟩ := (yields_integer h 0).ok hzero
  cases op with
  | plus =>
    obtain ⟨-, rfl⟩ := pure_ok.mp hrun
    exact .integer hzero
  | minus | not =>
    obtain ⟨id, s₂, hbin, hpure⟩ := bind_ok.mp hrun
    obtain ⟨-, rfl⟩ := pure_ok.mp hpure
    exact (Course.integer hzero).trans (.emit h₁ hbin rfl rfl trivial)

theorem Course.scalar {e : Expr} (h : At t false P s)
    (he : ∀ {s' v}, lowerExpr t e s = .ok (v, s') → Course t S s s')
    (hrun : lowerScalar t e s = .ok (id, s')) : Course t S s s' := by
  obtain ⟨v, s₁, hrun₁, hrun₂⟩ := bind_ok.mp hrun
  obtain ⟨-, h₁, -⟩ := (yields_lowerExpr h e).ok hrun₁
  exact (he hrun₁).trans (course_toInt h₁ hrun₂)

theorem course_noteTruth {slot zeroId x : ValueId} (h : At t false P s)
    (hx : s.module.Readable t.func x .i32) (hzero : s.module.Readable t.func zeroId .i32)
    (hrun : noteTruth t zeroId slot x s = .ok (id, s')) (hslot : slot ∈ S) :
    Course t S s s' := by
  obtain ⟨truth, s₁, hbin, hrun⟩ := bind_ok.mp hrun
  obtain ⟨u, s₂, hstore, hpure⟩ := bind_ok.mp hrun
  obtain ⟨-, rfl⟩ := pure_ok.mp hpure
  exact (Course.emit h hbin rfl rfl trivial).trans
    (.of_store ((yields_binary h (by decide) hx hzero).ok hbin).2.1 hstore hslot)

theorem adds_branchOn {cond : ValueId} {bb bb' : BlockId} {onTrue : Bool} (h : At t false P s)
    (hrun : build (if onTrue then Build.branch t.func cond bb bb' else Build.branch t.func cond bb'
      bb) s = .ok (id, s')) :
    ∃ yes no, Adds t (.branch cond yes no) s s' ∧ (yes = bb ∧ no = bb' ∨ yes = bb' ∧ no = bb) := by
  cases onTrue with
  | true => exact ⟨bb, bb', (adds_branch h hrun).1, .inl ⟨rfl, rfl⟩⟩
  | false => exact ⟨bb', bb, (adds_branch h hrun).1, .inr ⟨rfl, rfl⟩⟩

/-- The code between the operands of a logical operator ends with the branch to the second one or
behind both. -/
theorem forkLogic_course {op : BinaryOp} {first : ValueId} {done : BlockId} (h : At t false P s)
    (hrun : forkLogic t op first s = .ok (done, s')) :
    ∃ more yes no s₁ s₂, Course t S s s₁ ∧ Adds t (.branch first yes no) s₁ s₂ ∧
      (yes = more ∧ no = done ∨ yes = done ∧ no = more) ∧ startBlock t more s₂ = .ok ((), s') := by
  obtain ⟨hmoreHint, hdoneHint⟩ := logicShape_hints op
  obtain ⟨more, s₁, hmoreRun, hrun⟩ := bind_ok.mp hrun
  obtain ⟨done, s₂, hdoneRun, hrun⟩ := bind_ok.mp hrun
  obtain ⟨b, s₃, hbranchRun, hrun⟩ := bind_ok.mp hrun
  obtain ⟨⟨⟩, s₄, hopenRun, hpure⟩ := bind_ok.mp hrun
  obtain ⟨rfl, rfl⟩ := pure_ok.mp hpure
  obtain ⟨-, h₁, -⟩ := (gives_newBlock h hmoreHint).ok hmoreRun
  obtain ⟨-, h₂, -⟩ := (gives_newBlock h₁ hdoneHint).ok hdoneRun
  obtain ⟨yes, no, hadds, hends⟩ := adds_branchOn h₂ hbranchRun
  exact ⟨more, yes, no, s₂, s₃, (Course.newBlock h hmoreRun).trans (.newBlock h₁ hdoneRun), hadds,
    hends, hopenRun⟩

theorem course_logical {op : BinaryOp} {span : Span} {l r : Expr} {v : Operand} (h : At t false P s)
    (hop : op.isLogical = true) (hrun : lowerExpr t (.binary span op l r) s = .ok (v, s'))
    (hl : ∀ {P s s' v} (S : Set ValueId), At t false P s → lowerExpr t l s = .ok (v, s') →
      Course t S s s')
    (hr : ∀ {P s s' v} (S : Set ValueId), At t false P s → lowerExpr t r s = .ok (v, s') →
      Course t S s s') : Course t S s s' := by
  obtain ⟨c⟩ := exists_logicSteps h hop hrun
  obtain ⟨u, left, hjump, hjoin⟩ := bind_ok.mp c.leaves
  obtain ⟨hreserves, hid⟩ := reserves_alloc c.zeroed_at c.reserves
  obtain ⟨more, yes, no, sa, sb, hlabels, hbranch, hends, hopen⟩ :=
    forkLogic_course c.noted_at c.forks
  have hin : c.slot ∈ insert c.slot S := Set.mem_insert _ _
  have htest : Course t (insert c.slot S) c.reserved sa :=
    (Course.scalar c.reserved_at (hl _ c.reserved_at) c.computes).trans
    ((course_noteTruth c.computed_at c.lhs_ok c.zero_computed c.notes hin).trans hlabels)
  have hchoice : Course t (insert c.slot S) c.forked c.settled :=
    (Course.scalar c.forked_at (hr _ c.forked_at) c.recomputes).trans
    (course_noteTruth c.recomputed_at c.rhs_ok c.zero_recomputed c.settles hin)
  exact (Course.integer c.zeroes).trans
    ((Course.logic hreserves hid htest hbranch hends hopen hchoice
    (adds_jump c.settled_at hjump).1 hjoin).trans (.emit c.joined_at c.loads rfl rfl trivial))

mutual

theorem course_lowerExpr {S : Set ValueId} {s s' : State} {P : Set Nat} {v : Operand}
    (h : At t false P s) :
    ∀ e : Expr, lowerExpr t e s = .ok (v, s') → Course t S s s'
  | .lit _ w, hrun => by
    rw [lowerExpr] at hrun
    obtain ⟨id, s₁, hint, hpure⟩ := bind_ok.mp hrun
    obtain ⟨-, rfl⟩ := pure_ok.mp hpure
    exact .integer hint
  | .lval span name indices, hrun => by
    rw [lowerExpr] at hrun
    obtain ⟨r, s₁, hname, hrun⟩ := bind_ok.mp hrun
    have hc : Course t S s s₁ := course_lowerName h hname
    obtain ⟨-, h₁, hr⟩ := (yields_lowerName h span name _).ok hname
    cases r with
    | inl v =>
      obtain ⟨-, rfl⟩ := pure_ok.mp hrun
      exact hc
    | inr p =>
      obtain ⟨w, isConst⟩ := p
      obtain ⟨w', s₂, hwalk, hpure⟩ := bind_ok.mp hrun
      obtain ⟨-, rfl⟩ := pure_ok.mp hpure
      exact hc.trans (course_lowerIndices h₁ span name indices (hr.2 w isConst rfl) hwalk)
  | .unary _ op e, hrun => by
    rw [lowerExpr_unary] at hrun
    obtain ⟨x, s₁, hxRun, hop⟩ := bind_ok.mp hrun
    obtain ⟨-, h₁, -⟩ := (yields_lowerExpr h e).scalar.ok hxRun
    exact (Course.scalar h (course_lowerExpr h e) hxRun).trans (course_lowerUnary h₁ hop)
  | .binary _ op l r, hrun => by
    cases hop : op.isLogical with
    | true =>
      -- the only operator with more than one block of code
      exact course_logical h hop hrun (fun _ hat hl => course_lowerExpr hat l hl) fun _ hat hr =>
        course_lowerExpr hat r hr
    | false =>
      rw [lowerExpr_arith hop] at hrun
      obtain ⟨x, s₁, hlRun, hrun⟩ := bind_ok.mp hrun
      obtain ⟨y, s₂, hrRun, hrun⟩ := bind_ok.mp hrun
      obtain ⟨z, s₃, hbin, hpure⟩ := bind_ok.mp hrun
      obtain ⟨-, rfl⟩ := pure_ok.mp hpure
      obtain ⟨-, h₁, -⟩ := (yields_lowerExpr h l).scalar.ok hlRun
      obtain ⟨-, h₂, -⟩ := (yields_lowerExpr h₁ r).scalar.ok hrRun
      have hl : Course t S s s₁ := .scalar h (course_lowerExpr h l) hlRun
      have hr : Course t S s₁ s₂ := .scalar h₁ (course_lowerExpr h₁ r) hrRun
      exact (hl.trans hr).trans (.emit h₂ hbin rfl rfl trivial)
  | .call span name args, hrun => by
    rw [lowerExpr] at hrun
    obtain ⟨b, s₁, hres, hrun⟩ := bind_ok.mp hrun
    obtain ⟨-, h₁, hb⟩ := (yields_resolve h name span).ok hres
    obtain ⟨-, rfl⟩ := resolve_ok.mp hres
    cases b with
    | const _ => exact (reject_ok.mp hrun).elim
    | var _ _ => exact (reject_ok.mp hrun).elim
    | func g =>
      obtain ⟨callee, hg, hcallee⟩ := hb
      dsimp only at hrun
      rw [run_bind get_run] at hrun
      simp only [hg] at hrun
      split at hrun
      · exact (reject_ok.mp hrun).elim
      · rename_i hlen
        obtain ⟨vs, s₂, hargs, hrun⟩ := bind_ok.mp hrun
        obtain ⟨id, s₃, hcall, hpure⟩ := bind_ok.mp hrun
        have hlen' : args.length = callee.params.length := by simpa using hlen
        obtain ⟨-, h₂, -⟩ :=
          (yields_lowerArgs h₁ name callee.params args hlen' hcallee.params).ok hargs
        have hc : Course t S s s₃ :=
          (course_lowerArgs h₁ name callee.params args hlen' hcallee.params hargs).trans
          (.emit h₂ hcall rfl rfl trivial)
        split at hpure
        · obtain ⟨-, rfl⟩ := pure_ok.mp hpure
          exact hc
        · obtain ⟨-, rfl⟩ := pure_ok.mp hpure
          exact hc

theorem course_lowerArgs {S : Set ValueId} {s s' : State} {P : Set Nat} {vs : List ValueId}
    (h : At t false P s) (callee : String) :
    ∀ (ps : List Ty) (es : List Expr), es.length = ps.length → (∀ ty ∈ ps, ty.IsParam) →
      lowerArgs t callee ps es s = .ok (vs, s') → Course t S s s'
  | [], [], _, _, hrun => by
    rw [lowerArgs] at hrun
    · obtain ⟨-, rfl⟩ := pure_ok.mp hrun
      exact .refl S s
    · simp
  | [], _ :: _, hlen, _, _ => by cases hlen
  | _ :: _, [], hlen, _, _ => by cases hlen
  | p :: ps, e :: es, hlen, hps, hrun => by
    rw [lowerArgs] at hrun
    obtain ⟨v, s₁, hrun₁, hrun⟩ := bind_ok.mp hrun
    obtain ⟨a, s₂, hrun₂, hrun⟩ := bind_ok.mp hrun
    obtain ⟨as, s₃, hrun₃, hpure⟩ := bind_ok.mp hrun
    obtain ⟨-, rfl⟩ := pure_ok.mp hpure
    obtain ⟨-, h₁, hv⟩ := (yields_lowerExpr h e).ok hrun₁
    obtain ⟨-, h₂, -⟩ := (yields_lowerArg h₁ hv (hps p (by simp)) callee e.span).ok hrun₂
    have hc : Course t S s s₂ := (course_lowerExpr h e hrun₁).trans (course_lowerArg h₁ hrun₂)
    exact hc.trans (course_lowerArgs h₂ callee ps es (by simpa using hlen)
      (fun ty hty => hps ty (by simp [hty])) hrun₃)

theorem course_lowerIndices {S : Set ValueId} {s s' : State} {P : Set Nat} {w' : Walk}
    (h : At t false P s) (span : Span) (name : String) :
    ∀ (es : List Expr) {w : Walk}, WalkOk s.module t.func w → lowerIndices t span name w es s =
      .ok (w', s') → Course t S s s'
  | [], w, _, hrun => by
    rw [lowerIndices] at hrun
    obtain ⟨-, rfl⟩ := pure_ok.mp hrun
    exact .refl S s
  | e :: es, w, hw, hrun => by
    rw [lowerIndices_cons] at hrun
    split at hrun
    · rename_i hstep
      obtain ⟨index, s₁, hindexRun, hrun⟩ := bind_ok.mp hrun
      obtain ⟨w₁, s₂, hstepRun, hrun⟩ := bind_ok.mp hrun
      obtain ⟨hm₁, h₁, hindex⟩ := (yields_lowerExpr h e).scalar.ok hindexRun
      obtain ⟨-, h₂, hw₁⟩ := (yields_step h₁ (hw.extends hm₁.extends) hstep hindex).ok hstepRun
      exact (Course.scalar h (course_lowerExpr h e) hindexRun).trans
        ((course_step h₁ hstepRun).trans
        (course_lowerIndices h₂ span name es hw₁ hrun))
    · exact (reject_ok.mp hrun).elim

end

theorem course_lowerScalar {e : Expr} (h : At t false P s)
    (hrun : lowerScalar t e s = .ok (id, s')) : Course t S s s' :=
  .scalar h (course_lowerExpr h e) hrun

/-! Declarations. -/

theorem course_define {name : String} {span : Span} {b : Binding} {u : Unit}
    (hrun : define name span b s = .ok (u, s')) :
    Course t S s s' := by
  obtain ⟨scope, -, rfl⟩ := define_ok.mp hrun
  exact .names S s scope

theorem course_defineConst {d : VarDef} {u : Unit} (hrun : defineConst d s = .ok (u, s')) :
    Course t S s s' := by
  obtain ⟨e, w, scope, -, -, -, rfl⟩ := defineConst_ok hrun
  exact .names S s scope

theorem course_lowerCell {isConst : Bool} {c : Option Expr} (h : At t false P s)
    (hrun : lowerCell t isConst c s = .ok (id, s')) : Course t S s s' := by
  cases c with
  | none => exact .integer hrun
  | some e =>
    rw [lowerCell] at hrun
    split at hrun
    · obtain ⟨w, s₁, hfold, hinteger⟩ := bind_ok.mp hrun
      obtain ⟨-, rfl⟩ := foldConst_ok.mp hfold
      exact .integer hinteger
    · exact course_lowerScalar h hrun

theorem course_lowerCells {isConst : Bool} (cs : List (Option Expr)) :
    ∀ {s : State} {vs : List ValueId}, At t false P s →
    cs.mapM (lowerCell t isConst) s = .ok (vs, s') → Course t S s s' := by
  induction cs with
  | nil =>
    intro s vs _ hrun
    rw [List.mapM_nil] at hrun
    obtain ⟨-, rfl⟩ := pure_ok.mp hrun
    exact .refl S s
  | cons c cs ih =>
    intro s vs h hrun
    rw [List.mapM_cons] at hrun
    obtain ⟨v, s₁, hcell, hrun⟩ := bind_ok.mp hrun
    obtain ⟨vs', s₂, hcells, hpure⟩ := bind_ok.mp hrun
    obtain ⟨-, rfl⟩ := pure_ok.mp hpure
    obtain ⟨-, h₁, -⟩ := (yields_lowerCell h isConst c).ok hcell
    exact (course_lowerCell h hcell).trans (ih h₁ hcells)

structure Spreads (m : Module) (S : Set ValueId) (n : Nat) : Prop where
  elem : ∀ id src index, m.node? id = some (.getElemPtr src index) → src ∈ S → id ∈ S
  fresh : ∀ id, n < id → m.node? id = some .alloc → id ∈ S

theorem Spreads.mono {m : Module} {n n' : Nat} (h : Spreads m S n) (hn : n ≤ n') : Spreads m S n' :=
  ⟨h.elem, fun id hid => h.fresh id (hn.trans_lt hid)⟩

theorem spreads_univ (m : Module) (n : Nat) : Spreads m Set.univ n :=
  ⟨fun _ _ _ _ _ => Set.mem_univ _, fun _ _ _ => Set.mem_univ _⟩

theorem Adds.node_eq {m : Module} (h : Adds t node s s') (he : Extends s'.module m) :
    m.node? (s.module.values.size + 1) = some node := by
  obtain ⟨fn, ty, -, -, rfl⟩ := h
  exact Module.node?_eq (v := { node, ty, func := t.func, block := fn.current })
    (he.value (by rw [Module.value?_close, if_pos rfl]))

theorem Reserves.node_eq {m : Module} (h : Reserves t s s') (he : Extends s'.module m) :
    m.node? (s.module.values.size + 1) = some .alloc := by
  obtain ⟨fn, ty, name, -, -, -, rfl⟩ := h
  exact Module.node?_eq (v := { node := .alloc, ty, name, func := t.func, block := fn.entry })
    (he.value (by rw [Module.value?_close, if_pos rfl]))

section
variable {m : Module} {n : Nat}

theorem course_elementAddr (hS : Spreads m S n) (is ds : List Nat) (hlen : is.length = ds.length)
    (hds : Shaped ds) :
    ∀ {s : State} {ptr : ValueId}, At t false P s → s.module.Readable t.func ptr
      (.ptr (.ofDims ds)) → ptr ∈ S →
      elementAddr t ptr is s = .ok (id, s') → Extends s'.module m → Course t S s s' ∧ id ∈ S := by
  induction is generalizing ds with
  | nil =>
    intro s ptr _ _ hptr hrun _
    obtain ⟨rfl, rfl⟩ := pure_ok.mp hrun
    exact ⟨.refl S s, hptr⟩
  | cons i is ih =>
    intro s ptr h hread hptr hrun he
    obtain ⟨d, ds, rfl⟩ : ∃ d ds', ds = d :: ds' := List.exists_cons_of_length_eq_add_one hlen.symm
    rw [elementAddr] at hrun
    obtain ⟨index, s₁, hinteger, hrun⟩ := bind_ok.mp hrun
    obtain ⟨elem, s₂, helem, hrun⟩ := bind_ok.mp hrun
    obtain ⟨hm₁, h₁, hindex⟩ := (yields_integer h _).ok hinteger
    obtain ⟨-, h₂, helemR⟩ := (yields_getElemPtr h₁ hds (hm₁.readable hread) hindex).ok helem
    have hlen' : is.length = ds.length := by simpa using hlen
    obtain ⟨hm₃, -⟩ := (yields_elementAddr is ds hlen' hds.tail h₂ helemR).ok hrun
    obtain ⟨hadds, rfl⟩ :=
      (adds_of_emit h₁ helem rfl rfl : Adds t (.getElemPtr ptr index) s₁ s₂ ∧ _)
    have helemS := hS.elem _ _ _ (hadds.node_eq (hm₃.extends.trans he)) hptr
    obtain ⟨hc, hid⟩ := ih ds hlen' hds.tail h₂ helemR helemS hrun he
    have hinner : Node.IsInner (.getElemPtr ptr index) := trivial
    exact ⟨(Course.integer hinteger).trans ((Course.inst hinner hadds).trans hc), hid⟩

theorem course_storeCells (hS : Spreads m S n) {ds : List Nat} (hds : Shaped ds)
    (vs : List ValueId) :
    ∀ {s : State} {slot : ValueId} {u : Unit} (k : Nat), At t false P s →
    s.module.Readable t.func slot (.ptr (.ofDims ds)) →
      (∀ v ∈ vs, s.module.Readable t.func v .i32) → slot ∈ S → storeCells t slot ds k vs s =
        .ok (u, s') → Extends s'.module m → Course t S s s' := by
  induction vs with
  | nil =>
    intro s slot u k _ _ _ _ hrun _
    obtain ⟨-, rfl⟩ := pure_ok.mp hrun
    exact .refl S s
  | cons v vs ih =>
    intro s slot u k h hslot hvs hslotS hrun he
    rw [storeCells] at hrun
    obtain ⟨addr, s₁, haddr, hrun⟩ := bind_ok.mp hrun
    obtain ⟨_, s₂, hstore, hrun⟩ := bind_ok.mp hrun
    obtain ⟨hm₁, h₁, haddrR⟩ :=
      (yields_elementAddr _ ds (length_indicesOf ds k) hds h hslot).ok haddr
    obtain ⟨hm₂, h₂, -⟩ := (yields_store h₁ (hm₁.readable (hvs v (by simp))) haddrR).ok hstore
    have hm := hm₁.trans hm₂
    have hvs₂ : ∀ w ∈ vs, s₂.module.Readable t.func w .i32 :=
      fun w hw => hm.readable (hvs w (by simp [hw]))
    obtain ⟨hm₃, -⟩ := (yields_storeCells hds vs (k + 1) h₂ (hm.readable hslot) hvs₂).ok hrun
    obtain ⟨hc₁, haddrS⟩ :=
      course_elementAddr hS _ ds (length_indicesOf ds k) hds h hslot hslotS haddr
      (hm₂.extends.trans (hm₃.extends.trans he))
    exact hc₁.trans ((Course.of_store h₁ hstore haddrS).trans
      (ih (k + 1) h₂ (hm.readable hslot) hvs₂ hslotS hrun he))

theorem course_lowerLocalScalar (h : At t false P s) (hS : Spreads m S s.module.values.size)
    {d : VarDef} {u : Unit} (hrun : lowerLocalScalar t d s = .ok (u, s'))
    (he : Extends s'.module m) : Course t S s s' := by
  rcases localScalar_cases h hrun with ⟨-, slot, s₁, halloc, hdefine⟩ |
    ⟨e, v, slot, s₁, s₂, s₃, hsteps⟩
  · exact (Course.alloc h halloc).trans (course_define hdefine)
  · obtain ⟨id, hstore⟩ := hsteps.store
    obtain ⟨hreserves, rfl⟩ := reserves_alloc hsteps.at_value hsteps.alloc
    have he₃ : Extends s₃.module m := module_of_define hsteps.define ▸ he
    have hslotS := hS.fresh _ (Nat.lt_succ_of_le hsteps.moves_value.extends.size_values)
      (hreserves.node_eq (hsteps.moves_store.extends.trans he₃))
    exact (course_lowerScalar h hsteps.value).trans ((Course.reserve hreserves).trans
      ((Course.of_store hsteps.at_slot hstore hslotS).trans (course_define hsteps.define)))

theorem course_lowerLocalArray (h : At t false P s) (hS : Spreads m S s.module.values.size)
    {isConst : Bool} {d : VarDef} {u : Unit} (hrun : lowerLocalArray t isConst d s = .ok (u, s'))
    (he : Extends s'.module m) : Course t S s s' := by
  obtain ⟨dims, values, slot, s₁, s₂, s₃, hsteps⟩ := exists_arraySteps h hrun
  obtain ⟨hreserves, rfl⟩ := reserves_alloc hsteps.at_cells hsteps.alloc
  have he₃ : Extends s₃.module m := module_of_define hsteps.define ▸ he
  have hslotS := hS.fresh _ (Nat.lt_succ_of_le hsteps.moves_cells.extends.size_values)
    (hreserves.node_eq (hsteps.moves_stores.extends.trans he₃))
  have hcells : Course t S s s₁ := by
    rcases hsteps.cells with ⟨-, -, rfl⟩ | ⟨i, cells, -, -, hcells⟩
    · exact .refl S s₁
    · exact course_lowerCells cells.toList h hcells
  have hstores := course_storeCells hS (shaped_of_foldDims hsteps.fold) values 0 hsteps.at_slot
    hsteps.reads_slot hsteps.reads_values hslotS hsteps.stores he₃
  exact hcells.trans ((Course.reserve hreserves).trans
    (hstores.trans (course_define hsteps.define)))

theorem course_lowerLocal (h : At t false P s) (hS : Spreads m S s.module.values.size)
    {isConst : Bool} {d : VarDef} {u : Unit} (hrun : lowerLocal t isConst d s = .ok (u, s'))
    (he : Extends s'.module m) : Course t S s s' := by
  unfold lowerLocal at hrun
  split at hrun
  · split at hrun
    · exact course_defineConst hrun
    · exact course_lowerLocalScalar h hS hrun he
  · exact course_lowerLocalArray h hS hrun he

theorem course_lowerLocals {isConst : Bool} (ds : List VarDef) :
    ∀ {s : State} {u : Unit}, At t false P s →
    Spreads m S s.module.values.size → ds.forM (lowerLocal t isConst) s = .ok (u, s') →
    Extends s'.module m → Course t S s s' := by
  induction ds with
  | nil =>
    intro s u _ _ hrun _
    obtain ⟨-, rfl⟩ := pure_ok.mp hrun
    exact .refl S s
  | cons d ds ih =>
    intro s u h hS hrun he
    rw [List.forM] at hrun
    obtain ⟨⟨⟩, s₁, hd, hds⟩ := bind_ok.mp hrun
    obtain ⟨hp₁, h₁⟩ := (lasts_lowerLocal h isConst d).ok hd
    obtain ⟨hp₂, -⟩ := (lasts_lowerLocals isConst ds h₁).ok hds
    exact (course_lowerLocal h hS hd (hp₂.grows.extends.trans he)).trans
      (ih h₁ (hS.mono hp₁.grows.extends.size_values) hds he)

theorem course_assign {span target : Span} {name : String} {indices : List Expr} {value : Expr}
    {loops : List Loop} {u : Unit} (h : At t false P s)
    (hrun : lowerStmt t loops (.assign span target name indices value) s = .ok (u, s'))
    (hplace : ∀ v place s₁, lowerExpr t (.lval target name indices) s = .ok (v, s₁) →
      v.toPlace name target s₁ = .ok (place, s₁) → Extends s₁.module s'.module → place ∈ S) :
    Course t S s s' := by
  obtain ⟨v, place, x, w, s₁, s₂, hlval, -, htoPlace, ⟨Q, h₁⟩, hvalue, hm₂, ⟨R, h₂⟩, hstore, hm₃⟩ :=
    assign_ok h hrun
  have hmem := hplace v place s₁ hlval htoPlace (hm₂.trans hm₃).extends
  exact (course_lowerExpr h _ hlval).trans ((course_lowerScalar h₁ hvalue).trans
    (.of_store h₂ hstore hmem))

end

/-! What has become of the module. -/

theorem Adds.extends (h : Adds t node s s') : Extends s.module s'.module := by
  obtain ⟨fn, ty, hf, ⟨fn', b, hf', hb, -⟩, rfl⟩ := h
  obtain rfl := Option.some.inj (hf.symm.trans hf')
  exact Extends.close hf (v := { node, ty, func := t.func, block := fn.current }) hb

theorem Reserves.extends (h : Reserves t s s') : Extends s.module s'.module := by
  obtain ⟨fn, ty, name, hf, ⟨fn', b, hf', hb, -⟩, -, rfl⟩ := h
  obtain rfl := Option.some.inj (hf.symm.trans hf')
  exact Extends.close hf (v := { node := .alloc, ty, name, func := t.func, block := fn.entry }) hb

theorem Makes.extends {bb : BlockId} (h : Makes t bb s s') : Extends s.module s'.module := by
  obtain ⟨fn, name, hf, -, rfl⟩ := h
  exact Extends.modifyFunc hf _ (Func.before_addBlock _)

theorem Adds.found (h : Adds t node s s') : ∃ fn, s'.module.func? t.func = some fn := by
  obtain ⟨fn, ty, hf, -, rfl⟩ := h
  exact ⟨_, by rw [Module.func?_close _ _ hf, if_pos rfl]⟩

theorem extends_startBlock {bb : BlockId} (hf : ∃ fn, s.module.func? t.func = some fn)
    (hrun : startBlock t bb s = .ok ((), s')) : Extends s.module s'.module := by
  obtain ⟨fn, hf⟩ := hf
  rw [startBlock_eq] at hrun
  obtain ⟨-, rfl⟩ := Prod.mk.inj (Except.ok.inj hrun)
  exact Extends.modifyFunc hf _ Func.before_start

theorem Course.extends (h : Course t S s s') : Extends s.module s'.module := by
  induction h with
  | refl S s => exact .refl _
  | trans _ _ ih ih' => exact ih.trans ih'
  | constant S s w => exact Extends.add _ _
  | inst _ h | store _ h => exact h.extends
  | reserve h => exact h.extends
  | label h => exact h.extends
  | names S s scope => exact .refl _
  | logic hslot _ _ hbranch _ hopen _ hjump hjoin ih₁ ih₂ =>
    exact hslot.extends.trans
      (ih₁.trans (hbranch.extends.trans ((extends_startBlock hbranch.found hopen).trans
      (ih₂.trans (hjump.extends.trans (extends_startBlock hjump.found hjoin))))))

end Sysy.Lowering
