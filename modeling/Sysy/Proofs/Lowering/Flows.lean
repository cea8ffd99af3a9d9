import Sysy.Proofs.Lowering.Availability

/-!
Lowering the body of a function keeps the flow of its values: whatever is used is at hand. Behind a
branch the values at hand are those that were computed before it, and all blocks that the branch
leaves to be laid out wait for these.
-/

namespace Sysy.Lowering
open Ir

variable {α β : Type} {t : Target} {s s' s'' : State} {e : Bool} {P : Set Nat} {m m' : Module}
  {f : Nat} {fn : Func}
  {D D' D'' : BlockId → Set ValueId}

def OperandUsable (t : Target) (D : BlockId → Set ValueId) (s : State) : Operand → Prop
  | .void => True
  | .int x _ | .place x _ | .array x _ _ => Usable t D s x

def WalkUsable (t : Target) (D : BlockId → Set ValueId) (s : State) : Walk → Prop
  | .inside x _ | .atFirst x _ => Usable t D s x

theorem WalkUsable.past {w : Walk} (h : WalkUsable t D s w) (hp : Past t D s D' s') :
    WalkUsable t D' s' w := by
  cases w with
  | inside _ _ | atFirst _ _ => exact Usable.past h hp

theorem WalkUsable.stop {w : Walk} (h : WalkUsable t D s w) (isConst : Bool) :
    OperandUsable t D s (w.stop isConst) := by
  cases w with
  | inside x pointee =>
    rw [Walk.stop]
    split <;> exact h
  | atFirst _ _ => exact h

theorem flows_toInt {v : Operand} (h : At t false P s) (hf : Flow t D s)
    (hu : OperandUsable t D s v) (span : Span) :
    Flows t D s (v.toInt t span) fun id D s => Usable t D s id := by
  cases v with
  | void => exact .reject
  | int id _ => exact .pure hf hu
  | place a _ => exact flows_load h hf hu
  | array _ _ _ => exact .reject

theorem flows_toArrayArg {v : Operand} (h : At t false P s) (hf : Flow t D s)
    (hu : OperandUsable t D s v) :
    Flows t D s (v.toArrayArg? t) fun a D s => ∀ id, a = some id → Usable t D s id := by
  cases v with
  | void | int _ _ | place _ _ => exact .pure hf fun _ hnone => by cases hnone
  | array a decayed _ =>
    cases decayed with
    | true => exact .pure hf fun id hid => by cases hid; exact hu
    | false =>
      refine .bind (yields_integer h 0) (flows_integer h hf 0)
        fun zeroId s₁ D₁ ⟨_, h₁, _⟩ hf₁ hp₁ hzero => ?_
      refine .next (flows_stride .element h₁ hf₁ (hu.past hp₁) hzero) fun id s₂ D₂ hf₂ _ hid =>
        .pure hf₂ fun id' heq => ?_
      cases heq
      exact hid

theorem flows_lowerUnary {x : Nat} (h : At t false P s) (hf : Flow t D s) (hx : Usable t D s x)
    (op : UnaryOp) :
    Flows t D s (lowerUnary t op x) fun v D s => OperandUsable t D s v := by
  refine .bind (yields_integer h 0) (flows_integer h hf 0)
    fun zeroId s₁ D₁ ⟨_, h₁, _⟩ hf₁ hp₁ hzero => ?_
  have hx₁ := hx.past hp₁
  cases op with
  | plus => exact .pure hf₁ hx₁
  | minus => exact .next (flows_binary h₁ hf₁ hzero hx₁) fun id s₂ D₂ hf₂ _ hid => .pure hf₂ hid
  | not => exact .next (flows_binary h₁ hf₁ hx₁ hzero) fun id s₂ D₂ hf₂ _ hid => .pure hf₂ hid

theorem flows_lowerArg {v : Operand} (h : At t false P s) (hf : Flow t D s)
    (hu : OperandUsable t D s v) (callee : String) (span : Span) (param : Ty) :
    Flows t D s (lowerArg t callee span param v) fun id D s => Usable t D s id := by
  unfold lowerArg
  split
  · refine .next (flows_toArrayArg h hf hu) fun a s₁ D₁ hf₁ _ ha => ?_
    cases a with
    | none => exact .reject
    | some id =>
      refine .get_bind ?_
      split
      · exact .pure hf₁ (ha id rfl)
      · exact .reject
  · cases v with
    | array _ _ _ => exact .reject
    | void | int _ _ | place _ _ => exact flows_toInt h hf hu span

theorem flows_step {w : Walk} {index : Nat} (h : At t false P s) (hf : Flow t D s)
    (hu : WalkUsable t D s w) (hindex : Usable t D s index) :
    Flows t D s (w.step t index) fun w D s => WalkUsable t D s w := by
  cases w with
  | inside ptr pointee =>
    exact .next (flows_stride .element h hf hu hindex) fun id s₁ D₁ hf₁ _ hid => .pure hf₁ hid
  | atFirst ptr pointee =>
    exact .next (flows_stride .whole h hf hu hindex) fun id s₁ D₁ hf₁ _ hid => .pure hf₁ hid

theorem Flow.resolve {name : String} {b : Binding} (h : At t e P s) (hf : Flow t D s)
    (hb : s.scope.resolve name = .ok b) : ∀ ptr c, b = .var ptr c → Usable t D s ptr := by
  rintro ptr c rfl
  obtain ⟨ty, hread, -⟩ := h.scope.resolve hb
  exact .of_fixed h hread (hf.rooted.resolve hb)

theorem flows_resolve (h : At t false P s) (hf : Flow t D s) (name : String) (span : Span) :
    Gives (resolve name span) s fun b s' => s' = s ∧ ∀ ptr c, b = .var ptr c → Usable t D s ptr :=
  Gives.resolve fun _ hb => ⟨rfl, hf.resolve h hb⟩

theorem flows_lowerName (h : At t false P s) (hf : Flow t D s) (span : Span) (name : String)
    (isIndexed : Bool) :
    Flows t D s (lowerName t span name isIndexed) fun r D s =>
      (∀ v, r = .inl v → OperandUsable t D s v) ∧ ∀ w c, r = .inr (w, c) → WalkUsable t D s w := by
  refine Gives.bind (flows_resolve h hf name span) ?_
  rintro b _ ⟨rfl, hb⟩
  cases b with
  | func g => exact Flows.reject
  | const w =>
    cases isIndexed with
    | true => exact Flows.reject
    | false =>
      refine Flows.next (flows_integer h hf w) fun id s₂ D₂ hf₂ _ hid => .pure hf₂ ⟨?_, ?_⟩
      · rintro v heq
        cases heq
        exact hid
      · rintro w c heq
        cases heq
  | var ptr isConst =>
    have hptr := hb ptr isConst rfl
    refine Flows.get_bind ?_
    split
    · refine Flows.next (flows_load h hf hptr) fun id s₂ D₂ hf₂ _ hid =>
        .pure hf₂ ⟨fun v heq => (by cases heq), fun w c heq => ?_⟩
      cases heq
      exact hid
    · refine .pure hf ⟨fun v heq => (by cases heq), fun w c heq => ?_⟩
      cases heq
      exact hptr

/-! Blocks that wait to be laid out. -/

/-- From the state `s` on, code is added that ends in one of several blocks. Each of the blocks
`bbs` asks for the values `A`, which are at hand, and with which all that was computed before stays
at hand. -/
structure Forks (t : Target) (D : BlockId → Set ValueId) (s : State) (A : Set ValueId)
    (bbs : List BlockId)
    (D' : BlockId → Set ValueId) (s' : State) : Prop extends Drift t D s D' s' where
  base : Live t D s ⊆ A
  here : A ⊆ Live t D' s'
  asks : ∀ bb ∈ bbs, IsTarget s'.module t.func bb ∧ D' bb = A

namespace Forks
variable {A : Set ValueId} {bbs : List BlockId} {bb : BlockId}

theorem nil (hp : Past t D s D' s') : Forks t D s (Live t D' s') [] D' s' :=
  ⟨hp.toDrift, hp.live, subset_rfl, by simp⟩

theorem past (h : Forks t D s A bbs D' s') : Past t D s D' s' := ⟨h.toDrift, h.base.trans h.here⟩

theorem after (h : Forks t D s A bbs D' s') (hd : Drift t D' s' D'' s'')
    (hhere : A ⊆ Live t D'' s'') :
    Forks t D s A bbs D'' s'' :=
  ⟨h.toDrift.trans hd, h.base, hhere, fun bb hbb => ⟨(h.asks bb hbb).1.extends hd.grown,
    (hd.keep bb (h.asks bb hbb).1).trans (h.asks bb hbb).2⟩⟩

theorem step (h : Forks t D s A bbs D' s') (hp : Past t D' s' D'' s'') :
    Forks t D s A bbs D'' s'' :=
  h.after hp.toDrift (h.here.trans hp.live)

theorem before (h : Forks t D' s' A bbs D'' s'') (hp : Past t D s D' s') :
    Forks t D s A bbs D'' s'' :=
  ⟨hp.toDrift.trans h.toDrift, hp.live.trans h.base, h.here, h.asks⟩

theorem subset (h : Forks t D s A bbs D' s') (hbb : bb ∈ bbs) : D' bb ⊆ Live t D' s' :=
  (h.asks bb hbb).2.subset.trans h.here

theorem startBlock (h : Forks t D s A bbs D' s') (hat : At t e P s') (hf : Flow t D' s')
    (hbb : bb ∈ bbs) :
    Gives (startBlock t bb) s' fun _ s'' => Flow t D' s'' ∧ Forks t D s A bbs D' s'' := by
  refine (flows_startBlock hat hf bb).mono ?_
  rintro _ s'' ⟨hf', hd, hlive⟩
  exact ⟨hf', h.after hd ((h.asks bb hbb).2.symm.subset.trans hlive)⟩

theorem leaveFor {target : BlockId} (h : Forks t D s A bbs D' s') (hat : At t false P s')
    (hf : Flow t D' s') (htarget : target ∈ bbs) (hbb : bb ∈ bbs) :
    Gives (leaveFor t target bb) s' fun _ s'' => Flow t D' s'' ∧ Forks t D s A bbs D' s'' := by
  refine Gives.bind ((gives_jump hat (h.asks target htarget).1).and
    (flows_jump hat hf (h.subset htarget))) ?_
  rintro _ s₁ ⟨⟨-, h₁⟩, hf₁, hp₁⟩
  exact (h.step hp₁).startBlock h₁ hf₁ hbb

/-- A new block asks for what is at hand, as the others do. -/
theorem newBlock {name : String} (h : Forks t D s (Live t D' s') bbs D' s') (hat : At t e P s')
    (hf : Flow t D' s') (hname : name ∈ bodyHints) : Gives (newBlock t name) s' fun bb s'' =>
      ∃ D'', Flow t D'' s'' ∧ Forks t D s (Live t D'' s'') (bb :: bbs) D'' s'' := by
  refine ((gives_newBlock hat hname).and (flows_newBlock hat hf name)).mono ?_
  rintro bb s'' ⟨⟨-, hat', -⟩, D'', hf', hp, hask, hlive⟩
  have hstep := h.step hp
  rw [← hlive] at hstep hask
  refine ⟨D'', hf', hstep.toDrift, hstep.base, hstep.here, fun x hx => ?_⟩
  rcases List.mem_cons.mp hx with rfl | hx
  · exact ⟨hat'.isTarget (Set.mem_insert _ _), hask⟩
  · exact hstep.asks x hx

end Forks

/-! The pieces of a logical operator. -/

theorem Flows.scalar {e : Expr} (h : At t false P s)
    (he : Flows t D s (lowerExpr t e) fun v D s => OperandUsable t D s v) :
    Flows t D s (lowerScalar t e) fun id D s => Usable t D s id :=
  .bind (yields_lowerExpr h e) he fun _ _ _ ⟨_, h₁, _⟩ hf₁ _ hu => flows_toInt h₁ hf₁ hu e.span

theorem flows_noteTruth {zeroId result x : Nat} (h : At t false P s) (hf : Flow t D s)
    (hzero : s.module.Readable t.func zeroId .i32)
    (hresult : s.module.Readable t.func result (.ptr .i32)) (hx : s.module.Readable t.func x .i32)
    (hzeroU : Usable t D s zeroId) (hfixed : Fixed s.module result) (hxU : Usable t D s x) :
    Flows t D s (noteTruth t zeroId result x) fun id D s => Usable t D s id := by
  refine .bind (yields_binary h (by decide) hx hzero) (flows_binary h hf hxU hzeroU)
    fun truth s₁ D₁ ⟨hm₁, h₁, _⟩ hf₁ hp₁ htruth => ?_
  have hresultU : Usable t D₁ s₁ result :=
    .of_fixed h₁ (hm₁.readable hresult) (hfixed.extends hp₁.grown)
  exact .next (flows_store h₁ hf₁ htruth hresultU) fun _ s₂ D₂ hf₂ hp₂ _ =>
    .pure hf₂ (htruth.past hp₂)

theorem flows_branchOn {cond yes no : Nat} (h : At t false P s) (hf : Flow t D s)
    (hcond : Usable t D s cond) (hyes : D yes ⊆ Live t D s) (hno : D no ⊆ Live t D s)
    (onTrue : Bool) :
    Gives (build (if onTrue then Build.branch t.func cond yes no else Build.branch t.func
      cond no yes)) s fun _ s' => Flow t D s' ∧ Past t D s D s' := by
  cases onTrue with
  | true => exact flows_branch h hf hcond hyes hno
  | false => exact flows_branch h hf hcond hno hyes

theorem flows_forkLogic {first : Nat} (h : At t false P s) (hf : Flow t D s)
    (hfirst : s.module.Readable t.func first .i32) (hfirstU : Usable t D s first) (op : BinaryOp) :
    Gives (forkLogic t op first) s
      fun done s' => ∃ D' A bbs, Flow t D' s' ∧ Forks t D s A bbs D' s' ∧ done ∈ bbs := by
  obtain ⟨hmoreHint, hdoneHint⟩ := logicShape_hints op
  refine Gives.bind ((gives_newBlock h hmoreHint).and
    ((Forks.nil (.refl t D s)).newBlock h hf hmoreHint)) ?_
  rintro more s₁ ⟨⟨hm₁, h₁, -⟩, D₁, hf₁, hfork₁⟩
  refine Gives.bind ((gives_newBlock h₁ hdoneHint).and (hfork₁.newBlock h₁ hf₁ hdoneHint)) ?_
  rintro done s₂ ⟨⟨hm₂, h₂, -⟩, D₂, hf₂, hfork₂⟩
  have hmore : D₂ more ⊆ Live t D₂ s₂ := hfork₂.subset (by simp)
  have hdone : D₂ done ⊆ Live t D₂ s₂ := hfork₂.subset (by simp)
  refine Gives.bind ((gives_branchOn h₂ ((hm₁.trans hm₂).readable hfirst) (by simp) (by simp) _).and
    (flows_branchOn h₂ hf₂ (hfirstU.past hfork₂.past) hmore hdone _)) ?_
  rintro _ s₃ ⟨⟨-, h₃⟩, hf₃, hp₃⟩
  refine Gives.bind ((hfork₂.step hp₃).startBlock h₃ hf₃ (show more ∈ _ by simp)) ?_
  rintro _ s₄ ⟨hf₄, hfork₄⟩
  exact Gives.pure ⟨D₂, _, _, hf₄, hfork₄, by simp⟩

theorem flows_endLogic {A : Set ValueId} {bbs : List BlockId} {done result : Nat}
    (h : At t false (insert done P) s') (hf : Flow t D' s') (hfork : Forks t D s A bbs D' s')
    (hin : done ∈ bbs) (hdone : done ∉ P) (hdone2 : done ≠ 2)
    (hresult : s'.module.Readable t.func result (.ptr .i32)) (hfixed : Fixed s'.module result) :
    Gives (endLogic t result done) s' fun v s'' => ∃ D'', Flow t D'' s'' ∧ Past t D s D'' s'' ∧
    OperandUsable t D'' s'' v := by
  refine Gives.bind ((gives_leaveFor h (h.isTarget (Set.mem_insert _ _)) hdone hdone2).and
    (hfork.leaveFor h hf hin hin)) ?_
  rintro _ s₁ ⟨⟨hm₁, h₁⟩, hf₁, hfork₁⟩
  refine Gives.bind
    (flows_load h₁ hf₁ (.of_fixed h₁ (hm₁.readable hresult) (hfixed.extends hm₁.extends))) ?_
  rintro id s₂ ⟨D₂, hf₂, hp₂, hid⟩
  exact Gives.pure ⟨D₂, hf₂, hfork₁.past.trans hp₂, hid⟩

def FlowsAnywhere (t : Target) (e : Expr) : Prop :=
  ∀ ⦃s : State⦄ ⦃P : Set Nat⦄ ⦃D : BlockId → Set ValueId⦄, At t false P s → Flow t D s →
    Flows t D s (lowerExpr t e) fun v D s => OperandUsable t D s v

theorem flows_logical {op : BinaryOp} {l r : Expr} (hl : FlowsAnywhere t l) (hr : FlowsAnywhere t r)
    (h : At t false P s) (hf : Flow t D s) (hop : op.isLogical = true) (span : Span) :
    Flows t D s (lowerExpr t (.binary span op l r)) fun v D s => OperandUsable t D s v := by
  rw [lowerExpr_logic hop]
  refine .bind (yields_integer h 0) (flows_integer h hf 0)
    fun zeroId s₁ D₁ ⟨_, h₁, hzero⟩ hf₁ _ hzeroU => ?_
  refine .bind (yields_alloc h₁ Ty.isObject_i32 "") (flows_alloc h₁ hf₁ .i32 "")
    fun result s₂ D₂ ⟨hm₂, h₂, hresult⟩ hf₂ hp₂ hfixed => ?_
  refine .bind (yields_lowerExpr h₂ l).scalar ((hl h₂ hf₂).scalar h₂)
    fun lhs s₃ D₃ ⟨hm₃, h₃, hlhs⟩ hf₃ hp₃ hlhsU => ?_
  have hzero₃ := (hm₂.trans hm₃).readable hzero
  have hzeroU₃ := (hzeroU.past hp₂).past hp₃
  have hresult₃ := hm₃.readable hresult
  have hfixed₃ := hfixed.extends hp₃.grown
  refine .bind (yields_noteTruth h₃ hzero₃ hresult₃ hlhs)
    (flows_noteTruth h₃ hf₃ hzero₃ hresult₃ hlhs hzeroU₃ hfixed₃ hlhsU)
    fun first s₄ D₄ ⟨hm₄, h₄, hfirst⟩ hf₄ hp₄ hfirstU => ?_
  refine Gives.bind ((gives_forkLogic h₄ hfirst op).and
    (flows_forkLogic h₄ hf₄ hfirst hfirstU op)) ?_
  rintro done s₅ ⟨⟨hm₅, h₅, hdone, hdone2⟩, D₅, A, bbs, hf₅, hfork, hin⟩
  refine Gives.bind ((yields_lowerExpr h₅ r).scalar.and ((hr h₅ hf₅).scalar h₅)) ?_
  rintro rhs s₆ ⟨⟨hm₆, h₆, hrhs⟩, D₆, hf₆, hp₆, hrhsU⟩
  have hm₃₆ := hm₄.trans (hm₅.trans hm₆)
  have hp₃₆ := hp₄.trans (hfork.past.trans hp₆)
  have hresult₆ := hm₃₆.readable hresult₃
  have hfixed₆ := hfixed₃.extends hp₃₆.grown
  refine Gives.bind ((yields_noteTruth h₆ (hm₃₆.readable hzero₃) hresult₆ hrhs).and
    (flows_noteTruth h₆ hf₆
    (hm₃₆.readable hzero₃) hresult₆ hrhs (hzeroU₃.past hp₃₆) hfixed₆ hrhsU)) ?_
  rintro _ s₇ ⟨⟨hm₇, h₇, -⟩, D₇, hf₇, hp₇, -⟩
  exact flows_endLogic h₇ hf₇ (hfork.step (hp₆.trans hp₇)) hin hdone hdone2 (hm₇.readable hresult₆)
    (hfixed₆.extends hp₇.grown)

mutual

theorem flows_lowerExpr {s : State} {P : Set Nat} {D : BlockId → Set ValueId} (h : At t false P s)
    (hf : Flow t D s) :
    ∀ e : Expr, Flows t D s (lowerExpr t e) fun v D s => OperandUsable t D s v
  | .lit _ w => by
    rw [lowerExpr]
    exact .next (flows_integer h hf w) fun id s₁ D₁ hf₁ _ hid => .pure hf₁ hid
  | .lval span name indices => by
    rw [lowerExpr]
    refine .bind (yields_lowerName h span name _) (flows_lowerName h hf span name _)
      fun r s₁ D₁ ⟨_, h₁, hok⟩ hf₁ _ hr => ?_
    cases r with
    | inl v => exact .pure hf₁ (hr.1 v rfl)
    | inr p =>
      obtain ⟨w, isConst⟩ := p
      exact .next (flows_lowerIndices h₁ hf₁ span name indices (hok.2 w isConst rfl)
        (hr.2 w isConst rfl))
        fun w' s₂ D₂ hf₂ _ hw' => .pure hf₂ (hw'.stop isConst)
  | .unary _ op e => by
    rw [lowerExpr_unary]
    exact .bind (yields_lowerExpr h e).scalar ((flows_lowerExpr h hf e).scalar h)
      fun x s₁ D₁ ⟨_, h₁, _⟩ hf₁ _ hx => flows_lowerUnary h₁ hf₁ hx op
  | .binary span op l r => by
    cases hop : op.isLogical with
    | true =>
      exact flows_logical (fun _ _ _ h hf => flows_lowerExpr h hf l)
        (fun _ _ _ h hf => flows_lowerExpr h hf r) h hf hop span
    | false =>
      rw [lowerExpr_arith hop]
      refine .bind (yields_lowerExpr h l).scalar ((flows_lowerExpr h hf l).scalar h)
        fun x s₁ D₁ ⟨_, h₁, _⟩ hf₁ _ hx => ?_
      refine .bind (yields_lowerExpr h₁ r).scalar ((flows_lowerExpr h₁ hf₁ r).scalar h₁)
        fun y s₂ D₂ ⟨_, h₂, _⟩ hf₂ hp₂ hy => ?_
      exact .next (flows_binary h₂ hf₂ (hx.past hp₂) hy) fun z s₃ D₃ hf₃ _ hz => .pure hf₃ hz
  | .call span name args => by
    rw [lowerExpr]
    refine Gives.bind ((yields_resolve h name span).and (flows_resolve h hf name span)) ?_
    rintro b _ ⟨⟨_, _, hb⟩, rfl, _⟩
    cases b with
    | const _ => exact Flows.reject
    | var _ _ => exact Flows.reject
    | func g =>
      obtain ⟨callee, hg, hcallee⟩ := hb
      refine Flows.get_bind ?_
      simp only [hg]
      split
      · exact Flows.reject
      · rename_i hlen
        refine Flows.bind (yields_lowerArgs h name callee.params args (by simpa using hlen)
          hcallee.params)
          (flows_lowerArgs h hf name callee.params args hcallee.params)
          fun vs s₂ D₂ ⟨hm₂, h₂, _⟩ hf₂ _ hvs => ?_
        obtain ⟨callee', hg', -⟩ := hm₂.extends.func hg
        refine .next (flows_call h₂ hf₂ hg' hvs) fun id s₃ D₃ hf₃ _ hid => ?_
        split
        · exact .pure hf₃ trivial
        · exact .pure hf₃ hid

theorem flows_lowerArgs {s : State} {P : Set Nat} {D : BlockId → Set ValueId} (h : At t false P s)
    (hf : Flow t D s) (callee : String) :
    ∀ (ps : List Ty) (es : List Expr), (∀ ty ∈ ps, ty.IsParam) →
      Flows t D s (lowerArgs t callee ps es) fun vs D s => ∀ x ∈ vs, Usable t D s x
  | p :: ps, e :: es, hps => by
    rw [lowerArgs]
    refine .bind (yields_lowerExpr h e) (flows_lowerExpr h hf e)
      fun v s₁ D₁ ⟨_, h₁, hv⟩ hf₁ _ hu => ?_
    refine .bind (yields_lowerArg h₁ hv (hps p (by simp)) callee e.span)
      (flows_lowerArg h₁ hf₁ hu callee e.span p)
      fun a s₂ D₂ ⟨_, h₂, _⟩ hf₂ _ ha => ?_
    refine .next (flows_lowerArgs h₂ hf₂ callee ps es fun ty hty => hps ty (by simp [hty]))
      fun as s₃ D₃ hf₃ hp₃ has => .pure hf₃ fun x hx => ?_
    rcases List.mem_cons.mp hx with rfl | hx
    · exact ha.past hp₃
    · exact has x hx
  | [], _, _ => by
    rw [lowerArgs]
    · exact .pure hf (by simp)
    · simp
  | _ :: _, [], _ => by
    rw [lowerArgs]
    · exact .pure hf (by simp)
    · simp

theorem flows_lowerIndices {s : State} {P : Set Nat} {D : BlockId → Set ValueId}
    (h : At t false P s) (hf : Flow t D s) (span : Span) (name : String) :
    ∀ (es : List Expr) {w : Walk}, WalkOk s.module t.func w → WalkUsable t D s w →
      Flows t D s (lowerIndices t span name w es) fun w D s => WalkUsable t D s w
  | [], w, _, hu => by
    rw [lowerIndices]
    exact .pure hf hu
  | e :: es, w, hw, hu => by
    rw [lowerIndices_cons]
    split
    · rename_i hstep
      refine .bind (yields_lowerExpr h e).scalar ((flows_lowerExpr h hf e).scalar h)
        fun index s₁ D₁ ⟨hm₁, h₁, hindex⟩ hf₁ hp₁ hindexU => ?_
      refine .bind (yields_step h₁ (hw.extends hm₁.extends) hstep hindex)
        (flows_step h₁ hf₁ (hu.past hp₁) hindexU)
        fun w' s₂ D₂ ⟨_, h₂, hw'⟩ hf₂ _ hu' => ?_
      exact flows_lowerIndices h₂ hf₂ span name es hw' hu'
    · exact .reject

end

abbrev Runs (t : Target) (D : BlockId → Set ValueId) (s : State) (x : Lower Unit) : Prop :=
  Flows t D s x fun _ _ _ => True

theorem flows_lowerScalar (h : At t false P s) (hf : Flow t D s) (e : Expr) :
    Flows t D s (lowerScalar t e) fun id D s => Usable t D s id := (flows_lowerExpr h hf e).scalar h

theorem runs_define {b : Binding} (hf : Flow t D s) (hb : IsRooted s.module b) (name : String)
    (span : Span) :
    Runs t D s (define name span b) :=
  Gives.define fun _ hdef =>
    ⟨D, ⟨hf.dominated, hf.rooted.define hb hdef, hf.result⟩,
      ⟨⟨.refl _, fun _ _ => rfl⟩, subset_rfl⟩, trivial⟩

theorem runs_defineConst (hf : Flow t D s) (d : VarDef) : Runs t D s (defineConst d) := by
  rw [defineConst]
  split
  · refine Gives.bind (Gives.foldConst (Q := fun _ s' => s' = s) fun w _ => rfl) ?_
    rintro w _ rfl
    exact runs_define (b := .const w) hf trivial _ _
  · exact Flows.reject

theorem runs_lowerLocalScalar (h : At t false P s) (hf : Flow t D s) (d : VarDef) :
    Runs t D s (lowerLocalScalar t d) := by
  have hdefine {s : State} {D : BlockId → Set ValueId} {slot : Nat} (hf : Flow t D s)
    (hslot : Fixed s.module slot) :
      Runs t D s (define d.name d.nameSpan (.var slot false)) :=
        runs_define (b := .var slot false) hf hslot _ _
  unfold lowerLocalScalar
  dsimp only
  split
  · rw [pure_bind]
    exact Flows.next (flows_alloc h hf _ _) fun slot s₁ D₁ hf₁ _ hslot => hdefine hf₁ hslot
  · exact Gives.bind (Q := fun _ _ => False) Gives.reject fun _ _ hfalse => hfalse.elim
  · rename_i e _
    rw [bind_map_left]
    refine Flows.bind (yields_lowerScalar h e) (flows_lowerScalar h hf e)
      fun v s₁ D₁ ⟨_, h₁, _⟩ hf₁ _ hv => ?_
    refine Flows.bind (yields_alloc h₁ Ty.isObject_i32 _) (flows_alloc h₁ hf₁ _ _)
      fun slot s₂ D₂ ⟨_, h₂, hread⟩ hf₂ hp₂ hslot => ?_
    refine Flows.next (flows_store h₂ hf₂ (hv.past hp₂) (.of_fixed h₂ hread hslot))
      fun _ s₃ D₃ hf₃ hp₃ _ => ?_
    exact hdefine hf₃ (hslot.extends hp₃.grown)

theorem flows_lowerCell (h : At t false P s) (hf : Flow t D s) (isConst : Bool) (c : Option Expr) :
    Flows t D s (lowerCell t isConst c) fun id D s => Usable t D s id := by
  cases c with
  | none => exact flows_integer h hf 0
  | some e =>
    rw [lowerCell]
    split
    · refine Gives.bind (Gives.foldConst (Q := fun _ s' => s' = s) fun w _ => rfl) ?_
      rintro w _ rfl
      exact flows_integer h hf w
    · exact flows_lowerScalar h hf e

theorem flows_lowerCells (isConst : Bool) (cs : List (Option Expr)) :
    ∀ {s : State} {D : BlockId → Set ValueId},
    At t false P s → Flow t D s →
    Flows t D s (cs.mapM (lowerCell t isConst)) fun ids D s => ∀ id ∈ ids, Usable t D s id := by
  induction cs with
  | nil =>
    intro s D _ hf
    rw [List.mapM_nil]
    exact .pure hf (by simp)
  | cons c cs ih =>
    intro s D h hf
    rw [List.mapM_cons]
    refine .bind (yields_lowerCell h isConst c) (flows_lowerCell h hf isConst c)
      fun id s₁ D₁ ⟨_, h₁, _⟩ hf₁ _ hid => ?_
    refine .next (ih h₁ hf₁) fun ids s₂ D₂ hf₂ hp₂ hids => .pure hf₂ fun id' hid' => ?_
    rcases List.mem_cons.mp hid' with rfl | hid'
    · exact hid.past hp₂
    · exact hids id' hid'

theorem flows_elementAddr (is ds : List Nat) (hlen : is.length = ds.length) (hds : Shaped ds) :
    ∀ {s : State} {D : BlockId → Set ValueId} {ptr : Nat}, At t false P s → Flow t D s →
      s.module.Readable t.func ptr (.ptr (.ofDims ds)) → Usable t D s ptr →
      Flows t D s (elementAddr t ptr is) fun id D s => Usable t D s id := by
  induction is generalizing ds with
  | nil =>
    intro s D ptr _ hf _ hu
    exact .pure hf hu
  | cons i is ih =>
    intro s D ptr h hf hptr hu
    obtain ⟨d, ds, rfl⟩ : ∃ d ds', ds = d :: ds' := List.exists_cons_of_length_eq_add_one hlen.symm
    rw [elementAddr]
    refine .bind (yields_integer h _) (flows_integer h hf _)
      fun index s₁ D₁ hindex hf₁ hp₁ hindexU => ?_
    obtain ⟨hm₁, h₁, hindex⟩ := hindex
    refine .bind (yields_getElemPtr h₁ hds (hm₁.readable hptr) hindex)
      (flows_stride .element h₁ hf₁ (hu.past hp₁) hindexU)
      fun next s₂ D₂ hnext hf₂ _ hnextU => ?_
    exact ih ds (by simpa using hlen) hds.tail hnext.2.1 hf₂ hnext.2.2 hnextU

theorem runs_storeCells {ds : List Nat} (hds : Shaped ds) (vs : List ValueId) :
    ∀ {s : State} {D : BlockId → Set ValueId} {slot : Nat} (k : Nat), At t false P s → Flow t D s →
      s.module.Readable t.func slot (.ptr (.ofDims ds)) → Usable t D s slot →
      (∀ v ∈ vs, s.module.Readable t.func v .i32 ∧ Usable t D s v) →
      Runs t D s (storeCells t slot ds k vs) := by
  induction vs with
  | nil =>
    intro s D slot k _ hf _ _ _
    exact .pure hf trivial
  | cons v vs ih =>
    intro s D slot k h hf hslot hu hvs
    rw [storeCells]
    have hlen := length_indicesOf ds k
    refine .bind (yields_elementAddr _ ds hlen hds h hslot)
      (flows_elementAddr _ ds hlen hds h hf hslot hu) ?_
    rintro addr s₁ D₁ ⟨hm₁, h₁, haddr⟩ hf₁ hp₁ haddrU
    obtain ⟨hv, hvU⟩ := hvs v (by simp)
    refine .bind (yields_store h₁ (hm₁.readable hv) haddr)
      (flows_store h₁ hf₁ (hvU.past hp₁) haddrU) ?_
    rintro _ s₂ D₂ ⟨hm₂, h₂, _⟩ hf₂ hp₂ _
    have hm := hm₁.trans hm₂
    have hp := hp₁.trans hp₂
    exact ih (k + 1) h₂ hf₂ (hm.readable hslot) (hu.past hp)
      fun w hw => ⟨hm.readable (hvs w (by simp [hw])).1, (hvs w (by simp [hw])).2.past hp⟩

theorem runs_lowerLocalArray (h : At t false P s) (hf : Flow t D s) (isConst : Bool) (d : VarDef) :
    Runs t D s (lowerLocalArray t isConst d) := by
  unfold lowerLocalArray
  refine Gives.bind (Gives.dimsOf (Q := fun ds s' => Shaped ds ∧ s' = s) fun ds hds =>
    ⟨shaped_of_foldDims hds, rfl⟩) ?_
  rintro ds _ ⟨hds, rfl⟩
  have hrest {s : State} {D : BlockId → Set ValueId} (h : At t false P s) (hf : Flow t D s)
    (values : List ValueId)
      (hvalues : ∀ v ∈ values, s.module.Readable t.func v .i32 ∧ Usable t D s v) :
      Runs t D s (do
        let slot ← build (Build.alloc t.func (Ty.ofDims ds) ("@" ++ d.name))
        storeCells t slot ds 0 values
        define d.name d.nameSpan (.var slot isConst)) := by
    have hobject : (Ty.ofDims ds).IsObject := ⟨ds, hds, .inl rfl⟩
    refine Flows.bind (yields_alloc h hobject _) (flows_alloc h hf _ _)
      fun slot s₁ D₁ ⟨hm₁, h₁, hslot⟩ hf₁ hp₁ hfixed => ?_
    have hvalues₁ (v : Nat) (hv : v ∈ values) : s₁.module.Readable t.func v .i32 ∧
      Usable t D₁ s₁ v :=
      ⟨hm₁.readable (hvalues v hv).1, (hvalues v hv).2.past hp₁⟩
    refine Flows.next (runs_storeCells hds values 0 h₁ hf₁ hslot
      (.of_fixed h₁ hslot hfixed) hvalues₁)
      fun _ s₂ D₂ hf₂ hp₂ _ => ?_
    exact runs_define (b := .var slot isConst) hf₂ (hfixed.extends hp₂.grown) _ _
  dsimp only
  split
  · rw [pure_bind]
    exact hrest h hf [] (by simp)
  · refine Gives.bind (Gives.check (Q := fun _ s' => s' = _) fun cells _ => rfl) ?_
    rintro cells _ rfl
    exact Flows.bind (yields_mapM (fun c _ h => yields_lowerCell h isConst c) cells.toList h)
      (flows_lowerCells isConst cells.toList h hf)
      fun values s₁ D₁ ⟨_, h₁, hread⟩ hf₁ _ hvalues => hrest h₁ hf₁ values fun v hv =>
        ⟨hread v hv, hvalues v hv⟩

theorem runs_lowerLocal (h : At t false P s) (hf : Flow t D s) (isConst : Bool) (d : VarDef) :
    Runs t D s (lowerLocal t isConst d) := by
  unfold lowerLocal
  split
  · split
    · exact runs_defineConst hf d
    · exact runs_lowerLocalScalar h hf d
  · exact runs_lowerLocalArray h hf isConst d

theorem runs_lowerLocals (isConst : Bool) (ds : List VarDef) :
    ∀ {s : State} {D : BlockId → Set ValueId},
    At t false P s → Flow t D s → Runs t D s (ds.forM (lowerLocal t isConst)) := by
  induction ds with
  | nil => exact fun _ hf => Flows.pure hf trivial
  | cons d ds ih =>
    intro s D h hf
    exact Flows.bind (k := fun _ => ds.forM (lowerLocal t isConst)) (lasts_lowerLocal h isConst d)
      (runs_lowerLocal h hf isConst d) fun _ s₁ D₁ ⟨_, h₁⟩ hf₁ _ _ => ih h₁ hf₁

theorem flows_toPlace {v : Operand} (hf : Flow t D s) (hu : OperandUsable t D s v) (name : String)
    (span : Span) :
    Flows t D s (v.toPlace name span) fun id D s => Usable t D s id := by
  unfold Operand.toPlace
  split
  · exact .reject
  · exact .reject
  · exact .reject
  · exact .pure hf hu
  · exact .reject

theorem runs_leave {bb : Nat} (h : At t false P s) (hf : Flow t D s)
    (hbb : IsTarget s.module t.func bb) (hwait : D bb ⊆ Live t D s) : Runs t D s (do
      let _ ← build (Build.jump t.func bb)
      openFresh t) := by
  refine Gives.bind ((gives_jump h hbb).and (flows_jump h hf hwait)) ?_
  rintro _ s₁ ⟨⟨_, h₁⟩, hf₁, hp₁⟩
  refine Gives.bind ((gives_newBlock h₁ (by decide)).and (flows_newBlock h₁ hf₁ _)) ?_
  rintro fresh s₂ ⟨⟨_, h₂, _, _⟩, D₂, hf₂, hp₂, hfresh, -⟩
  refine (flows_startBlock h₂ hf₂ fresh).mono ?_
  rintro _ s₃ ⟨hf₃, hd₃, hlive₃⟩
  exact ⟨D₂, hf₃, ⟨(hp₁.trans hp₂).toDrift.trans hd₃, (hp₁.live.trans hfresh.symm.subset).trans
    hlive₃⟩, trivial⟩

def LoopsLive (t : Target) (D : BlockId → Set ValueId) (s : State) (loops : List Loop) : Prop :=
  ∀ l ∈ loops, D l.test ⊆ Live t D s ∧ D l.exit ⊆ Live t D s

theorem LoopsLive.past {loops : List Loop} (h : LoopsLive t D s loops)
    (hok : LoopsOk s.module t.func loops) (hp : Past t D s D' s') : LoopsLive t D' s' loops := by
  intro l hl
  rw [hp.keep _ (hok l hl).1, hp.keep _ (hok l hl).2]
  exact ⟨(h l hl).1.trans hp.live, (h l hl).2.trans hp.live⟩

theorem Flow.exit_subset (hf : Flow t D s) (h : At t e P s) : D t.exit ⊆ Live t D s := by
  obtain ⟨fn, hbody, -⟩ := h.body
  rw [h.exit, (hf.dominated fn hbody.found).exit]
  exact Set.empty_subset _

/-! The pieces of a condition and a loop. -/

theorem flows_elseBlock {bbs : List BlockId} {after : Nat} {hasElse : Bool} (h : At t e P s')
    (hf : Flow t D' s') (hfork : Forks t D s (Live t D' s') bbs D' s') (hafter : after ∈ bbs) :
    Gives (elseBlock t hasElse after) s' fun no s'' => ∃ D'' bbs', Flow t D'' s'' ∧
      Forks t D s (Live t D'' s'') bbs' D'' s'' ∧ no ∈ bbs' ∧ bbs ⊆ bbs' := by
  cases hasElse with
  | false => exact Gives.pure ⟨D', bbs, hf, hfork, hafter, List.Subset.refl _⟩
  | true =>
    refine (hfork.newBlock h hf (by decide)).mono ?_
    rintro no s'' ⟨D'', hf', hfork'⟩
    exact ⟨D'', no :: bbs, hf', hfork', by simp, List.subset_cons_self _ _⟩

theorem flows_openCond (h : At t false P s) (hf : Flow t D s) (test : Expr) (hasElse : Bool) :
    Gives (openCond t test hasElse) s fun p s' =>
      ∃ D' A bbs, Flow t D' s' ∧ Forks t D s A bbs D' s' ∧
      p.1 ∈ bbs ∧ p.2 ∈ bbs := by
  refine Gives.bind ((yields_lowerScalar h test).and (flows_lowerScalar h hf test)) ?_
  rintro c s₁ ⟨⟨hm₁, h₁, hc⟩, D₁, hf₁, hp₁, hcU⟩
  refine Gives.bind ((gives_newBlock h₁ (by decide)).and
    ((Forks.nil (.refl t D₁ s₁)).newBlock h₁ hf₁ (by decide))) ?_
  rintro yesBlock s₂ ⟨⟨hm₂, h₂, -⟩, D₂, hf₂, hfork₂⟩
  refine Gives.bind ((gives_newBlock h₂ (by decide)).and (hfork₂.newBlock h₂ hf₂ (by decide))) ?_
  rintro after s₃ ⟨⟨hm₃, h₃, -⟩, D₃, hf₃, hfork₃⟩
  refine Gives.bind ((gives_elseBlock h₃).and (flows_elseBlock h₃ hf₃ hfork₃ (by simp))) ?_
  rintro noBlock s₄ ⟨⟨hm₄, h₄, -⟩, D₄, bbs, hf₄, hfork₄, hno, hbbs⟩
  have hyes : yesBlock ∈ bbs := hbbs (by simp)
  have hc₄ := (hm₂.trans (hm₃.trans hm₄)).readable hc
  refine Gives.bind ((gives_branch h₄ hc₄ (hfork₄.asks _ hyes).1 (hfork₄.asks _ hno).1).and
    (flows_branch h₄ hf₄ (hcU.past hfork₄.past) (hfork₄.subset hyes) (hfork₄.subset hno))) ?_
  rintro _ s₅ ⟨⟨-, h₅⟩, hf₅, hp₅⟩
  refine Gives.bind ((hfork₄.step hp₅).startBlock h₅ hf₅ hyes) ?_
  rintro _ s₆ ⟨hf₆, hfork₆⟩
  exact Gives.pure ⟨D₄, _, bbs, hf₆, hfork₆.before hp₁, hno, hbbs (by simp)⟩

theorem flows_labelLoop (h : At t false P s) (hf : Flow t D s) : Gives (labelLoop t) s fun p s' =>
    ∃ D' A bbs, Flow t D' s' ∧ Forks t D s A bbs D' s' ∧ p.1.test ∈ bbs ∧ p.2 ∈ bbs ∧
    p.1.exit ∈ bbs := by
  refine Gives.bind ((gives_newBlock h (by decide)).and ((Forks.nil (.refl t D s)).newBlock h hf
    (by decide))) ?_
  rintro testBlock s₁ ⟨⟨-, h₁, -⟩, D₁, hf₁, hfork₁⟩
  refine Gives.bind ((gives_newBlock h₁ (by decide)).and (hfork₁.newBlock h₁ hf₁ (by decide))) ?_
  rintro bodyBlock s₂ ⟨⟨-, h₂, -⟩, D₂, hf₂, hfork₂⟩
  refine Gives.bind (hfork₂.newBlock h₂ hf₂ (by decide)) ?_
  rintro after s₃ ⟨D₃, hf₃, hfork₃⟩
  exact Gives.pure ⟨D₃, _, _, hf₃, hfork₃, by simp, by simp, by simp⟩

theorem flows_testLoop {A : Set ValueId} {bbs : List BlockId} {bb after : Nat}
    (h : At t false (insert bb (insert after P)) s') (hf : Flow t D' s')
    (hfork : Forks t D s A bbs D' s') (hbb : bb ∈ bbs) (hafter : after ∈ bbs) (test : Expr) :
    Gives (testLoop t test bb after) s' fun _ s'' =>
      ∃ D'', Flow t D'' s'' ∧ Forks t D s A bbs D'' s'' := by
  refine Gives.bind ((yields_lowerScalar h test).and (flows_lowerScalar h hf test)) ?_
  rintro c s₁ ⟨⟨-, h₁, hc⟩, D₁, hf₁, hp₁, hcU⟩
  have hfork₁ := hfork.step hp₁
  refine Gives.bind ((gives_branch h₁ hc (hfork₁.asks _ hbb).1 (hfork₁.asks _ hafter).1).and
    (flows_branch h₁ hf₁ hcU (hfork₁.subset hbb) (hfork₁.subset hafter))) ?_
  rintro _ s₂ ⟨⟨-, h₂⟩, hf₂, hp₂⟩
  exact ((hfork₁.step hp₂).startBlock h₂ hf₂ hbb).mono fun _ _ h => ⟨D₁, h⟩

theorem flows_enterLoop {A : Set ValueId} {bbs : List BlockId} {l : Loop} {bb : Nat}
    (h : At t false (insert l.test (insert bb (insert l.exit P))) s') (hl : LoopBlocks P l bb)
    (hf : Flow t D' s') (hfork : Forks t D s A bbs D' s') (htest : l.test ∈ bbs) (hbody : bb ∈ bbs)
    (hexit : l.exit ∈ bbs) (test : Expr) :
    Gives (enterLoop t test l bb) s' fun _ s'' =>
      ∃ D'', Flow t D'' s'' ∧ Forks t D s A bbs D'' s'' := by
  rw [enterLoop_eq]
  refine Gives.bind ((gives_leaveFor h (h.isTarget (by simp)) hl.test hl.test_ne).and
    (hfork.leaveFor h hf htest htest)) ?_
  rintro _ s₁ ⟨⟨-, h₁⟩, hf₁, hfork₁⟩
  exact flows_testLoop h₁ hf₁ hfork₁ hbody hexit test

theorem flows_openLoop (h : At t false P s) (hf : Flow t D s) (test : Expr) :
    Gives (openLoop t test) s fun l s' =>
    ∃ D' A bbs, Flow t D' s' ∧ Forks t D s A bbs D' s' ∧ l.test ∈ bbs ∧ l.exit ∈ bbs := by
  refine Gives.bind ((gives_labelLoop h).and (flows_labelLoop h hf)) ?_
  rintro p s₁ ⟨⟨-, h₁, hl⟩, D₁, A, bbs, hf₁, hfork₁, htest, hbody, hexit⟩
  refine Gives.bind (flows_enterLoop h₁ hl hf₁ hfork₁ htest hbody hexit test) ?_
  rintro _ s₂ ⟨D₂, hf₂, hfork₂⟩
  exact Gives.pure ⟨D₂, A, bbs, hf₂, hfork₂, htest, hexit⟩

theorem LoopsLive.cons {A : Set ValueId} {bbs : List BlockId} {l : Loop} {loops : List Loop}
    (h : LoopsLive t D s loops) (hok : LoopsOk s.module t.func loops)
    (hfork : Forks t D s A bbs D' s') (htest : l.test ∈ bbs) (hexit : l.exit ∈ bbs) :
    LoopsLive t D' s' (l :: loops) := by
  intro l' hl'
  rcases List.mem_cons.mp hl' with rfl | hl'
  · exact ⟨hfork.subset htest, hfork.subset hexit⟩
  · exact h.past hok hfork.past l' hl'

/-- A part of a statement, and the steps behind it. -/
theorem Runs.part {x : Lower Unit} {k : Unit → Lower β} {R : β → State → Prop} (hl : Lasts t P s x)
    (hr : Runs t D s x)
    (hk : ∀ s' D', Passes t s s' → At t false P s' → Flow t D' s' → Past t D s D' s' →
      Gives (k ()) s' R) : Gives (x >>= k) s R := by
  refine Gives.bind (hl.and hr) ?_
  rintro _ s' ⟨⟨hp, h'⟩, D', hf', hpast, -⟩
  exact hk s' D' hp h' hf' hpast

def RunsAnywhere (t : Target) (loops : List Loop) (st : Stmt) : Prop :=
  ∀ ⦃s : State⦄ ⦃P : Set Nat⦄ ⦃D : BlockId → Set ValueId⦄, At t false P s → Flow t D s →
    LoopsOk s.module t.func loops →
    LoopsLive t D s loops → Runs t D s (lowerStmt t loops st)

section

variable {loops : List Loop} (h : At t false P s) (hf : Flow t D s)
  (hloops : LoopsOk s.module t.func loops)
  (hlive : LoopsLive t D s loops) (span : Span) (test : Expr)

include h hf hloops hlive

theorem runs_cond_none {yes : Stmt} (hyes : RunsAnywhere t loops yes) :
    Runs t D s (lowerStmt t loops (.cond span test yes none)) := by
  rw [lowerStmt_cond_none]
  refine Gives.bind ((gives_openCond h test false).and (flows_openCond h hf test false)) ?_
  rintro p s₁ ⟨⟨hm₁, h₁, hp⟩, D₁, A, bbs, hf₁, hfork, -, hafter⟩
  rw [hp.joined rfl, Set.insert_idem] at h₁
  have hloops₁ := hloops.extends hm₁.extends
  have hlive₁ := hlive.past hloops hfork.past
  refine Runs.part (lasts_lowerStmt h₁ hloops₁ yes) (hyes h₁ hf₁ hloops₁ hlive₁)
    fun s₂ D₂ _ h₂ hf₂ hp₂ => ?_
  refine ((hfork.step hp₂).leaveFor h₂ hf₂ hafter hafter).mono ?_
  exact fun _ s₃ ⟨hf₃, hfork₃⟩ => ⟨D₂, hf₃, hfork₃.past, trivial⟩

theorem runs_cond_some {yes no : Stmt} (hyes : RunsAnywhere t loops yes)
    (hno : RunsAnywhere t loops no) :
    Runs t D s (lowerStmt t loops (.cond span test yes (some no))) := by
  rw [lowerStmt_cond_some]
  refine Gives.bind ((gives_openCond h test true).and (flows_openCond h hf test true)) ?_
  rintro p s₁ ⟨⟨hm₁, h₁, hp⟩, D₁, A, bbs, hf₁, hfork₁, hnoB, hafter⟩
  obtain ⟨hnoP, hno2⟩ := hp.second rfl
  have hloops₁ := hloops.extends hm₁.extends
  have hlive₁ := hlive.past hloops hfork₁.past
  refine Runs.part (lasts_lowerStmt h₁ hloops₁ yes) (hyes h₁ hf₁ hloops₁ hlive₁)
    fun s₂ D₂ hpass₂ h₂ hf₂ hp₂ => ?_
  refine Gives.bind ((gives_leaveFor h₂ (h₂.isTarget (by simp)) hnoP hno2).and
    ((hfork₁.step hp₂).leaveFor h₂ hf₂ hafter hnoB)) ?_
  rintro _ s₃ ⟨⟨hm₃, h₃⟩, hf₃, hfork₃⟩
  have hloops₃ := (hloops₁.extends hpass₂.grows.extends).extends hm₃.extends
  -- the second arm begins with what is available behind the test, and not behind the first arm
  have hlive₃ := hlive.past hloops hfork₃.past
  refine Runs.part (lasts_lowerStmt h₃ hloops₃ no) (hno h₃ hf₃ hloops₃ hlive₃)
    fun s₄ D₄ _ h₄ hf₄ hp₄ => ?_
  refine ((hfork₃.step hp₄).leaveFor h₄ hf₄ hafter hafter).mono ?_
  exact fun _ s₅ ⟨hf₅, hfork₅⟩ => ⟨D₄, hf₅, hfork₅.past, trivial⟩

theorem runs_loop {body : Stmt} (hbody : ∀ l, RunsAnywhere t (l :: loops) body) :
    Runs t D s (lowerStmt t loops (.loop span test body)) := by
  rw [lowerStmt_loop]
  refine Gives.bind ((gives_openLoop h test).and (flows_openLoop h hf test)) ?_
  rintro l s₁ ⟨⟨hm₁, h₁, -, -, htestT⟩, D₁, A, bbs, hf₁, hfork, htest, hexit⟩
  have hloops₁ := hloops.cons hm₁.extends h₁ (Set.mem_insert _ _) htestT
  -- the body may leave for both blocks of the loop, so they are live in it
  have hlive₁ := hlive.cons hloops hfork htest hexit
  refine Runs.part (lasts_lowerStmt h₁ hloops₁ body) (hbody l h₁ hf₁ hloops₁ hlive₁)
    fun s₂ D₂ _ h₂ hf₂ hp₂ => ?_
  refine ((hfork.step hp₂).leaveFor h₂ hf₂ htest hexit).mono ?_
  exact fun _ s₃ ⟨hf₃, hfork₃⟩ => ⟨D₂, hf₃, hfork₃.past, trivial⟩

end

mutual

theorem runs_lowerStmt {s : State} {P : Set Nat} {D : BlockId → Set ValueId} {loops : List Loop}
    (h : At t false P s) (hf : Flow t D s) (hloops : LoopsOk s.module t.func loops)
    (hlive : LoopsLive t D s loops) :
    ∀ st : Stmt, Runs t D s (lowerStmt t loops st)
  | .block _ ss => by
    rw [lowerStmt]
    have hflow : Flow t D { s with scope := s.scope.enter .block } :=
      ⟨hf.dominated, hf.rooted.enter _, hf.result⟩
    refine Gives.bind (Q := fun _ s' => s' = { s with scope := s.scope.enter .block }) rfl ?_
    rintro _ _ rfl
    refine Gives.bind (runs_lowerStmts h.enter hflow hloops hlive ss) ?_
    rintro _ s₁ ⟨D₁, hf₁, hp₁, -⟩
    exact ⟨D₁, ⟨hf₁.dominated, hf₁.rooted.exit, hf₁.result⟩,
      ⟨⟨hp₁.grown, hp₁.keep⟩, hp₁.live⟩, trivial⟩
  | .decl _ d => by
    rw [lowerStmt]
    exact runs_lowerLocals d.isConst d.defs h hf
  | .assign _ target name indices value => by
    rw [lowerStmt]
    refine Flows.bind (yields_lowerExpr h (.lval target name indices)) (flows_lowerExpr h hf _)
      fun v s₁ D₁ ⟨_, h₁, hv⟩ hf₁ _ hu => ?_
    refine Flows.bind (yields_toPlace h₁ hv name target) (flows_toPlace hf₁ hu name target)
      fun place s₂ D₂ ⟨_, h₂, _⟩ hf₂ _ hplace => ?_
    refine Flows.bind (yields_lowerScalar h₂ value) (flows_lowerScalar h₂ hf₂ value)
      fun x s₃ D₃ ⟨_, h₃, _⟩ hf₃ hp₃ hx => ?_
    exact Flows.next (flows_store h₃ hf₃ hx (hplace.past hp₃)) fun _ s₄ D₄ hf₄ _ _ =>
      .pure hf₄ trivial
  | .expr _ none => by
    rw [lowerStmt]
    exact .pure hf trivial
  | .expr _ (some e) => by
    rw [lowerStmt]
    exact Flows.next (flows_lowerExpr h hf e) fun _ s₁ D₁ hf₁ _ _ => .pure hf₁ trivial
  | .cond span test yes none =>
    runs_cond_none h hf hloops hlive span test fun _ _ _ h hf hloops hlive =>
      runs_lowerStmt h hf hloops hlive yes
  | .cond span test yes (some no) =>
    runs_cond_some h hf hloops hlive span test (fun _ _ _ h hf hloops hlive =>
      runs_lowerStmt h hf hloops hlive yes)
      fun _ _ _ h hf hloops hlive => runs_lowerStmt h hf hloops hlive no
  | .loop span test body =>
    runs_loop h hf hloops hlive span test fun _ _ _ _ h hf hloops hlive =>
      runs_lowerStmt h hf hloops hlive body
  | .leave span => by
    cases loops with
    | nil =>
      rw [lowerStmt]
      exact Flows.reject
    | cons l loops =>
      rw [lowerStmt]
      exact runs_leave h hf (hloops l (List.mem_cons_self ..)).2 (hlive l (List.mem_cons_self ..)).2
  | .next span => by
    cases loops with
    | nil =>
      rw [lowerStmt]
      exact Flows.reject
    | cons l loops =>
      rw [lowerStmt]
      exact runs_leave h hf (hloops l (List.mem_cons_self ..)).1 (hlive l (List.mem_cons_self ..)).1
  | .ret span none => by
    rw [lowerStmt]
    · exact runs_leave h hf h.exit_isTarget (hf.exit_subset h)
    · simp
  | .ret span (some e) => by
    cases hresult : t.result with
    | none =>
      rw [lowerStmt.eq_def]
      simp only [hresult]
      exact Gives.bind (Q := fun _ _ => False) Gives.reject fun _ _ hfalse => hfalse.elim
    | some slot =>
      rw [lowerStmt.eq_def]
      simp only [hresult]
      refine Flows.bind (yields_lowerScalar h e) (flows_lowerScalar h hf e)
        fun v s₁ D₁ ⟨_, h₁, hv⟩ hf₁ _ hvU => ?_
      have hslot := h₁.result slot hresult
      refine Flows.bind (yields_store h₁ hv hslot)
        (flows_store h₁ hf₁ hvU (.of_fixed h₁ hslot (hf₁.result slot hresult)))
          fun _ s₂ D₂ ⟨_, h₂, _⟩ hf₂ _ _ => ?_
      exact runs_leave h₂ hf₂ h₂.exit_isTarget (hf₂.exit_subset h₂)

theorem runs_lowerStmts {s : State} {P : Set Nat} {D : BlockId → Set ValueId} {loops : List Loop}
    (h : At t false P s) (hf : Flow t D s) (hloops : LoopsOk s.module t.func loops)
    (hlive : LoopsLive t D s loops) :
    ∀ ss : List Stmt, Runs t D s (lowerStmts t loops ss)
  | [] => by
    rw [lowerStmts]
    exact .pure hf trivial
  | st :: ss => by
    rw [lowerStmts]
    exact .bind (lasts_lowerStmt h hloops st) (runs_lowerStmt h hf hloops hlive st)
      fun _ s₁ D₁ ⟨_, h₁⟩ hf₁ hp₁ _ =>
      runs_lowerStmts h₁ hf₁ (hloops.extends hp₁.grown) (hlive.past hloops hp₁) ss

end

end Sysy.Lowering
