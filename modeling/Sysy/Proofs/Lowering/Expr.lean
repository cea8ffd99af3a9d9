import Sysy.Proofs.Lowering.Pieces

/-!
Lowering an expression never meets a fault, adds code by the steps of `Growth` only, and ends with
an operand that has the type its kind promises.
-/

namespace Sysy.Lowering
open Ir

variable {α β : Type} {t : Target} {s s' : State} {P : Set Nat} {m m' : Module} {f : Nat}

def OperandOk (m : Module) (f : FuncId) : Operand → Prop
  | .void => True
  | .int v _ => m.Readable f v .i32
  | .place a _ => m.Readable f a (.ptr .i32)
  | .array a false _ => ∃ d ds, Shaped (d :: ds) ∧ m.Readable f a (.ptr (.ofDims (d :: ds)))
  | .array a true _ => ∃ ds, Shaped ds ∧ m.Readable f a (.ptr (.ofDims ds))

def WalkOk (m : Module) (f : FuncId) : Walk → Prop
  | .inside ptr pointee | .atFirst ptr pointee =>
    ∃ ds, Shaped ds ∧ pointee = .ofDims ds ∧ m.Readable f ptr (.ptr pointee)

theorem WalkOk.extends {w : Walk} (h : WalkOk m f w) (he : Extends m m') : WalkOk m' f w := by
  cases w with
  | inside ptr pointee | atFirst ptr pointee =>
    obtain ⟨ds, hds, hty, hptr⟩ := h
    exact ⟨ds, hds, hty, he.readable hptr⟩

theorem yields_tyOf (h : At t false P s) (id : ValueId) :
    Yields t P s (tyOf id) fun ty m => ty = m.tyOf id :=
  Yields.get_bind (Yields.pure h rfl)

theorem yields_resolve (h : At t false P s) (name : String) (span : Span) :
    Yields t P s (resolve name span) fun b m => BindingOk m t.func b :=
  Gives.resolve fun _ hb => ⟨.refl t s, h, h.scope.resolve hb⟩

theorem yields_toInt {v : Operand} (h : At t false P s) (hv : OperandOk s.module t.func v)
    (span : Span) :
    Yields t P s (v.toInt t span) fun id m => m.Readable t.func id .i32 := by
  cases v with
  | void => exact .reject
  | int id _ => exact .pure h hv
  | place a _ => exact yields_load h hv (.inl rfl)
  | array _ _ _ => exact .reject

theorem yields_toArrayArg {v : Operand} (h : At t false P s) (hv : OperandOk s.module t.func v) :
    Yields t P s (v.toArrayArg? t) fun a m =>
      ∀ id, a = some id → ∃ ds, Shaped ds ∧ m.Readable t.func id (.ptr (.ofDims ds)) := by
  cases v with
  | void | int _ _ | place _ _ => exact .pure h fun _ hnone => by cases hnone
  | array a decayed _ =>
    cases decayed with
    | true => exact .pure h fun id hid => by cases hid; exact hv
    | false =>
      obtain ⟨d, ds, hds, ha⟩ := hv
      refine .bind (yields_integer h 0) fun zeroId s₁ hm₁ h₁ hzero => ?_
      refine .bind (yields_getElemPtr h₁ hds (hm₁.readable ha) hzero) fun id s₂ _ h₂ hid => ?_
      refine .pure h₂ fun id' heq => ?_
      cases heq
      exact ⟨ds, hds.tail, hid⟩

theorem yields_lowerUnary {x : Nat} (h : At t false P s) (hx : s.module.Readable t.func x .i32)
    (op : UnaryOp) :
    Yields t P s (lowerUnary t op x) fun v m => OperandOk m t.func v := by
  refine .bind (yields_integer h 0) fun zeroId s₁ hm₁ h₁ hzero => ?_
  have hx₁ := hm₁.readable hx
  cases op with
  | plus => exact .pure h₁ hx₁
  | minus => exact .bind (yields_binary h₁ (by decide) hzero hx₁) fun id s₂ _ h₂ hid => .pure h₂ hid
  | not => exact .bind (yields_binary h₁ (by decide) hx₁ hzero) fun id s₂ _ h₂ hid => .pure h₂ hid

theorem yields_lowerArg {v : Operand} {param : Ty} (h : At t false P s)
    (hv : OperandOk s.module t.func v) (hparam : param.IsParam) (callee : String) (span : Span) :
    Yields t P s (lowerArg t callee span param v) fun id m => m.Readable t.func id param := by
  rcases hparam with rfl | ⟨ds, hds, rfl⟩
  · cases v with
    | array _ _ _ => exact .reject
    | void | int _ _ | place _ _ => exact yields_toInt h hv span
  · refine .bind (yields_toArrayArg h hv) fun a s₁ _ h₁ ha => ?_
    cases a with
    | none => exact .reject
    | some id =>
      obtain ⟨es, hes, hid⟩ := ha id rfl
      refine .bind (yields_tyOf h₁ id) fun ty s₂ hm₂ h₂ hty => ?_
      have hid₂ := hm₂.readable hid
      split
      · rename_i heq
        rw [hty, hid₂.tyOf_eq] at heq
        refine .pure h₂ ?_
        rw [← Ty.eq_of_equal _ _ heq]
        exact hid₂
      · exact .reject

theorem yields_step {w : Walk} {index : Nat} (h : At t false P s) (hw : WalkOk s.module t.func w)
    (hstep : w.canStep = true) (hindex : s.module.Readable t.func index .i32) :
    Yields t P s (w.step t index) fun w m => WalkOk m t.func w := by
  cases w with
  | inside ptr pointee =>
    obtain ⟨ds, hds, rfl, hptr⟩ := hw
    cases ds with
    | nil => cases hstep
    | cons d ds =>
      exact .bind (yields_getElemPtr h hds hptr hindex) fun id s₁ _ h₁ hid =>
        .pure h₁ ⟨ds, hds.tail, rfl, hid⟩
  | atFirst ptr pointee =>
    obtain ⟨ds, hds, rfl, hptr⟩ := hw
    exact .bind (yields_getPtr h hds hptr hindex) fun id s₁ _ h₁ hid => .pure h₁ ⟨ds, hds, rfl, hid⟩

theorem WalkOk.stop {w : Walk} (h : WalkOk m f w) (isConst : Bool) :
    OperandOk m f (w.stop isConst) := by
  cases w with
  | inside ptr pointee =>
    obtain ⟨ds, hds, rfl, hptr⟩ := h
    cases ds with
    | nil => exact hptr
    | cons d ds => exact ⟨d, ds, hds, hptr⟩
  | atFirst ptr pointee =>
    obtain ⟨ds, hds, rfl, hptr⟩ := h
    exact ⟨ds, hds, hptr⟩

theorem yields_lowerName (h : At t false P s) (span : Span) (name : String) (isIndexed : Bool) :
    Yields t P s (lowerName t span name isIndexed) fun r m =>
      (∀ v, r = .inl v → OperandOk m t.func v) ∧ (∀ w c, r = .inr (w, c) → WalkOk m t.func w) := by
  refine .bind (yields_resolve h name span) fun b s₁ _ h₁ hb => ?_
  cases b with
  | func g => exact .reject
  | const w =>
    cases isIndexed with
    | true => exact .reject
    | false =>
      refine .bind (yields_integer h₁ w) fun id s₂ _ h₂ hid => .pure h₂ ⟨?_, ?_⟩
      · rintro v heq
        cases heq
        exact hid
      · rintro w c heq
        cases heq
  | var ptr isConst =>
    obtain ⟨ty, hptr, ds, hds, hty⟩ := hb
    refine .bind (yields_tyOf h₁ ptr) fun pty s₂ hm₂ h₂ hpty => ?_
    have hptr₂ := hm₂.readable hptr
    rw [hptr₂.tyOf_eq] at hpty
    subst hpty
    rcases hty with rfl | rfl
    · -- the variable is a number or an array, and the walk starts inside it
      have hmatch : ∀ pointee, (Ty.ofDims ds) ≠ .ptr pointee := by cases ds <;> simp [Ty.ofDims]
      simp only [Ty.elem]
      refine .pure h₂ ⟨fun v heq => (by cases heq), fun w c heq => ?_⟩
      cases heq
      exact ⟨ds, hds, rfl, hptr₂⟩
    · refine .bind (yields_load h₂ hptr₂ (.inr ⟨ds, hds, rfl⟩)) fun id s₃ _ h₃ hid => ?_
      refine .pure h₃ ⟨fun v heq => (by cases heq), fun w c heq => ?_⟩
      cases heq
      exact ⟨ds, hds, rfl, hid⟩

theorem arithOf_ne {op : BinaryOp} (h : op.isLogical = false) : arithOf op ≠ .unnamed := by
  cases op <;> simp_all [arithOf, BinaryOp.isLogical]

theorem Yields.scalar {e : Expr}
    (he : Yields t P s (lowerExpr t e) fun v m => OperandOk m t.func v) :
    Yields t P s (lowerScalar t e) fun id m => m.Readable t.func id .i32 :=
  .bind he fun _ _ _ h₁ hv => yields_toInt h₁ hv e.span

theorem gives_endLogic {done result : Nat} (h : At t false (insert done P) s) (hdone : done ∉ P)
    (hdone2 : done ≠ 2) (hresult : s.module.Readable t.func result (.ptr .i32)) :
    Gives (endLogic t result done) s fun v s' =>
      Moves t s s' ∧ At t false P s' ∧ OperandOk s'.module t.func v := by
  refine Gives.along (gives_leaveFor h (h.isTarget (Set.mem_insert _ _)) hdone hdone2)
    fun _ s₁ hm₁ h₁ => ?_
  refine Gives.along (yields_load h₁ (hm₁.readable hresult) (.inl rfl)) fun id s₂ _ ⟨h₂, hid⟩ => ?_
  exact Gives.pure ⟨.refl t s₂, h₂, hid⟩

mutual

theorem yields_lowerExpr {s : State} {P : Set Nat} (h : At t false P s) :
    ∀ e : Expr, Yields t P s (lowerExpr t e) fun v m => OperandOk m t.func v
  | .lit _ w => by
    rw [lowerExpr]
    exact .bind (yields_integer h w) fun id s₁ _ h₁ hid => .pure h₁ hid
  | .lval span name indices => by
    rw [lowerExpr]
    refine .bind (yields_lowerName h span name _) fun r s₁ _ h₁ hr => ?_
    cases r with
    | inl v => exact .pure h₁ (hr.1 v rfl)
    | inr p =>
      obtain ⟨w, isConst⟩ := p
      exact .bind (yields_lowerIndices h₁ span name indices (hr.2 w isConst rfl))
        fun w' s₂ _ h₂ hw' =>
        .pure h₂ (hw'.stop isConst)
  | .unary _ op e => by
    rw [lowerExpr_unary]
    exact .bind (yields_lowerExpr h e).scalar fun x s₁ _ h₁ hx => yields_lowerUnary h₁ hx op
  | .binary span op l r => by
    cases hop : op.isLogical with
    | true =>
      rw [lowerExpr_logic hop]
      refine .bind (yields_integer h 0) fun zeroId s₁ _ h₁ hzero => ?_
      refine .bind (yields_alloc h₁ Ty.isObject_i32 "") fun result s₂ hm₂ h₂ hresult => ?_
      refine .bind (yields_lowerExpr h₂ l).scalar fun lhs s₃ hm₃ h₃ hlhs => ?_
      have hzero₃ := (hm₂.trans hm₃).readable hzero
      have hresult₃ := hm₃.readable hresult
      refine .bind (yields_noteTruth h₃ hzero₃ hresult₃ hlhs) fun first s₄ hm₄ h₄ hfirst => ?_
      refine Gives.along (gives_forkLogic h₄ hfirst op) fun done s₅ hm₅ ⟨h₅, hdone, hdone2⟩ => ?_
      refine Gives.along (yields_lowerExpr h₅ r).scalar fun rhs s₆ hm₆ ⟨h₆, hrhs⟩ => ?_
      have hm₃₆ := hm₄.trans (hm₅.trans hm₆)
      have hresult₆ := hm₃₆.readable hresult₃
      refine Gives.along (yields_noteTruth h₆ (hm₃₆.readable hzero₃) hresult₆ hrhs)
        fun _ s₇ hm₇ ⟨h₇, _⟩ => ?_
      exact gives_endLogic h₇ hdone hdone2 (hm₇.readable hresult₆)
    | false =>
      rw [lowerExpr_arith hop]
      refine .bind (yields_lowerExpr h l).scalar fun x s₁ _ h₁ hx => ?_
      refine .bind (yields_lowerExpr h₁ r).scalar fun y s₂ hm₂ h₂ hy => ?_
      exact .bind (yields_binary h₂ (arithOf_ne hop) (hm₂.readable hx) hy) fun z s₃ _ h₃ hz =>
        .pure h₃ hz
  | .call span name args => by
    rw [lowerExpr]
    refine .bind (yields_resolve h name span) fun b s₁ _ h₁ hb => ?_
    cases b with
    | const _ => exact .reject
    | var _ _ => exact .reject
    | func g =>
      obtain ⟨callee, hg, hcallee⟩ := hb
      refine .get_bind ?_
      simp only [hg]
      split
      · exact .reject
      · rename_i hlen
        refine Yields.bind (yields_lowerArgs h₁ name callee.params args (by simpa using hlen)
          hcallee.params)
          fun vs s₂ hm₂ h₂ hvs => ?_
        obtain ⟨callee', hg', hbefore⟩ := hm₂.extends.func hg
        rw [← hbefore.params] at hvs
        refine .bind (yields_call h₂ hg' hvs) fun id s₃ _ h₃ hid => ?_
        rcases hcallee.ret with hret | hret
        · rw [hbefore.ret, hret] at hid
          simp only [hret]
          exact .pure h₃ hid
        · simp only [hret]
          exact .pure h₃ trivial

theorem yields_lowerArgs {s : State} {P : Set Nat} (h : At t false P s) (callee : String) :
    ∀ (ps : List Ty) (es : List Expr), es.length = ps.length → (∀ ty ∈ ps, ty.IsParam) →
      Yields t P s (lowerArgs t callee ps es) fun vs m => List.Forall₂ (m.Readable t.func) vs ps
  | [], [], _, _ => by
    rw [lowerArgs]
    · exact .pure h .nil
    · simp
  | [], _ :: _, hlen, _ => by cases hlen
  | _ :: _, [], hlen, _ => by cases hlen
  | p :: ps, e :: es, hlen, hps => by
    rw [lowerArgs]
    refine .bind (yields_lowerExpr h e) fun v s₁ _ h₁ hv => ?_
    refine .bind (yields_lowerArg h₁ hv (hps p (by simp)) callee e.span) fun a s₂ _ h₂ ha => ?_
    refine .bind (yields_lowerArgs h₂ callee ps es (by simpa using hlen) fun ty hty => hps ty
      (by simp [hty]))
      fun as s₃ hm₃ h₃ has => ?_
    exact .pure h₃ (.cons (hm₃.readable ha) has)

theorem yields_lowerIndices {s : State} {P : Set Nat} (h : At t false P s) (span : Span)
    (name : String) :
    ∀ (es : List Expr) {w : Walk}, WalkOk s.module t.func w →
      Yields t P s (lowerIndices t span name w es) fun w m => WalkOk m t.func w
  | [], w, hw => by
    rw [lowerIndices]
    exact .pure h hw
  | e :: es, w, hw => by
    rw [lowerIndices_cons]
    split
    · rename_i hstep
      refine .bind (yields_lowerExpr h e).scalar fun index s₁ hm₁ h₁ hindex => ?_
      refine .bind (yields_step h₁ (hw.extends hm₁.extends) hstep hindex) fun w' s₂ _ h₂ hw' => ?_
      exact yields_lowerIndices h₂ span name es hw'
    · exact .reject

end

/-- How a logical operator is lowered. Both operands are noted in the slot, and the code of the
second one is left behind by the block `done`, where both ways meet. -/
structure LogicSteps (t : Target) (op : BinaryOp) (l r : Expr) (P : Set Nat) (v : Operand)
    (s s' : State) where
  zero : ValueId
  slot : ValueId
  lhs : ValueId
  first : ValueId
  done : BlockId
  rhs : ValueId
  second : ValueId
  id : ValueId
  zeroed : State
  reserved : State
  computed : State
  noted : State
  forked : State
  recomputed : State
  settled : State
  joined : State
  zeroes : build (Build.integer 0) s = .ok (zero, zeroed)
  reserves : build (Build.alloc t.func .i32 "") zeroed = .ok (slot, reserved)
  computes : lowerScalar t l reserved = .ok (lhs, computed)
  notes : noteTruth t zero slot lhs computed = .ok (first, noted)
  forks : forkLogic t op first noted = .ok (done, forked)
  recomputes : lowerScalar t r forked = .ok (rhs, recomputed)
  settles : noteTruth t zero slot rhs recomputed = .ok (second, settled)
  leaves : leaveFor t done done settled = .ok ((), joined)
  loads : build (Build.load t.func slot) joined = .ok (id, s')
  result : v = .int id false
  zeroed_at : At t false P zeroed
  reserved_at : At t false P reserved
  computed_at : At t false P computed
  noted_at : At t false P noted
  forked_at : At t false (insert done P) forked
  recomputed_at : At t false (insert done P) recomputed
  settled_at : At t false (insert done P) settled
  joined_at : At t false P joined
  done_new : done ∉ P
  done_ne : done ≠ 2
  zero_ok : zeroed.module.Readable t.func zero .i32
  slot_ok : reserved.module.Readable t.func slot (.ptr .i32)
  lhs_ok : computed.module.Readable t.func lhs .i32
  first_ok : noted.module.Readable t.func first .i32
  rhs_ok : recomputed.module.Readable t.func rhs .i32
  moves_zero : Moves t s zeroed
  moves_reserve : Moves t zeroed reserved
  moves_compute : Moves t reserved computed
  moves_note : Moves t computed noted
  moves_fork : Moves t noted forked
  moves_recompute : Moves t forked recomputed
  moves_settle : Moves t recomputed settled
  moves_join : Moves t settled joined
  moves_load : Moves t joined s'

namespace LogicSteps
variable {op : BinaryOp} {l r : Expr} {v : Operand} (c : LogicSteps t op l r P v s s')

theorem moves_second : Moves t c.computed c.recomputed :=
  c.moves_note.trans (c.moves_fork.trans c.moves_recompute)

theorem zero_computed : c.computed.module.Readable t.func c.zero .i32 :=
  (c.moves_reserve.trans c.moves_compute).readable c.zero_ok

theorem slot_computed : c.computed.module.Readable t.func c.slot (.ptr .i32) :=
  c.moves_compute.readable c.slot_ok

theorem zero_recomputed : c.recomputed.module.Readable t.func c.zero .i32 :=
  c.moves_second.readable c.zero_computed

theorem slot_recomputed : c.recomputed.module.Readable t.func c.slot (.ptr .i32) :=
  c.moves_second.readable c.slot_computed

theorem done_isTarget : IsTarget c.settled.module t.func c.done :=
  c.settled_at.isTarget (Set.mem_insert _ _)

end LogicSteps

theorem exists_logicSteps {op : BinaryOp} {span : Span} {l r : Expr} {v : Operand}
    (h : At t false P s) (hop : op.isLogical = true)
    (hrun : lowerExpr t (.binary span op l r) s = .ok (v, s')) :
    Nonempty (LogicSteps t op l r P v s s') := by
  rw [lowerExpr_logic hop] at hrun
  obtain ⟨zeroId, s₁, hzeroRun, hrun⟩ := bind_ok.mp hrun
  obtain ⟨slot, s₂, hallocRun, hrun⟩ := bind_ok.mp hrun
  obtain ⟨lhs, s₃, hlhsRun, hrun⟩ := bind_ok.mp hrun
  obtain ⟨first, s₄, hfirstRun, hrun⟩ := bind_ok.mp hrun
  obtain ⟨done, s₅, hforkRun, hrun⟩ := bind_ok.mp hrun
  obtain ⟨rhs, s₆, hrhsRun, hrun⟩ := bind_ok.mp hrun
  obtain ⟨second, s₇, hsecondRun, hrun⟩ := bind_ok.mp hrun
  obtain ⟨⟨⟩, s₈, hleaveRun, hrun⟩ := bind_ok.mp hrun
  obtain ⟨id, s₉, hloadRun, hpure⟩ := bind_ok.mp hrun
  obtain ⟨rfl, rfl⟩ := pure_ok.mp hpure
  obtain ⟨hm₁, h₁, hzero⟩ := (yields_integer h 0).ok hzeroRun
  obtain ⟨hm₂, h₂, hslot⟩ := (yields_alloc h₁ Ty.isObject_i32 "").ok hallocRun
  obtain ⟨hm₃, h₃, hlhs⟩ := (yields_lowerExpr h₂ l).scalar.ok hlhsRun
  have hzero₃ := (hm₂.trans hm₃).readable hzero
  have hslot₃ := hm₃.readable hslot
  obtain ⟨hm₄, h₄, hfirst⟩ := (yields_noteTruth h₃ hzero₃ hslot₃ hlhs).ok hfirstRun
  obtain ⟨hm₅, h₅, hdone, hdone2⟩ := (gives_forkLogic h₄ hfirst op).ok hforkRun
  obtain ⟨hm₆, h₆, hrhs⟩ := (yields_lowerExpr h₅ r).scalar.ok hrhsRun
  have hm₃₆ := hm₄.trans (hm₅.trans hm₆)
  have hslot₆ := hm₃₆.readable hslot₃
  obtain ⟨hm₇, h₇, -⟩ := (yields_noteTruth h₆ (hm₃₆.readable hzero₃) hslot₆ hrhs).ok hsecondRun
  obtain ⟨hm₈, h₈⟩ :=
    (gives_leaveFor h₇ (h₇.isTarget (Set.mem_insert _ _)) hdone hdone2).ok hleaveRun
  obtain ⟨hm₉, -, -⟩ := (yields_load h₈ ((hm₇.trans hm₈).readable hslot₆) (.inl rfl)).ok hloadRun
  exact ⟨{
    zero := zeroId, slot, lhs, first, done, rhs, second, id
    zeroed := s₁, reserved := s₂, computed := s₃, noted := s₄, forked := s₅, recomputed := s₆,
      settled := s₇, joined := s₈
    zeroes := hzeroRun, reserves := hallocRun, computes := hlhsRun, notes :=
      hfirstRun, forks := hforkRun
    recomputes := hrhsRun, settles := hsecondRun, leaves := hleaveRun, loads :=
      hloadRun, result := rfl
    zeroed_at := h₁, reserved_at := h₂, computed_at := h₃, noted_at := h₄, forked_at :=
      h₅, recomputed_at := h₆
    settled_at := h₇, joined_at := h₈, done_new := hdone, done_ne := hdone2
    zero_ok := hzero, slot_ok := hslot, lhs_ok := hlhs, first_ok := hfirst, rhs_ok := hrhs
    moves_zero := hm₁, moves_reserve := hm₂, moves_compute := hm₃, moves_note :=
      hm₄, moves_fork := hm₅
    moves_recompute := hm₆, moves_settle := hm₇, moves_join := hm₈, moves_load := hm₉ }⟩

end Sysy.Lowering
