import Sysy.Proofs.Lowering.WellTyped
import Sysy.Proofs.Static.Names

/-!
An expression is lowered without a flaw exactly if it has a kind, and the operand that is made for
it is of that kind.
-/

namespace Sysy.Static
open Ir Lowering

variable {t : Target} {s s' : State} {P : Set Nat} {m m' : Module} {Γ : Env}

def OperandIs (m : Module) : Operand → Kind → Prop
  | .void, .void => True
  | .int _ _, .number | .place _ _, .number => True
  | .array a false _, .array elem => ∃ d v, m.value? a = some v ∧ v.ty = .ptr (.ofDims (d :: elem))
  | .array a true _, .array elem => ∃ v, m.value? a = some v ∧ v.ty = .ptr (.ofDims elem)
  | _, _ => False

def WalkIs : Walk → List Nat → Prop
  | .inside _ pointee, dims => pointee = .ofDims dims
  | .atFirst _ pointee, dims => ∃ d elem, dims = d :: elem ∧ pointee = .ofDims elem

theorem WalkIs.stop {w : Walk} {dims : List Nat} {f : FuncId} (h : WalkIs w dims)
    (hok : WalkOk m f w) (isConst : Bool) :
    OperandIs m (w.stop isConst) (.ofDims dims) := by
  cases w with
  | inside ptr pointee =>
    obtain rfl : pointee = .ofDims dims := h
    obtain ⟨ds, -, -, v, hv, hty, -⟩ := hok
    cases dims with
    | nil => trivial
    | cons d ds => exact ⟨d, v, hv, hty⟩
  | atFirst ptr pointee =>
    obtain ⟨d, elem, rfl, rfl⟩ := h
    obtain ⟨ds, -, -, v, hv, hty, -⟩ := hok
    exact ⟨v, hv, hty⟩

theorem WalkIs.canStep_iff {w : Walk} {dims : List Nat} (h : WalkIs w dims) : w.canStep = true ↔
    dims ≠ [] := by
  cases w with
  | inside ptr pointee =>
    obtain rfl : pointee = .ofDims dims := h
    cases dims <;> simp [Walk.canStep, Ty.ofDims, Ty.isArray]
  | atFirst ptr pointee =>
    obtain ⟨d, elem, rfl, -⟩ := h
    simp [Walk.canStep]

theorem decides_toInt {v : Operand} {k : Kind} (h : At t false P s)
    (hv : OperandOk s.module t.func v) (hk : OperandIs s.module v k) (span : Span) :
    Decides (v.toInt t span) s (k = .number)
      fun id s' => Moves t s s' ∧ At t false P s' ∧ s'.module.Readable t.func id .i32 := by
  have hgives := yields_toInt h hv span
  cases v with
  | void => cases k <;> first | exact hk.elim | exact Decides.reject (by simp)
  | int id _ =>
    cases k <;> first | exact hk.elim | exact (Decides.of_steady (.pure _) hgives).iff (by simp)
  | place a _ =>
    cases k <;> first | exact hk.elim | exact (Decides.of_steady (.build _) hgives).iff (by simp)
  | array _ decayed _ =>
    cases k <;> first | (cases decayed <;> exact hk.elim) | exact Decides.reject (by simp)

theorem steady_toArrayArg (t : Target) (v : Operand) : Steady (v.toArrayArg? t) := by
  cases v with
  | void | int _ _ | place _ _ => exact .pure _
  | array a decayed _ =>
    cases decayed with
    | true => exact .pure _
    | false => exact .bind (.build _) fun _ => .bind (.build _) fun _ => .pure _

theorem gives_toArrayArg {v : Operand} {k : Kind} (h : At t false P s)
    (hv : OperandOk s.module t.func v) (hk : OperandIs s.module v k) :
    Gives (v.toArrayArg? t) s fun a s' =>
      ∀ elem, k = .array elem ↔ ∃ id, a = some id ∧ s'.module.tyOf id = .ptr (.ofDims elem) := by
  cases v with
  | void | int _ _ | place _ _ =>
    refine Gives.pure fun elem => ?_
    cases k <;> first | exact hk.elim | simp
  | array a decayed _ =>
    cases k with
    | void | number => cases decayed <;> exact hk.elim
    | array elem =>
      cases decayed with
      | true =>
        obtain ⟨w, hw, hty⟩ := hk
        refine Gives.pure fun elem' => ?_
        simp only [Option.some.injEq, exists_eq_left', Module.tyOf_eq hw, hty, Ty.ptr.injEq,
          Kind.array.injEq]
        exact ⟨fun heq => by rw [heq], fun heq => ofDims_inj heq⟩
      | false =>
        obtain ⟨d, w, hw, hty⟩ := hk
        obtain ⟨d', ds, hds, hread⟩ := hv
        have hds' := hread.tyOf_eq
        rw [Module.tyOf_eq hw, hty, Ty.ptr.injEq] at hds'
        obtain ⟨rfl, rfl⟩ := List.cons.inj (ofDims_inj hds')
        refine Gives.bind (yields_integer h 0) ?_
        rintro zeroId s₁ ⟨hm₁, h₁, hzero⟩
        refine Gives.bind (yields_getElemPtr h₁ hds (hm₁.readable hread) hzero) ?_
        rintro id s₂ ⟨-, -, hid⟩
        refine Gives.pure fun elem' => ?_
        simp only [Option.some.injEq, exists_eq_left', hid.tyOf_eq, Ty.ptr.injEq,
          Kind.array.injEq]
        exact ⟨fun heq => by rw [heq], fun heq => ofDims_inj heq⟩

theorem steady_lowerUnary (t : Target) (op : UnaryOp) (x : ValueId) :
    Steady (lowerUnary t op x) := by
  refine .bind (.build _) fun zeroId => ?_
  cases op with
  | plus => exact .pure _
  | minus | not => exact .bind (.build _) fun _ => .pure _

theorem gives_lowerUnary {x : Nat} (h : At t false P s) (op : UnaryOp)
    (hx : s.module.Readable t.func x .i32) :
    Gives (lowerUnary t op x) s fun v s' => OperandIs s'.module v .number := by
  refine Gives.bind (yields_integer h 0) ?_
  rintro zeroId s₁ ⟨hm₁, h₁, hzero⟩
  cases op with
  | plus => exact Gives.pure trivial
  | minus =>
    exact Gives.bind (yields_binary h₁ (show Arith.sub ≠ .unnamed by decide) hzero
      (hm₁.readable hx)) fun _ _ _ => Gives.pure trivial
  | not =>
    exact Gives.bind (yields_binary h₁ (show Arith.eq ≠ .unnamed by decide) (hm₁.readable hx) hzero)
      fun _ _ _ => Gives.pure trivial

theorem decides_lowerArg {v : Operand} {k param : Kind} (h : At t false P s)
    (hv : OperandOk s.module t.func v) (hk : OperandIs s.module v k) (hparam : param.ty.IsParam)
    (callee : String) (span : Span) :
    Decides (lowerArg t callee span param.ty v) s (k = param) fun _ _ => True := by
  cases param with
  | void =>
    rcases hparam with heq | ⟨_, _, heq⟩ <;> cases heq
  | number =>
    unfold lowerArg
    rw [if_neg (by simp [Kind.ty, Ty.isPtr])]
    cases v with
    | array _ decayed _ =>
      refine Decides.reject ?_
      rintro rfl
      cases decayed <;> exact hk
    | void | int _ _ | place _ _ => exact (decides_toInt h hv hk span).mono fun _ _ _ => trivial
  | array elem =>
    unfold lowerArg
    rw [if_pos (by simp [Kind.ty, Ty.isPtr])]
    refine Decides.next (steady_toArrayArg t v) (gives_toArrayArg h hv hk) fun a s₁ ha => ?_
    rw [show (k = Kind.array elem) ↔ _ from ha elem]
    cases a with
    | none => exact Decides.reject (by simp)
    | some id =>
      refine Decides.get_bind ?_
      change Decides (if (s₁.module.tyOf id).equal (.ptr (.ofDims elem)) then _ else _) s₁ _ _
      split
      · rename_i heq
        exact Decides.pure ⟨id, rfl, Ty.eq_of_equal _ _ heq⟩ trivial
      · rename_i hne
        refine Decides.reject ?_
        rintro ⟨id', heq, hty⟩
        obtain rfl := Option.some.inj heq
        rw [hty] at hne
        exact hne (Ty.equal_self _)

theorem steady_step (t : Target) (index : ValueId) (w : Walk) : Steady (w.step t index) := by
  cases w with
  | inside _ _ | atFirst _ _ => exact .bind (.build _) fun _ => .pure _

theorem gives_step {w : Walk} {index d : Nat} {dims : List Nat} (h : At t false P s)
    (hw : WalkOk s.module t.func w) (hindex : s.module.Readable t.func index .i32)
    (hdims : WalkIs w (d :: dims)) :
    Gives (w.step t index) s fun w _ => WalkIs w dims := by
  cases w with
  | inside ptr pointee =>
    obtain rfl : pointee = .ofDims (d :: dims) := hdims
    obtain ⟨ds, hds, heq, hread⟩ := hw
    obtain rfl := ofDims_inj heq
    refine Gives.bind (yields_getElemPtr h hds hread hindex) ?_
    intro id s₁ _
    exact Gives.pure rfl
  | atFirst ptr pointee =>
    obtain ⟨_, elem, heq, rfl⟩ := hdims
    obtain ⟨ds, hds, hty, hread⟩ := hw
    obtain rfl := ofDims_inj hty
    refine Gives.bind (yields_getPtr h hds hread hindex) ?_
    intro id s₁ _
    refine Gives.pure ?_
    rw [(List.cons.inj heq).2]
    rfl

def Entry.dims? : Entry → Option (List Nat)
  | .var dims _ => some dims
  | .param elem => some (0 :: elem)
  | _ => none

def Entry.isConst : Entry → Bool
  | .const _ => true
  | .var _ c => c
  | _ => false

theorem hasKind_lval_iff {entry : Entry} {dims : List Nat} {name : String} {span : Span}
    {indices : List Expr} {k : Kind} (h : Γ.find? name = some entry)
    (hdims : entry.dims? = some dims) : HasKind Γ (.lval span name indices) k ↔
      indices.length ≤ dims.length ∧ (∀ e ∈ indices, HasKind Γ e .number) ∧
      k = .ofDims (dims.drop indices.length) := by
  constructor
  · intro hk
    cases hk with
    | const h' =>
      obtain rfl := Option.some.inj (h.symm.trans h')
      cases hdims
    | var h' hlen hindices =>
      obtain rfl := Option.some.inj (h.symm.trans h')
      obtain rfl := Option.some.inj hdims
      exact ⟨hlen, hindices, rfl⟩
    | param h' =>
      obtain rfl := Option.some.inj (h.symm.trans h')
      obtain rfl := Option.some.inj hdims
      exact ⟨by simp, by simp, rfl⟩
    | element h' hlen hi hindices =>
      obtain rfl := Option.some.inj (h.symm.trans h')
      obtain rfl := Option.some.inj hdims
      refine ⟨by simpa using hlen, ?_, by simp⟩
      simp only [List.mem_cons, forall_eq_or_imp]
      exact ⟨hi, hindices⟩
  · rintro ⟨hlen, hindices, rfl⟩
    cases entry with
    | const _ | func _ _ => cases hdims
    | var ds c =>
      obtain rfl := Option.some.inj hdims
      exact .var h hlen hindices
    | param elem =>
      obtain rfl := Option.some.inj hdims
      cases indices with
      | nil => exact .param h
      | cons i is =>
        simp only [List.mem_cons, forall_eq_or_imp] at hindices
        exact .element h (by simpa using hlen) hindices.1 hindices.2

theorem decides_lowerName (h : At t false P s) (hΓ : Scoped s.module s.scope Γ) (span : Span)
    (name : String) (isIndexed : Bool) : Decides (lowerName t span name isIndexed) s
      (∃ entry, Γ.find? name = some entry ∧ ((∃ w, entry = .const w ∧ isIndexed = false) ∨
        ∃ dims, entry.dims? = some dims))
      fun r _ => ∃ entry, Γ.find? name = some entry ∧
        ((∃ w id, entry = .const w ∧ isIndexed = false ∧ r = .inl (.int id true)) ∨
          ∃ dims w, entry.dims? = some dims ∧ r = .inr (w, entry.isConst) ∧ WalkIs w dims) := by
  refine Decides.bind ((decides_resolve hΓ name span).and (yields_resolve h name span)) ?_ ?_
  · rintro ⟨entry, hfind, -⟩
    exact ⟨entry, hfind⟩
  rintro b s₁ - ⟨⟨hs₁, entry, hfind, hentry⟩, -, h₁, hb⟩
  subst s₁
  cases b with
  | func g =>
    cases entry with
    | const _ | var _ _ | param _ => exact hentry.elim
    | func params ret =>
      refine Decides.reject ?_
      rintro ⟨entry', hfind', hrest⟩
      obtain rfl := Option.some.inj (hfind.symm.trans hfind')
      rcases hrest with ⟨_, heq, -⟩ | ⟨_, heq⟩ <;> cases heq
  | const w =>
    cases entry with
    | func _ _ | var _ _ | param _ => exact hentry.elim
    | const w' =>
      cases isIndexed with
      | true =>
        refine Decides.reject ?_
        rintro ⟨entry', hfind', hrest⟩
        obtain rfl := Option.some.inj (hfind.symm.trans hfind')
        rcases hrest with ⟨_, -, heq⟩ | ⟨_, heq⟩ <;> cases heq
      | false =>
        refine Decides.next (.build _) (yields_integer h₁ w) fun id s₂ _ => ?_
        exact Decides.pure ⟨_, hfind, .inl ⟨w', rfl, rfl⟩⟩ ⟨_, hfind, .inl ⟨w', id, rfl, rfl, rfl⟩⟩
  | var ptr isConst =>
    obtain ⟨ty, hptr, ds, hds, hobject⟩ := hb
    have hty := hptr.tyOf_eq
    refine Decides.get_bind ?_
    cases entry with
    | const _ | func _ _ => exact hentry.elim
    | var dims c =>
      obtain ⟨rfl, v, hv, hvty⟩ := hentry
      have helem : (s.module.tyOf ptr).elem = .ofDims dims := by rw [Module.tyOf_eq hv, hvty]; rfl
      split
      · rename_i pointee heq
        exact absurd (helem.symm.trans heq) ofDims_ne_ptr
      · exact Decides.pure ⟨_, hfind, .inr ⟨dims, rfl⟩⟩ ⟨_, hfind, .inr ⟨dims, _, rfl, rfl, helem⟩⟩
    | param elem =>
      obtain ⟨rfl, v, hv, hvty⟩ := hentry
      have helem : (s.module.tyOf ptr).elem = .ptr (.ofDims elem) :=
        by rw [Module.tyOf_eq hv, hvty]; rfl
      split
      · rename_i pointee heq
        obtain rfl : Ty.ofDims elem = pointee := by simpa using helem.symm.trans heq
        rw [Module.tyOf_eq hv, hvty, Ty.ptr.injEq] at hty
        subst ty
        -- the slot of a parameter holds a pointer, and only types of parameters are pointers
        have hparam : Ty.IsParam (.ptr (.ofDims elem)) := by
          rcases hobject with heq | heq
          · exact absurd heq.symm ofDims_ne_ptr
          · exact .inr ⟨ds, hds, heq⟩
        refine Decides.next (.build _) (yields_load h₁ hptr hparam) fun id s₂ _ => ?_
        exact Decides.pure ⟨_, hfind, .inr ⟨_, rfl⟩⟩ ⟨_, hfind,
          .inr ⟨_, _, rfl, rfl, 0, elem, rfl, rfl⟩⟩
      · rename_i hne
        exact absurd helem (hne _)

def Kinded (t : Target) (Γ : Env) (e : Expr) (s : State) : Prop :=
  Decides (lowerExpr t e) s (∃ k, HasKind Γ e k) fun v s' =>
    ∃ k, HasKind Γ e k ∧ OperandIs s'.module v k

theorem Kinded.scalar {e : Expr} (hx : Kinded t Γ e s) (h : At t false P s) :
    Decides (lowerScalar t e) s (HasKind Γ e .number)
      fun id s' => Moves t s s' ∧ At t false P s' ∧ s'.module.Readable t.func id .i32 := by
  refine Decides.bind (hx.and (yields_lowerExpr h e)) (fun hv => ⟨_, hv⟩) ?_
  rintro v s₁ - ⟨⟨kind, hkind, hv⟩, hm₁, h₁, hok⟩
  refine ((decides_toInt h₁ hok hv e.span).iff ⟨hkind.eq, fun hnum => hnum ▸ hkind⟩).mono ?_
  exact fun id s₂ ⟨hm₂, h₂, hid⟩ => ⟨hm₁.trans hm₂, h₂, hid⟩

theorem Kinded.number {β : Type} {e : Expr} {k : ValueId → Lower β} {V : Prop}
    {S : β → State → Prop} (hx : Kinded t Γ e s) (h : At t false P s) (hV : V → HasKind Γ e .number)
    (hk : ∀ id s', Moves t s s' → At t false P s' → s'.module.Readable t.func id .i32 →
      HasKind Γ e .number → Decides (k id) s' V S) :
    Decides (lowerScalar t e >>= k) s V S :=
  Decides.bind (hx.scalar h) hV fun id s' hkind ⟨hm, h', hid⟩ => hk id s' hm h' hid hkind

/-! The steps of a logical operator find no flaw. -/

theorem steady_leaveFor (t : Target) (target onward : BlockId) :
    Steady (leaveFor t target onward) :=
  .bind (.build _) fun _ => steady_startBlock t onward

theorem steady_noteTruth (t : Target) (zeroId result x : ValueId) :
    Steady (noteTruth t zeroId result x) :=
  .bind (.build _) fun _ => .bind (.build _) fun _ => .pure _

theorem steady_forkLogic (t : Target) (op : BinaryOp) (first : ValueId) :
    Steady (forkLogic t op first) :=
  .bind (.build _) fun _ => .bind (.build _) fun _ => .bind (.build _) fun _ =>
    .bind (steady_startBlock t _) fun _ => .pure _

def Walks (t : Target) (P : Set Nat) (Γ : Env) (span : Span) (name : String) (es : List Expr) :
    Prop :=
  ∀ {s : State} {w : Walk} {dims : List Nat}, At t false P s → Scoped s.module s.scope Γ →
    WalkOk s.module t.func w →
    WalkIs w dims → Decides (lowerIndices t span name w es) s
      (es.length ≤ dims.length ∧ ∀ e ∈ es, HasKind Γ e .number) fun w' _ =>
        WalkIs w' (dims.drop es.length)

def LvalIs (entry : Entry) (v : Operand) : Prop :=
  (∃ w id, entry = .const w ∧ v = .int id true) ∨ ∃ dims, entry.dims? = some dims ∧
    ((∃ a, v = .place a entry.isConst) ∨ ∃ a decayed, v = .array a decayed entry.isConst)

theorem LvalIs.of_stop {entry : Entry} {dims : List Nat} (h : entry.dims? = some dims) (w : Walk) :
    LvalIs entry (w.stop entry.isConst) := by
  refine .inr ⟨dims, h, ?_⟩
  cases w with
  | inside ptr pointee =>
    rw [Walk.stop]
    split
    · exact .inr ⟨_, _, rfl⟩
    · exact .inl ⟨_, rfl⟩
  | atFirst ptr pointee => exact .inr ⟨_, _, rfl⟩

theorem decides_lval_of (h : At t false P s) (hΓ : Scoped s.module s.scope Γ) {span : Span}
    {name : String} {indices : List Expr} (hwalks : Walks t P Γ span name indices) :
    Decides (lowerExpr t (.lval span name indices)) s (∃ k, HasKind Γ (.lval span name indices) k)
      fun v s' => ∃ k entry, HasKind Γ (.lval span name indices) k ∧ OperandIs s'.module v k ∧
        Γ.find? name = some entry ∧ LvalIs entry v := by
  rw [lowerExpr]
  refine Decides.bind ((decides_lowerName h hΓ span name (!indices.isEmpty)).and
    (yields_lowerName h span name _)) ?_ ?_
  · rintro ⟨k, hk⟩
    cases hk with
    | const hf => exact ⟨_, hf, .inl ⟨_, rfl, rfl⟩⟩
    | var hf | param hf | element hf => exact ⟨_, hf, .inr ⟨_, rfl⟩⟩
  rintro r s₁ - ⟨⟨entry, hfind, hr⟩, hm₁, h₁, hok⟩
  rcases hr with ⟨w, id, rfl, hindexed, rfl⟩ | ⟨dims, w, hdims, rfl, hw⟩
  · obtain rfl : indices = [] := by simpa using hindexed
    exact Decides.pure ⟨_, .const hfind⟩ ⟨.number, _, .const hfind, trivial, hfind,
      .inl ⟨w, id, rfl, rfl⟩⟩
  · have hkind (k : Kind) : HasKind Γ (.lval span name indices) k ↔ _ :=
      hasKind_lval_iff hfind hdims
    have hw' := hok.2 w _ rfl
    refine Decides.bind ((hwalks h₁ (hΓ.moves hm₁) hw' hw).and
      (yields_lowerIndices h₁ span name indices hw')) ?_ ?_
    · rintro ⟨k, hk⟩
      obtain ⟨hlen, hindices, -⟩ := (hkind k).mp hk
      exact ⟨hlen, hindices⟩
    rintro w₂ s₂ ⟨hlen, hindices⟩ ⟨hw₂, -, -, hok₂⟩
    have hk := (hkind _).mpr ⟨hlen, hindices, rfl⟩
    exact Decides.pure ⟨_, hk⟩ ⟨_, entry, hk, hw₂.stop hok₂ _, hfind, .of_stop hdims w₂⟩

theorem decides_endLogic {e : Expr} {done result : Nat} (h : At t false (insert done P) s)
    (hdone : done ∉ P) (hdone2 : done ≠ 2) (hresult : s.module.Readable t.func result (.ptr .i32))
    (hkind : HasKind Γ e .number) :
    Decides (endLogic t result done) s (∃ k, HasKind Γ e k) fun v s' => ∃ k, HasKind Γ e k ∧
    OperandIs s'.module v k := by
  refine Decides.next (steady_leaveFor t done done)
    (gives_leaveFor h (h.isTarget (Set.mem_insert _ _)) hdone hdone2)
    fun _ s₁ ⟨hm₁, h₁⟩ => ?_
  refine Decides.next (.build _) (yields_load h₁ (hm₁.readable hresult) (.inl rfl))
    fun id s₂ _ => ?_
  exact Decides.pure ⟨_, hkind⟩ ⟨.number, hkind, trivial⟩

theorem hasKind_call_iff {span : Span} {name : String} {args : List Expr} {params : List Kind}
    {ret k : Kind} (hfind : Γ.find? name = some (.func params ret)) :
    HasKind Γ (.call span name args) k ↔
      args.length = params.length ∧ (∀ p ∈ args.zip params, HasKind Γ p.1 p.2) ∧ k = ret := by
  constructor
  · intro hk
    cases hk with
    | call hf hlen hargs =>
      cases Option.some.inj (hfind.symm.trans hf)
      exact ⟨hlen, hargs, rfl⟩
  · rintro ⟨hlen, hargs, rfl⟩
    exact .call hfind hlen hargs

theorem decides_call (h : At t false P s) (hΓ : Scoped s.module s.scope Γ) {span : Span}
    {name : String} {args : List Expr}
    (hargs : ∀ ps : List Kind, args.length = ps.length → (∀ p ∈ ps, p.ty.IsParam) →
      Decides (lowerArgs t name (ps.map Kind.ty) args) s (∀ p ∈ args.zip ps, HasKind Γ p.1 p.2)
        fun _ _ => True) : Kinded t Γ (.call span name args) s := by
  rw [Kinded, lowerExpr]
  refine Decides.bind ((decides_resolve hΓ name span).and (yields_resolve h name span)) ?_ ?_
  · rintro ⟨k, hk⟩
    cases hk with
    | call hf => exact ⟨_, hf⟩
  rintro b s₁ - ⟨⟨hs₁, entry, hfind, hentry⟩, -, h₁, hb⟩
  subst s₁
  -- the rules and the scope have one entry for the name, so they agree on whether it is a function
  have hnot (hne : ∀ params ret, entry ≠ .func params ret) :
    ¬∃ k, HasKind Γ (.call span name args) k := by
    rintro ⟨k, hk⟩
    cases hk with
    | call hf => exact hne _ _ (Option.some.inj (hfind.symm.trans hf))
  cases b with
  | const _ | var _ _ =>
    cases entry with
    | func _ _ => exact hentry.elim
    | const _ | var _ _ | param _ => exact Decides.reject (hnot (by simp))
  | func g =>
    cases entry with
    | const _ | var _ _ | param _ => exact hentry.elim
    | func params ret =>
      obtain ⟨callee, hg, hparams, hret, hretk, hvoid⟩ := hentry
      obtain ⟨callee', hg', hcallee⟩ := hb
      obtain rfl := Option.some.inj (hg.symm.trans hg')
      refine Decides.get_bind ?_
      simp only [hg]
      split
      · rename_i hlen
        refine Decides.reject ?_
        rintro ⟨k, hk⟩
        rw [hparams, List.length_map] at hlen
        exact hlen ((hasKind_call_iff hfind).mp hk).1
      · rename_i hlen
        have hlen' : args.length = params.length := by simpa [hparams] using hlen
        have hps : ∀ p ∈ params, p.ty.IsParam := fun p hp => hcallee.params _ (by
          rw [hparams]
          exact List.mem_map_of_mem hp)
        rw [hparams]
        refine Decides.bind ((hargs params hlen' hps).and
          (yields_lowerArgs h₁ name (params.map Kind.ty) args (by simpa using hlen') ?_)) ?_ ?_
        · rw [← hparams]
          exact hcallee.params
        · rintro ⟨k, hk⟩
          exact ((hasKind_call_iff hfind).mp hk).2.1
        rintro vs s₂ hkinds ⟨-, hm₂, h₂, hvs⟩
        obtain ⟨callee', hg', hbefore⟩ := hm₂.extends.func hg
        rw [← hparams, ← hbefore.params] at hvs
        have hk : HasKind Γ (.call span name args) ret :=
          (hasKind_call_iff hfind).mpr ⟨hlen', hkinds, rfl⟩
        refine Decides.next (.build _) (yields_call h₂ hg' hvs) fun id s₃ _ => ?_
        rw [hret]
        rcases hretk with rfl | rfl
        · exact Decides.pure ⟨_, hk⟩ ⟨_, hk, trivial⟩
        · exact Decides.pure ⟨_, hk⟩ ⟨_, hk, trivial⟩

mutual

theorem decides_lowerExpr {s : State} {P : Set Nat} (h : At t false P s)
    (hΓ : Scoped s.module s.scope Γ) :
    ∀ e : Expr, Kinded t Γ e s
  | .lit _ w => by
    rw [Kinded, lowerExpr]
    exact Decides.next (.build _) (yields_integer h w) fun id s₁ _ =>
      Decides.pure ⟨_, .lit⟩ ⟨.number, .lit, trivial⟩
  | .lval span name indices => by
    refine (decides_lval_of h hΓ (decides_lowerIndices span name indices)).mono ?_
    rintro v s' ⟨k, entry, hk, hv, -⟩
    exact ⟨k, hk, hv⟩
  | .unary _ op e => by
    rw [Kinded, lowerExpr_unary]
    refine (decides_lowerExpr h hΓ e).number h ?_ fun x s₁ hm₁ h₁ hx hkind => ?_
    · rintro ⟨k, hk⟩
      cases hk
      assumption
    · refine (Decides.of_steady (steady_lowerUnary t op x) (gives_lowerUnary h₁ op hx)).iff
        ?_ |>.mono ?_
      · exact iff_of_true ⟨_, .unary hkind⟩ trivial
      · exact fun v s' hv => ⟨.number, .unary hkind, hv⟩
  | .binary span op l r => by
    have hleft : (∃ k, HasKind Γ (.binary span op l r) k) → HasKind Γ l .number := by
      rintro ⟨k, hk⟩
      cases hk
      assumption
    have hright : (∃ k, HasKind Γ (.binary span op l r) k) → HasKind Γ r .number := by
      rintro ⟨k, hk⟩
      cases hk
      assumption
    cases hop : op.isLogical with
    | true =>
      rw [Kinded, lowerExpr_logic hop]
      refine Decides.next (.build _) (yields_integer h 0) fun zeroId s₁ ⟨hm₁, h₁, hzero⟩ => ?_
      refine Decides.next (.build _) (yields_alloc h₁ Ty.isObject_i32 "")
        fun result s₂ ⟨hm₂, h₂, hresult⟩ => ?_
      refine (decides_lowerExpr h₂ (hΓ.moves (hm₁.trans hm₂)) l).number h₂ hleft
        fun lhs s₃ hm₃ h₃ hlhs hkl => ?_
      have hzero₃ := hm₃.readable (hm₂.readable hzero)
      have hresult₃ := hm₃.readable hresult
      refine Decides.next (steady_noteTruth t _ _ _) (yields_noteTruth h₃ hzero₃ hresult₃ hlhs)
        fun first s₄ ⟨hm₄, h₄, hfirst⟩ => ?_
      refine Decides.next (steady_forkLogic t op first) (gives_forkLogic h₄ hfirst op)
        fun done s₅ ⟨hm₅, h₅, hdone, hdone2⟩ => ?_
      have hm₃₅ := hm₄.trans hm₅
      refine (decides_lowerExpr h₅ (hΓ.moves (hm₁.trans (hm₂.trans (hm₃.trans hm₃₅)))) r).number h₅
        hright
        fun rhs s₆ hm₆ h₆ hrhs hkr => ?_
      have hresult₆ := (hm₃₅.trans hm₆).readable hresult₃
      refine Decides.next (steady_noteTruth t _ _ _)
        (yields_noteTruth h₆ ((hm₃₅.trans hm₆).readable hzero₃) hresult₆ hrhs)
        fun _ s₇ ⟨hm₇, h₇, _⟩ => ?_
      exact decides_endLogic h₇ hdone hdone2 (hm₇.readable hresult₆) (.binary hkl hkr)
    | false =>
      rw [Kinded, lowerExpr_arith hop]
      refine (decides_lowerExpr h hΓ l).number h hleft fun x s₁ hm₁ h₁ hx hkl => ?_
      refine (decides_lowerExpr h₁ (hΓ.moves hm₁) r).number h₁ hright fun y s₂ hm₂ h₂ hy hkr => ?_
      refine Decides.next (.build _) (yields_binary h₂ (arithOf_ne hop) (hm₂.readable hx) hy)
        fun z s₃ _ => ?_
      exact Decides.pure ⟨_, .binary hkl hkr⟩ ⟨.number, .binary hkl hkr, trivial⟩
  | .call span name args =>
    decides_call h hΓ fun ps => decides_lowerArgs h hΓ name ps args

theorem decides_lowerArgs {s : State} {P : Set Nat} (h : At t false P s)
    (hΓ : Scoped s.module s.scope Γ) (callee : String) :
    ∀ (ps : List Kind) (es : List Expr), es.length = ps.length → (∀ p ∈ ps, p.ty.IsParam) →
      Decides (lowerArgs t callee (ps.map Kind.ty) es) s (∀ p ∈ es.zip ps, HasKind Γ p.1 p.2)
        fun _ _ => True
  | [], [], _, _ => by
    rw [List.map_nil, lowerArgs]
    · exact Decides.pure (by simp) trivial
    · simp
  | [], _ :: _, hlen, _ => by cases hlen
  | _ :: _, [], hlen, _ => by cases hlen
  | p :: ps, e :: es, hlen, hps => by
    rw [List.map_cons, lowerArgs]
    simp only [List.zip_cons_cons, List.mem_cons, forall_eq_or_imp]
    refine Decides.bind ((decides_lowerExpr h hΓ e).and (yields_lowerExpr h e))
      (fun hv => ⟨_, hv.1⟩) ?_
    rintro v s₁ - ⟨⟨k, hk, hv⟩, hm₁, h₁, hok⟩
    have hp := hps p (by simp)
    refine Decides.bind ((decides_lowerArg h₁ hok hv hp callee e.span).and
      (yields_lowerArg h₁ hok hp callee e.span))
      (fun hv => hk.eq hv.1) ?_
    rintro a s₂ rfl ⟨-, hm₂, h₂, -⟩
    refine Decides.bind (decides_lowerArgs h₂ (hΓ.moves (hm₁.trans hm₂)) callee ps es
      (by simpa using hlen)
      fun q hq => hps q (by simp [hq])) (fun hv => hv.2) ?_
    rintro as s₃ hrest -
    exact Decides.pure ⟨hk, hrest⟩ trivial

theorem decides_lowerIndices {P : Set Nat} (span : Span) (name : String) :
    ∀ es : List Expr, Walks t P Γ span name es
  | [], s, w, dims, h, hΓ, hok, hw => by
    rw [lowerIndices]
    exact Decides.pure (by simp) hw
  | e :: es, s, w, dims, h, hΓ, hok, hw => by
    rw [lowerIndices_cons]
    cases dims with
    | nil =>
      rw [if_neg (by rw [hw.canStep_iff]; simp)]
      exact Decides.reject (by simp)
    | cons d dims =>
      have hstep : w.canStep = true := hw.canStep_iff.mpr (by simp)
      rw [if_pos hstep]
      simp only [List.mem_cons, forall_eq_or_imp, List.length_cons, Nat.add_le_add_iff_right,
        List.drop_succ_cons]
      refine (decides_lowerExpr h hΓ e).number h (fun hv => hv.2.1)
        fun index s₁ hm₁ h₁ hindex hkind => ?_
      have hok₁ := hok.extends hm₁.extends
      refine Decides.next (steady_step t index w) ((yields_step h₁ hok₁ hstep hindex).and
        (gives_step h₁ hok₁ hindex hw))
        fun w' s₂ ⟨⟨hm₂, h₂, hok₂⟩, hw₂⟩ => ?_
      refine (decides_lowerIndices span name es h₂ (hΓ.moves (hm₁.trans hm₂)) hok₂ hw₂).iff ?_
      exact ⟨fun hv => ⟨hv.1, hv.2.2⟩, fun hv => ⟨hv.1, hkind, hv.2⟩⟩

end

theorem decides_lowerLval (h : At t false P s) (hΓ : Scoped s.module s.scope Γ) (span : Span)
    (name : String) (indices : List Expr) :
    Decides (lowerLval t span name indices) s (∃ k, HasKind Γ (.lval span name indices) k)
      fun v s' => ∃ k entry, HasKind Γ (.lval span name indices) k ∧ OperandIs s'.module v k ∧
        Γ.find? name = some entry ∧ LvalIs entry v :=
          decides_lval_of h hΓ (decides_lowerIndices span name indices)

theorem decides_lowerScalar (h : At t false P s) (hΓ : Scoped s.module s.scope Γ) (e : Expr) :
    Decides (lowerScalar t e) s (HasKind Γ e .number) fun _ _ => True :=
  ((decides_lowerExpr h hΓ e).scalar h).mono fun _ _ _ => trivial

end Sysy.Static
