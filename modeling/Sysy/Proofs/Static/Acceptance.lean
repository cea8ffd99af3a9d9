import Sysy.Proofs.Static.Statements

/-!
A program is lowered without a flaw exactly if it follows the rules.
-/

namespace Sysy.Static
open Ir Lowering

variable {s s' : State} {m m' m₀ : Module} {f : Nat} {fn₀ : Func} {Γ : Env}

theorem Decides.of_run {α : Type} {x y : Lower α} {V : Prop} {Q : α → State → Prop} (h : x s = y s')
    (hy : Decides y s' V Q) : Decides x s V Q := by
  unfold Decides at *
  rwa [h]

/-! Globals. -/

theorem decides_foldCells (hΓ : Scoped s.module s.scope Γ) (cs : List (Option Expr)) :
    Decides (cs.mapM foldCell) s (∀ e, some e ∈ cs → ∃ w, Folds Γ e w) fun _ s' => s' = s := by
  induction cs with
  | nil =>
    rw [List.mapM_nil]
    exact Decides.pure (by simp) rfl
  | cons c cs ih =>
    have hc : Decides (foldCell c) s (∀ e, c = some e → ∃ w, Folds Γ e w) fun _ s' => s' = s := by
      cases c with
      | none => exact Decides.pure (by simp) rfl
      | some e => exact ((decides_foldConst hΓ e).iff (by simp)).mono fun _ _ h => h.1
    rw [List.mapM_cons]
    refine Decides.bind hc (fun hall e he => hall e (by simp [he])) ?_
    rintro w s₁ hc hs₁
    subst s₁
    refine Decides.bind ih (fun hall e he => hall e (by simp [he])) ?_
    rintro ws s₁ hcs hs₁
    refine Decides.pure (fun e he => ?_) hs₁
    rcases List.mem_cons.mp he with heq | he
    · exact hc e heq.symm
    · exact hcs e he

structure IsGlobalInit (Γ : Env) (isConst : Bool) (d : VarDef) (s : State) (id : ValueId)
    (s' : State) : Prop where
  scope : s'.scope = s.scope
  grown : Extends s.module s'.module
  ty : ∃ dims, DefOk Γ true isConst d (.var dims isConst) ∧ ∃ v, s'.module.value? id = some v ∧
    v.ty = .ofDims dims

theorem decides_zeroInit {isConst : Bool} {d : VarDef} {dims : List Nat}
    (hdef : DefOk Γ true isConst d (.var dims isConst)) :
    Decides (build (Build.zeroInit (Ty.ofDims dims))) s (∃ entry, DefOk Γ true isConst d entry)
      (IsGlobalInit Γ isConst d s) :=
  (Decides.of_steady (.build _) (Gives.build rfl ⟨rfl, .add _ _, dims, hdef, _,
    (Module.value?_add _ _).trans (if_pos rfl), rfl⟩)).iff (iff_true_intro ⟨_, hdef⟩)

theorem decides_numberInit {d : VarDef} (hΓ : Scoped s.module s.scope Γ) (hdims : d.dims = []) :
    Decides (globalInit d) s (∃ entry, DefOk Γ true false d entry) (IsGlobalInit Γ false d s) := by
  have hrule {entry : Entry} (hdef : DefOk Γ true false d entry) :
      ∀ i, d.init = some i → ∃ e, i = .expr e ∧ ∃ w, Folds Γ e w := by
    cases hdef with
    | const hconst => cases hconst
    | number _ _ hinit => exact hinit
    | array hne => exact absurd hdims hne
  unfold globalInit
  rw [if_pos (List.isEmpty_iff.mpr hdims)]
  split
  · rename_i hnone
    have hdef : DefOk Γ true false d (.var [] false) := .number rfl hdims (by simp [hnone])
    exact decides_zeroInit hdef
  · rename_i span elems heq
    refine Decides.reject ?_
    rintro ⟨entry, hdef⟩
    obtain ⟨e, he, -⟩ := hrule hdef _ heq
    cases he
  · rename_i e heq
    refine Decides.bind (decides_foldConst hΓ e) ?_ ?_
    · rintro ⟨entry, hdef⟩
      obtain ⟨e', he, hw⟩ := hrule hdef _ heq
      cases he
      exact hw
    rintro w s₁ hw ⟨hs₁, -⟩
    subst s₁
    have hdef : DefOk Γ true false d (.var [] false) := .number rfl hdims fun i hi => by
      rw [heq] at hi
      cases hi
      exact ⟨e, rfl, hw⟩
    exact (Decides.of_steady (.build _) (Gives.build rfl ⟨rfl, .add _ _, [], hdef, _,
      (Module.value?_add _ _).trans (if_pos rfl), rfl⟩)).iff (iff_true_intro ⟨_, hdef⟩)

theorem decides_arrayInit {isConst : Bool} {d : VarDef} (hl : Linked s.module)
    (hΓ : Scoped s.module s.scope Γ) (hne : d.dims ≠ []) :
    Decides (globalInit d) s (∃ entry, DefOk Γ true isConst d entry)
      (IsGlobalInit Γ isConst d s) := by
  have hrule {entry : Entry} (hdef : DefOk Γ true isConst d entry) : ∃ dims, HasDims Γ d.dims dims ∧
      ∀ i, d.init = some i → FitsShape dims i ∧ ∀ e, Leaf e i → ∃ w, Folds Γ e w := by
    cases hdef with
    | const _ hnil | number _ hnil => exact absurd hnil hne
    | array _ hdims hinit => exact ⟨_, hdims, hinit⟩
  unfold globalInit
  rw [if_neg (by simpa using hne)]
  refine Decides.bind ((decides_dimsOf hΓ d.dims).and (Gives.dimsOf (Q :=
    fun ds _ => Shaped ds) fun ds hds =>
    shaped_of_foldDims hds)) ?_ ?_
  · rintro ⟨entry, hdef⟩
    obtain ⟨dims, hdims, -⟩ := hrule hdef
    exact ⟨dims, hdims⟩
  rintro ds s₁ - ⟨⟨hs₁, hdims⟩, hds⟩
  subst s₁
  have hsame {entry : Entry} (hdef : DefOk Γ true isConst d entry) :
      ∀ i, d.init = some i → FitsShape ds i ∧ ∀ e, Leaf e i → ∃ w, Folds Γ e w := by
    obtain ⟨dims, hdims', hinit⟩ := hrule hdef
    rwa [hdims.eq hdims']
  split
  · rename_i hnone
    exact decides_zeroInit (.array hne hdims (by simp [hnone]))
  · rename_i i hi
    refine Decides.bind ((decides_flatten ds i).and (Gives.check (Q :=
      fun cells _ => cells.size = product ds)
      fun cells hcells => size_flatten hcells)) ?_ ?_
    · rintro ⟨entry, hdef⟩
      exact (hsame hdef i hi).1
    rintro cells s₁ hfits ⟨⟨hs₁, hleaf⟩, hsize⟩
    subst s₁
    have hmem (e : Expr) : some e ∈ cells.toList ↔ Leaf e i := by rw [Array.mem_toList_iff, hleaf]
    refine Decides.bind ((decides_foldCells hΓ cells.toList).and
      (gives_foldCells cells.toList)) ?_ ?_
    · rintro ⟨entry, hdef⟩ e he
      exact (hsame hdef i hi).2 e ((hmem e).mp he)
    rintro ws s₁ hall ⟨hs₁, -, hlen⟩
    subst s₁
    obtain ⟨id, m', hrun, -, ht, -, hholds⟩ :=
      aggregate_run ds hds.1 ws s.module (by simpa using hlen.trans hsize) hl
    obtain ⟨v, hv, hty, -⟩ := hholds.isUnit
    have hdef : DefOk Γ true isConst d (.var ds isConst) := .array hne hdims fun i' hi' => by
      obtain rfl := Option.some.inj (hi.symm.trans hi')
      exact ⟨hfits, fun e he => hall e ((hmem e).mpr he)⟩
    exact (Decides.of_steady (.build _) (Gives.build hrun ⟨rfl, ht.grown, ds, hdef, v,
      hv, hty⟩)).iff
      (iff_true_intro ⟨_, hdef⟩)

theorem decides_globalInit {isConst : Bool} {d : VarDef} (hl : Linked s.module)
    (hΓ : Scoped s.module s.scope Γ) (hvar : d.dims = [] → isConst = false) :
    Decides (globalInit d) s (∃ entry, DefOk Γ true isConst d entry)
      (IsGlobalInit Γ isConst d s) := by
  by_cases hdims : d.dims = []
  · obtain rfl := hvar hdims
    exact decides_numberInit hΓ hdims
  · exact decides_arrayInit hl hΓ hdims

theorem decides_lowerGlobal (h : Ready s) (hΓ : Scoped s.module s.scope Γ) (isConst : Bool)
    (d : VarDef) :
    Decides (lowerGlobal isConst d) s (∃ entry Γ', DefOk Γ true isConst d entry ∧
      Defines Γ d.name entry Γ') fun _ s' => Defined Γ true isConst d s' := by
  unfold lowerGlobal
  split
  · rename_i hconst
    simp only [Bool.and_eq_true, List.isEmpty_iff] at hconst
    obtain ⟨rfl, hdims⟩ := hconst
    exact decides_defineConst hΓ hdims
  · rename_i hconst
    simp only [Bool.and_eq_true, List.isEmpty_iff, not_and] at hconst
    have hvar : d.dims = [] → isConst = false := fun hdims => by
      rw [← Bool.not_eq_true]
      exact fun htrue => hconst htrue hdims
    refine Decides.bind (decides_globalInit h.sound.linked hΓ hvar)
      (fun ⟨entry, _, hdef, _⟩ => ⟨entry, hdef⟩) ?_
    rintro init ⟨m₁, scope₁⟩ - ⟨hscope, he, dims, hdef, v, hv, hty⟩
    obtain rfl : scope₁ = s.scope := hscope
    dsimp only at he hv
    have hrun : Build.global ("@" ++ d.name) init m₁ = .ok (m₁.values.size + 1,
        withGlobal m₁ { node := .global init, ty := .ptr (m₁.tyOf init),
                        name := "@" ++ d.name }) := rfl
    generalize hw : ({ node := .global init, ty := .ptr (m₁.tyOf init),
                       name := "@" ++ d.name } : Value) = w at hrun
    have hwty : w.ty = .ptr (.ofDims dims) := by rw [← hw, Module.tyOf_eq hv, hty]
    refine Decides.next (.build _) (Q :=
      fun id s' => id = m₁.values.size + 1 ∧ s' = ⟨withGlobal m₁ w, s.scope⟩)
      (Gives.build (s := ⟨m₁, s.scope⟩) hrun ⟨rfl, rfl⟩) ?_
    rintro _ _ ⟨rfl, rfl⟩
    have he₂ := extends_withGlobal m₁ w
    have hentry : EntryIs (withGlobal m₁ w) (.var (m₁.values.size + 1) isConst)
      (.var dims isConst) :=
      ⟨rfl, w, (m₁.value?_add w).trans (if_pos rfl), hwty⟩
    exact decides_defining (s := ⟨withGlobal m₁ w, s.scope⟩) (hΓ.extends (he.trans he₂)) hentry hdef

/-! Functions. -/

theorem ParamOk.eq {p : Param} {entry entry' : Entry} {k k' : Kind} (h : ParamOk Γ p entry k)
    (h' : ParamOk Γ p entry' k') : (entry, k) = (entry', k') := by
  cases h with
  | number hdims =>
    cases h' with
    | number => rfl
    | array hdims' => simp [hdims'] at hdims
  | array hdims h =>
    cases h' with
    | number hdims' => simp [hdims'] at hdims
    | array hdims' h' =>
      obtain rfl := Option.some.inj (hdims.symm.trans hdims')
      rw [h.eq h']

theorem paramsOk_eq {ps : List Param} {qs qs' : List (Entry × Kind)}
    (h : List.Forall₂ (fun p q => ParamOk Γ p q.1 q.2) ps qs)
    (h' : List.Forall₂ (fun p q => ParamOk Γ p q.1 q.2) ps qs') : qs = qs' := by
  induction h generalizing qs' with
  | nil =>
    cases h'
    rfl
  | cons hp _ ih =>
    cases h' with
    | cons hp' htail' => exact List.cons_eq_cons.mpr ⟨hp.eq hp', ih htail'⟩

theorem decides_paramTys (hΓ : Scoped s.module s.scope Γ) (ps : List Param) :
    Decides (ps.mapM paramTy) s (∃ qs : List (Entry × Kind), List.Forall₂
      (fun p q => ParamOk Γ p q.1 q.2) ps qs)
      fun tys s' => s' = s ∧ ∃ qs : List (Entry × Kind),
        List.Forall₂ (fun p q => ParamOk Γ p q.1 q.2) ps qs ∧ tys = qs.map (·.2.ty) := by
  induction ps with
  | nil =>
    rw [List.mapM_nil]
    exact Decides.pure ⟨[], .nil⟩ ⟨rfl, [], .nil, rfl⟩
  | cons p ps ih =>
    have hp : Decides (paramTy p) s (∃ entry k, ParamOk Γ p entry k)
        fun ty s' => s' = s ∧ ∃ entry k, ParamOk Γ p entry k ∧ ty = k.ty := by
      unfold paramTy
      split
      · rename_i hnone
        exact Decides.pure ⟨_, _, .number hnone⟩ ⟨rfl, _, _, .number hnone, rfl⟩
      · rename_i es hsome
        refine Decides.bind (decides_dimsOf hΓ es) ?_ ?_
        · rintro ⟨entry, k, hp⟩
          cases hp with
          | number hnone => simp [hnone] at hsome
          | array hdims h =>
            obtain rfl := Option.some.inj (hsome.symm.trans hdims)
            exact ⟨_, h⟩
        rintro ds s₁ - ⟨hs₁, hds⟩
        exact Decides.pure ⟨_, _, .array hsome hds⟩ ⟨hs₁, _, _, .array hsome hds, rfl⟩
    rw [List.mapM_cons]
    refine Decides.bind hp ?_ ?_
    · rintro ⟨qs, hqs⟩
      cases hqs with
      | cons hp _ => exact ⟨_, _, hp⟩
    rintro ty s₁ - ⟨hs₁, entry, k, hp, hty⟩
    subst s₁
    refine Decides.bind ih ?_ ?_
    · rintro ⟨qs, hqs⟩
      cases hqs with
      | cons _ hps => exact ⟨_, hps⟩
    rintro tys s₁ - ⟨hs₁, qs, hqs, rfl⟩
    refine Decides.pure ⟨(entry, k) :: qs, .cons hp hqs⟩ ⟨hs₁, (entry, k) :: qs, .cons hp hqs, ?_⟩
    rw [hty, List.map_cons]

theorem ParamOk.entryIs {p : Param} {entry : Entry} {k : Kind} {slot : Nat}
    (h : ParamOk Γ p entry k) (hslot : m.Readable f slot (.ptr k.ty)) :
    EntryIs m (.var slot false) entry := by
  obtain ⟨v, hv, hty, -⟩ := hslot
  cases h with
  | number _ | array _ _ => exact ⟨rfl, v, hv, hty⟩

theorem decides_lowerParams {ps : List Param} {qs : List (Entry × Kind)} {Γ₀ : Env}
    (hps : List.Forall₂ (fun p q => ParamOk Γ₀ p q.1 q.2) ps qs) :
    ∀ {s : State} {frame : Frame} {args : List ValueId},
    Entering m₀ f fn₀ 1 s.module → Scoped s.module s.scope (frame :: Γ) → args.length = ps.length →
    (∀ p ∈ (qs.map (·.2.ty)).zip args, p.1.IsParam ∧ ∃ i, IsArg s.module f p.2 (p.1, i) ∧
      fn₀.params[i]? = some p.1) → Decides (lowerParams f (ps.zip ((qs.map (·.2.ty)).zip args))) s
      ((ps.map (·.name)).Nodup ∧ ∀ name ∈ ps.map (·.name), name ∉ frame.map (·.1))
      fun _ s' => Entering m₀ f fn₀ 1 s'.module ∧
        Scoped s'.module s'.scope
          ((((ps.map (·.name)).zip (qs.map (·.1))).reverse ++ frame) :: Γ) := by
  induction hps with
  | nil =>
    intro s frame args h hΓ _ _
    exact Decides.pure (by simp) ⟨h, hΓ⟩
  | @cons p q ps qs hp _ ih =>
    intro s frame args h hΓ hlen hargs
    obtain ⟨arg, args, rfl⟩ : ∃ a as, args = a :: as := List.exists_cons_of_length_eq_add_one hlen
    simp only [List.map_cons, List.zip_cons_cons, lowerParams]
    obtain ⟨hty, i, harg, hi⟩ := hargs (q.2.ty, arg) (by simp)
    -- slot and copy are always made: only the name of the parameter can be refused
    obtain ⟨m₁, slot, halloc, h₁, he₁, hslot⟩ := h.alloc hty.isObject ("%" ++ p.name)
    obtain ⟨m₂, id, hstore, h₂, he₂, -⟩ := h₁.store (harg.extends he₁) hi hty hslot
    have he := he₁.trans he₂
    refine Decides.next (.build _) (Q :=
      fun id s' => id = slot ∧ s' = _) (Gives.build halloc ⟨rfl, rfl⟩) ?_
    rintro _ _ ⟨rfl, rfl⟩
    refine Decides.next (.build _) (Q :=
      fun _ s' => s' = _) (Gives.build (s := { s with module := m₁ }) hstore rfl) ?_
    rintro _ _ rfl
    refine Decides.bind (decides_define (s :=
      ⟨m₂, s.scope⟩) (hΓ.extends he) (hp.entryIs (he₂.readable hslot)) _ _) ?_ ?_
    · rintro ⟨-, hfresh⟩
      exact ⟨_, .intro (hfresh p.name (by simp))⟩
    rintro _ ⟨m₃, scope⟩ - ⟨hm, Γ', hdef, hΓ'⟩
    obtain rfl : m₃ = m₂ := hm
    cases hdef with
    | intro hnew =>
      refine ((ih (s := ⟨m₃, scope⟩) h₂ hΓ' (by simpa using hlen) fun p' hp' => ?_).iff ?_).mono ?_
      · obtain ⟨hty', j, harg', hj⟩ := hargs p' (by simp [hp'])
        exact ⟨hty', j, harg'.extends he, hj⟩
      · simp only [List.nodup_cons, List.mem_cons, forall_eq_or_imp, List.map_cons, not_or]
        constructor
        · rintro ⟨⟨hself, hnodup⟩, -, hrest⟩
          exact ⟨hnodup, fun name hname => ⟨fun heq => hself (heq ▸ hname), hrest name hname⟩⟩
        · rintro ⟨hnodup, hrest⟩
          exact ⟨⟨fun hself => (hrest _ hself).1 rfl, hnodup⟩, hnew,
            fun name hname => (hrest name hname).2⟩
      · rintro _ s' ⟨h', hΓ''⟩
        exact ⟨h', by simpa using hΓ''⟩

theorem steady_layExit (t : Target) : Steady (layExit t) := by
  refine .bind (steady_startBlock t _) fun _ => ?_
  split
  · exact .bind (.build _) fun _ => .bind (.build _) fun _ => .pure _
  · exact .bind (.build _) fun _ => .pure _

theorem steady_layTail (t : Target) (tail : BlockId) (m : Module) (fn : Func) (b : Block) :
    Steady (layTail t tail m fn b) := by
  unfold layTail
  split
  · exact .build _
  · split
    · exact .bind (.build _) fun _ => .pure _
    · exact .pure _

theorem steady_finish (t : Target) (entry body : BlockId) : Steady (finish t entry body) := by
  rw [finish_eq]
  refine .bind (.build _) fun _ => .bind (.build _) fun tail => .get_bind fun s => ?_
  dsimp only
  split
  · exact .pure _
  · exact .bind (steady_layTail t _ _ _ _) fun _ => steady_layExit t

theorem Scoped.global (h : Ready s) (hΓ : Scoped s.module s.scope Γ) :
    ∃ frame : Frame, Γ = [frame] ∧
    List.Forall₂ (fun p q => p.1 = q.1 ∧ EntryIs s.module p.2 q.2) s.scope.outermost frame := by
  unfold Scoped framesOf at hΓ
  rw [h.top] at hΓ
  cases hΓ with
  | cons hframe htail =>
    cases htail
    exact ⟨_, rfl, hframe⟩

theorem decides_begins {d : FuncDef} {qs : List (Entry × Kind)} {args : List ValueId} {t : Target}
    {frame : Frame} (h : Ready s) (hopens : Opens s d (qs.map (·.2.ty)) args t s')
    (hparams : ∀ ty ∈ qs.map (·.2.ty), ty.IsParam) (hfresh : d.name ∉ s.scope.outermost.map (·.1))
    (hqs : List.Forall₂ (fun p q => ParamOk Γ p q.1 q.2) d.params qs)
    (hΓ : Scoped s'.module s'.scope [[], frame]) :
    Decides (do
      lowerParams t.func (d.params.zip ((qs.map (·.2.ty)).zip args))
      build (Build.setCurrent t.func 3)) s' (d.params.map (·.name)).Nodup
      fun _ s'' =>
        Scoped s''.module s''.scope [((d.params.map (·.name)).zip (qs.map (·.1))).reverse, frame] ∧
        Begins s d t s'' ∧ Extends s'.module s''.module := by
  refine Decides.and ?_ (hopens.gives_begins h (by rw [List.length_map, hqs.length_eq])
    hparams hfresh)
  have hlen : args.length = d.params.length := by
    rw [hopens.args.length_eq, List.length_zipIdx, List.length_map, hqs.length_eq]
  refine Decides.bind (decides_lowerParams hqs hopens.entering hΓ hlen fun p hp => ?_)
    (fun hnodup => ⟨hnodup, by simp⟩) ?_
  · obtain ⟨i, harg, hi⟩ := mem_zip_args hopens.args hp
    exact ⟨hparams p.1 (List.of_mem_zip hp).1, i, harg, hi⟩
  rintro _ s₁ ⟨hnodup, -⟩ ⟨hE₁, hΓ₁⟩
  obtain ⟨fn₁, hc₁, -⟩ := hE₁.code
  have he : Extends s₁.module (s₁.module.modifyFunc t.func fun fn => { fn with current := 3 }) :=
    .modifyFunc hc₁.found _ ⟨rfl, rfl, rfl, rfl, rfl, rfl, rfl, le_rfl, fun _ => List.prefix_rfl⟩
  rw [List.append_nil] at hΓ₁
  exact (Decides.of_steady (.build _) (Gives.build rfl (hΓ₁.extends he))).iff
    (iff_true_intro hnodup)

theorem entryIs_of_opens {d : FuncDef} {qs : List (Entry × Kind)} {args : List ValueId} {t : Target}
    (hopens : Opens s d (qs.map (·.2.ty)) args t s')
    (hparams : ∀ ty ∈ qs.map (·.2.ty), ty.IsParam) :
    EntryIs s'.module (.func t.func)
      (.func (qs.map (·.2)) (if d.isVoid then .void else .number)) := by
  obtain ⟨fn, hc, hb, -⟩ := hopens.entering.code
  refine ⟨fn, hc.found, ?_, ?_, ?_, ?_⟩
  · rw [hb.params]
    simp [laidOut, bare]
  · rw [hb.ret]
    cases d.isVoid <;> rfl
  · cases d.isVoid <;> simp
  · rintro hvoid
    obtain ⟨q, hq, hnot⟩ := List.mem_map.mp hvoid
    rcases hparams q.2.ty (List.mem_map_of_mem hq) with heq | ⟨_, _, heq⟩ <;> simp [hnot,
      Kind.ty] at heq

theorem decides_body {d : FuncDef} {t : Target} {Γ₀ : Env} (h : Begins s d t s')
    (hresult : t.result.isNone = d.isVoid) (hΓ : Scoped s'.module s'.scope Γ)
    (hΓ₀ : Scoped s'.module ⟨[], (d.name, .func t.func) :: s.scope.outermost⟩ Γ₀) :
    Decides (do
      lowerStmts t [] d.body
      finish t 1 3
      exit) s' (∃ Γ₁, StmtsOk d.isVoid false Γ d.body Γ₁) fun _ s'' =>
        Scoped s''.module s''.scope Γ₀ := by
  have hloops : LoopsOk s'.module t.func [] := by simp [LoopsOk]
  have hbody :=
    (decides_lowerStmts h.here hΓ hloops d.body).and (lasts_lowerStmts h.here hloops d.body)
  rw [hresult] at hbody
  refine Decides.bind hbody id ?_
  rintro _ s₁ hok ⟨-, hp₁, h₁⟩
  refine Decides.next (steady_finish t 1 3) (h.gives_finish hp₁ h₁) ?_
  rintro _ s₂ ⟨hscope₂, fn₁, fn₂, -, -, hworked, -⟩
  refine ⟨hok, ?_⟩
  have hexit : s₂.scope.exit = ⟨[], (d.name, .func t.func) :: s.scope.outermost⟩ := by
    rw [hscope₂, Scope.exit, hp₁.tail, h.tail, hp₁.outermost, h.outermost]
  change Scoped s₂.module s₂.scope.exit Γ₀
  rw [hexit]
  exact hΓ₀.extends (hp₁.grows.extends.trans hworked.touches.grown)

theorem decides_lowerFunc (h : Ready s) (hΓ : Scoped s.module s.scope Γ) (span : Span)
    (d : FuncDef) :
    Decides (lowerFunc d) s (∃ Γ', ItemOk Γ (.func span d) Γ')
      fun _ s' => ∃ Γ', ItemOk Γ (.func span d) Γ' ∧ Scoped s'.module s'.scope Γ' := by
  have hp := decides_paramTys hΓ d.params
  have hg := gives_paramTys (s := s) d.params
  unfold Decides at hp
  unfold Gives at hg
  cases hrun : d.params.mapM paramTy s with
  | error e =>
    have herror : lowerFunc d s = .error e := run_bind_error hrun
    rw [hrun] at hp
    rw [Decides, herror]
    cases e with
    | fault _ => exact hp
    | flawed _ =>
      rintro ⟨Γ', hitem⟩
      cases hitem with
      | func hparams => exact hp ⟨_, hparams⟩
  | ok r =>
    obtain ⟨tys, s₀⟩ := r
    rw [hrun] at hp hg
    obtain ⟨-, rfl, qs, hqs, rfl⟩ := hp
    obtain ⟨-, -, hparams⟩ := hg
    obtain ⟨frame, rfl, hframe⟩ := hΓ.global h
    have hnames := map_fst_of_frame hframe
    let entry : Entry := .func (qs.map (·.2)) (if d.isVoid then .void else .number)
    rcases lowerFunc_cases h hrun hparams with ⟨hmem, e, he⟩ | ⟨hfresh, args, t, s₁, hopens, heq⟩
    · rw [Decides, he]
      rintro ⟨Γ', hitem⟩
      cases hitem with
      | func _ hname =>
        cases hname with
        | intro hnew => exact hnew (hnames ▸ hmem)
    refine Decides.of_run heq ?_
    -- the name of the function is known in its own body
    have hdef : Defines [frame] d.name entry [(d.name, entry) :: frame] := .intro (hnames ▸ hfresh)
    have hglobal : Scoped s₁.module ⟨[], (d.name, .func t.func) :: s₀.scope.outermost⟩
      [(d.name, entry) :: frame] :=
      .cons (.cons ⟨rfl, entryIs_of_opens hopens hparams⟩
        (hframe.imp fun _ _ hp => ⟨hp.1, hp.2.extends hopens.entering.touches.grown⟩)) .nil
    have hscoped : Scoped s₁.module s₁.scope [[], (d.name, entry) :: frame] := by
      rw [hopens.scope]
      exact hglobal.enter .function
    rw [lowerBody, ← bind_assoc]
    refine Decides.bind (decides_begins h hopens hparams hfresh hqs hscoped) ?_ ?_
    · rintro ⟨Γ', hitem⟩
      cases hitem with
      | func _ _ hnames _ => exact hnames
    rintro _ s₂ hnodup ⟨hΓ₂, hbegins, he₂⟩
    refine ((decides_body hbegins hopens.result hΓ₂ (hglobal.extends he₂)).known.iff ⟨?_,
      ?_⟩).mono ?_
    · rintro ⟨Γ', hitem⟩
      cases hitem with
      | func hparams' hname' _ hbody =>
        obtain rfl := paramsOk_eq hqs hparams'
        obtain rfl := hdef.eq hname'
        exact ⟨_, hbody⟩
    · rintro ⟨Γ₃, hbody⟩
      exact ⟨_, .func hqs hdef hnodup hbody⟩
    · rintro _ s₃ ⟨⟨Γ₃, hbody⟩, hΓ₃⟩
      exact ⟨_, .func hqs hdef hnodup hbody, hΓ₃⟩

/-! Programs. -/

theorem decides_lowerItem (h : Ready s) (hΓ : Scoped s.module s.scope Γ) (i : Item) :
    Decides (lowerItem i) s (∃ Γ', ItemOk Γ i Γ') fun _ s' =>
      ∃ Γ', ItemOk Γ i Γ' ∧ Scoped s'.module s'.scope Γ' := by
  have hglobal : s.scope.isGlobal = true := by simp [Scope.isGlobal, h.top]
  unfold lowerItem
  refine Decides.get_bind ?_
  dsimp only
  rw [if_pos hglobal]
  cases i with
  | func span d => exact decides_lowerFunc h hΓ span d
  | decl span d =>
    have hdef (d' : VarDef) (s : State) (Γ : Env) (h : Ready s) (hΓ : Scoped s.module s.scope Γ) :
        Decides (lowerGlobal d.isConst d') s
          (∃ entry Γ', DefOk Γ true d.isConst d' entry ∧ Defines Γ d'.name entry Γ')
          fun _ s' => Defined Γ true d.isConst d' s' ∧ Ready s' :=
      (decides_lowerGlobal h hΓ d.isConst d').and (gives_lowerGlobal h d.isConst d')
    refine ((decides_defs hdef d.defs h hΓ).iff ?_).mono ?_
    · constructor
      · rintro ⟨Γ', hitem⟩
        cases hitem with
        | decl hds => exact ⟨Γ', hds⟩
      · rintro ⟨Γ', hds⟩
        exact ⟨Γ', .decl hds⟩
    · rintro _ s₁ ⟨-, Γ', hds, hΓ₁⟩
      exact ⟨Γ', .decl hds, hΓ₁⟩

theorem ItemOk.eq {i : Item} {Γ₁ Γ₂ : Env} (h : ItemOk Γ i Γ₁) (h' : ItemOk Γ i Γ₂) : Γ₁ = Γ₂ := by
  cases h with
  | decl h =>
    cases h' with
    | decl h' => exact h.eq h'
  | func hparams hname _ _ =>
    cases h' with
    | func hparams' hname' _ _ =>
      obtain rfl := paramsOk_eq hparams hparams'
      exact hname.eq hname'

theorem decides_lowerItems (is : List Item) :
    ∀ {s : State} {Γ : Env}, Ready s → Scoped s.module s.scope Γ →
    Decides (lowerItems is) s (∃ Γ', ItemsOk Γ is Γ') fun _ s' => ∃ Γ', ItemsOk Γ is Γ' ∧
    Scoped s'.module s'.scope Γ' := by
  induction is with
  | nil => exact fun {s Γ} _ hΓ => Decides.pure ⟨Γ, .nil⟩ ⟨Γ, .nil, hΓ⟩
  | cons i is ih =>
    intro s Γ h hΓ
    refine Decides.bind ((decides_lowerItem h hΓ i).and (gives_lowerItem h i)) ?_ ?_
    · rintro ⟨Γ', his⟩
      cases his with
      | cons hi _ => exact ⟨_, hi⟩
    rintro _ s₁ - ⟨⟨Γ₁, hi, hΓ₁⟩, h₁⟩
    refine ((ih h₁ hΓ₁).mono fun _ s' h' => ?_).iff ?_
    · obtain ⟨Γ', his, hΓ'⟩ := h'
      exact ⟨Γ', .cons hi his, hΓ'⟩
    constructor
    · rintro ⟨Γ', his⟩
      cases his with
      | cons hi' his =>
        obtain rfl := hi.eq hi'
        exact ⟨Γ', his⟩
    · rintro ⟨Γ', his⟩
      exact ⟨Γ', .cons hi his⟩

def bindingSignature? (m : Module) : Binding → Option (List Ty × Ty)
  | .func g => (m.func? g).map fun fn => (fn.params, fn.ret)
  | _ => none

def Entry.signature? : Entry → Option (List Ty × Ty)
  | .func params ret => some (params.map Kind.ty, ret.ty)
  | _ => none

theorem entryIs_of_signature {b : Binding} {params : List Kind} {ret : Kind}
    (h : bindingSignature? m b = (Entry.func params ret).signature?)
    (hret : ret = .void ∨ ret = .number) (hparams : .void ∉ params) :
    EntryIs m b (.func params ret) := by
  cases b with
  | const _ | var _ _ => cases h
  | func g =>
    obtain ⟨fn, hg, heq⟩ := Option.map_eq_some_iff.mp h
    obtain ⟨hps, hr⟩ := Prod.mk.inj heq
    exact ⟨fn, hg, hps, hr, hret, hparams⟩

theorem library_funcs :
    ∀ q ∈ library, ∃ params ret, q.2 = .func params ret ∧ (ret = .void ∨ ret = .number) ∧
    .void ∉ params := by
  simp [library]

instance : DecidableEq Ty := fun a b =>
  decidable_of_iff (a.equal b = true) ⟨Ty.eq_of_equal a b, fun h => h ▸ Ty.equal_self a⟩

theorem openLibrary_signatures : (match openLibrary {} with
    | .ok (_, s) => s.scope.inner.isEmpty && decide
        (s.scope.outermost.map (fun p => (p.1, bindingSignature? s.module p.2)) =
        library.map fun q => (q.1, q.2.signature?))
    | .error _ => false) = true := by decide +kernel

theorem scoped_of_openLibrary (h : openLibrary {} = .ok ((), s)) :
    Scoped s.module s.scope [library] := by
  have hsig := openLibrary_signatures
  rw [h] at hsig
  simp only [Bool.and_eq_true, List.isEmpty_iff, decide_eq_true_eq] at hsig
  obtain ⟨hinner, hout⟩ := hsig
  unfold Scoped framesOf
  rw [hinner]
  refine .cons
    (List.forall₂_iff_get.mpr ⟨by simpa using congrArg List.length hout, fun i h₁ h₂ => ?_⟩) .nil
  have hget : (s.scope.outermost.map fun p => (p.1, bindingSignature? s.module p.2))[i]? =
      (library.map fun q => (q.1, q.2.signature?))[i]? := by rw [hout]
  rw [List.getElem?_map, List.getElem?_map, List.getElem?_eq_getElem h₁,
    List.getElem?_eq_getElem h₂] at hget
  obtain ⟨hname, hsig⟩ := Prod.mk.inj (Option.some.inj hget)
  obtain ⟨params, ret, hentry, hret, hparams⟩ := library_funcs _ (List.getElem_mem h₂)
  refine ⟨hname, ?_⟩
  rw [List.get_eq_getElem, List.get_eq_getElem, hentry]
  rw [hentry] at hsig
  exact entryIs_of_signature hsig hret hparams

/-- Lowering ends with an error, or between two items with the names that the rules give. -/
theorem lower_cases (p : Program) : (¬Valid p ∧ ∃ e, p.lower = .error e) ∨
    ∃ s Γ, p.lower = .ok s.module ∧ Ready s ∧ ItemsOk [library] p.items Γ ∧
    Scoped s.module s.scope Γ := by
  unfold Program.lower
  have hsig := openLibrary_signatures
  have hscoped := fun s => scoped_of_openLibrary (s := s)
  generalize hs : ({} : State) = s at hsig hscoped ⊢
  split at hsig
  swap
  · cases hsig
  rename_i s₁ hrun
  have hready := ((gives_openLibrary_of_empty hs.symm).ok hrun).1
  have h :=
    (decides_lowerItems p.items hready (hscoped s₁ hrun)).and (gives_lowerItems p.items hready)
  have heq : (do openLibrary; lowerItems p.items : Lower Unit) s = lowerItems p.items s₁ :=
    run_bind hrun
  unfold Decides at h
  rw [heq]
  split at h
  · rename_i s₂ hok
    obtain ⟨-, ⟨Γ, his, hΓ⟩, hready₂⟩ := h
    rw [hok]
    exact .inr ⟨s₂, Γ, rfl, hready₂, his, hΓ⟩
  · rename_i herror
    rw [herror]
    exact .inl ⟨h, _, rfl⟩
  · exact h.elim

/-- A program has code exactly if it follows the rules. -/
theorem lower_ok_iff (p : Program) : (∃ m, p.lower = .ok m) ↔ Valid p := by
  rcases lower_cases p with ⟨hno, e, he⟩ | ⟨s, Γ, hs, -, his, -⟩
  · rw [he]
    exact iff_of_false (by simp) hno
  · exact iff_of_true ⟨_, hs⟩ ⟨Γ, his⟩

end Sysy.Static
