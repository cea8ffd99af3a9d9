import Sysy.Proofs.Static.Kinds

/-!
Definitions and statements are lowered without a flaw exactly if they follow the rules, and the
names behind them are the same.
-/

namespace Sysy.Static
open Ir Lowering

variable {t : Target} {s s' : State} {P : Set Nat} {m m' : Module} {Γ Γ' : Env}

def Defined (Γ : Env) (isGlobal isConst : Bool) (d : VarDef) (s : State) : Prop :=
  ∃ entry Γ', DefOk Γ isGlobal isConst d entry ∧ Defines Γ d.name entry Γ' ∧
    Scoped s.module s.scope Γ'

theorem decides_defining {isGlobal isConst : Bool} {d : VarDef} {b : Binding} {entry : Entry}
    (hΓ : Scoped s.module s.scope Γ) (hb : EntryIs s.module b entry)
    (h : DefOk Γ isGlobal isConst d entry) :
    Decides (define d.name d.nameSpan b) s (∃ entry Γ', DefOk Γ isGlobal isConst d entry ∧
      Defines Γ d.name entry Γ') fun _ s' => Defined Γ isGlobal isConst d s' := by
  refine ((decides_define hΓ hb d.name d.nameSpan).iff ?_).mono ?_
  · constructor
    · rintro ⟨entry', Γ', h', hdef⟩
      obtain rfl := h.eq h'
      exact ⟨Γ', hdef⟩
    · rintro ⟨Γ', hdef⟩
      exact ⟨entry, Γ', h, hdef⟩
  · rintro _ s' ⟨-, Γ', hdef, hscope⟩
    exact ⟨entry, Γ', h, hdef, hscope⟩

theorem decides_defineConst {isGlobal : Bool} {d : VarDef} (hΓ : Scoped s.module s.scope Γ)
    (hdims : d.dims = []) :
    Decides (defineConst d) s (∃ entry Γ', DefOk Γ isGlobal true d entry ∧
      Defines Γ d.name entry Γ') fun _ s' => Defined Γ isGlobal true d s' := by
  have hinit {entry : Entry} (h : DefOk Γ isGlobal true d entry) : ∃ e w, d.init = some (.expr e) ∧
    Folds Γ e w := by
    cases h with
    | const _ _ hinit hw => exact ⟨_, _, hinit, hw⟩
    | number hconst => cases hconst
    | array hne => exact absurd hdims hne
  rw [defineConst]
  split
  · rename_i e he
    refine Decides.bind (decides_foldConst hΓ e) ?_ ?_
    · rintro ⟨entry, Γ', h, -⟩
      obtain ⟨e', w, he', hw⟩ := hinit h
      rw [he] at he'
      cases he'
      exact ⟨w, hw⟩
    · rintro w s₁ - ⟨hs₁, hw⟩
      subst s₁
      exact decides_defining hΓ (show EntryIs s.module (.const w) (.const w) from rfl)
        (.const rfl hdims he hw)
  · rename_i hne
    refine Decides.reject ?_
    rintro ⟨entry, Γ', h, -⟩
    obtain ⟨e, w, he, -⟩ := hinit h
    exact hne e he

theorem decides_lowerLocalScalar {d : VarDef} (h : At t false P s) (hΓ : Scoped s.module s.scope Γ)
    (hdims : d.dims = []) :
    Decides (lowerLocalScalar t d) s (∃ entry Γ', DefOk Γ false false d entry ∧
      Defines Γ d.name entry Γ') fun _ s' => Defined Γ false false d s' := by
  -- of the rules for definitions, only that for numbers applies without dimensions
  have hrule {entry : Entry} (h : DefOk Γ false false d entry) :
      ∀ i, d.init = some i → ∃ e, i = .expr e ∧ HasKind Γ e .number := by
    cases h with
    | const hconst => cases hconst
    | number _ _ hinit => exact hinit
    | array hne => exact absurd hdims hne
  have hdefine {s : State} {slot : Nat} (hΓ : Scoped s.module s.scope Γ)
      (hslot : s.module.Readable t.func slot (.ptr .i32))
      (hinit : ∀ i, d.init = some i → ∃ e, i = .expr e ∧ HasKind Γ e .number) :
      Decides (define d.name d.nameSpan (.var slot false)) s
        (∃ entry Γ', DefOk Γ false false d entry ∧ Defines Γ d.name entry Γ') fun _ s' =>
          Defined Γ false false d s' := by
    obtain ⟨v, hv, hty, -⟩ := hslot
    have hentry : EntryIs s.module (.var slot false) (.var [] false) := ⟨rfl, v, hv, hty⟩
    exact decides_defining hΓ hentry (.number rfl hdims hinit)
  unfold lowerLocalScalar
  dsimp only
  split
  · rename_i hnone
    rw [pure_bind]
    refine Decides.next (.build _) (yields_alloc h Ty.isObject_i32 _) fun slot s₁ hslot => ?_
    exact hdefine (hΓ.moves hslot.1) hslot.2.2 (by simp [hnone])
  · rename_i span elems heq
    refine Decides.reject_bind ?_
    rintro ⟨entry, Γ', hdef, -⟩
    obtain ⟨e, he, -⟩ := hrule hdef _ heq
    cases he
  · rename_i e heq
    rw [bind_map_left]
    refine Decides.bind ((decides_lowerScalar h hΓ e).and (yields_lowerScalar h e)) ?_ ?_
    · rintro ⟨entry, Γ', hdef, -⟩
      obtain ⟨e', he, hkind⟩ := hrule hdef _ heq
      cases he
      exact hkind
    rintro v s₁ hkind ⟨-, hm₁, h₁, hv⟩
    refine Decides.next (.build _) (yields_alloc h₁ Ty.isObject_i32 _) fun slot s₂ hslot => ?_
    obtain ⟨hm₂, h₂, hslot⟩ := hslot
    refine Decides.next (.build _) (yields_store h₂ (hm₂.readable hv) hslot) fun _ s₃ hstore => ?_
    have hm₃ := hstore.1
    refine hdefine (hΓ.moves (hm₁.trans (hm₂.trans hm₃))) (hm₃.readable hslot) fun i hi => ?_
    rw [heq] at hi
    cases hi
    exact ⟨e, rfl, hkind⟩

theorem decides_lowerCell (h : At t false P s) (hΓ : Scoped s.module s.scope Γ) (isConst : Bool)
    (c : Option Expr) :
    Decides (lowerCell t isConst c) s (∀ e, c = some e → IsInitial Γ isConst e)
      fun _ _ => True := by
  cases c with
  | none =>
    have hzero := Decides.of_steady (.build _) (yields_integer h 0)
    exact (hzero.iff (by simp)).mono fun _ _ _ => trivial
  | some e =>
    rw [lowerCell]
    simp only [Option.some.injEq, forall_eq', IsInitial]
    split
    · rename_i hconst
      refine Decides.bind (decides_foldConst hΓ e) id ?_
      rintro w s₁ hw ⟨hs₁, -⟩
      subst s₁
      exact ((Decides.of_steady (.build _) (yields_integer h w)).iff (by simp [hw])).mono
        fun _ _ _ => trivial
    · exact decides_lowerScalar h hΓ e

theorem decides_lowerCells (isConst : Bool) (cs : List (Option Expr)) :
    ∀ {s : State}, At t false P s →
    Scoped s.module s.scope Γ →
    Decides (cs.mapM (lowerCell t isConst)) s (∀ e, some e ∈ cs → IsInitial Γ isConst e)
      fun _ _ => True := by
  induction cs with
  | nil =>
    intro s _ _
    rw [List.mapM_nil]
    exact Decides.pure (by simp) trivial
  | cons c cs ih =>
    intro s h hΓ
    rw [List.mapM_cons]
    refine Decides.bind ((decides_lowerCell h hΓ isConst c).and (yields_lowerCell h isConst c))
      (fun hall e he => hall e (by simp [he])) ?_
    rintro id s₁ hc ⟨-, hm₁, h₁, -⟩
    refine Decides.bind (ih h₁ (hΓ.moves hm₁)) (fun hall e he => hall e (by simp [he])) ?_
    rintro ids s₂ hcs -
    refine Decides.pure (fun e he => ?_) trivial
    rcases List.mem_cons.mp he with heq | he
    · exact hc e heq.symm
    · exact hcs e he

theorem steady_elementAddr (t : Target) (is : List Nat) : ∀ ptr, Steady (elementAddr t ptr is) := by
  induction is with
  | nil => exact fun ptr => .pure ptr
  | cons i is ih => exact fun ptr => .bind (.build _) fun _ => .bind (.build _) fun _ => ih _

theorem steady_storeCells (t : Target) (slot : ValueId) (dims : List Nat) (vs : List ValueId) :
    ∀ k, Steady (storeCells t slot dims k vs) := by
  induction vs with
  | nil => exact fun _ => .pure _
  | cons v vs ih =>
    exact fun k => .bind (steady_elementAddr t _ _) fun _ => .bind (.build _) fun _ => ih _

theorem decides_flatten (dims : List Nat) (i : Init) :
    Decides (check (flatten dims i)) s (FitsShape dims i)
    fun cells s' => s' = s ∧ ∀ x, some x ∈ cells ↔ Leaf x i := by
  rcases flatten_cases dims i with ⟨⟨e, he⟩, hnot⟩ | ⟨cells, hok, hfits, hleaf⟩
  · rw [he]
    exact Decides.reject hnot
  · rw [hok]
    exact Decides.pure hfits ⟨rfl, hleaf⟩

theorem decides_lowerLocalArray {d : VarDef} {isConst : Bool} (h : At t false P s)
    (hΓ : Scoped s.module s.scope Γ) (hne : d.dims ≠ []) :
    Decides (lowerLocalArray t isConst d) s (∃ entry Γ', DefOk Γ false isConst d entry ∧
      Defines Γ d.name entry Γ') fun _ s' => Defined Γ false isConst d s' := by
  have hrule {entry : Entry} (hdef : DefOk Γ false isConst d entry) :
    ∃ dims, HasDims Γ d.dims dims ∧
      ∀ i, d.init = some i → FitsShape dims i ∧ ∀ e, Leaf e i → IsInitial Γ isConst e := by
    cases hdef with
    | const _ hnil | number _ hnil => exact absurd hnil hne
    | array _ hdims hinit => exact ⟨_, hdims, by simpa using hinit⟩
  unfold lowerLocalArray
  refine Decides.bind ((decides_dimsOf hΓ d.dims).and (Gives.dimsOf (Q :=
    fun ds _ => Shaped ds) fun ds hds =>
    shaped_of_foldDims hds)) ?_ ?_
  · rintro ⟨entry, Γ', hdef, -⟩
    obtain ⟨dims, hdims, -⟩ := hrule hdef
    exact ⟨dims, hdims⟩
  rintro ds s₁ - ⟨⟨hs₁, hdims⟩, hds⟩
  subst s₁
  have hsame {entry : Entry} (hdef : DefOk Γ false isConst d entry) :
      ∀ i, d.init = some i → FitsShape ds i ∧ ∀ e, Leaf e i → IsInitial Γ isConst e := by
    obtain ⟨dims, hdims', hinit⟩ := hrule hdef
    rwa [hdims.eq hdims']
  have hrest {s : State} (h : At t false P s) (hΓ : Scoped s.module s.scope Γ)
    (values : List ValueId)
      (hvalues : ∀ v ∈ values, s.module.Readable t.func v .i32)
      (hinit : ∀ i, d.init = some i → FitsShape ds i ∧ ∀ e, Leaf e i → IsInitial Γ isConst e) :
      Decides (do
        let slot ← build (Build.alloc t.func (Ty.ofDims ds) ("@" ++ d.name))
        storeCells t slot ds 0 values
        define d.name d.nameSpan (.var slot isConst)) s
        (∃ entry Γ', DefOk Γ false isConst d entry ∧ Defines Γ d.name entry Γ')
        fun _ s' => Defined Γ false isConst d s' := by
    have hobject : (Ty.ofDims ds).IsObject := ⟨ds, hds, .inl rfl⟩
    refine Decides.next (.build _) (yields_alloc h hobject _) fun slot s₁ ⟨hm₁, h₁, hslot⟩ => ?_
    refine Decides.next (steady_storeCells t slot ds values 0)
      (yields_storeCells hds values 0 h₁ hslot fun v hv => hm₁.readable (hvalues v hv))
        fun _ s₂ ⟨hm₂, _, _⟩ => ?_
    obtain ⟨v, hv, hty, -⟩ := hm₂.readable hslot
    have hentry : EntryIs s₂.module (.var slot isConst) (.var ds isConst) := ⟨rfl, v, hv, hty⟩
    exact decides_defining (hΓ.moves (hm₁.trans hm₂)) hentry
      (.array hne hdims (by simpa using hinit))
  dsimp only
  split
  · rename_i hnone
    rw [pure_bind]
    exact hrest h hΓ [] (by simp) (by simp [hnone])
  · rename_i i hi
    refine Decides.bind (decides_flatten ds i) ?_ ?_
    · rintro ⟨entry, Γ', hdef, -⟩
      exact (hsame hdef i hi).1
    rintro cells s₁ hfits ⟨hs₁, hleaf⟩
    subst s₁
    have hmem (e : Expr) : some e ∈ cells.toList ↔ Leaf e i := by rw [Array.mem_toList_iff, hleaf]
    refine Decides.bind ((decides_lowerCells isConst cells.toList h hΓ).and
      (yields_mapM (fun c _ h => yields_lowerCell h isConst c) cells.toList h)) ?_ ?_
    · rintro ⟨entry, Γ', hdef, -⟩ e he
      exact (hsame hdef i hi).2 e ((hmem e).mp he)
    rintro values s₁ hall ⟨-, hm₁, h₁, hvalues⟩
    refine hrest h₁ (hΓ.moves hm₁) values hvalues fun i' hi' => ?_
    obtain rfl := Option.some.inj (hi.symm.trans hi')
    exact ⟨hfits, fun e he => hall e ((hmem e).mpr he)⟩

theorem decides_lowerLocal (h : At t false P s) (hΓ : Scoped s.module s.scope Γ) (isConst : Bool)
    (d : VarDef) :
    Decides (lowerLocal t isConst d) s (∃ entry Γ', DefOk Γ false isConst d entry ∧
      Defines Γ d.name entry Γ') fun _ s' => Defined Γ false isConst d s' := by
  unfold lowerLocal
  split
  · rename_i hnil
    have hdims : d.dims = [] := by simpa using hnil
    cases isConst with
    | true => exact decides_defineConst hΓ hdims
    | false => exact decides_lowerLocalScalar h hΓ hdims
  · rename_i hne
    exact decides_lowerLocalArray h hΓ (by simpa using hne)

theorem decides_defs {I : State → Prop} {x : VarDef → Lower Unit} {isGlobal isConst : Bool}
    (hx : ∀ d s Γ, I s → Scoped s.module s.scope Γ →
      Decides (x d) s (∃ entry Γ', DefOk Γ isGlobal isConst d entry ∧ Defines Γ d.name entry Γ')
        fun _ s' => Defined Γ isGlobal isConst d s' ∧ I s')
    (ds : List VarDef) : ∀ {s : State} {Γ : Env}, I s →
    Scoped s.module s.scope Γ → Decides (ds.forM x) s (∃ Γ', DefsOk isGlobal isConst Γ ds Γ')
      fun _ s' => I s' ∧ ∃ Γ', DefsOk isGlobal isConst Γ ds Γ' ∧ Scoped s'.module s'.scope Γ' := by
  induction ds with
  | nil => exact fun {s Γ} h hΓ => Decides.pure ⟨Γ, .nil⟩ ⟨h, Γ, .nil, hΓ⟩
  | cons d ds ih =>
    intro s Γ h hΓ
    rw [List.forM]
    refine Decides.bind (hx d s Γ h hΓ) ?_ ?_
    · rintro ⟨Γ', hds⟩
      cases hds with
      | cons hd hdef _ => exact ⟨_, _, hd, hdef⟩
    rintro _ s₁ - ⟨⟨entry, Γ₁, hd, hdef, hΓ₁⟩, h₁⟩
    refine ((ih h₁ hΓ₁).iff ?_).mono ?_
    · constructor
      · rintro ⟨Γ', hds⟩
        cases hds with
        | cons hd' hdef' hrest =>
          obtain rfl := hd.eq hd'
          obtain rfl := hdef.eq hdef'
          exact ⟨Γ', hrest⟩
      · rintro ⟨Γ', hrest⟩
        exact ⟨Γ', .cons hd hdef hrest⟩
    · rintro _ s₂ ⟨h₂, Γ', hrest, hΓ₂⟩
      exact ⟨h₂, Γ', .cons hd hdef hrest, hΓ₂⟩

theorem decides_toPlace {v : Operand} {k : Kind} {entry : Entry} {span : Span} {name : String}
    {indices : List Expr} (hkind : HasKind Γ (.lval span name indices) k)
    (hv : OperandIs s.module v k) (hfind : Γ.find? name = some entry) (hlval : LvalIs entry v) :
    Decides (v.toPlace name span) s (IsPlace Γ span name indices) fun _ s' => s' = s := by
  have hplace : IsPlace Γ span name indices ↔ ∃ a, v = .place a false := by
    constructor
    · rintro ⟨hnumber, hentry⟩
      obtain rfl := hkind.eq hnumber
      have hconst : entry.isConst = false ∧ ∀ w, entry ≠ .const w := by
        rcases hentry with ⟨dims, h⟩ | ⟨elem, h⟩ <;> obtain rfl :=
          Option.some.inj (hfind.symm.trans h) <;>
          exact ⟨rfl, by simp⟩
      rcases hlval with ⟨w, id, rfl, -⟩ | ⟨dims, -, ⟨a, rfl⟩ | ⟨a, decayed, rfl⟩⟩
      · exact absurd rfl (hconst.2 w)
      · exact ⟨a, by rw [hconst.1]⟩
      · cases decayed <;> exact hv.elim
    · rintro ⟨a, rfl⟩
      have hnumber : k = .number := by cases k <;> first | rfl | exact hv.elim
      subst hnumber
      refine ⟨hkind, ?_⟩
      rcases hlval with ⟨w, id, -, heq⟩ | ⟨dims, hdims, ⟨a', heq⟩ | ⟨a', decayed, heq⟩⟩
      · cases heq
      · rw [Operand.place.injEq] at heq
        cases entry with
        | const _ | func _ _ => cases hdims
        | var ds c =>
          obtain rfl : c = false := heq.2.symm
          exact .inl ⟨ds, hfind⟩
        | param elem => exact .inr ⟨elem, hfind⟩
      · cases heq
  rw [propext hplace]
  unfold Operand.toPlace
  split
  · exact Decides.reject (by simp)
  · exact Decides.reject (by simp)
  · exact Decides.reject (by simp)
  · exact Decides.pure ⟨_, rfl⟩ rfl
  · rename_i hne
    refine Decides.reject ?_
    rintro ⟨a, rfl⟩
    exact hne a rfl

theorem Decides.moving {α β : Type} {x : Lower α} {k : α → Lower β} {Q : α → State → Prop}
    {V : Prop} {S : β → State → Prop} (hΓ : Scoped s.module s.scope Γ) (hx : Steady x)
    (hq : Gives x s fun a s' => Moves t s s' ∧ Q a s')
    (hk : ∀ a s', Moves t s s' → Scoped s'.module s'.scope Γ → Q a s' → Decides (k a) s' V S) :
    Decides (x >>= k) s V S :=
  Decides.next hx hq fun a s' ⟨hm, ha⟩ => hk a s' hm (hΓ.moves hm) ha

def Followed (t : Target) (loops : List Loop) (Γ : Env) (st : Stmt) (s : State) : Prop :=
  Decides (lowerStmt t loops st) s (∃ Γ', StmtOk t.result.isNone (!loops.isEmpty) Γ st Γ')
    fun _ s' => ∃ Γ', StmtOk t.result.isNone (!loops.isEmpty) Γ st Γ' ∧ Scoped s'.module s'.scope Γ'

def FollowedAnywhere (t : Target) (loops : List Loop) (st : Stmt) : Prop :=
  ∀ ⦃s : State⦄ ⦃P : Set Nat⦄ ⦃Γ : Env⦄, At t false P s → Scoped s.module s.scope Γ →
    LoopsOk s.module t.func loops →
    Followed t loops Γ st s

theorem decides_leave {bb : Nat} {V : Prop} (h : At t false P s) (hΓ : Scoped s.module s.scope Γ)
    (hbb : IsTarget s.module t.func bb) (hV : V) :
    Decides (do
      let _ ← build (Build.jump t.func bb)
      openFresh t) s V fun _ s' => Scoped s'.module s'.scope Γ := by
  have hfresh : Steady (openFresh t) := .bind (.build _) fun _ => steady_startBlock t _
  refine Decides.moving hΓ (.build _) (gives_jump h hbb) fun _ s₁ _ hΓ₁ h₁ => ?_
  refine ((Decides.of_steady hfresh (gives_openFresh h₁)).iff (iff_true_intro hV)).mono ?_
  rintro _ s₂ ⟨hm₂, -⟩
  exact hΓ₁.moves hm₂

/-! The pieces of a condition and a loop. -/

theorem decides_openCond (h : At t false P s) (hΓ : Scoped s.module s.scope Γ) (test : Expr)
    (hasElse : Bool) :
    Decides (openCond t test hasElse) s (HasKind Γ test .number) fun p s' =>
      Moves t s s' ∧ At t false (insert p.1 (insert p.2 P)) s' ∧ CondBlocks P hasElse p := by
  refine (decides_lowerScalar h hΓ test).before (fun c => ?_) (gives_openCond h test hasElse)
  have helse (after : BlockId) : Steady (elseBlock t hasElse after) := by
    cases hasElse with
    | false => exact .pure after
    | true => exact .build (Build.addBlock t.func "else")
  exact .bind (.build _) fun _ => .bind (.build _) fun _ => .bind (helse _) fun _ =>
    .bind (.build _) fun _ =>
    .bind (steady_startBlock t _) fun _ => .pure _

theorem decides_testLoop {bb after : Nat} (h : At t false (insert bb (insert after P)) s)
    (hΓ : Scoped s.module s.scope Γ) (hbb : bb ∉ insert after P) (hne : bb ≠ 2) (test : Expr) :
    Decides (testLoop t test bb after) s (HasKind Γ test .number) fun _ s' =>
      Moves t s s' ∧ At t false (insert after P) s' :=
  (decides_lowerScalar h hΓ test).before (fun _ => .bind (.build _) fun _ => steady_startBlock t _)
    (gives_testLoop h hbb hne test)

theorem decides_openLoop (h : At t false P s) (hΓ : Scoped s.module s.scope Γ) (test : Expr) :
    Decides (openLoop t test) s (HasKind Γ test .number) fun l s' => Moves t s s' ∧
      At t false (insert l.exit P) s' ∧ l.exit ∉ P ∧ l.exit ≠ 2 ∧
      IsTarget s'.module t.func l.test := by
  have hlabel : Steady (labelLoop t) := .bind (.build _) fun _ => .bind (.build _) fun _ =>
    .bind (.build _) fun _ => .pure _
  have hrun : Decides (openLoop t test) s (HasKind Γ test .number) fun _ _ => True := by
    refine Decides.moving hΓ hlabel (gives_labelLoop h) fun p s₁ _ hΓ₁ ⟨h₁, hl⟩ => ?_
    rw [enterLoop_eq, bind_assoc]
    refine Decides.moving hΓ₁ (steady_leaveFor t _ _)
      (gives_leaveFor h₁ (h₁.isTarget (by simp)) hl.test hl.test_ne)
      fun _ s₂ _ hΓ₂ h₂ => ?_
    exact Decides.bind (decides_testLoop h₂ hΓ₂ hl.body hl.body_ne test) id fun _ _ htest _ =>
      Decides.pure htest trivial
  exact (hrun.and (gives_openLoop h test)).mono fun _ _ h => h.2

theorem decides_leaveFor {target onward : Nat} {V : Prop} (h : At t false (insert onward P) s)
    (hΓ : Scoped s.module s.scope Γ) (htarget : IsTarget s.module t.func target)
    (honward : onward ∉ P) (hne : onward ≠ 2) (hV : V) :
    Decides (leaveFor t target onward) s V fun _ s' => Scoped s'.module s'.scope Γ := by
  refine ((Decides.of_steady (steady_leaveFor t target onward)
    (gives_leaveFor h htarget honward hne)).iff
    (iff_true_intro hV)).mono ?_
  exact fun _ s' ⟨hm, _⟩ => hΓ.moves hm

theorem decides_decl {loops : List Loop} (h : At t false P s) (hΓ : Scoped s.module s.scope Γ)
    (span : Span) (d : Decl) :
    Followed t loops Γ (.decl span d) s := by
  rw [Followed, lowerStmt]
  have hlocal (d' : VarDef) (s : State) (Γ : Env) (h : At t false P s)
    (hΓ : Scoped s.module s.scope Γ) :
      Decides (lowerLocal t d.isConst d') s
        (∃ entry Γ', DefOk Γ false d.isConst d' entry ∧ Defines Γ d'.name entry Γ')
        fun _ s' => Defined Γ false d.isConst d' s' ∧ At t false P s' := by
    refine ((decides_lowerLocal h hΓ d.isConst d').and (lasts_lowerLocal h d.isConst d')).mono ?_
    rintro _ s₁ ⟨hdef, -, h₁⟩
    exact ⟨hdef, h₁⟩
  refine ((decides_defs hlocal d.defs h hΓ).iff ?_).mono ?_
  · constructor
    · rintro ⟨Γ', hst⟩
      cases hst with
      | decl hds => exact ⟨Γ', hds⟩
    · rintro ⟨Γ', hds⟩
      exact ⟨Γ', .decl hds⟩
  · rintro _ s₁ ⟨-, Γ', hds, hΓ₁⟩
    exact ⟨Γ', .decl hds, hΓ₁⟩

theorem decides_assign {loops : List Loop} (h : At t false P s) (hΓ : Scoped s.module s.scope Γ)
    (span target : Span) (name : String) (indices : List Expr) (value : Expr) :
    Followed t loops Γ (.assign span target name indices value) s := by
  rw [Followed, lowerStmt]
  refine Decides.bind ((decides_lowerLval h hΓ target name indices).and
    (yields_lowerExpr h (.lval target name indices))) ?_ ?_
  · rintro ⟨Γ', hst⟩
    cases hst with
    | assign hplace _ => exact ⟨_, hplace.1⟩
  rintro v s₁ - ⟨⟨k, entry, hkind, hv, hfind, hlval⟩, hm₁, h₁, hok⟩
  refine Decides.bind ((decides_toPlace hkind hv hfind hlval).and
    (yields_toPlace h₁ hok name target)) ?_ ?_
  · rintro ⟨Γ', hst⟩
    cases hst with
    | assign hplace _ => exact hplace
  rintro place s₂ hplace ⟨-, hm₂, h₂, hread⟩
  have hΓ₂ := hΓ.moves (hm₁.trans hm₂)
  refine Decides.bind ((decides_lowerScalar h₂ hΓ₂ value).and (yields_lowerScalar h₂ value)) ?_ ?_
  · rintro ⟨Γ', hst⟩
    cases hst with
    | assign _ hvalue => exact hvalue
  rintro x s₃ hvalue ⟨-, hm₃, h₃, hx⟩
  refine Decides.moving (hΓ₂.moves hm₃) (.build _) (yields_store h₃ hx (hm₃.readable hread))
    fun _ s₄ _ hΓ₄ _ => ?_
  exact Decides.pure ⟨Γ, .assign hplace hvalue⟩ ⟨Γ, .assign hplace hvalue, hΓ₄⟩

theorem decides_retVal {loops : List Loop} (h : At t false P s) (hΓ : Scoped s.module s.scope Γ)
    (span : Span) (e : Expr) :
    Followed t loops Γ (.ret span (some e)) s := by
  rw [Followed, lowerStmt.eq_def]
  cases hresult : t.result with
  | none =>
    simp only
    refine Decides.reject_bind ?_
    rintro ⟨Γ', hst⟩
    cases hst with
    | retVal hvoid => cases hvoid
  | some slot =>
    simp only
    refine Decides.bind ((decides_lowerScalar h hΓ e).and (yields_lowerScalar h e)) ?_ ?_
    · rintro ⟨Γ', hst⟩
      cases hst with
      | retVal _ hk => exact hk
    rintro v s₁ hk ⟨-, hm₁, h₁, hv⟩
    refine Decides.moving (hΓ.moves hm₁) (.build _) (yields_store h₁ hv (h₁.result slot hresult)) ?_
    rintro _ s₂ _ hΓ₂ ⟨h₂, _⟩
    exact (decides_leave h₂ hΓ₂ h₂.exit_isTarget ⟨Γ, .retVal rfl hk⟩).mono fun _ _ hΓ₁ =>
      ⟨Γ, .retVal rfl hk, hΓ₁⟩

/-! The statements with parts, when the parts are followed. -/

theorem FollowedAnywhere.part {loops : List Loop} {st : Stmt} (hst : FollowedAnywhere t loops st)
    (h : At t false P s) (hΓ : Scoped s.module s.scope Γ) (hloops : LoopsOk s.module t.func loops) :
    Decides (lowerStmt t loops st) s (∃ Γ', StmtOk t.result.isNone (!loops.isEmpty) Γ st
      Γ') fun _ s' =>
      (∃ Γ', StmtOk t.result.isNone (!loops.isEmpty) Γ st Γ' ∧ Scoped s'.module s'.scope Γ') ∧
        Passes t s s' ∧ At t false P s' :=
  (hst h hΓ hloops).and (lasts_lowerStmt h hloops st)

theorem decides_cond_none {loops : List Loop} {yes : Stmt} (hyes : FollowedAnywhere t loops yes)
    (h : At t false P s) (hΓ : Scoped s.module s.scope Γ) (hloops : LoopsOk s.module t.func loops)
    (span : Span) (test : Expr) :
    Followed t loops Γ (.cond span test yes none) s := by
  rw [Followed, lowerStmt_cond_none]
  refine Decides.bind (decides_openCond h hΓ test false) ?_ ?_
  · rintro ⟨Γ', hst⟩
    cases hst with
    | cond htest => exact htest
  rintro p s₁ htest ⟨hm₁, h₁, hp⟩
  rw [hp.joined rfl, Set.insert_idem] at h₁
  refine Decides.bind (hyes.part h₁ (hΓ.moves hm₁) (hloops.extends hm₁.extends)) ?_ ?_
  · rintro ⟨Γ', hst⟩
    cases hst with
    | cond _ hyesOk _ => exact ⟨_, hyesOk⟩
  rintro _ s₂ - ⟨⟨Γ', hyesOk, hΓ₂⟩, -, h₂⟩
  have hrule : StmtOk t.result.isNone (!loops.isEmpty) Γ (.cond span test yes none) Γ' :=
    .cond htest hyesOk .none
  exact (decides_leaveFor h₂ hΓ₂ (h₂.isTarget (Set.mem_insert _ _)) hp.after hp.after_ne ⟨Γ',
    hrule⟩).mono
    fun _ s₃ hΓ₃ => ⟨Γ', hrule, hΓ₃⟩

theorem decides_cond_some {loops : List Loop} {yes no : Stmt} (hyes : FollowedAnywhere t loops yes)
    (hno : FollowedAnywhere t loops no) (h : At t false P s) (hΓ : Scoped s.module s.scope Γ)
    (hloops : LoopsOk s.module t.func loops) (span : Span) (test : Expr) :
    Followed t loops Γ (.cond span test yes (some no)) s := by
  rw [Followed, lowerStmt_cond_some]
  refine Decides.bind (decides_openCond h hΓ test true) ?_ ?_
  · rintro ⟨Γ', hst⟩
    cases hst with
    | cond htest => exact htest
  rintro p s₁ htest ⟨hm₁, h₁, hp⟩
  obtain ⟨hnoP, hno2⟩ := hp.second rfl
  have hloops₁ := hloops.extends hm₁.extends
  refine Decides.bind (hyes.part h₁ (hΓ.moves hm₁) hloops₁) ?_ ?_
  · rintro ⟨Γ', hst⟩
    cases hst with
    | cond _ hyesOk _ => exact ⟨_, hyesOk⟩
  rintro _ s₂ - ⟨⟨Γ₂, hyesOk, hΓ₂⟩, hp₂, h₂⟩
  refine Decides.moving hΓ₂ (steady_leaveFor t _ _)
    (gives_leaveFor h₂ (h₂.isTarget (by simp)) hnoP hno2)
    fun _ s₃ hm₃ hΓ₃ h₃ => ?_
  refine Decides.bind
    (hno.part h₃ hΓ₃ ((hloops₁.extends hp₂.grows.extends).extends hm₃.extends)) ?_ ?_
  · rintro ⟨Γ', hst⟩
    cases hst with
    | cond _ hyesOk' hnoOk =>
      -- the rules leave one environment only behind the first arm, so the second arm was
      -- checked in `Γ₂`
      obtain rfl := hyesOk.eq hyesOk'
      cases hnoOk with
      | some hnoOk => exact ⟨Γ', hnoOk⟩
  rintro _ s₄ - ⟨⟨Γ₄, hnoOk, hΓ₄⟩, -, h₄⟩
  have hrule : StmtOk t.result.isNone (!loops.isEmpty) Γ (.cond span test yes (some no)) Γ₄ :=
    .cond htest hyesOk (.some hnoOk)
  exact (decides_leaveFor h₄ hΓ₄ (h₄.isTarget (Set.mem_insert _ _)) hp.after hp.after_ne ⟨Γ₄,
    hrule⟩).mono
    fun _ s₅ hΓ₅ => ⟨Γ₄, hrule, hΓ₅⟩

theorem decides_loop {loops : List Loop} {body : Stmt}
    (hbody : ∀ l, FollowedAnywhere t (l :: loops) body) (h : At t false P s)
    (hΓ : Scoped s.module s.scope Γ) (hloops : LoopsOk s.module t.func loops) (span : Span)
    (test : Expr) : Followed t loops Γ (.loop span test body) s := by
  rw [Followed, lowerStmt_loop]
  refine Decides.bind (decides_openLoop h hΓ test) ?_ ?_
  · rintro ⟨Γ', hst⟩
    cases hst with
    | loop htest => exact htest
  rintro l s₁ htestOk ⟨hm₁, h₁, hexit, hexit2, htest⟩
  have hloops₁ := hloops.cons hm₁.extends h₁ (Set.mem_insert _ _) htest
  refine Decides.bind ((hbody l).part h₁ (hΓ.moves hm₁) hloops₁) ?_ ?_
  · rintro ⟨Γ', hst⟩
    cases hst with
    | loop _ hbodyOk => exact ⟨Γ', hbodyOk⟩
  rintro _ s₂ - ⟨⟨Γ', hbodyOk, hΓ₂⟩, hp₂, h₂⟩
  have hrule : StmtOk t.result.isNone (!loops.isEmpty) Γ (.loop span test body) Γ' :=
    .loop htestOk hbodyOk
  exact (decides_leaveFor h₂ hΓ₂ (htest.extends hp₂.grows.extends) hexit hexit2 ⟨Γ', hrule⟩).mono
    fun _ s₃ hΓ₃ => ⟨Γ', hrule, hΓ₃⟩

mutual

theorem decides_lowerStmt {s : State} {P : Set Nat} {Γ : Env} {loops : List Loop}
    (h : At t false P s) (hΓ : Scoped s.module s.scope Γ) (hloops : LoopsOk s.module t.func loops) :
    ∀ st : Stmt, Followed t loops Γ st s
  | .block _ ss => by
    rw [Followed, lowerStmt]
    have hopen : At t false P { s with scope := s.scope.enter .block } := h.enter
    refine Decides.next (.modify _) (Q :=
      fun _ s' => s' = { s with scope := s.scope.enter .block }) rfl ?_
    rintro _ s₀ rfl
    refine Decides.bind ((decides_lowerStmts hopen (hΓ.enter .block) hloops ss).and
      (lasts_lowerStmts hopen hloops ss)) ?_ ?_
    · rintro ⟨Γ', hst⟩
      cases hst with
      | block hss => exact ⟨_, hss⟩
    rintro _ s₁ - ⟨⟨Γ₁, hss, -⟩, hp₁, h₁⟩
    have hΓ' : Scoped s₁.module s₁.scope.exit Γ := by
      -- what the block declared goes out of scope with it
      rw [hp₁.exit_eq]
      exact hΓ.extends hp₁.grows.extends
    exact ⟨⟨Γ, .block hss⟩, Γ, .block hss, hΓ'⟩
  | .decl span d => decides_decl h hΓ span d
  | .assign span target name indices value => decides_assign h hΓ span target name indices value
  | .expr _ none => by
    rw [Followed, lowerStmt]
    exact Decides.pure ⟨Γ, .skip⟩ ⟨Γ, .skip, hΓ⟩
  | .expr _ (some e) => by
    rw [Followed, lowerStmt]
    refine Decides.bind ((decides_lowerExpr h hΓ e).and (yields_lowerExpr h e)) ?_ ?_
    · rintro ⟨Γ', hst⟩
      cases hst with
      | expr hk => exact ⟨_, hk⟩
    rintro v s₁ - ⟨⟨k, hk, -⟩, hm₁, -⟩
    exact Decides.pure ⟨Γ, .expr hk⟩ ⟨Γ, .expr hk, hΓ.moves hm₁⟩
  | .cond span test yes none =>
    decides_cond_none (fun _ _ _ h hΓ hloops => decides_lowerStmt h hΓ hloops yes) h hΓ
      hloops span test
  | .cond span test yes (some no) =>
    decides_cond_some (fun _ _ _ h hΓ hloops => decides_lowerStmt h hΓ hloops yes)
      (fun _ _ _ h hΓ hloops => decides_lowerStmt h hΓ hloops no) h hΓ hloops span test
  | .loop span test body =>
    decides_loop (fun _ _ _ _ h hΓ hloops => decides_lowerStmt h hΓ hloops body) h hΓ
      hloops span test
  | .leave span => by
    cases loops with
    | nil =>
      rw [Followed, lowerStmt]
      refine Decides.reject ?_
      rintro ⟨Γ', hst⟩
      cases hst with
      | leave hloop => cases hloop
    | cons l loops =>
      rw [Followed, lowerStmt]
      have hrule : StmtOk t.result.isNone true Γ (.leave span) Γ := .leave rfl
      refine (decides_leave h hΓ (hloops l (List.mem_cons_self ..)).2 ⟨Γ, hrule⟩).mono ?_
      exact fun _ _ hΓ₁ => ⟨Γ, hrule, hΓ₁⟩
  | .next span => by
    cases loops with
    | nil =>
      rw [Followed, lowerStmt]
      refine Decides.reject ?_
      rintro ⟨Γ', hst⟩
      cases hst with
      | next hloop => cases hloop
    | cons l loops =>
      rw [Followed, lowerStmt]
      have hrule : StmtOk t.result.isNone true Γ (.next span) Γ := .next rfl
      refine (decides_leave h hΓ (hloops l (List.mem_cons_self ..)).1 ⟨Γ, hrule⟩).mono ?_
      exact fun _ _ hΓ₁ => ⟨Γ, hrule, hΓ₁⟩
  | .ret span none => by
    rw [Followed, lowerStmt]
    · exact (decides_leave h hΓ h.exit_isTarget ⟨Γ, .ret⟩).mono fun _ _ hΓ₁ => ⟨Γ, .ret, hΓ₁⟩
    · simp
  | .ret span (some e) => decides_retVal h hΓ span e

theorem decides_lowerStmts {s : State} {P : Set Nat} {Γ : Env} {loops : List Loop}
    (h : At t false P s) (hΓ : Scoped s.module s.scope Γ) (hloops : LoopsOk s.module t.func loops) :
    ∀ ss : List Stmt,
    Decides (lowerStmts t loops ss) s (∃ Γ', StmtsOk t.result.isNone (!loops.isEmpty) Γ ss Γ')
      fun _ s' =>
        ∃ Γ', StmtsOk t.result.isNone (!loops.isEmpty) Γ ss Γ' ∧ Scoped s'.module s'.scope Γ'
  | [] => by
    rw [lowerStmts]
    exact Decides.pure ⟨Γ, .nil⟩ ⟨Γ, .nil, hΓ⟩
  | st :: ss => by
    rw [lowerStmts]
    refine Decides.bind ((decides_lowerStmt h hΓ hloops st).and (lasts_lowerStmt h hloops st)) ?_ ?_
    · rintro ⟨Γ', hss⟩
      cases hss with
      | cons hst _ => exact ⟨_, hst⟩
    rintro _ s₁ - ⟨⟨Γ₁, hst, hΓ₁⟩, hp₁, h₁⟩
    refine ((decides_lowerStmts h₁ hΓ₁ (hloops.extends hp₁.grows.extends) ss).iff ?_).mono ?_
    · constructor
      · rintro ⟨Γ', hss⟩
        cases hss with
        | cons hst' hss =>
          obtain rfl := hst.eq hst'
          exact ⟨Γ', hss⟩
      · rintro ⟨Γ', hss⟩
        exact ⟨Γ', .cons hst hss⟩
    · rintro _ s₂ ⟨Γ', hss, hΓ₂⟩
      exact ⟨Γ', .cons hst hss, hΓ₂⟩

end

end Sysy.Static
