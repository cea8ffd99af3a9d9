import Sysy.Proofs.Lowering.Expr

/-!
Lowering a statement never meets a fault. It adds code by the steps of `Growth` only, lays out every
block that it makes, and changes the names of no frame but the innermost.
-/

namespace Sysy.Lowering
open Ir

variable {α β : Type} {t : Target} {s s' s'' : State} {P : Set Nat} {m m' : Module} {f : Nat}

structure Passes (t : Target) (s s' : State) : Prop where
  grows : Grows t.func s.module s'.module
  outermost : s'.scope.outermost = s.scope.outermost
  tail : s'.scope.inner.tail = s.scope.inner.tail

theorem Passes.trans (h : Passes t s s') (h' : Passes t s' s'') : Passes t s s'' :=
  ⟨h.grows.trans h'.grows, h'.outermost.trans h.outermost, h'.tail.trans h.tail⟩

theorem Moves.passes (h : Moves t s s') : Passes t s s' :=
  ⟨h.grows, by rw [h.scope], by rw [h.scope]⟩

instance : Trans (Passes t) (Passes t) (Passes t) := ⟨Passes.trans⟩

instance : Trans (Moves t) (Passes t) (Passes t) := ⟨fun h h' => h.passes.trans h'⟩

/-- A frame that is opened before such steps and closed behind them leaves the names as they
were. -/
theorem Passes.exit_eq {scope : Scope Binding} {kind : ScopeKind}
    (h : Passes t { s with scope := scope.enter kind } s') : s'.scope.exit = scope := by
  have h₁ := h.outermost
  have h₂ := h.tail
  simp only [Scope.enter, List.tail_cons] at h₁ h₂
  rw [Scope.exit, h₂, h₁]

theorem At.enter {e : Bool} {kind : ScopeKind} (h : At t e P s) :
    At t e P { s with scope := s.scope.enter kind } :=
  { h with
    scope := ⟨h.scope.outer, fun fr hfr p hp => by
      rcases List.mem_cons.mp hfr with rfl | hfr
      · cases hp
      · exact h.scope.inner fr hfr p hp⟩
    inside := by simp [Scope.enter] }

def Lasts (t : Target) (P : Set Nat) (s : State) (x : Lower Unit) : Prop :=
  Gives x s fun _ s' => Passes t s s' ∧ At t false P s'

namespace Lasts

theorem of_moves {x : Lower Unit} (hx : Gives x s fun _ s' => Moves t s s' ∧ At t false P s') :
    Lasts t P s x :=
  hx.mono fun _ _ ⟨hm, h⟩ => ⟨hm.passes, h⟩

theorem skip (h : At t false P s) : Lasts t P s (pure ()) := Gives.pure ⟨(Moves.refl t s).passes, h⟩

theorem reject {e : LoweringError} : Lasts t P s (reject e) := Gives.reject

theorem bind {x : Lower Unit} {k : Unit → Lower Unit} (hx : Lasts t P s x)
    (hk : ∀ s', Passes t s s' → At t false P s' → Lasts t P s' (k ())) : Lasts t P s (x >>= k) :=
  Gives.along hx fun _ s' hp ha => hk s' hp ha

end Lasts

theorem ScopeOk.define {scope scope' : Scope Binding} {name : String} {b : Binding}
    (h : ScopeOk m f scope) (hin : scope.inner ≠ []) (hb : BindingOk m f b)
    (hdef : scope.define name b = .ok scope') :
    ScopeOk m f scope' ∧ scope'.outermost = scope.outermost ∧ scope'.inner.tail = scope.inner.tail ∧
      scope'.inner ≠ [] := by
  rw [Scope.define] at hdef
  split at hdef
  · rename_i hnil
    exact absurd hnil hin
  · rename_i kind names rest hcons
    split at hdef
    · cases hdef
    · obtain rfl := Except.ok.inj hdef
      refine ⟨⟨h.outer, ?_⟩, rfl, by rw [hcons]; rfl, by simp⟩
      have hinner := h.inner
      rw [hcons] at hinner
      intro fr hfr p hp
      rcases List.mem_cons.mp hfr with rfl | hfr
      · rcases List.mem_cons.mp hp with rfl | hp
        · exact hb
        · exact hinner _ (List.mem_cons_self ..) p hp
      · exact hinner fr (List.mem_cons_of_mem _ hfr) p hp

theorem lasts_define {b : Binding} (h : At t false P s) (hb : BindingOk s.module t.func b)
    (name : String) (span : Span) : Lasts t P s (define name span b) := by
  refine Gives.define fun scope hdef => ?_
  obtain ⟨hscope, hout, htail, hin⟩ := h.scope.define h.inside hb hdef
  exact ⟨⟨.refl, hout, htail⟩, h.body, h.result, h.exit, hscope, hin⟩

theorem lasts_defineConst (h : At t false P s) (d : VarDef) : Lasts t P s (defineConst d) := by
  rw [defineConst]
  split
  · refine Gives.bind (Gives.foldConst (Q := fun _ s' => s' = s) fun w _ => rfl) ?_
    rintro w _ rfl
    exact lasts_define (b := .const w) h trivial _ _
  · exact .reject

theorem yields_lowerScalar (h : At t false P s) (e : Expr) :
    Yields t P s (lowerScalar t e) fun id m => m.Readable t.func id .i32 :=
      (yields_lowerExpr h e).scalar

theorem lasts_lowerLocalScalar (h : At t false P s) (d : VarDef) :
    Lasts t P s (lowerLocalScalar t d) := by
  have hdefine {s : State} {slot : Nat} (h : At t false P s)
    (hslot : s.module.Readable t.func slot (.ptr .i32)) :
      Lasts t P s (define d.name d.nameSpan (.var slot false)) :=
    lasts_define (b := .var slot false) h ⟨.i32, hslot, Ty.isObject_i32⟩ _ _
  unfold lowerLocalScalar
  dsimp only
  split
  · rw [pure_bind]
    exact Gives.along (yields_alloc h Ty.isObject_i32 _) fun slot s₁ _ hslot =>
      hdefine hslot.1 hslot.2
  · exact Gives.bind (Q := fun _ _ => False) Gives.reject fun _ _ hfalse => hfalse.elim
  · rename_i e _
    rw [bind_map_left]
    refine Gives.along (yields_lowerScalar h e) fun v s₁ _ hv => ?_
    refine Gives.along (yields_alloc hv.1 Ty.isObject_i32 _) fun slot s₂ hm₂ hslot => ?_
    refine Gives.along (yields_store hslot.1 (hm₂.readable hv.2) hslot.2) fun _ s₃ hm₃ hstore => ?_
    exact hdefine hstore.1 (hm₃.readable hslot.2)

theorem yields_lowerCell (h : At t false P s) (isConst : Bool) (c : Option Expr) :
    Yields t P s (lowerCell t isConst c) fun id m => m.Readable t.func id .i32 := by
  cases c with
  | none => exact yields_integer h 0
  | some e =>
    rw [lowerCell]
    split
    · refine Gives.bind (Gives.foldConst (Q := fun _ s' => s' = s) fun w _ => rfl) ?_
      rintro w _ rfl
      exact yields_integer h w
    · exact yields_lowerScalar h e

theorem yields_mapM {γ : Type} {x : γ → Lower ValueId} {ty : Ty}
    (hx : ∀ c s, At t false P s → Yields t P s (x c) fun id m => m.Readable t.func id ty)
    (cs : List γ) :
    ∀ {s}, At t false P s → Yields t P s (cs.mapM x) fun ids m =>
      ∀ id ∈ ids, m.Readable t.func id ty := by
  induction cs with
  | nil =>
    intro s h
    rw [List.mapM_nil]
    exact .pure h (by simp)
  | cons c cs ih =>
    intro s h
    rw [List.mapM_cons]
    refine .bind (hx c s h) fun id s₁ _ h₁ hid => ?_
    refine .bind (ih h₁) fun ids s₂ hm₂ h₂ hids => ?_
    refine .pure h₂ fun id' hid' => ?_
    rcases List.mem_cons.mp hid' with rfl | hid'
    · exact hm₂.readable hid
    · exact hids id' hid'

theorem length_indicesOf (ds : List Nat) (k : Nat) : (indicesOf ds k).length = ds.length := by
  induction ds generalizing k with
  | nil => rfl
  | cons d ds ih => simp [indicesOf, ih]

theorem yields_elementAddr (is ds : List Nat) (hlen : is.length = ds.length) (hds : Shaped ds) :
    ∀ {s : State} {ptr : Nat}, At t false P s → s.module.Readable t.func ptr (.ptr (.ofDims ds)) →
      Yields t P s (elementAddr t ptr is) fun id m => m.Readable t.func id (.ptr .i32) := by
  induction is generalizing ds with
  | nil =>
    intro s ptr h hptr
    obtain rfl : ds = [] := List.length_eq_zero_iff.mp hlen.symm
    exact .pure h hptr
  | cons i is ih =>
    intro s ptr h hptr
    obtain ⟨d, ds, rfl⟩ : ∃ d ds', ds = d :: ds' := List.exists_cons_of_length_eq_add_one hlen.symm
    rw [elementAddr]
    refine .bind (yields_integer h _) fun index s₁ hm₁ h₁ hindex => ?_
    refine .bind (yields_getElemPtr h₁ hds (hm₁.readable hptr) hindex) fun next s₂ _ h₂ hnext => ?_
    exact ih ds (by simpa using hlen) hds.tail h₂ hnext

theorem yields_storeCells {ds : List Nat} (hds : Shaped ds) (vs : List ValueId) :
    ∀ {s : State} {slot : Nat} (k : Nat), At t false P s →
      s.module.Readable t.func slot (.ptr (.ofDims ds)) →
      (∀ v ∈ vs, s.module.Readable t.func v .i32) →
      Yields t P s (storeCells t slot ds k vs) fun _ _ => True := by
  induction vs with
  | nil =>
    intro s slot k h _ _
    exact .pure h trivial
  | cons v vs ih =>
    intro s slot k h hslot hvs
    rw [storeCells]
    refine .bind (yields_elementAddr _ ds (length_indicesOf ds k) hds h hslot)
      fun addr s₁ hm₁ h₁ haddr => ?_
    refine .bind (yields_store h₁ (hm₁.readable (hvs v (by simp))) haddr) fun _ s₂ hm₂ h₂ _ => ?_
    exact ih (k + 1) h₂ ((hm₁.trans hm₂).readable hslot)
      fun w hw => (hm₁.trans hm₂).readable (hvs w (by simp [hw]))

theorem lasts_lowerLocalArray (h : At t false P s) (isConst : Bool) (d : VarDef) :
    Lasts t P s (lowerLocalArray t isConst d) := by
  unfold lowerLocalArray
  refine Gives.bind (Gives.dimsOf (Q := fun ds s' => Shaped ds ∧ s' = s) fun ds hds =>
    ⟨shaped_of_foldDims hds, rfl⟩) ?_
  rintro ds _ ⟨hds, rfl⟩
  have hrest {s : State} (h : At t false P s) (values : List ValueId)
      (hvalues : ∀ v ∈ values, s.module.Readable t.func v .i32) :
      Lasts t P s (do
        let slot ← build (Build.alloc t.func (Ty.ofDims ds) ("@" ++ d.name))
        storeCells t slot ds 0 values
        define d.name d.nameSpan (.var slot isConst)) := by
    have hobject : (Ty.ofDims ds).IsObject := ⟨ds, hds, .inl rfl⟩
    refine Gives.along (yields_alloc h hobject _) fun slot s₁ hm₁ ⟨h₁, hslot⟩ => ?_
    refine Gives.along (yields_storeCells hds values 0 h₁ hslot fun v hv => hm₁.readable
      (hvalues v hv))
      fun _ s₂ hm₂ ⟨h₂, _⟩ => ?_
    exact lasts_define (b := .var slot isConst) h₂ ⟨_, hm₂.readable hslot, hobject⟩ _ _
  dsimp only
  split
  · rw [pure_bind]
    exact hrest h [] (by simp)
  · refine Gives.bind (Gives.check (Q := fun _ s' => s' = _) fun cells _ => rfl) ?_
    rintro cells _ rfl
    exact Gives.along (yields_mapM (fun c _ h => yields_lowerCell h isConst c) cells.toList h)
      fun values s₁ _ ⟨h₁, hvalues⟩ => hrest h₁ values hvalues

/-- A local number with a first value: the value is worked out, a slot is made for the number, and
the value is stored in it. -/
structure NumberSteps (t : Target) (P : Set Nat) (d : VarDef) (e : Expr) (v slot : ValueId)
    (s s₁ s₂ s₃ s' : State) : Prop where
  init : d.init = some (.expr e)
  value : lowerScalar t e s = .ok (v, s₁)
  alloc : build (Build.alloc t.func .i32 ("@" ++ d.name)) s₁ = .ok (slot, s₂)
  store : ∃ id, build (Build.store t.func v slot) s₂ = .ok (id, s₃)
  define : define d.name d.nameSpan (.var slot false) s₃ = .ok ((), s')
  at_value : At t false P s₁
  at_slot : At t false P s₂
  moves_value : Moves t s s₁
  moves_slot : Moves t s₁ s₂
  moves_store : Moves t s₂ s₃
  reads_value : s₁.module.Readable t.func v .i32
  reads_slot : s₂.module.Readable t.func slot (.ptr .i32)

theorem localScalar_cases {d : VarDef} (h : At t false P s)
    (hrun : lowerLocalScalar t d s = .ok ((), s')) :
    (d.init = none ∧ ∃ slot s₁,
      build (Build.alloc t.func .i32 ("@" ++ d.name)) s = .ok (slot, s₁) ∧
      define d.name d.nameSpan (.var slot false) s₁ = .ok ((), s')) ∨
    ∃ e v slot s₁ s₂ s₃, NumberSteps t P d e v slot s s₁ s₂ s₃ s' := by
  unfold lowerLocalScalar at hrun
  cases hinit : d.init with
  | none =>
    simp only [hinit, pure_bind] at hrun
    obtain ⟨slot, s₁, halloc, hdefine⟩ := bind_ok.mp hrun
    exact .inl ⟨rfl, slot, s₁, halloc, hdefine⟩
  | some i =>
    cases i with
    | list span elems =>
      simp only [hinit] at hrun
      obtain ⟨_, _, hreject, -⟩ := bind_ok.mp hrun
      exact (reject_ok.mp hreject).elim
    | expr e =>
      simp only [hinit, bind_map_left] at hrun
      obtain ⟨v, s₁, hv, hrun⟩ := bind_ok.mp hrun
      obtain ⟨slot, s₂, halloc, hrun⟩ := bind_ok.mp hrun
      obtain ⟨id, s₃, hstore, hdefine⟩ := bind_ok.mp hrun
      obtain ⟨hm₁, h₁, hvR⟩ := (yields_lowerScalar h e).ok hv
      obtain ⟨hm₂, h₂, hslot⟩ := (yields_alloc h₁ Ty.isObject_i32 _).ok halloc
      obtain ⟨hm₃, -, -⟩ := (yields_store h₂ (hm₂.readable hvR) hslot).ok hstore
      exact .inr ⟨e, v, slot, s₁, s₂, s₃, hinit, hv, halloc, ⟨id, hstore⟩, hdefine, h₁, h₂, hm₁,
        hm₂, hm₃, hvR, hslot⟩

/-- A local array: the values of its cells are worked out, a slot is made for it, and the values are
stored in the slot. -/
structure ArraySteps (t : Target) (P : Set Nat) (isConst : Bool) (d : VarDef) (dims : List Nat)
    (values : List ValueId) (slot : ValueId) (s s₁ s₂ s₃ s' : State) : Prop where
  fold : foldDims s.scope 1 d.dims = .ok dims
  cells : d.init = none ∧ values = [] ∧ s₁ = s ∨ ∃ i cells, d.init = some i ∧
    flatten dims i = .ok cells ∧ cells.toList.mapM (lowerCell t isConst) s = .ok (values, s₁)
  alloc : build (Build.alloc t.func (Ty.ofDims dims) ("@" ++ d.name)) s₁ = .ok (slot, s₂)
  stores : storeCells t slot dims 0 values s₂ = .ok ((), s₃)
  define : define d.name d.nameSpan (.var slot isConst) s₃ = .ok ((), s')
  at_cells : At t false P s₁
  at_slot : At t false P s₂
  moves_cells : Moves t s s₁
  moves_slot : Moves t s₁ s₂
  moves_stores : Moves t s₂ s₃
  reads_slot : s₂.module.Readable t.func slot (.ptr (.ofDims dims))
  reads_values : ∀ v ∈ values, s₂.module.Readable t.func v .i32

theorem exists_arraySteps {isConst : Bool} {d : VarDef} (h : At t false P s)
    (hrun : lowerLocalArray t isConst d s = .ok ((), s')) :
    ∃ dims values slot s₁ s₂ s₃, ArraySteps t P isConst d dims values slot s s₁ s₂ s₃ s' := by
  unfold lowerLocalArray at hrun
  obtain ⟨dims, s₀, hdims, hrun⟩ := bind_ok.mp hrun
  obtain ⟨hfold, rfl⟩ := dimsOf_ok.mp hdims
  have hshaped := shaped_of_foldDims hfold
  -- the steps behind the values of the cells
  have hrest {values : List ValueId} {s₁ : State}
      (hcells : d.init = none ∧ values = [] ∧ s₁ = s ∨ ∃ i cells, d.init = some i ∧
        flatten dims i = .ok cells ∧ cells.toList.mapM (lowerCell t isConst) s = .ok (values, s₁))
      (hm₁ : Moves t s s₁) (h₁ : At t false P s₁)
      (hread : ∀ v ∈ values, s₁.module.Readable t.func v .i32) (hrun : (do
        let slot ← build (Build.alloc t.func (Ty.ofDims dims) ("@" ++ d.name))
        storeCells t slot dims 0 values
        define d.name d.nameSpan (.var slot isConst) : Lower Unit) s₁ = .ok ((), s')) :
      ∃ dims values slot s₁ s₂ s₃, ArraySteps t P isConst d dims values slot s s₁ s₂ s₃ s' := by
    obtain ⟨slot, s₂, halloc, hrun⟩ := bind_ok.mp hrun
    obtain ⟨⟨⟩, s₃, hstores, hdefine⟩ := bind_ok.mp hrun
    obtain ⟨hm₂, h₂, hslot⟩ := (yields_alloc h₁ ⟨dims, hshaped, .inl rfl⟩ _).ok halloc
    have hread₂ : ∀ v ∈ values, s₂.module.Readable t.func v .i32 :=
      fun v hv => hm₂.readable (hread v hv)
    obtain ⟨hm₃, -, -⟩ := (yields_storeCells hshaped values 0 h₂ hslot hread₂).ok hstores
    exact ⟨dims, values, slot, s₁, s₂, s₃, hfold, hcells, halloc, hstores, hdefine, h₁, h₂, hm₁,
      hm₂, hm₃, hslot, hread₂⟩
  cases hinit : d.init with
  | none =>
    simp only [hinit, pure_bind] at hrun
    exact hrest (.inl ⟨hinit, rfl, rfl⟩) (.refl t s) h (by simp) hrun
  | some i =>
    simp only [hinit] at hrun
    obtain ⟨cells, s₁, hcheck, hrun⟩ := bind_ok.mp hrun
    obtain ⟨hflat, rfl⟩ := check_ok.mp hcheck
    obtain ⟨values, s₁, hvalues, hrun⟩ := bind_ok.mp hrun
    obtain ⟨hm₁, h₁, hread⟩ :=
      (yields_mapM (fun c _ h => yields_lowerCell h isConst c) cells.toList h).ok hvalues
    exact hrest (.inr ⟨i, cells, hinit, hflat, hvalues⟩) hm₁ h₁ hread hrun

theorem lasts_lowerLocal (h : At t false P s) (isConst : Bool) (d : VarDef) :
    Lasts t P s (lowerLocal t isConst d) := by
  unfold lowerLocal
  split
  · split
    · exact lasts_defineConst h d
    · exact lasts_lowerLocalScalar h d
  · exact lasts_lowerLocalArray h isConst d

theorem lasts_lowerLocals (isConst : Bool) (ds : List VarDef) :
    ∀ {s : State}, At t false P s → Lasts t P s (ds.forM (lowerLocal t isConst)) := by
  induction ds with
  | nil => exact fun h => .skip h
  | cons d ds ih =>
    intro s h
    exact Lasts.bind (k := fun _ => ds.forM (lowerLocal t isConst)) (lasts_lowerLocal h isConst d)
      fun s₁ _ h₁ => ih h₁

theorem yields_toPlace {v : Operand} (h : At t false P s) (hv : OperandOk s.module t.func v)
    (name : String) (span : Span) :
    Yields t P s (v.toPlace name span) fun id m => m.Readable t.func id (.ptr .i32) := by
  unfold Operand.toPlace
  split
  · exact .reject
  · exact .reject
  · exact .reject
  · exact .pure h hv
  · exact .reject

theorem gives_openFresh (h : At t true P s) :
    Gives (openFresh t) s fun _ s' => Moves t s s' ∧ At t false P s' := by
  refine Gives.along (gives_newBlock h (by decide)) fun bb s₁ _ ⟨h₁, hbb, hbb2⟩ => ?_
  exact gives_openBlock h₁ hbb hbb2

theorem lasts_leave {bb : Nat} (h : At t false P s) (hbb : IsTarget s.module t.func bb) :
    Lasts t P s (do
      let _ ← build (Build.jump t.func bb)
      openFresh t) := by
  exact Gives.along (gives_jump h hbb) fun _ s₁ _ h₁ => Lasts.of_moves (gives_openFresh h₁)

def LoopsOk (m : Module) (f : FuncId) (loops : List Loop) : Prop :=
  ∀ l ∈ loops, IsTarget m f l.test ∧ IsTarget m f l.exit

theorem LoopsOk.extends {loops : List Loop} (h : LoopsOk m f loops) (he : Extends m m') :
    LoopsOk m' f loops := fun l hl => ⟨(h l hl).1.extends he, (h l hl).2.extends he⟩

theorem At.exit_isTarget (h : At t false P s) : IsTarget s.module t.func t.exit := by
  obtain ⟨fn, hbody, -, -⟩ := h.body
  have h₁ := hbody.entry
  have h₂ := hbody.blocks
  have h₃ := h.exit
  exact ⟨fn, hbody.found, by lia, by lia⟩

theorem LoopsOk.cons {l : Loop} {loops : List Loop} (h : LoopsOk s.module t.func loops)
    (he : Extends s.module s'.module) (hs' : At t false P s') (hexit : l.exit ∈ P)
    (htest : IsTarget s'.module t.func l.test) : LoopsOk s'.module t.func (l :: loops) := by
  intro l' hl'
  rcases List.mem_cons.mp hl' with rfl | hl'
  · exact ⟨htest, hs'.isTarget hexit⟩
  · exact (h.extends he) l' hl'

theorem gives_openCond (h : At t false P s) (test : Expr) (hasElse : Bool) :
    Gives (openCond t test hasElse) s
    fun p s' =>
      Moves t s s' ∧ At t false (insert p.1 (insert p.2 P)) s' ∧ CondBlocks P hasElse p := by
  refine Gives.along (yields_lowerScalar h test) ?_
  rintro c s₁ hm₁ ⟨h₁, hc⟩
  refine Gives.along (gives_newBlock h₁ (by decide)) ?_
  rintro yesBlock s₂ hm₂ ⟨h₂, hyes, hyes2⟩
  refine Gives.along (gives_newBlock h₂ (by decide)) ?_
  rintro after s₃ hm₃ ⟨h₃, hafter, hafter2⟩
  refine Gives.along (gives_elseBlock h₃) ?_
  rintro noBlock s₄ hm₄ ⟨h₄, hsecond, hjoined⟩
  have hc₄ := (hm₂.trans (hm₃.trans hm₄)).readable hc
  refine Gives.along (gives_branch h₄ hc₄ (h₄.isTarget (by simp)) (h₄.isTarget (by simp)))
    fun _ s₅ _ h₅ => ?_
  obtain ⟨hyesAfter, hafterP⟩ := notMem_insert_swap hyes hafter
  have hblocks : CondBlocks P hasElse (noBlock, after) :=
    ⟨hafterP, hafter2, fun hb =>
      ⟨fun hmem => (hsecond hb).1 (Set.insert_subset_insert (Set.subset_insert _ _) hmem),
      (hsecond hb).2⟩, hjoined⟩
  have hyesNo : yesBlock ∉ insert noBlock (insert after P) := by
    cases hasElse with
    | false => rwa [hjoined rfl, Set.insert_idem]
    | true =>
      exact (notMem_insert_swap hyesAfter (by rw [Set.insert_comm]; exact (hsecond rfl).1)).1
  rw [Set.insert_comm after, Set.insert_comm noBlock] at h₅
  exact Gives.along (gives_openBlock h₅ hyesNo hyes2) fun _ s₆ _ h₆ =>
    Gives.pure ⟨.refl t s₆, h₆, hblocks⟩

theorem gives_testLoop {bb after : Nat} (h : At t false (insert bb (insert after P)) s)
    (hbb : bb ∉ insert after P) (hne : bb ≠ 2) (test : Expr) : Gives (testLoop t test bb after) s
      fun _ s' => Moves t s s' ∧ At t false (insert after P) s' := by
  refine Gives.along (yields_lowerScalar h test) fun c s₁ _ ⟨h₁, hc⟩ => ?_
  refine Gives.along (gives_branch h₁ hc (h₁.isTarget (by simp)) (h₁.isTarget (by simp)))
    fun _ s₂ _ h₂ => ?_
  exact gives_openBlock h₂ hbb hne

theorem gives_enterLoop {l : Loop} {bb : Nat}
    (h : At t false (insert l.test (insert bb (insert l.exit P))) s) (hl : LoopBlocks P l bb)
    (test : Expr) :
    Gives (enterLoop t test l bb) s fun _ s' => Moves t s s' ∧ At t false (insert l.exit P) s' := by
  rw [enterLoop_eq]
  exact Gives.along (gives_leaveFor h (h.isTarget (by simp)) hl.test hl.test_ne)
    fun _ s₁ _ h₁ => gives_testLoop h₁ hl.body hl.body_ne test

theorem gives_openLoop (h : At t false P s) (test : Expr) :
    Gives (openLoop t test) s fun l s' => Moves t s s' ∧
    At t false (insert l.exit P) s' ∧ l.exit ∉ P ∧ l.exit ≠ 2 ∧
    IsTarget s'.module t.func l.test := by
  refine Gives.along (gives_labelLoop h) fun p s₁ _ ⟨h₁, hl⟩ => ?_
  refine Gives.along (gives_enterLoop h₁ hl test) fun _ s₂ hm₂ h₂ => ?_
  exact Gives.pure ⟨.refl t s₂, h₂, hl.exit, hl.exit_ne, (h₁.isTarget (Set.mem_insert _ _)).extends
    hm₂.extends⟩

mutual

theorem lasts_lowerStmt {s : State} {P : Set Nat} {loops : List Loop} (h : At t false P s)
    (hloops : LoopsOk s.module t.func loops) : ∀ st : Stmt, Lasts t P s (lowerStmt t loops st)
  | .block _ ss => by
    rw [lowerStmt]
    refine Gives.bind (Q := fun _ s' => s' = { s with scope := s.scope.enter .block }) rfl ?_
    rintro _ _ rfl
    refine Gives.bind (lasts_lowerStmts h.enter hloops ss) ?_
    rintro _ s₁ ⟨hp₁, h₁⟩
    have hscope := hp₁.exit_eq
    have hclose : At t false P { s₁ with scope := s₁.scope.exit } := by
      rw [hscope]
      exact { h₁ with scope := h.scope.extends hp₁.grows.extends, inside := h.inside }
    exact ⟨⟨hp₁.grows, congrArg _ hscope, congrArg (·.inner.tail) hscope⟩, hclose⟩
  | .decl _ d => by
    rw [lowerStmt]
    exact lasts_lowerLocals d.isConst d.defs h
  | .assign _ target name indices value => by
    rw [lowerStmt]
    refine Gives.along (yields_lowerExpr h (.lval target name indices)) fun v s₁ hm₁ ⟨h₁, hv⟩ => ?_
    refine Gives.along (yields_toPlace h₁ hv name target) fun place s₂ hm₂ ⟨h₂, hplace⟩ => ?_
    refine Gives.along (yields_lowerScalar h₂ value) fun x s₃ hm₃ ⟨h₃, hx⟩ => ?_
    refine Gives.along (yields_store h₃ hx (hm₃.readable hplace)) fun _ s₄ _ ⟨h₄, _⟩ => ?_
    exact Lasts.skip h₄
  | .expr _ none => by
    rw [lowerStmt]
    exact .skip h
  | .expr _ (some e) => by
    rw [lowerStmt]
    exact Gives.along (yields_lowerExpr h e) fun _ s₁ _ ⟨h₁, _⟩ => Lasts.skip h₁
  | .cond _ test yes none => by
    rw [lowerStmt_cond_none]
    refine Gives.along (gives_openCond h test false) fun p s₁ hm₁ ⟨h₁, hp⟩ => ?_
    rw [hp.joined rfl, Set.insert_idem] at h₁
    refine Gives.along (lasts_lowerStmt h₁ (hloops.extends hm₁.extends) yes) fun _ s₂ _ h₂ => ?_
    exact Lasts.of_moves (gives_leaveFor h₂ (h₂.isTarget (Set.mem_insert _ _)) hp.after hp.after_ne)
  | .cond _ test yes (some no) => by
    rw [lowerStmt_cond_some]
    refine Gives.along (gives_openCond h test true) fun p s₁ hm₁ ⟨h₁, hp⟩ => ?_
    obtain ⟨hno, hno2⟩ := hp.second rfl
    have hloops₁ := hloops.extends hm₁.extends
    refine Gives.along (lasts_lowerStmt h₁ hloops₁ yes) fun _ s₂ hp₂ h₂ => ?_
    refine Gives.along (gives_leaveFor h₂ (h₂.isTarget (by simp)) hno hno2) fun _ s₃ hm₃ h₃ => ?_
    have hloops₃ := (hloops₁.extends hp₂.grows.extends).extends hm₃.extends
    refine Gives.along (lasts_lowerStmt h₃ hloops₃ no) fun _ s₄ _ h₄ => ?_
    exact Lasts.of_moves (gives_leaveFor h₄ (h₄.isTarget (Set.mem_insert _ _)) hp.after hp.after_ne)
  | .loop _ test body => by
    rw [lowerStmt_loop]
    refine Gives.along (gives_openLoop h test) fun l s₁ hm₁ ⟨h₁, hexit, hexit2, htest⟩ => ?_
    have hloops₁ := hloops.cons hm₁.extends h₁ (Set.mem_insert _ _) htest
    refine Gives.along (lasts_lowerStmt h₁ hloops₁ body) fun _ s₂ hp₂ h₂ => ?_
    exact Lasts.of_moves (gives_leaveFor h₂ (htest.extends hp₂.grows.extends) hexit hexit2)
  | .leave span => by
    cases loops with
    | nil =>
      rw [lowerStmt]
      exact .reject
    | cons l loops =>
      rw [lowerStmt]
      exact lasts_leave h (hloops l (List.mem_cons_self ..)).2
  | .next span => by
    cases loops with
    | nil =>
      rw [lowerStmt]
      exact .reject
    | cons l loops =>
      rw [lowerStmt]
      exact lasts_leave h (hloops l (List.mem_cons_self ..)).1
  | .ret span none => by
    rw [lowerStmt]
    · exact lasts_leave h h.exit_isTarget
    · simp
  | .ret span (some e) => by
    cases hresult : t.result with
    | none =>
      rw [lowerStmt.eq_def]
      simp only [hresult]
      exact Gives.bind (Q := fun _ _ => False) Gives.reject fun _ _ hfalse => hfalse.elim
    | some slot =>
      rw [lowerStmt.eq_def]
      simp only [hresult]
      refine Gives.along (yields_lowerScalar h e) fun v s₁ hm₁ ⟨h₁, hv⟩ => ?_
      refine Gives.along (yields_store h₁ hv (h₁.result slot hresult)) fun _ s₂ _ ⟨h₂, _⟩ => ?_
      exact lasts_leave h₂ h₂.exit_isTarget

theorem lasts_lowerStmts {s : State} {P : Set Nat} {loops : List Loop} (h : At t false P s)
    (hloops : LoopsOk s.module t.func loops) : ∀ ss : List Stmt, Lasts t P s (lowerStmts t loops ss)
  | [] => by
    rw [lowerStmts]
    exact .skip h
  | st :: ss => by
    rw [lowerStmts]
    exact .bind (lasts_lowerStmt h hloops st) fun s₁ hp₁ h₁ =>
      lasts_lowerStmts h₁ (hloops.extends hp₁.grows.extends) ss

end

end Sysy.Lowering
