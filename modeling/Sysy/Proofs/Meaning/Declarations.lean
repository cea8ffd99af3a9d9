import Sysy.Proofs.Meaning.Expressions

/-!
Declarations inside functions. A constant that is folded has the value that its expression has, and
the code of a variable brings its words into the slot of the variable.
-/

namespace Sysy.Meaning
open Ir Lowering

/-! Folding and evaluation. -/

def ConstsAgree (scope : Scope Binding) (env : Env) : Prop :=
  ∀ name w, scope.resolve name = .ok (.const w) → env name = some (.const w)

section
variable {scope : Scope Binding} {env globals : Env} {lib : Library} {σ σ' : Memory}
  {w : Word} {v : Value}

/-- An expression that is folded has the value that it is folded to, and evaluating it does
nothing. -/
theorem eval_of_fold (hc : ConstsAgree scope env) :
    ∀ (e : Expr) {n : Nat} {w : Word} {v : Value} {σ σ' : Memory},
    fold scope e = .ok w → eval lib globals n env e σ = some (v, σ') → v = .number w ∧ σ' = σ
  | e, 0, w, v, σ, σ', hfold, h => by
    rw [eval] at h
    exact (failure_some.mp h).elim
  | .lit _ _, n + 1, w, v, σ, σ', hfold, h => by
    cases hfold
    rw [eval] at h
    obtain ⟨rfl, rfl⟩ := pure_some.mp h
    exact ⟨rfl, rfl⟩
  | .lval span name indices, n + 1, w, v, σ, σ', hfold, h => by
    have hconst := hc name w (fold_name.mp hfold).1
    rcases eval_lval h with ⟨x, hx, -, rfl, rfl⟩ | ⟨l, l', hl, -⟩
    · cases hx.symm.trans hconst
      exact ⟨rfl, rfl⟩
    · cases hl.symm.trans hconst
  | .unary span op e, n + 1, w, v, σ, σ', hfold, h => by
    obtain ⟨x, hx, rfl⟩ := fold_unary.mp hfold
    obtain ⟨y, hy, rfl⟩ := eval_unary h
    obtain ⟨heq, rfl⟩ := eval_of_fold hc e hx (number_some.mp hy)
    cases heq
    exact ⟨rfl, rfl⟩
  | .binary span op l r, n + 1, w, v, σ, σ', hfold, h => by
    obtain ⟨x, hx, hcases⟩ := fold_binary.mp hfold
    obtain ⟨y, σ₁, z, hy, rfl, hcases'⟩ := eval_binary h
    obtain ⟨heq, rfl⟩ := eval_of_fold hc l hx (number_some.mp hy)
    cases heq
    rcases hcases with hshort | ⟨hshort, b, hb, hw⟩ <;> rcases hcases' with ⟨hshort',
      rfl⟩ | ⟨hshort', b', hb', hw'⟩ <;>
      rw [hshort] at hshort'
    · cases hshort'
      exact ⟨rfl, rfl⟩
    · cases hshort'
    · cases hshort'
    · obtain ⟨heq, rfl⟩ := eval_of_fold hc r hb (number_some.mp hb')
      cases heq
      rw [hw] at hw'
      cases hw'
      exact ⟨rfl, rfl⟩
  | .call _ _ _, n + 1, w, v, σ, σ', hfold, h => by cases hfold

theorem number_of_fold (hc : ConstsAgree scope env) {e : Expr} {n : Nat} {x : Word}
    (hfold : fold scope e = .ok w) (h : number (eval lib globals n env) e σ = some (x, σ')) :
    x = w ∧ σ' = σ := by
  obtain ⟨heq, rfl⟩ := eval_of_fold hc e hfold (number_some.mp h)
  cases heq
  exact ⟨rfl, rfl⟩

theorem shape_of_foldDims (hc : ConstsAgree scope env) {n : Nat} (es : List Expr) :
    ∀ {total : Nat} {ds ds' : List Nat}
    {σ σ' : Memory}, foldDims scope total es = .ok ds → shape (number (eval lib globals n env)) es
      σ = some (ds', σ') → ds' = ds ∧ σ' = σ := by
  induction es with
  | nil =>
    intro total ds ds' σ σ' hfold h
    cases hfold
    obtain ⟨rfl, rfl⟩ := pure_some.mp h
    exact ⟨rfl, rfl⟩
  | cons e es ih =>
    intro total ds ds' σ σ' hfold h
    obtain ⟨w, rest, hw, hpos, -, hrest, rfl⟩ := foldDims_cons.mp hfold
    rw [shape] at h
    obtain ⟨x, σ₁, hx, hshape⟩ := bind_some.mp h
    obtain ⟨rfl, rfl⟩ := number_of_fold hc hw hx
    rw [if_pos hpos] at hshape
    obtain ⟨rest', σ₂, hrest', hpure⟩ := bind_some.mp hshape
    obtain ⟨rfl, rfl⟩ := ih hrest hrest'
    obtain ⟨rfl, rfl⟩ := pure_some.mp hpure
    exact ⟨rfl, rfl⟩

end

/-! The code of declarations. -/

namespace World

variable {W : World} {L L' L'' : Layout} {t : Target} {scope : Scope Binding} {lo n : Nat}
  {P : Set Nat} {s s' s'' s₁ : State}
  {a a' a'' a₀ : Activation} {st st' st'' st₁ : Store} {σ σ' σ'' σ₁ : Memory} {env env' env'' : Env}
    {callers : List Activation}
  {ids : List ValueId} {ws : List Word} {r : Region} {vals : List Val} {slot : ValueId}
    {dims : List Nat} {isConst : Bool}
  {d : VarDef}

theorem Names.consts (h : W.Names L a scope env) : ConstsAgree scope env := by
  intro name w hname
  obtain ⟨r, hr, hrefers⟩ := h name _ hname
  cases hrefers
  exact hr

structure Proceeds (W : World) (callers : List Activation) (t : Target) (s : State) (a : Activation)
    (L : Layout) (st : Store)
    (s' : State) (a' : Activation) (env' : Env) (L' : Layout) (σ' : Memory)
    (st' : Store) : Prop where
  crosses : (W.setting callers).Crosses t s a st s' a' st'
  within : L.Within L'
  fits : W.Fits t s'.scope s'.module.values.size a' env' L' σ' st'
  stays : Stays st st'

theorem Proceeds.trans (h : W.Proceeds callers t s a L st s' a' env' L' σ' st')
    (h' : W.Proceeds callers t s' a' L' st' s'' a'' env'' L'' σ'' st'') :
    W.Proceeds callers t s a L st s'' a'' env'' L'' σ'' st'' :=
  ⟨h.crosses.trans h'.crosses, h.within.trans h'.within, h'.fits, h.stays.trans h'.stays⟩

theorem Proceeds.of_crosses (hfits : W.Fits t s.scope s.module.values.size a env L σ st)
    (hcross : (W.setting callers).Crosses t s a st s' a' st') (hscope : s'.scope = s.scope)
    (ht : Tracks L σ' st st') :
    W.Proceeds callers t s a L st s' a' env L σ' st' :=
  ⟨hcross, .refl L, hscope ▸ hfits.next hcross.kept hcross.size ht, ht.stays⟩

theorem crosses_define {scope' : Scope Binding}
    (h : (W.setting callers).Crosses t s a st s' a' st') :
    (W.setting callers).Crosses t s a st { s' with scope := scope' } a' st' :=
  ⟨h.leads, ⟨h.standing.func, h.standing.rest⟩, h.kept, h.size, h.led⟩

structure Vacant (W : World) (t : Target) (s : State) (a : Activation) (L : Layout) (st : Store)
    (slot : ValueId) (dims : List Nat)
    (r : Region) (vals : List Val) : Prop where
  isLocal : IsLocal W.module t.func slot
  new : s.module.values.size < slot
  result : t.result ≠ some slot
  ty : W.module.tyOf slot = .ptr (.ofDims dims)
  env : a.env slot = some (.addr r 0)
  spare : L.Spare r
  mem : st.mem r = some vals
  length : vals.length = product dims

theorem exists_vacant {s₂ : State} {name : String}
    (hfits : W.Fits t s.scope s.module.values.size a env L σ st) (hat : At t false P s)
    (hcross : (W.setting callers).Crosses t s a st s₁ a' st') (h₁ : At t false P s₁)
    (hdims : Shaped dims)
    (hrun : build (Build.alloc t.func (.ofDims dims) name) s₁ = .ok (slot, s₂))
    (he : Extends s₂.module W.module) :
    (W.setting callers).Crosses t s a st s₂ a' st' ∧ slot ≤ s₂.module.values.size ∧
      ∃ r vals, W.Vacant t s a L st slot dims r vals := by
  obtain ⟨hcross₂, rfl, hsize, v, hv, hnode, hfunc, hty⟩ :=
    Setting.crosses_alloc h₁ hcross.standing hrun he st'
  have hnew : s.module.values.size < s₁.module.values.size + 1 := Nat.lt_succ_of_le hcross.size
  have htyOf : W.module.tyOf (s₁.module.values.size + 1) = .ptr (.ofDims dims) :=
    (Module.tyOf_eq hv).trans hty
  obtain ⟨r, vals, henv, hspare, hmem, hlen⟩ := hfits.room.slot _ ⟨⟨v, hv, hnode, hfunc⟩, .inl hnew⟩
  refine ⟨hcross.trans hcross₂, hsize.ge, r, vals, ⟨v, hv, hnode, hfunc⟩, hnew, fun hresult => ?_,
    htyOf, henv, hspare, hmem, ?_⟩
  · obtain ⟨w, hw, -⟩ := hat.result _ hresult
    have := (Module.bounds_of_value? hw).2
    omega
  · rw [hlen, htyOf, Ty.elem, size_ofDims hdims]
    omega

theorem Vacant.proceeds {cells : List Cell} {vals' : List Val} {span : Span} {name : String}
    {c : Bool} (h : W.Vacant t s a L st slot dims r vals)
    (hfits : W.Fits t s.scope s.module.values.size a env L σ st)
    (hcross : (W.setting callers).Crosses t s a st s₁ a' st') (hle : slot ≤ s₁.module.values.size)
    (ht : Tracks L σ₁ st st') (hscope : s₁.scope = s.scope) (hmem : st'.mem r = some vals')
    (hcells : Mirrors cells vals') (hrun : define name span (.var slot c) s₁ = .ok ((), s')) :
    ∃ L', W.Proceeds callers t s a L st s' a'
      (env.bind name (.object { object := σ₁.objects.length, dims })) L'
      { σ₁ with objects := σ₁.objects ++ [cells] } st' := by
  obtain ⟨scope', hdef, rfl⟩ := define_ok.mp hrun
  have hwithin : L.Within (L.put σ₁.objects.length r) := Layout.within_put ht.agree.place_next r
  have hnames : W.Names (L.put σ₁.objects.length r) a' s₁.scope env :=
    hscope ▸ (hfits.names.kept hcross.kept).within hwithin
  have henv : a'.env slot = some (.addr r 0) :=
    (hcross.kept.env slot (.inr h.isLocal.node)).trans h.env
  have hrefers : W.Refers (L.put σ₁.objects.length r) a' (.var slot c)
    (.object { object := σ₁.objects.length, dims }) :=
    .object (.inl h.isLocal.node) ((a'.read_alloc h.isLocal.node).trans henv)
      (Layout.place_put_self ..) rfl h.ty
  have hroom : W.Room t s₁.module.values.size a' (L.put σ₁.objects.length r) st' :=
    (hfits.room.kept hcross.kept ht.stays).use ⟨h.isLocal, .inl h.new⟩ henv hcross.size hle h.result
      fun r' hne hspare => hspare.put _ hne
  exact ⟨_, crosses_define hcross, hwithin, ⟨hnames.define hrefers hdef, hroom,
    ht.agree.put h.spare hmem hcells,
    hfits.base.trans hwithin⟩, ht.stays⟩

theorem crosses_cell {c : Option Expr} {id : ValueId} {w : Word} (hev : W.EvalOk n)
    (hfits : W.Fits t scope lo a₀ env L σ st) (hat : At t false P s) (hscope : s.scope = scope)
    (hrun : lowerCell t isConst c s = .ok (id, s')) (hlo : lo ≤ s.module.values.size)
    (he : Extends s'.module W.module) (hs : (W.setting callers).Standing t s a)
    (hkept : Kept W.module lo a₀ a)
    (h : cellWord (number (eval W.lib W.globals n env)) c σ = some (w, σ')) :
    ∃ a' st', (W.setting callers).Crosses t s a st s' a' st' ∧ a'.read W.module id =
      some (.word w) ∧ Tracks L σ' st st' := by
  cases c with
  | none =>
    obtain ⟨rfl, rfl⟩ := pure_some.mp h
    obtain ⟨hcross, hread⟩ := Setting.crosses_integer hs hrun he st
    exact ⟨a, st, hcross, hread, .refl hfits.agree⟩
  | some e =>
    rw [lowerCell] at hrun
    split at hrun
    · obtain ⟨x, s₁, hfold, hrun⟩ := bind_ok.mp hrun
      obtain ⟨hx, rfl⟩ := foldConst_ok.mp hfold
      obtain ⟨rfl, rfl⟩ := number_of_fold hfits.names.consts (hscope ▸ hx) h
      obtain ⟨hcross, hread⟩ := Setting.crosses_integer hs hrun he st
      exact ⟨a, st, hcross, hread, .refl hfits.agree⟩
    · obtain ⟨a', st', _, hcross, hread, rfl, ht⟩ :=
        hev.number hfits h callers s'.module.values.size hat hscope hrun hlo le_rfl
        he hs hkept
      exact ⟨a', st', hcross, hread, ht⟩

theorem crosses_cells (hev : W.EvalOk n) (cs : List (Option Expr)) :
    ∀ {P : Set Nat} {s s' : State} {ids : List ValueId}
    {a : Activation} {ws : List Word} {σ σ' : Memory} {st : Store},
    W.Fits t scope lo a₀ env L σ st → At t false P s →
    s.scope = scope → cs.mapM (lowerCell t isConst) s = .ok (ids, s') → lo ≤ s.module.values.size →
    Extends s'.module W.module → (W.setting callers).Standing t s a → Kept W.module lo a₀ a →
    cs.mapM (cellWord (number (eval W.lib W.globals n env))) σ = some (ws, σ') →
    ∃ a' st', (W.setting callers).Crosses t s a st s' a' st' ∧
      List.Forall₂ (fun id w => a'.read W.module id = some (.word w)) ids ws ∧
      ids.length = cs.length ∧ Tracks L σ' st st' := by
  induction cs with
  | nil =>
    intro P s s' ids a ws σ σ' st hfits hat hscope hrun hlo he hs hkept h
    obtain ⟨rfl, rfl⟩ := pure_ok.mp hrun
    obtain ⟨rfl, rfl⟩ := pure_some.mp h
    exact ⟨a, st, .refl hs st, .nil, rfl, .refl hfits.agree⟩
  | cons c cs ih =>
    intro P s s' ids a ws σ σ' st hfits hat hscope hrun hlo he hs hkept h
    rw [List.mapM_cons] at hrun h
    obtain ⟨id, s₁, hidRun, hrun⟩ := bind_ok.mp hrun
    obtain ⟨ids, s₂, hidsRun, hrun⟩ := bind_ok.mp hrun
    obtain ⟨rfl, rfl⟩ := pure_ok.mp hrun
    obtain ⟨w, σ₁, hw, h⟩ := bind_some.mp h
    obtain ⟨ws, σ₂, hws, h⟩ := bind_some.mp h
    obtain ⟨rfl, rfl⟩ := pure_some.mp h
    obtain ⟨hm₁, h₁, hid⟩ := (yields_lowerCell hat isConst c).ok hidRun
    obtain ⟨hm₂, -, -⟩ := (yields_mapM (fun c _ h => yields_lowerCell h isConst c) cs h₁).ok hidsRun
    obtain ⟨a₁, st₁, hcross₁, hread, ht₁⟩ :=
      crosses_cell hev hfits hat hscope hidRun hlo (hm₂.extends.trans he) hs hkept hw
    obtain ⟨a₂, st₂, hcross₂, hreads, hlen, ht₂⟩ :=
      ih (hfits.later ht₁) h₁ (hm₁.scope.trans hscope) hidsRun (hlo.trans hcross₁.size)
      he hcross₁.standing (hkept.trans hcross₁.kept hlo) hws
    exact ⟨a₂, st₂, hcross₁.trans hcross₂, .cons ((hcross₂.read_eq hid).trans hread) hreads,
      by simp [hlen],
      ht₂.after ht₁.stays⟩

def Filled (ws : List Word) (k : Nat) (vals : List Val) : Prop := ∀ i w, i < k → ws[i]? = some w →
    vals[i]? = some (.word w)

theorem Filled.set {k : Nat} {w : Word} (h : Filled ws k vals) (hw : ws[k]? = some w)
    (hk : k < vals.length) :
    Filled ws (k + 1) (vals.set k (.word w)) := by
  intro i x hi hx
  by_cases heq : i = k
  · subst heq
    obtain rfl := Option.some.inj (hw.symm.trans hx)
    exact List.getElem?_set_self hk
  · rw [List.getElem?_set_ne (Ne.symm heq)]
    exact h i x (by omega) hx

theorem crosses_storeCells (hdims : Shaped dims) (hlen : ws.length = product dims)
    (hspare : L.Spare r) (hmem : st.mem r = some vals) (hvals : vals.length = product dims)
    (ids : List ValueId) : ∀ {P : Set Nat} {s s' : State}
    {a : Activation} {k : Nat} {st₁ : Store} {vals₁ : List Val}, At t false P s →
    s.module.Readable t.func slot (.ptr (.ofDims dims)) →
    (∀ id ∈ ids, s.module.Readable t.func id .i32) →
    storeCells t slot dims k ids s = .ok ((), s') → Extends s'.module W.module →
    (W.setting callers).Standing t s a →
    a.read W.module slot = some (.addr r 0) →
    List.Forall₂ (fun id w => a.read W.module id = some (.word w)) ids (ws.drop k) → k ≤ ws.length →
    Tracks L σ st st₁ → st₁.mem r = some vals₁ → Filled ws k vals₁ →
    ∃ a' st' vals', (W.setting callers).Crosses t s a st₁ s' a' st' ∧ Tracks L σ st st' ∧
      st'.mem r = some vals' ∧ Filled ws ws.length vals' := by
  induction ids with
  | nil =>
    intro P s s' a k st₁ vals₁ hat hslot hids hrun he hs hslotv hreads hk ht hmem₁ hfilled
    obtain ⟨-, rfl⟩ := pure_ok.mp hrun
    have hdone : ws.length ≤ k := List.drop_eq_nil_iff.mp (List.forall₂_nil_left_iff.mp hreads)
    obtain rfl : k = ws.length := by omega
    exact ⟨a, st₁, vals₁, .refl hs st₁, ht, hmem₁, hfilled⟩
  | cons id ids ih =>
    intro P s s' a k st₁ vals₁ hat hslot hids hrun he hs hslotv hreads hk ht hmem₁ hfilled
    obtain ⟨w, rest, hw, hrest, hdrop⟩ := List.forall₂_cons_left_iff.mp hreads
    have hlt : k < ws.length := by
      by_contra hnot
      rw [List.drop_eq_nil_iff.mpr (not_lt.mp hnot)] at hdrop
      cases hdrop
    have hget : ws[k]? = some w := by
      have := congrArg (·[0]?) hdrop
      simpa using this
    have htail : rest = ws.drop (k + 1) := by
      rw [← List.drop_drop, hdrop]
      rfl
    rw [storeCells] at hrun
    obtain ⟨addr, s₁, haddrRun, hrun⟩ := bind_ok.mp hrun
    obtain ⟨u, s₂, hstoreRun, hrun⟩ := bind_ok.mp hrun
    obtain ⟨hm₁, h₁, haddr⟩ :=
      (yields_elementAddr _ dims (length_indicesOf dims k) hdims hat hslot).ok haddrRun
    have hid := hm₁.readable (hids id (List.mem_cons_self ..))
    obtain ⟨hm₂, h₂, -⟩ := (yields_store h₁ hid haddr).ok hstoreRun
    have hm := hm₁.trans hm₂
    have hids₂ : ∀ id ∈ ids, s₂.module.Readable t.func id .i32 :=
      fun id hid => hm.readable (hids id (List.mem_cons_of_mem _ hid))
    obtain ⟨hm₃, -, -⟩ := (yields_storeCells hdims ids (k + 1) h₂ (hm.readable hslot) hids₂).ok hrun
    have he₂ := hm₃.extends.trans he
    obtain ⟨a₁, hcross₁, haddrv⟩ := Setting.crosses_elementAddr (fun _ _ => trivial) st₁ dims 0
      hdims (hlen ▸ hlt) hat hslot haddrRun
      (hm₂.extends.trans he₂) hs hslotv
    rw [zero_add] at haddrv
    -- no object is in the slot yet, so the store cannot be seen in the memory of the program
    obtain ⟨vals₂, st₂, hmem₂, hlen₂, hstore, hmem₂', ht₂⟩ :=
      ht.scratch hspare hmem (hvals ▸ hlen ▸ hlt) (.word w)
    obtain rfl := Option.some.inj (hmem₁.symm.trans hmem₂)
    obtain ⟨a₂, hcross₂⟩ := Setting.crosses_store h₁ hcross₁.standing hstoreRun he₂ trivial
      ((hcross₁.read_eq (hids id (List.mem_cons_self ..))).trans hw) haddrv hstore
    have hcross := hcross₁.trans hcross₂
    have hreads₂ : List.Forall₂ (fun id w => a₂.read W.module id = some (.word w)) ids
      (ws.drop (k + 1)) := by
      rw [← htail]
      have hidsRest : ∀ id ∈ ids, s.module.Readable t.func id .i32 :=
        fun id hid => hids id (List.mem_cons_of_mem _ hid)
      exact ((List.forall₂_and_left _ _).mpr ⟨hidsRest, hrest⟩).imp fun id w h =>
        (hcross.read_eq h.1).trans h.2
    obtain ⟨a₃, st₃, vals₃, hcross₃, ht₃, hmem₃, hfilled₃⟩ :=
      ih h₂ (hm.readable hslot) hids₂ hrun he hcross.standing
      ((hcross.read_eq hslot).trans hslotv) hreads₂ hlt ht₂ hmem₂' (hfilled.set hget (by omega))
    exact ⟨a₃, st₃, vals₃, hcross.trans hcross₃, ht₃, hmem₃, hfilled₃⟩

theorem Filled.mirrors {vals : List Val} (h : Filled ws ws.length vals)
    (hlen : vals.length = ws.length) :
    Mirrors (ws.map some) vals := by
  refine ⟨by simpa using hlen, fun i w hw => ?_⟩
  obtain ⟨x, hx, heq⟩ : ∃ x, ws[i]? = some x ∧ some x = some w := by simpa using hw
  obtain rfl := Option.some.inj heq
  exact h i x (List.getElem?_eq_some_iff.mp hx).1 hx

theorem proceeds_scalar {c : Cell} (hev : W.EvalOk n)
    (hfits : W.Fits t s.scope s.module.values.size a env L σ st) (hat : At t false P s)
    (hs : (W.setting callers).Standing t s a) (hrun : lowerLocalScalar t d s = .ok ((), s'))
    (he : Extends s'.module W.module)
    (h : initCell (number (eval W.lib W.globals n env)) none d.init σ = some (c, σ₁)) :
    ∃ a' st' L', W.Proceeds callers t s a L st s' a'
      (env.bind d.name (.object { object := σ₁.objects.length, dims := [] })) L'
      { σ₁ with objects := σ₁.objects ++ [[c]] } st' := by
  rcases localScalar_cases hat hrun with ⟨hinit, slot, s₁, halloc, hdef⟩ |
    ⟨e, v, slot, s₁, s₂, s₃, hsteps⟩
  · rw [hinit] at h
    obtain ⟨rfl, rfl⟩ := pure_some.mp h
    have he₁ : Extends s₁.module W.module := module_of_define hdef ▸ he
    obtain ⟨hcross, hle, r, vals, hvacant⟩ :=
      exists_vacant hfits hat (.refl hs st) hat Shaped.nil halloc he₁
    have hcells : Mirrors [none] vals := by
      have := Mirrors.blank vals
      rwa [hvacant.length] at this
    obtain ⟨hm₁, -, -⟩ := (yields_alloc hat Ty.isObject_i32 _).ok halloc
    exact ⟨a, st, hvacant.proceeds hfits hcross hle (.refl hfits.agree) hm₁.scope hvacant.mem
      hcells hdef⟩
  · rw [hsteps.init] at h
    obtain ⟨w, σ₂, hw, hpure⟩ := bind_some.mp h
    obtain ⟨hc, hσ⟩ := pure_some.mp hpure
    subst hc hσ
    obtain ⟨u, hstoreRun⟩ := hsteps.store
    have he₃ : Extends s₃.module W.module := module_of_define hsteps.define ▸ he
    have he₂ := hsteps.moves_store.extends.trans he₃
    obtain ⟨a₁, st₁, w', hcross₁, hread, hword, ht₁⟩ :=
      hev.number hfits hw callers s₁.module.values.size hat rfl hsteps.value le_rfl le_rfl
      (hsteps.moves_slot.extends.trans he₂) hs (.refl _ _ _)
    -- the value is worked out before the slot exists, so it cannot depend on what is in it
    obtain ⟨hcross₂, hle, r, vals, hvacant⟩ :=
      exists_vacant hfits hat hcross₁ hsteps.at_value Shaped.nil hsteps.alloc he₂
    have hlen : vals.length = 1 := hvacant.length
    subst hword
    obtain ⟨vals₁, st₂, -, hlen₁, hstore, hmem, ht₂⟩ :=
      ht₁.scratch hvacant.spare hvacant.mem (i := 0) (by omega) (.word w')
    have hslotv : a₁.read W.module slot = some (.addr r 0) :=
      (a₁.read_alloc hvacant.isLocal.node).trans
        ((hcross₂.kept.env slot (.inr hvacant.isLocal.node)).trans hvacant.env)
    obtain ⟨a₃, hcross₃⟩ := Setting.crosses_store (k := W.setting callers) hsteps.at_slot
      hcross₂.standing hstoreRun he₃ trivial hread hslotv (by simpa using hstore)
    have hcells := (Mirrors.blank vals₁).set 0 w'
    rw [hlen₁, hlen] at hcells
    have hscope :=
      (hsteps.moves_value.trans (hsteps.moves_slot.trans hsteps.moves_store)).scope
    exact ⟨a₃, st₂, hvacant.proceeds hfits (hcross₂.trans hcross₃) (hle.trans hcross₃.size) ht₂
      hscope hmem hcells hsteps.define⟩

theorem proceeds_array {cells : List Cell} {σ₀ : Memory} (hev : W.EvalOk n)
    (hfits : W.Fits t s.scope s.module.values.size a env L σ st) (hat : At t false P s)
    (hs : (W.setting callers).Standing t s a) (hrun : lowerLocalArray t isConst d s = .ok ((), s'))
    (he : Extends s'.module W.module)
    (hshape : shape (number (eval W.lib W.globals n env)) d.dims σ = some (dims, σ₀))
    (h : arrayCells (number (eval W.lib W.globals n env)) none dims d.init σ₀ = some (cells, σ₁)) :
    ∃ a' st' L', W.Proceeds callers t s a L st s' a'
      (env.bind d.name (.object { object := σ₁.objects.length, dims })) L'
      { σ₁ with objects := σ₁.objects ++ [cells] } st' := by
  obtain ⟨dims', values, slot, s₁, s₂, s₃, hsteps⟩ := exists_arraySteps hat hrun
  obtain ⟨rfl, rfl⟩ := shape_of_foldDims hfits.names.consts d.dims hsteps.fold hshape
  have hdims := shaped_of_foldDims hsteps.fold
  have he₃ : Extends s₃.module W.module := module_of_define hsteps.define ▸ he
  have he₂ := hsteps.moves_stores.extends.trans he₃
  have hscope := (hsteps.moves_cells.trans (hsteps.moves_slot.trans hsteps.moves_stores)).scope
  rcases hsteps.cells with ⟨hinit, rfl, rfl⟩ | ⟨i, cells', hinit, hflat, hvalues⟩
  · rw [hinit] at h
    obtain ⟨rfl, rfl⟩ := pure_some.mp h
    obtain ⟨-, rfl⟩ := pure_ok.mp hsteps.stores
    obtain ⟨hcross, hle, r, vals, hvacant⟩ :=
      exists_vacant hfits hat (.refl hs st) hat hdims hsteps.alloc he₃
    have hcells : Mirrors (List.replicate (product dims) none) vals := by
      have := Mirrors.blank vals
      rwa [hvacant.length] at this
    exact ⟨a, st, hvacant.proceeds hfits hcross hle (.refl hfits.agree) hscope hvacant.mem
      hcells hsteps.define⟩
  · rw [hinit, arrayCells, hflat] at h
    obtain ⟨ws, σ₂, hws, hpure⟩ := bind_some.mp h
    obtain ⟨rfl, rfl⟩ := pure_some.mp hpure
    obtain ⟨a₁, st₁, hcross₁, hreads, hlenIds, ht₁⟩ :=
      crosses_cells hev cells'.toList hfits hat rfl hvalues le_rfl
      (hsteps.moves_slot.extends.trans he₂) hs (.refl _ _ _) hws
    obtain ⟨hcross₂, hle, r, vals, hvacant⟩ :=
      exists_vacant hfits hat hcross₁ hsteps.at_cells hdims hsteps.alloc he₂
    have hlen : ws.length = product dims := by
      rw [← hreads.length_eq, hlenIds, Array.length_toList, size_flatten hflat]
    -- the slot was vacant before the words were worked out, and still is, as they leave it alone
    obtain ⟨vals₁, hmem₁, hlen₁⟩ := ht₁.stays.room r vals hvacant.mem
    have hslotv : a₁.read W.module slot = some (.addr r 0) :=
      (a₁.read_alloc hvacant.isLocal.node).trans
        ((hcross₂.kept.env slot (.inr hvacant.isLocal.node)).trans hvacant.env)
    obtain ⟨a₃, st₃, vals₃, hcross₃, ht₃, hmem₃, hfilled⟩ :=
      crosses_storeCells hdims hlen hvacant.spare hvacant.mem hvacant.length values
        hsteps.at_slot hsteps.reads_slot hsteps.reads_values hsteps.stores he₃ hcross₂.standing
        hslotv (by simpa using hreads) (Nat.zero_le _) ht₁ hmem₁
        (fun i w hi => absurd hi (Nat.not_lt_zero i))
    have hlen₃ : vals₃.length = ws.length := by
      obtain ⟨vals', hmem', hlen'⟩ := ht₃.stays.room r vals hvacant.mem
      obtain rfl := Option.some.inj (hmem₃.symm.trans hmem')
      rw [hlen', hvacant.length, hlen]
    exact ⟨a₃, st₃, hvacant.proceeds hfits (hcross₂.trans hcross₃) (hle.trans hcross₃.size) ht₃
      hscope hmem₃ (hfilled.mirrors hlen₃) hsteps.define⟩

theorem proceeds_local (hev : W.EvalOk n)
    (hfits : W.Fits t s.scope s.module.values.size a env L σ st) (hat : At t false P s)
    (hs : (W.setting callers).Standing t s a) (hrun : lowerLocal t isConst d s = .ok ((), s'))
    (he : Extends s'.module W.module)
    (h : declare (number (eval W.lib W.globals n env)) isConst none env d σ = some (env', σ')) :
    ∃ a' st' L', W.Proceeds callers t s a L st s' a' env' L' σ' st' := by
  unfold lowerLocal at hrun
  rcases declare_cases h with ⟨hdims, rfl, e, w, hinit, hw, rfl⟩ | ⟨hconst, dims, cells, σ₁,
    hcells, rfl, rfl⟩
  · rw [hdims] at hrun
    obtain ⟨e', x, scope', hinit', hx, hscope, rfl⟩ := defineConst_ok hrun
    obtain rfl : e = e' := by simpa [hinit] using hinit'
    obtain ⟨rfl, rfl⟩ := number_of_fold hfits.names.consts hx hw
    exact ⟨a, st, L, crosses_define (.refl hs st), .refl L, ⟨hfits.names.define (.const _) hscope,
      hfits.room, hfits.agree, hfits.base⟩,
      .refl st⟩
  · cases hdims : d.dims with
    | nil =>
      rw [hdims, hconst hdims] at hrun
      rw [if_pos hdims] at hcells
      obtain ⟨rfl, c, hc, rfl⟩ := hcells
      exact proceeds_scalar hev hfits hat hs hrun he hc
    | cons e es =>
      rw [hdims] at hrun
      rw [if_neg (by simp [hdims])] at hcells
      obtain ⟨σ₀, hshape, hcells⟩ := hcells
      exact proceeds_array hev hfits hat hs hrun he hshape hcells

theorem proceeds_locals (hev : W.EvalOk n) (ds : List VarDef) :
    ∀ {s s' : State} {a : Activation} {env env' : Env} {L : Layout}
    {σ σ' : Memory} {st : Store}, W.Fits t s.scope s.module.values.size a env L σ st →
    At t false P s →
    (W.setting callers).Standing t s a → ds.forM (lowerLocal t isConst) s = .ok ((), s') →
    Extends s'.module W.module →
    declareAll (fun env => number (eval W.lib W.globals n env)) isConst none env ds σ =
      some (env', σ') → ∃ a' st' L', W.Proceeds callers t s a L st s' a' env' L' σ' st' := by
  induction ds with
  | nil =>
    intro s s' a env env' L σ σ' st hfits hat hs hrun he h
    obtain ⟨-, rfl⟩ := pure_ok.mp hrun
    obtain ⟨rfl, rfl⟩ := pure_some.mp h
    exact ⟨a, st, L, .of_crosses hfits (.refl hs st) rfl (.refl hfits.agree)⟩
  | cons d ds ih =>
    intro s s' a env env' L σ σ' st hfits hat hs hrun he h
    rw [List.forM] at hrun
    rw [declareAll] at h
    obtain ⟨⟨⟩, s₁, hdRun, hdsRun⟩ := bind_ok.mp hrun
    obtain ⟨env₁, σ₁, hd, hds⟩ := bind_some.mp h
    obtain ⟨-, h₁⟩ := (lasts_lowerLocal hat isConst d).ok hdRun
    obtain ⟨hp₂, -⟩ := (lasts_lowerLocals isConst ds h₁).ok hdsRun
    obtain ⟨a₁, st₁, L₁, hp₁⟩ :=
      proceeds_local hev hfits hat hs hdRun (hp₂.grows.extends.trans he) hd
    obtain ⟨a₂, st₂, L₂, hp₂⟩ := ih hp₁.fits h₁ hp₁.crosses.standing hdsRun he hds
    exact ⟨a₂, st₂, L₂, hp₁.trans hp₂⟩

end World

end Sysy.Meaning
