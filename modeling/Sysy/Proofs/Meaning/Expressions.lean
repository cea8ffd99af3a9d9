import Sysy.Proofs.Meaning.Folding
import Sysy.Proofs.Meaning.Relation

/-!
The code of an expression gives the value that the expression has, and changes the store as its
evaluation changes the memory.
-/

namespace Sysy.Lowering.Setting
open Ir

/-- Wherever code for the expression stands behind the values up to `lo`, running it from the store
`st` ends with an operand, an activation and a store as `Q` tells. -/
def Delivers (k : Setting) (t : Target) (scope : Scope Binding) (lo : Nat) (a₀ : Activation)
    (e : Expr) (st : Store) (Q : Operand → Activation → Store → Prop) : Prop :=
  ∀ ⦃P s v s' a⦄, At t false P s → s.scope = scope → lowerExpr t e s = .ok (v, s') →
    lo ≤ s.module.values.size →
    Extends s'.module k.module → k.Standing t s a → Kept k.module lo a₀ a →
    ∃ a' st', k.Crosses t s a st s' a' st' ∧ Q v a' st'

end Sysy.Lowering.Setting

namespace Sysy.Lowering
open Ir

variable {α β : Type} {t : Target} {s s' : State}

def Always (x : Lower α) (Q : α → Prop) : Prop := ∀ s a s', x s = .ok (a, s') → Q a

namespace Always

theorem pure {Q : α → Prop} {a : α} (h : Q a) : Always (pure a) Q := by
  intro s b s' hrun
  obtain ⟨rfl, -⟩ := pure_ok.mp hrun
  exact h

theorem bind {Q : β → Prop} {x : Lower α} {k : α → Lower β} (hk : ∀ a, Always (k a) Q) :
    Always (x >>= k) Q := by
  intro s b s' hrun
  obtain ⟨a, s₁, -, hrun⟩ := bind_ok.mp hrun
  exact hk a s₁ b s' hrun

end Always

def Operand.IsInt (v : Operand) : Prop := ∃ id c, v = .int id c

theorem Operand.isInt_int (id : ValueId) (c : Bool) : (Operand.int id c).IsInt := ⟨id, c, rfl⟩

theorem always_lowerUnary (t : Target) (op : UnaryOp) (x : ValueId) :
    Always (lowerUnary t op x) Operand.IsInt := by
  refine .bind fun zeroId => ?_
  cases op with
  | plus => exact .pure (Operand.isInt_int x false)
  | minus => exact .bind fun id => .pure (Operand.isInt_int id false)
  | not => exact .bind fun id => .pure (Operand.isInt_int id false)

theorem always_unary (t : Target) (span : Span) (op : UnaryOp) (e : Expr) :
    Always (lowerExpr t (.unary span op e)) Operand.IsInt := by
  rw [lowerExpr]
  exact .bind fun _ => .bind fun x => always_lowerUnary t op x

theorem always_binary (t : Target) (span : Span) (op : BinaryOp) (l r : Expr) :
    Always (lowerExpr t (.binary span op l r)) Operand.IsInt := by
  rw [lowerExpr]
  split
  · generalize logicShape op = shape
    obtain ⟨hint, onTrue⟩ := shape
    dsimp only
    repeat first | exact .pure (Operand.isInt_int _ false) | refine .bind fun _ => ?_
  · exact .bind fun _ => .bind fun _ => .bind fun _ => .bind fun _ => .bind fun id =>
      .pure (Operand.isInt_int id false)

end Sysy.Lowering

namespace Sysy.Meaning
open Ir Lowering

variable {W : World} {L : Layout} {t : Target} {scope : Scope Binding} {lo n : Nat} {P : Set Nat}
  {s s' : State}
  {a a' a₀ : Activation} {st st' : Store} {σ σ' : Memory} {env : Env} {e : Expr} {v : Operand}
    {x : Value} {w : Word} {id : ValueId}
  {span : Span} {callers : List Activation}

namespace World

/-! Operands. -/

theorem crosses_toInt (h : At t false P s) (hv : OperandOk s.module t.func v)
    (hs : (W.setting callers).Standing t s a) (hrun : v.toInt t span s = .ok (id, s'))
    (he : Extends s'.module W.module) (hx : W.Denotes L a st v (.number w)) :
    ∃ a', (W.setting callers).Crosses t s a st s' a' st ∧ a'.read W.module id = some (.word w) := by
  cases v with
  | void => exact (reject_ok.mp hrun).elim
  | int id c =>
    obtain ⟨rfl, rfl⟩ := pure_ok.mp hrun
    exact ⟨a, .refl hs st, hx⟩
  | place addr c =>
    obtain ⟨r, o, haddr, hload⟩ := hx
    exact Setting.crosses_load h hs hrun he trivial haddr hload
  | array addr decayed c => exact (reject_ok.mp hrun).elim

theorem crosses_toArrayArg {l : Location} (h : At t false P s) (hv : OperandOk s.module t.func v)
    (hs : (W.setting callers).Standing t s a) (hrun : v.toArrayArg? t s = .ok (some id, s'))
    (he : Extends s'.module W.module) (hx : W.Denotes L a st v (.array l)) :
    ∃ a', (W.setting callers).Crosses t s a st s' a' st ∧ W.Points L a' id l := by
  cases v with
  | void =>
    obtain ⟨hnone, -⟩ := pure_ok.mp hrun
    cases hnone
  | int _ _ | place _ _ => exact hx.elim
  | array addr decayed c =>
    cases decayed with
    | true =>
      obtain ⟨heq, rfl⟩ := pure_ok.mp hrun
      obtain rfl := Option.some.inj heq
      exact ⟨a, .refl hs st, hx⟩
    | false =>
      obtain ⟨zeroId, s₁, hzeroRun, hrun⟩ := bind_ok.mp hrun
      obtain ⟨elem, s₂, helemRun, hrun⟩ := bind_ok.mp hrun
      obtain ⟨heq, rfl⟩ := pure_ok.mp hrun
      obtain rfl := Option.some.inj heq
      obtain ⟨d, ds, hds, hread⟩ := hv
      obtain ⟨hm₁, h₁, hzero⟩ := (yields_integer h 0).ok hzeroRun
      obtain ⟨hm₂, -, -⟩ := (yields_getElemPtr h₁ hds (hm₁.readable hread) hzero).ok helemRun
      obtain ⟨r, hplace, haddr⟩ := hx
      obtain ⟨hcross₁, hzerov⟩ := Setting.crosses_integer hs hzeroRun (hm₂.extends.trans he) st
      obtain ⟨a₂, hcross₂, helem⟩ :=
        Setting.crosses_stride .element h₁ hcross₁.standing helemRun he trivial
        ((hcross₁.read_eq hread).trans haddr) hzerov st
      rw [show (0 : Word).toInt = 0 from rfl, zero_mul, add_zero] at helem
      exact ⟨a₂, hcross₁.trans hcross₂, r, hplace, helem⟩

theorem array_of_toArrayArg (hrun : v.toArrayArg? t s = .ok (some id, s'))
    (hx : W.Denotes L a st v x) (hne : x ≠ .nothing) :
    ∃ l, x = .array l := by
  cases v with
  | void | int _ _ | place _ _ =>
    obtain ⟨hnone, -⟩ := pure_ok.mp hrun
    cases hnone
  | array _ _ _ =>
    cases x with
    | nothing => exact absurd rfl hne
    | number w => exact hx.elim
    | array l => exact ⟨l, rfl⟩

theorem crosses_arg {callee : String} {param : Ty} (h : At t false P s)
    (hv : OperandOk s.module t.func v) (hs : (W.setting callers).Standing t s a)
    (hrun : lowerArg t callee span param v s = .ok (id, s')) (he : Extends s'.module W.module)
    (hx : W.Denotes L a st v x) (hne : x ≠ .nothing) :
    ∃ a' y, (W.setting callers).Crosses t s a st s' a' st ∧ a'.read W.module id = some y ∧
    Passed L x y := by
  unfold lowerArg at hrun
  split at hrun
  · obtain ⟨arg, s₁, harg, hrun⟩ := bind_ok.mp hrun
    cases arg with
    | none => exact (reject_ok.mp hrun).elim
    | some arg =>
      obtain ⟨ty, s₂, hty, hrun⟩ := bind_ok.mp hrun
      obtain ⟨rfl, rfl⟩ := Prod.mk.inj (Except.ok.inj hty)
      split at hrun
      · obtain ⟨rfl, rfl⟩ := pure_ok.mp hrun
        obtain ⟨l, rfl⟩ := array_of_toArrayArg harg hx hne
        obtain ⟨a', hcross, r, hplace, hread⟩ := crosses_toArrayArg h hv hs harg he hx
        exact ⟨a', _, hcross, hread, .array hplace⟩
      · exact (reject_ok.mp hrun).elim
  · have hint : v.toInt t span s = .ok (id, s') := by
      split at hrun
      · exact (reject_ok.mp hrun).elim
      · exact hrun
    cases x with
    | nothing => exact absurd rfl hne
    | number w =>
      obtain ⟨a', hcross, hread⟩ := crosses_toInt h hv hs hint he hx
      exact ⟨a', _, hcross, hread, .number w⟩
    | array l =>
      cases v with
      | array _ _ _ | void => exact (reject_ok.mp hint).elim
      | int _ _ | place _ _ => exact hx.elim

/-! Places. -/

/-- The walk has come to a place. Behind a pointer to the first of many things, the first dimension
is any. -/
def Reaches (W : World) (L : Layout) (a : Activation) (l : Location) : Walk → Prop
  | .inside ptr pointee => pointee = .ofDims l.dims ∧ W.Points L a ptr l
  | .atFirst ptr pointee => (∃ d ds, l.dims = d :: ds ∧ pointee = .ofDims ds) ∧ W.Points L a ptr l

theorem crosses_step {l : Location} {step step' : Walk} {index : ValueId} {i : Word}
    (h : At t false P s) (hok : WalkOk s.module t.func step)
    (hs : (W.setting callers).Standing t s a) (hrun : step.step t index s = .ok (step', s'))
    (he : Extends s'.module W.module) (he₀ : Extends s.module W.module) (hl : W.Reaches L a l step)
    (hdims : l.dims ≠ []) (hindex : a.read W.module index = some (.word i)) :
    ∃ a', (W.setting callers).Crosses t s a st s' a' st ∧ W.Reaches L a' (l.elem i) step' := by
  have haddr (o : Int) (ds : List Nat) : 4 * o + i.toInt * (4 * (product ds : Int)) = 4 *
    (o + i.toInt * product ds) := by ring
  cases step with
  | inside ptr pointee =>
    obtain ⟨rfl, r, hplace, hptr⟩ := hl
    obtain ⟨ds', hds, hpointee, hread⟩ := hok
    obtain rfl := ofDims_inj hpointee
    obtain ⟨d, ds, hcons⟩ := List.exists_cons_of_ne_nil hdims
    obtain ⟨next, s₁, hnextRun, hrun⟩ := bind_ok.mp hrun
    obtain ⟨rfl, rfl⟩ := pure_ok.mp hrun
    obtain ⟨a', hcross, hnext⟩ :=
      Setting.crosses_stride .element h hs hnextRun he trivial hptr hindex st
    have hty : (W.setting callers).module.tyOf ptr = .ptr (.ofDims l.dims) :=
      (he₀.readable hread).tyOf_eq
    rw [hcons] at hty hds
    refine ⟨a', hcross, ?_, r, hplace, ?_⟩
    · rw [hcons, Location.elem, hcons]
      rfl
    · rw [Stride.size, hty, Ty.elem, Ty.ofDims, Ty.elem, size_ofDims hds.tail, haddr] at hnext
      rw [Location.elem, hcons]
      exact hnext
  | atFirst ptr pointee =>
    obtain ⟨⟨d, ds, hcons, rfl⟩, r, hplace, hptr⟩ := hl
    obtain ⟨ds', hds, hpointee, hread⟩ := hok
    obtain rfl := ofDims_inj hpointee
    obtain ⟨next, s₁, hnextRun, hrun⟩ := bind_ok.mp hrun
    obtain ⟨rfl, rfl⟩ := pure_ok.mp hrun
    obtain ⟨a', hcross, hnext⟩ :=
      Setting.crosses_stride .whole h hs hnextRun he trivial hptr hindex st
    have hty : (W.setting callers).module.tyOf ptr = .ptr (.ofDims ds) :=
      (he₀.readable hread).tyOf_eq
    refine ⟨a', hcross, ?_, r, hplace, ?_⟩
    · rw [Location.elem, hcons]
      rfl
    · rw [Stride.size, hty, Ty.elem, size_ofDims hds, haddr] at hnext
      rw [Location.elem, hcons]
      exact hnext

theorem Reaches.stop {l : Location} {step : Walk} (hl : W.Reaches L a l step)
    (hagree : Agree L σ st) (isConst : Bool)
    (hx : if l.dims = [] then ∃ w, σ.read l.object l.offset = some w ∧
      x = .number w else x = .array l) :
    W.Denotes L a st (step.stop isConst) x := by
  cases step with
  | inside ptr pointee =>
    obtain ⟨rfl, r, hplace, hptr⟩ := hl
    cases hdims : l.dims with
    | nil =>
      rw [if_pos (by simp [hdims])] at hx
      obtain ⟨w, hw, rfl⟩ := hx
      exact ⟨r, _, hptr, hagree.read hplace hw⟩
    | cons d ds =>
      rw [if_neg (by simp [hdims])] at hx
      subst hx
      exact ⟨r, hplace, hptr⟩
  | atFirst ptr pointee =>
    obtain ⟨⟨d, ds, hdims, rfl⟩, hpoints⟩ := hl
    rw [if_neg (by simp [hdims])] at hx
    subst hx
    exact hpoints

theorem crosses_name {name : String} {isIndexed : Bool} {c : Bool} {l : Location} {step : Walk}
    (h : At t false P s) (hnames : W.Names L a s.scope env) (hagree : Agree L σ st)
    (hs : (W.setting callers).Standing t s a)
    (hrun : lowerName t span name isIndexed s = .ok (.inr (step, c), s'))
    (he : Extends s'.module W.module) (he₀ : Extends s.module W.module)
    (hname : env name = some (.object l)) :
    ∃ a', (W.setting callers).Crosses t s a st s' a' st ∧ W.Reaches L a' l step := by
  obtain ⟨b, s₁, hresolve, hrun⟩ := bind_ok.mp hrun
  obtain ⟨hb, rfl⟩ := resolve_ok.mp hresolve
  obtain ⟨r, hr, hrefers⟩ := hnames name b hb
  obtain rfl := Option.some.inj (hr.symm.trans hname)
  have hok := h.scope.resolve hb
  cases hrefers with
  | @object ptr _ _ r hx hread hplace hoffset hty =>
    obtain ⟨ty, hptr, -⟩ := hok
    have hty₀ : s.module.tyOf ptr = .ptr (.ofDims l.dims) := by
      rw [hptr.tyOf_eq, ← hty, (he₀.readable hptr).tyOf_eq]
    obtain ⟨pty, s₁, hpty, hrun⟩ := bind_ok.mp hrun
    obtain ⟨rfl, rfl⟩ := Prod.mk.inj (Except.ok.inj hpty)
    have hinside : step = .inside ptr (.ofDims l.dims) ∧ s = s' := by
      rw [hty₀, Ty.elem] at hrun
      cases hdims : l.dims with
      | nil | cons _ _ =>
        rw [hdims] at hrun
        obtain ⟨heq, rfl⟩ := pure_ok.mp hrun
        cases heq
        exact ⟨rfl, rfl⟩
    obtain ⟨rfl, rfl⟩ := hinside
    exact ⟨a, .refl hs st, rfl, r, hplace, by rw [hread, hoffset, mul_zero]⟩
  | @pointer ptr _ _ r₀ r ds hx hread hpin hplace hdims hty =>
    obtain ⟨ty, hptr, -⟩ := hok
    have hty₀ : s.module.tyOf ptr = .ptr (.ptr (.ofDims ds)) := by
      rw [hptr.tyOf_eq, ← hty, (he₀.readable hptr).tyOf_eq]
    obtain ⟨pty, s₁, hpty, hrun⟩ := bind_ok.mp hrun
    obtain ⟨rfl, rfl⟩ := Prod.mk.inj (Except.ok.inj hpty)
    rw [hty₀, Ty.elem] at hrun
    dsimp only at hrun
    obtain ⟨first, s₁, hload, hrun⟩ := bind_ok.mp hrun
    obtain ⟨heq, rfl⟩ := pure_ok.mp hrun
    cases heq
    -- the slot of a parameter of an array type is pinned: nothing is ever stored there again
    have hmem := hagree.pinned _ _ hpin
    have hval : st.load r₀ 0 = some (.addr r (4 * l.offset)) := Store.load_eq (i := 0) hmem
    obtain ⟨a', hcross, hfirst⟩ := Setting.crosses_load h hs hload he trivial hread hval
    exact ⟨a', hcross, ⟨0, ds, hdims, rfl⟩, r, hplace, hfirst⟩

/-! Evaluation with a given amount of fuel. -/

def Evaluates (W : World) (t : Target) (scope : Scope Binding) (lo : Nat) (a₀ : Activation)
    (L : Layout) (e : Expr) (st : Store) (x : Value) (σ' : Memory) : Prop :=
  ∀ callers, (W.setting callers).Delivers t scope lo a₀ e st fun v a' st' =>
    W.Denotes L a' st' v x ∧ Tracks L σ' st st'

def EvalOk (W : World) (n : Nat) : Prop :=
  ∀ ⦃t scope lo a₀ env L σ st e x σ'⦄, W.Fits t scope lo a₀ env L σ st →
    eval W.lib W.globals n env e σ = some (x, σ') → W.Evaluates t scope lo a₀ L e st x σ'

def Returns (W : World) (g : FuncId) (ys : List Val) (L : Layout) (st : Store) (r : Option Word)
    (σ' : Memory) : Prop :=
  ∃ fn, W.module.func? g = some fn ∧ fn.isDeclared = false ∧ ∀ callers, ∃ b st' id val result,
    (W.setting callers).Leads (.running (.enter fn ys) callers st) (.running b callers st') ∧
      b.func = g ∧ b.block = fn.exit ∧
    b.rest = [id] ∧ W.module.node? id = some (.ret val) ∧ val.mapM (b.read W.module) = some result ∧
    (∀ w, r = some w → result = some (.word w)) ∧ (fn.ret = .unit → result = none) ∧
      Tracks L σ' st (st'.free b.locals)

def CallOk (W : World) (n : Nat) : Prop :=
  ∀ ⦃g d xs ys L σ st r σ'⦄, W.code g d → call W.lib W.globals n d xs σ = some (r, σ') →
    List.Forall₂ (Passed L) xs ys → (base W.module).Within L → Agree L σ st →
      W.Returns g ys L st r σ'

theorem Evaluates.computes (h : W.Evaluates t scope lo a₀ L e st (.number w) σ')
    (callers : List Activation) (hi : Nat) :
    (W.setting callers).Computes t scope lo hi a₀ e st fun w' st' =>
      w' = w ∧ Tracks L σ' st st' := by
  intro P s id s' a hat hscope hrun hlo hhi he hs hkept
  obtain ⟨v, s₁, hrun₁, hrun₂⟩ := bind_ok.mp hrun
  obtain ⟨hm₁, h₁, hv⟩ := (yields_lowerExpr hat e).ok hrun₁
  obtain ⟨hm₂, -, -⟩ := (yields_toInt h₁ hv e.span).ok hrun₂
  obtain ⟨a₁, st₁, hcross₁, hx, htracks⟩ :=
    h callers hat hscope hrun₁ hlo (hm₂.extends.trans he) hs hkept
  obtain ⟨a₂, hcross₂, hread⟩ := crosses_toInt h₁ hv hcross₁.standing hrun₂ he hx
  exact ⟨a₂, st₁, w, hcross₁.trans hcross₂, hread, rfl, htracks⟩

theorem EvalOk.number (hev : W.EvalOk n) (hfits : W.Fits t scope lo a₀ env L σ st)
    (h : number (eval W.lib W.globals n env) e σ = some (w, σ')) (callers : List Activation)
    (hi : Nat) :
    (W.setting callers).Computes t scope lo hi a₀ e st fun w' st' => w' = w ∧ Tracks L σ' st st' :=
  (hev hfits (number_some.mp h)).computes callers hi

theorem evaluates_of_computes (hint : Always (lowerExpr t e) Operand.IsInt)
    (h : ∀ callers, (W.setting callers).Computes t scope lo W.module.values.size a₀ e st
      fun w' st' => w' = w ∧ Tracks L σ' st st') :
    W.Evaluates t scope lo a₀ L e st (.number w) σ' := by
  intro callers P s v s' a hat hscope hrun hlo he hs hkept
  obtain ⟨id, c, rfl⟩ := hint s v s' hrun
  obtain ⟨a', st', _, hcross, hread, rfl, htracks⟩ :=
    h callers hat hscope (bind_ok.mpr ⟨_, _, hrun, rfl⟩) hlo
    he.size_values he hs hkept
  exact ⟨a', st', hcross, hread, htracks⟩

theorem crosses_indices (hev : W.EvalOk n) (name : String) :
    ∀ (es : List Expr) {P : Set Nat} {s s' : State}
    {step step' : Walk} {a : Activation} {l l' : Location} {σ σ' : Memory} {st : Store},
    W.Fits t scope lo a₀ env L σ st → At t false P s → s.scope = scope →
    lowerIndices t span name step es s = .ok (step', s') → lo ≤ s.module.values.size →
    Extends s'.module W.module →
    (W.setting callers).Standing t s a → Kept W.module lo a₀ a → WalkOk s.module t.func step →
    W.Reaches L a l step → walk (number (eval W.lib W.globals n env)) l es σ = some (l', σ') →
    ∃ a' st', (W.setting callers).Crosses t s a st s' a' st' ∧ W.Reaches L a' l' step' ∧
    Tracks L σ' st st'
  | [], P, s, s', step, step', a, l, l', σ, σ', st, hfits, hat, hscope, hrun, hlo, he, hs, hkept,
      hok, hl, hwalk => by
    rw [lowerIndices] at hrun
    obtain ⟨rfl, rfl⟩ := pure_ok.mp hrun
    obtain ⟨rfl, rfl⟩ := pure_some.mp hwalk
    exact ⟨a, st, .refl hs st, hl, .refl hfits.agree⟩
  | e :: es, P, s, s', step, step', a, l, l', σ, σ', st, hfits, hat, hscope, hrun, hlo, he, hs,
      hkept, hok, hl, hwalk => by
    obtain ⟨hdims, i, σ₁, hi, hwalk⟩ := walk_cons.mp hwalk
    rw [lowerIndices] at hrun
    split at hrun
    swap
    · exact (reject_ok.mp hrun).elim
    rename_i hstep
    obtain ⟨_, _, hindex₁, hrun⟩ := bind_ok.mp hrun
    obtain ⟨index, s₁, hindex₂, hrun⟩ := bind_ok.mp hrun
    have hindexRun : lowerScalar t e s = .ok (index, s₁) := bind_ok.mpr ⟨_, _, hindex₁, hindex₂⟩
    obtain ⟨next, s₂, hnextRun, hrun⟩ := bind_ok.mp hrun
    obtain ⟨hm₁, h₁, hindex⟩ := (yields_lowerScalar hat e).ok hindexRun
    obtain ⟨hm₂, h₂, hok₂⟩ := (yields_step h₁ (hok.extends hm₁.extends) hstep hindex).ok hnextRun
    obtain ⟨hm₃, -, -⟩ := (yields_lowerIndices h₂ span name es hok₂).ok hrun
    have he₂ := hm₃.extends.trans he
    have he₁ := hm₂.extends.trans he₂
    obtain ⟨a₁, st₁, _, hcross₁, hread, rfl, htracks₁⟩ :=
      hev.number hfits hi callers s₁.module.values.size hat hscope
      hindexRun hlo le_rfl he₁ hs hkept
    have hl₁ : W.Reaches L a₁ l step := by
      cases step with
      | inside ptr pointee | atFirst ptr pointee =>
        obtain ⟨hshape, r, hplace, hptr⟩ := hl
        obtain ⟨ds, -, -, hread⟩ := hok
        exact ⟨hshape, r, hplace, (hcross₁.read_eq hread).trans hptr⟩
    obtain ⟨a₂, hcross₂, hl₂⟩ :=
      crosses_step h₁ (hok.extends hm₁.extends) hcross₁.standing hnextRun he₂ he₁ hl₁ hdims hread
    have hcross := hcross₁.trans hcross₂
    obtain ⟨a₃, st₃, hcross₃, hl₃, htracks₃⟩ :=
      crosses_indices hev name es (hfits.later htracks₁) h₂
      ((hm₁.trans hm₂).scope.trans hscope) hrun (hlo.trans hcross.size) he hcross.standing
        (hkept.trans hcross.kept hlo)
      hok₂ hl₂ hwalk
    exact ⟨a₃, st₃, hcross.trans hcross₃, hl₃, htracks₃.after htracks₁.stays⟩

theorem evaluates_const {name : String} (hfits : W.Fits t scope lo a₀ env L σ st)
    (hname : scope.resolve name = .ok (.const w)) :
    W.Evaluates t scope lo a₀ L (.lval span name []) st (.number w) σ := by
  intro callers P s v s' a hat hscope hrun hlo he hs hkept
  subst hscope
  rw [lowerExpr] at hrun
  obtain ⟨r, s₁, hrun, hrest⟩ := bind_ok.mp hrun
  rw [lowerName, run_bind (resolve_ok.mpr ⟨hname, rfl⟩)] at hrun
  obtain ⟨id, s₁, hbuild, hpure⟩ := bind_ok.mp hrun
  obtain ⟨rfl, rfl⟩ := pure_ok.mp hpure
  obtain ⟨rfl, rfl⟩ := pure_ok.mp hrest
  obtain ⟨hcross, hread⟩ := Setting.crosses_integer hs hbuild he st
  exact ⟨a, st, hcross, hread, .refl hfits.agree⟩

theorem crosses_lval {name : String} {indices : List Expr} {l l' : Location} (hev : W.EvalOk n)
    (hfits : W.Fits t scope lo a₀ env L σ st) (hname : env name = some (.object l))
    (hwalk : walk (number (eval W.lib W.globals n env)) l indices σ = some (l', σ'))
    (hat : At t false P s) (hscope : s.scope = scope)
    (hrun : lowerExpr t (.lval span name indices) s = .ok (v, s')) (hlo : lo ≤ s.module.values.size)
    (he : Extends s'.module W.module) (hs : (W.setting callers).Standing t s a)
    (hkept : Kept W.module lo a₀ a) :
    ∃ a' st' step c, (W.setting callers).Crosses t s a st s' a' st' ∧ W.Reaches L a' l' step ∧
      v = step.stop c ∧ Tracks L σ' st st' := by
  rw [lowerExpr] at hrun
  obtain ⟨r, s₁, hnameRun, hrun⟩ := bind_ok.mp hrun
  obtain ⟨hm₁, h₁, hr⟩ := (yields_lowerName hat span name _).ok hnameRun
  cases r with
  | inl v =>
    -- only a constant is known without a walk
    obtain ⟨b, s₂, hresolve, hnameRun⟩ := bind_ok.mp hnameRun
    obtain ⟨hb, rfl⟩ := resolve_ok.mp hresolve
    obtain ⟨r, hr, hrefers⟩ := hfits.names name b (hscope ▸ hb)
    obtain rfl := Option.some.inj (hr.symm.trans hname)
    cases hrefers with
    | object _ _ _ _ _ | pointer _ _ _ _ _ _ =>
      obtain ⟨ty, s₂, -, hnameRun⟩ := bind_ok.mp hnameRun
      cases helem : ty.elem with
      | ptr pointee =>
        rw [helem] at hnameRun
        obtain ⟨_, _, -, hpure⟩ := bind_ok.mp hnameRun
        cases (pure_ok.mp hpure).1
      | _ =>
        rw [helem] at hnameRun
        cases (pure_ok.mp hnameRun).1
  | inr p =>
    obtain ⟨step, c⟩ := p
    obtain ⟨step', s₂, hindices, hpure⟩ := bind_ok.mp hrun
    obtain ⟨rfl, rfl⟩ := pure_ok.mp hpure
    have hok := hr.2 step c rfl
    obtain ⟨hm₂, -, -⟩ := (yields_lowerIndices h₁ span name indices hok).ok hindices
    have he₁ := hm₂.extends.trans he
    have hnames : W.Names L a s.scope env := hscope ▸ hfits.names.kept hkept
    obtain ⟨a₁, hcross₁, hl₁⟩ :=
      crosses_name hat hnames hfits.agree hs hnameRun he₁ (hm₁.extends.trans he₁) hname
    obtain ⟨a₂, st₂, hcross₂, hl₂, htracks⟩ :=
      crosses_indices hev name indices hfits h₁ (hm₁.scope.trans hscope) hindices
      (hlo.trans hcross₁.size) he hcross₁.standing (hkept.trans hcross₁.kept hlo) hok hl₁ hwalk
    exact ⟨a₂, st₂, step', c, hcross₁.trans hcross₂, hl₂, rfl, htracks⟩

/-- The name in front of indices is known, if code is made for it. -/
theorem exists_of_lval {name : String} {indices : List Expr}
    (hrun : lowerExpr t (.lval span name indices) s = .ok (v, s')) :
    ∃ b, s.scope.resolve name = .ok b := by
  rw [lowerExpr] at hrun
  obtain ⟨r, s₁, hrun, -⟩ := bind_ok.mp hrun
  obtain ⟨b, s₂, hresolve, -⟩ := bind_ok.mp hrun
  exact ⟨b, (resolve_ok.mp hresolve).1⟩

theorem evaluates_lval {name : String} {indices : List Expr} (hev : W.EvalOk n)
    (hfits : W.Fits t scope lo a₀ env L σ st)
    (h : eval W.lib W.globals (n + 1) env (.lval span name indices) σ = some (x, σ')) :
    W.Evaluates t scope lo a₀ L (.lval span name indices) st x σ' := by
  intro callers P s v s' a hat hscope hrun hlo he hs hkept
  rcases eval_lval h with ⟨w, hname, rfl, rfl, rfl⟩ | ⟨l, l', hname, hwalk, hx⟩
  · obtain ⟨b, hb⟩ := exists_of_lval hrun
    obtain ⟨r, hr, hrefers⟩ := hfits.names name b (hscope ▸ hb)
    obtain rfl := Option.some.inj (hr.symm.trans hname)
    cases hrefers
    exact evaluates_const hfits (hscope ▸ hb) callers hat hscope hrun hlo he hs hkept
  · obtain ⟨a', st', step, c, hcross, hl, rfl, htracks⟩ :=
      crosses_lval hev hfits hname hwalk hat hscope hrun hlo he hs hkept
    exact ⟨a', st', hcross, hl.stop htracks.agree c hx, htracks⟩

theorem crosses_args (hev : W.EvalOk n) (callee : String) :
    ∀ (ps : List Ty) (es : List Expr) {P : Set Nat} {s s' : State}
    {ids : List ValueId} {a : Activation} {xs : List Value} {σ σ' : Memory} {st : Store},
    es.length = ps.length →
    (∀ ty ∈ ps, ty.IsParam) → W.Fits t scope lo a₀ env L σ st → At t false P s → s.scope = scope →
    lowerArgs t callee ps es s = .ok (ids, s') → lo ≤ s.module.values.size →
    Extends s'.module W.module → (W.setting callers).Standing t s a → Kept W.module lo a₀ a →
    es.mapM (argument (eval W.lib W.globals n env)) σ = some (xs, σ') →
    ∃ a' st' ys, (W.setting callers).Crosses t s a st s' a' st' ∧
    ids.mapM (a'.read W.module) = some ys ∧
      List.Forall₂ (Passed L) xs ys ∧ Tracks L σ' st st'
  | [], [], P, s, s', ids, a, xs, σ, σ', st, hlen, hps, hfits, hat, hscope, hrun, hlo, he, hs,
      hkept, hargs => by
    rw [lowerArgs] at hrun
    · obtain ⟨rfl, rfl⟩ := pure_ok.mp hrun
      obtain ⟨rfl, rfl⟩ := pure_some.mp hargs
      exact ⟨a, st, [], .refl hs st, rfl, .nil, .refl hfits.agree⟩
    · simp
  | [], _ :: _, P, s, s', ids, a, xs, σ, σ', st, hlen, hps, hfits, hat, hscope, hrun, hlo, he, hs,
      hkept, hargs => by cases hlen
  | _ :: _, [], P, s, s', ids, a, xs, σ, σ', st, hlen, hps, hfits, hat, hscope, hrun, hlo, he, hs,
      hkept, hargs => by cases hlen
  | p :: ps, e :: es, P, s, s', ids, a, xs, σ, σ', st, hlen, hps, hfits, hat, hscope, hrun, hlo, he,
      hs, hkept, hargs => by
    rw [List.mapM_cons] at hargs
    obtain ⟨x, σ₁, hx, hargs⟩ := bind_some.mp hargs
    obtain ⟨xs, σ₂, hxs, hargs⟩ := bind_some.mp hargs
    obtain ⟨rfl, rfl⟩ := pure_some.mp hargs
    obtain ⟨hx, hne⟩ := argument_some.mp hx
    rw [lowerArgs] at hrun
    obtain ⟨v, s₁, hvRun, hrun⟩ := bind_ok.mp hrun
    obtain ⟨id, s₂, hidRun, hrun⟩ := bind_ok.mp hrun
    obtain ⟨ids, s₃, hidsRun, hrun⟩ := bind_ok.mp hrun
    obtain ⟨rfl, rfl⟩ := pure_ok.mp hrun
    have hlen' : es.length = ps.length := by simpa using hlen
    have hps' : ∀ ty ∈ ps, ty.IsParam := fun ty hty => hps ty (List.mem_cons_of_mem _ hty)
    obtain ⟨hm₁, h₁, hv⟩ := (yields_lowerExpr hat e).ok hvRun
    obtain ⟨hm₂, h₂, hid⟩ :=
      (yields_lowerArg h₁ hv (hps p (List.mem_cons_self ..)) callee e.span).ok hidRun
    obtain ⟨hm₃, -, -⟩ := (yields_lowerArgs h₂ callee ps es hlen' hps').ok hidsRun
    have he₂ := hm₃.extends.trans he
    obtain ⟨a₁, st₁, hcross₁, hx₁, htracks₁⟩ :=
      hev hfits hx callers hat hscope hvRun hlo (hm₂.extends.trans he₂) hs hkept
    obtain ⟨a₂, y, hcross₂, hy, hpassed⟩ := crosses_arg h₁ hv hcross₁.standing hidRun he₂ hx₁ hne
    have hcross := hcross₁.trans hcross₂
    obtain ⟨a₃, st₃, ys, hcross₃, hys, hpasseds, htracks₃⟩ :=
      crosses_args hev callee ps es hlen' hps' (hfits.later htracks₁)
      h₂ ((hm₁.trans hm₂).scope.trans hscope) hidsRun (hlo.trans hcross.size) he hcross.standing
      (hkept.trans hcross.kept hlo) hxs
    have hy₃ := (hcross₃.read_eq hid).trans hy
    refine ⟨a₃, st₃, y :: ys, hcross.trans hcross₃, ?_, .cons hpassed hpasseds,
      htracks₃.after htracks₁.stays⟩
    have hy₃' : a₃.read W.module id = some y := hy₃
    simp [List.mapM_cons, hy₃', hys]

end World

/-- The library does for a run what it does for an evaluation. -/
theorem serve_agrees {lib : Library} {k : Service} {xs : List Value} {ys : List Val}
    (hpassed : List.Forall₂ (Passed L) xs ys) (hagree : Agree L σ st)
    (h : serve lib k xs σ = some (x, σ')) : ∃ result st', lib.serve st k ys = some (result, st') ∧
      Tracks L σ' st st' ∧ (x = .nothing ∨ ∃ w, x = .number w ∧ result = some (.word w)) := by
  have htrace := hagree.trace
  have hrecord (name : String) (args : List Word) : Tracks L (σ.record name args) st
    (st.record name args) :=
    ⟨hagree.record name args, le_rfl, fun r vals hr => ⟨vals, hr, rfl⟩⟩
  cases served_of_serve h with
  | @number k w hread =>
    cases hpassed
    refine ⟨some (.word w), _, ?_, hrecord k.name [], .inr ⟨w, rfl, rfl⟩⟩
    rcases hread with ⟨rfl, hw⟩ | ⟨rfl, hw⟩ <;> simp [Library.serve, htrace, hw, Service.name]
  | @put k w hk =>
    obtain _ | ⟨⟨⟩, ⟨⟩⟩ := hpassed
    refine ⟨none, _, ?_, hrecord k.name [w], .inl rfl⟩
    rcases hk with rfl | rfl <;> rfl
  | clock hk =>
    cases hpassed
    refine ⟨none, _, ?_, hrecord k.name [], .inl rfl⟩
    rcases hk with rfl | rfl <;> rfl
  | array hread hwrite =>
    obtain _ | ⟨_ | hplace, ⟨⟩⟩ := hpassed
    obtain ⟨st₁, hst₁, hagree₁, hstays₁⟩ := hagree.writeWords hplace hwrite
    refine ⟨_, _, ?_, ⟨hagree₁.record "getarray" [],
      hstays₁.trans ⟨le_rfl, fun r vals hr => ⟨vals, hr, rfl⟩⟩⟩,
      .inr ⟨_, rfl, rfl⟩⟩
    simp [Library.serve, htrace, hread, hst₁]
  | putArray hread =>
    obtain _ | ⟨⟨⟩, _ | ⟨_ | hplace, ⟨⟩⟩⟩ := hpassed
    exact ⟨none, _, by simp [Library.serve, hagree.readWords hplace hread], hrecord _ _, .inl rfl⟩

namespace World

theorem slot_tracks (callers : List Activation) (hfits : W.Fits t scope lo a₀ env L σ st)
    {y : ValueId} (hlo : lo < y) (hy : IsLocal W.module t.func y)
    (hty : W.module.tyOf y = .ptr .i32) :
    ∃ r, ∀ σ', (W.setting callers).Slot (Tracks L σ' st) a₀ y r := by
  obtain ⟨r, vals, henv, hspare, hmem, hlen⟩ := hfits.room.slot y ⟨hy, .inl hlo⟩
  rw [hty] at hlen
  have hpos : 0 < vals.length := by
    rw [hlen]
    decide
  refine ⟨r, fun σ' => ⟨(a₀.read_alloc hy.node).trans henv, fun st₁ w ht => ?_, fun _ => trivial⟩⟩
  obtain ⟨vals₁, st', -, hlen₁, hstore, hmem', ht'⟩ := ht.scratch hspare hmem hpos (.word w)
  refine ⟨st', hstore, ?_, ht'⟩
  exact (Store.load_eq (i := 0) hmem').trans (List.getElem?_set_self (hlen₁ ▸ hpos))

theorem evaluates_unary {op : UnaryOp} (hev : W.EvalOk n) (hfits : W.Fits t scope lo a₀ env L σ st)
    (h : eval W.lib W.globals (n + 1) env (.unary span op e) σ = some (x, σ')) :
    W.Evaluates t scope lo a₀ L (.unary span op e) st x σ' := by
  obtain ⟨y, hy, rfl⟩ := eval_unary h
  refine evaluates_of_computes (always_unary t span op e) fun callers =>
    Setting.computes_unary (W.lenient callers) ((hev.number hfits hy callers _).mono ?_)
  rintro w st' ⟨rfl, ht⟩
  exact ⟨rfl, ht⟩

theorem evaluates_binary {op : BinaryOp} {l r : Expr} (hev : W.EvalOk n)
    (hfits : W.Fits t scope lo a₀ env L σ st)
    (h : eval W.lib W.globals (n + 1) env (.binary span op l r) σ = some (x, σ')) :
    W.Evaluates t scope lo a₀ L (.binary span op l r) st x σ' := by
  obtain ⟨y, σ₁, w, hy, rfl, hcases⟩ := eval_binary h
  refine evaluates_of_computes (always_binary t span op l r) fun callers => ?_
  have hl := hev.number hfits hy callers W.module.values.size
  cases hop : op.isLogical with
  | true =>
    refine Setting.computes_logical (J := Tracks L σ' st) (W.lenient callers) hop hl
      (fun v hv => ?_) (fun hnone st₁ ht₁ => ?_)
      fun z hlo _ hz hty => ?_
    · rcases hcases with ⟨hshort, rfl⟩ | ⟨hnone, -⟩
      · exact ⟨Option.some.inj (hv.symm.trans hshort), fun _ ht => ht⟩
      · rw [hnone] at hv
        cases hv
    · rcases hcases with ⟨hshort, -⟩ | ⟨-, z, hz, hw⟩
      · rw [hnone] at hshort
        cases hshort
      · refine (hev.number (hfits.later ht₁) hz callers _).mono ?_
        rintro _ st₂ ⟨rfl, ht₂⟩
        exact ⟨hw, ht₂.after ht₁.stays⟩
    · obtain ⟨region, hslot⟩ := slot_tracks callers hfits hlo hz hty
      exact ⟨trivial, region, hslot σ₁, hslot σ'⟩
  | false =>
    refine Setting.computes_arith (W.lenient callers) hop hl ?_
    rintro _ st₁ ⟨rfl, ht₁⟩
    rcases hcases with ⟨hshort, -⟩ | ⟨-, z, hz, hw⟩
    · rw [shortcut?_of_not_logical hop] at hshort
      cases hshort
    · refine (hev.number (hfits.later ht₁) hz callers _).mono ?_
      rintro _ st₂ ⟨rfl, ht₂⟩
      exact ⟨w, hw, rfl, ht₂.after ht₁.stays⟩

theorem crosses_user {g : FuncId} {ids : List ValueId} {ys : List Val} {r : Option Word}
    (h : At t false P s) (hs : (W.setting callers).Standing t s a)
    (hrun : build (Build.call t.func g ids) s = .ok (id, s')) (he : Extends s'.module W.module)
    (hys : ids.mapM (a.read W.module) = some ys) (hreturns : W.Returns g ys L st r σ') :
    ∃ a' st', (W.setting callers).Crosses t s a st s' a' st' ∧
    (∀ w, r = some w → a'.read W.module id = some (.word w)) ∧
      Tracks L σ' st st' := by
  obtain ⟨fn, hfn, hdecl, hreturns⟩ := hreturns
  obtain ⟨b, st₁, rid, val, result, hleads, -, -, hrest, hnode, hresult, hr, -, ht⟩ :=
    hreturns (a :: callers)
  obtain ⟨a', hcross, hread⟩ := Setting.crosses_inst st (st₁.free b.locals) result h hs hrun rfl he
    ⟨rfl, rfl, by simp⟩ fun rest harest hcall => by
      have henter : Ir.exec W.module W.lib id { a with rest } callers st (.call g ids) =
          some (.running (.enter fn ys) (a :: callers) st) := by
        have hys' : ids.mapM (({ a with rest } : Activation).read W.module) = some ys := hys
        simp [Ir.exec, hys', hfn, hdecl, Activation.rest_self a harest]
      have hret : Ir.exec W.module W.lib rid { b with rest := [] } (a :: callers) st₁ (.ret val) =
          some (.running (({ a with rest } : Activation).give id result) callers
            (st₁.free b.locals)) := by
        have hresult' : val.mapM (({ b with rest := [] } : Activation).read W.module) =
          some result := hresult
        simp only [Ir.exec, hresult', Option.bind_eq_bind, Option.bind_some, Activation.resume,
          harest, Activation.give_withRest]
        rfl
      have hstart : (W.setting callers).Leads (.running a callers st)
        (.running (.enter fn ys) (a :: callers) st) :=
        .next harest hcall (by simp) trivial henter
      exact (hstart.trans hleads).trans (Setting.Leads.next hrest hnode (by simp) trivial hret)
  refine ⟨a', _, hcross, fun w hw => hread _ (hr w hw), ht⟩

theorem crosses_service {g : FuncId} {fn : Func} {k : Service} {ids : List ValueId}
    {xs : List Value} {ys : List Val} (h : At t false P s) (hs : (W.setting callers).Standing t s a)
    (hrun : build (Build.call t.func g ids) s = .ok (id, s')) (he : Extends s'.module W.module)
    (hys : ids.mapM (a.read W.module) = some ys) (hfn : W.module.func? g = some fn)
    (hdecl : fn.isDeclared = true) (hk : Service.ofName? fn.name = some k)
    (hpassed : List.Forall₂ (Passed L) xs ys) (hagree : Agree L σ st)
    (hserve : serve W.lib k xs σ = some (x, σ')) :
    ∃ a' st', (W.setting callers).Crosses t s a st s' a' st' ∧
      (x = .nothing ∨ ∃ w, x = .number w ∧ a'.read W.module id = some (.word w)) ∧
      Tracks L σ' st st' := by
  obtain ⟨result, st', hserved, ht, hx⟩ := serve_agrees hpassed hagree hserve
  obtain ⟨a', hcross, hread⟩ := Setting.crosses_emit st st' result h hs hrun rfl he trivial
    ⟨rfl, rfl, by simp⟩ fun rest => by
      have hys' : ids.mapM (({ a with rest } : Activation).read W.module) = some ys := hys
      change Ir.exec W.module W.lib id { a with rest } callers st (.call g ids) = _
      simp only [Ir.exec, hys', hfn, Option.bind_eq_bind, Option.bind_some, if_pos hdecl,
        hk, hserved]
      rfl
  refine ⟨a', st', hcross, hx.imp_right ?_, ht⟩
  rintro ⟨w, hw, hresult⟩
  exact ⟨w, hw, hread _ hresult⟩

theorem call_ok {name : String} {args : List Expr}
    (h : lowerExpr t (.call span name args) s = .ok (v, s')) :
    ∃ g callee ids s₁ id, s.scope.resolve name = .ok (.func g) ∧ s.module.func? g = some callee ∧
      args.length = callee.params.length ∧ lowerArgs t name callee.params args s = .ok (ids, s₁) ∧
      build (Build.call t.func g ids) s₁ = .ok (id, s') ∧ v = if callee.ret.isUnit then .void
        else .int id false := by
  rw [lowerExpr] at h
  obtain ⟨b, s₀, hresolve, h⟩ := bind_ok.mp h
  obtain ⟨hb, rfl⟩ := resolve_ok.mp hresolve
  cases b with
  | const _ | var _ _ => exact (reject_ok.mp h).elim
  | func g =>
    obtain ⟨s₀, s₁, hget, h⟩ := bind_ok.mp h
    obtain ⟨rfl, rfl⟩ := Prod.mk.inj (Except.ok.inj hget)
    cases hg : s.module.func? g with
    | none =>
      rw [hg] at h
      exact (reject_ok.mp h).elim
    | some callee =>
      rw [hg] at h
      dsimp only at h
      split at h
      · exact (reject_ok.mp h).elim
      · rename_i hlen
        obtain ⟨ids, s₁, hids, h⟩ := bind_ok.mp h
        obtain ⟨id, s₂, hcall, h⟩ := bind_ok.mp h
        refine ⟨g, callee, ids, s₁, id, hb, hg, not_not.mp hlen, hids, ?_⟩
        split at h
        · obtain ⟨rfl, rfl⟩ := pure_ok.mp h
          exact ⟨hcall, by rw [if_pos ‹_›]⟩
        · obtain ⟨rfl, rfl⟩ := pure_ok.mp h
          exact ⟨hcall, by rw [if_neg ‹_›]⟩

theorem evaluates_call {name : String} {args : List Expr} (hev : W.EvalOk n) (hcall : W.CallOk n)
    (hfits : W.Fits t scope lo a₀ env L σ st)
    (h : eval W.lib W.globals (n + 1) env (.call span name args) σ = some (x, σ')) :
    W.Evaluates t scope lo a₀ L (.call span name args) st x σ' := by
  intro callers P s v s' a hat hscope hrun hlo he hs hkept
  obtain ⟨xs, σ₁, hxs, hcases⟩ := eval_call h
  obtain ⟨g, callee, ids, s₁, id, hname, hg, hlen, hidsRun, hcallRun, rfl⟩ := call_ok hrun
  obtain ⟨callee₀, hg₀, hcallable⟩ := hat.scope.resolve hname
  obtain rfl := Option.some.inj (hg.symm.trans hg₀)
  obtain ⟨hm₁, h₁, hids⟩ :=
    (yields_lowerArgs hat name callee.params args hlen hcallable.params).ok hidsRun
  obtain ⟨callee₁, hg₁, hb₁⟩ := hm₁.extends.func hg
  rw [← hb₁.params] at hids
  obtain ⟨hm₂, -, -⟩ := (yields_call h₁ hg₁ hids).ok hcallRun
  obtain ⟨a₁, st₁, ys, hcross₁, hys, hpassed, ht₁⟩ :=
    crosses_args hev name callee.params args hlen hcallable.params hfits hat
    hscope hidsRun hlo (hm₂.extends.trans he) hs hkept hxs
  obtain ⟨r, hr, hrefers⟩ := hfits.names name _ (hscope ▸ hname)
  have hdenotes {a' : Activation} {st' : Store} (hx : x = .nothing ∨ ∃ w, x = .number w ∧
    a'.read W.module id = some (.word w)) :
      W.Denotes L a' st' (if callee.ret.isUnit then .void else .int id false) x := by
    split
    · trivial
    · rcases hx with rfl | ⟨w, rfl, hw⟩
      · trivial
      · exact hw
  rcases hcases with ⟨d, r', hd, hcalled, rfl⟩ | ⟨k, hk, hserve⟩
  · obtain rfl := Option.some.inj (hr.symm.trans hd)
    cases hrefers with
    | func hcode =>
      obtain ⟨a₂, st₂, hcross₂, hread, ht₂⟩ := crosses_user h₁ hcross₁.standing hcallRun he hys
        (hcall hcode hcalled hpassed hfits.base ht₁.agree)
      refine ⟨a₂, st₂, hcross₁.trans hcross₂, hdenotes ?_, ht₂.after ht₁.stays⟩
      cases r' with
      | none => exact .inl rfl
      | some w => exact .inr ⟨w, rfl, hread w rfl⟩
  · obtain rfl := Option.some.inj (hr.symm.trans hk)
    cases hrefers with
    | service hfn hdecl hname =>
      obtain ⟨a₂, st₂, hcross₂, hx, ht₂⟩ :=
        crosses_service h₁ hcross₁.standing hcallRun he hys hfn hdecl hname hpassed
        ht₁.agree hserve
      exact ⟨a₂, st₂, hcross₁.trans hcross₂, hdenotes hx, ht₂.after ht₁.stays⟩

theorem EvalOk.succ (hev : W.EvalOk n) (hcall : W.CallOk n) : W.EvalOk (n + 1) := by
  intro t scope lo a₀ env L σ st e x σ' hfits h
  cases e with
  | lit span w =>
    rw [eval] at h
    obtain ⟨rfl, rfl⟩ := pure_some.mp h
    refine evaluates_of_computes ?_ fun callers => (Setting.computes_lit span w st).mono ?_
    · rw [lowerExpr]
      exact .bind fun id => .pure (Operand.isInt_int id false)
    · rintro _ st' ⟨rfl, rfl⟩
      exact ⟨rfl, .refl hfits.agree⟩
  | lval span name indices => exact evaluates_lval hev hfits h
  | unary span op e => exact evaluates_unary hev hfits h
  | binary span op l r => exact evaluates_binary hev hfits h
  | call span name args => exact evaluates_call hev hcall hfits h

theorem EvalOk.zero : W.EvalOk 0 := by
  intro t scope lo a₀ env L σ st e x σ' hfits h
  rw [eval] at h
  exact (failure_some.mp h).elim

end World

end Sysy.Meaning
