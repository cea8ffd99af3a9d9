import Sysy.Proofs.Lowering.Control
import Sysy.Proofs.Meaning.Declarations

/-!
The code of a statement does what its evaluation does. When the statement ends normally, the run is
behind its code; otherwise the run has left for the block that the statement leaves for.
-/

namespace Sysy.Meaning
open Ir Lowering

variable {W : World} {L L' : Layout} {t : Target} {loops : List Loop} {scope : Scope Binding}
  {lo n k : Nat} {P : Set Nat}
  {s s' s₁ : State} {a a' a₁ : Activation} {st st' st₁ : Store} {σ σ' σ₁ : Memory} {env env' : Env}
    {span : Span}
  {callers : List Activation} {out : Outcome} {behind : Option BlockId} {bb after : BlockId}
    {test : Expr} {x body : Stmt}

/-! A statement other than a declaration leaves the names as they are, if it is plain. -/

theorem scope_of_arm
    (hstmt : ∀ {P : Set Nat} {s s' : State}, At t false P s → LoopsOk s.module t.func loops →
      lowerStmt t loops x s = .ok ((), s') → s'.scope = s.scope)
    (h : Arm t loops bb after x s s') : s'.scope = s.scope := by
  obtain ⟨s₁, s₂, id, P, -, hm₁, h₁, hloops₁, hrun, -, -, hm₂⟩ := h.steps
  exact hm₂.scope.trans ((hstmt h₁ hloops₁ hrun).trans hm₁.scope)

theorem scope_lowerStmt {loops : List Loop} {P : Set Nat} {s s' : State} (h : At t false P s)
    (hloops : LoopsOk s.module t.func loops) : ∀ x : Stmt, isPlain x = true → isDecl x = false →
    lowerStmt t loops x s = .ok ((), s') → s'.scope = s.scope
  | .block _ ss, _, _, hrun => by
    rw [lowerStmt] at hrun
    obtain ⟨⟨⟩, s₁, henter, hrun⟩ := bind_ok.mp hrun
    obtain ⟨⟨⟩, s₂, hss, hexit⟩ := bind_ok.mp hrun
    obtain rfl := (Prod.mk.inj (Except.ok.inj henter)).2
    obtain rfl := (Prod.mk.inj (Except.ok.inj hexit)).2
    exact ((lasts_lowerStmts h.enter hloops ss).ok hss).1.exit_eq
  | .decl _ _, _, hdecl, _ => by cases hdecl
  | .assign _ _ _ _ _, _, _, hrun => (moves_assign h hrun).scope
  | .expr _ none, _, _, hrun => by
    rw [lowerStmt] at hrun
    obtain ⟨-, rfl⟩ := pure_ok.mp hrun
    rfl
  | .expr _ (some e), _, _, hrun => by
    rw [lowerStmt] at hrun
    obtain ⟨_, s₁, hv, hpure⟩ := bind_ok.mp hrun
    obtain ⟨-, rfl⟩ := pure_ok.mp hpure
    exact ((yields_lowerExpr h e).ok hv).1.scope
  | .cond _ test yes none, hplain, _, hrun => by
    obtain ⟨c⟩ := exists_condSteps h hloops hrun
    simp only [isPlain, Bool.and_eq_true, Bool.not_eq_true'] at hplain
    have hyes := scope_of_arm (fun h hl => scope_lowerStmt h hl yes hplain.2 hplain.1) c.yes
    have hno := congrArg State.scope c.no.2
    exact c.moves_join.scope.trans
      (hno.trans (hyes.trans (c.moves_tests.trans (c.moves_labels.trans c.moves_branch)).scope))
  | .cond _ test yes (some no), hplain, _, hrun => by
    obtain ⟨c⟩ := exists_condSteps h hloops hrun
    simp only [isPlain, Bool.and_eq_true, Bool.not_eq_true'] at hplain
    have hyes := scope_of_arm (fun h hl => scope_lowerStmt h hl yes hplain.1.1.2 hplain.1.1.1) c.yes
    have hno := scope_of_arm (fun h hl => scope_lowerStmt h hl no hplain.2 hplain.1.2) c.no
    exact c.moves_join.scope.trans
      (hno.trans (hyes.trans (c.moves_tests.trans (c.moves_labels.trans c.moves_branch)).scope))
  | .loop _ test body, hplain, _, hrun => by
    obtain ⟨c⟩ := exists_loopSteps h hloops hrun
    simp only [isPlain, Bool.and_eq_true, Bool.not_eq_true'] at hplain
    have hbody := scope_of_arm (fun h hl => scope_lowerStmt h hl body hplain.2 hplain.1) c.body
    exact c.moves_join.scope.trans (hbody.trans
      (c.moves_labels.trans
        (c.moves_enter.trans (c.moves_open.trans (c.moves_test.trans c.moves_branch)))).scope)
  | .leave _, _, _, hrun => by
    obtain ⟨l, ls, id, s₁, heq, hjump, hfresh⟩ := jump_ok (.inl ⟨rfl, rfl⟩) hrun
    exact (moves_leave h (hloops l (by simp [heq])).2 hjump hfresh).scope
  | .next _, _, _, hrun => by
    obtain ⟨l, ls, id, s₁, heq, hjump, hfresh⟩ := jump_ok (.inr ⟨rfl, rfl⟩) hrun
    exact (moves_leave h (hloops l (by simp [heq])).1 hjump hfresh).scope
  | .ret _ none, _, _, hrun => by
    obtain ⟨id, s₁, s₂, hjump, hfresh, heq⟩ := ret_ok hrun
    rw [heq] at hjump
    exact (moves_leave h h.exit_isTarget hjump hfresh).scope
  | .ret _ (some e), _, _, hrun => by
    obtain ⟨id, s₁, s₂, hjump, hfresh, slot, v, u, s₀, hresult, hv, hstore⟩ := ret_ok hrun
    obtain ⟨hm₁, h₁, hv'⟩ := (yields_lowerScalar h e).ok hv
    obtain ⟨hm₂, h₂, -⟩ := (yields_store h₁ hv' (h₁.result slot hresult)).ok hstore
    exact (hm₁.trans (hm₂.trans (moves_leave h₂ h₂.exit_isTarget hjump hfresh))).scope

/-! How a run ends a statement. -/

/-- The block that the code goes to when a statement ends with `out`; `behind` is the one behind the
statement. -/
def aim (t : Target) (behind : Option BlockId) (loops : List Loop) : Outcome → Option BlockId
  | .normal => behind
  | .leave => loops.head?.map (·.exit)
  | .next => loops.head?.map (·.test)
  | .ret _ => some t.exit

/-- A number that is returned is in the slot of the result. -/
def Answers (t : Target) (a : Activation) (st : Store) : Outcome → Prop
  | .ret (some w) => ∃ slot r, t.result = some slot ∧ a.env slot = some (.addr r 0) ∧
      st.load r 0 = some (.word w)
  | _ => True

namespace World

def Leaves (W : World) (callers : List Activation) (t : Target) (behind : Option BlockId)
    (loops : List Loop) (n : Nat) (a : Activation) (L : Layout) (st : Store) (out : Outcome)
    (σ' : Memory) : Prop :=
  ∃ bb a' st', aim t behind loops out = some bb ∧ (W.setting callers).Arrives t n a st bb a' st' ∧
    Tracks L σ' st st' ∧
    Answers t a' st' out

/-- A statement has ended, and no name that it declares is in use. -/
def Ends (W : World) (callers : List Activation) (t : Target) (loops : List Loop) (s : State)
    (a : Activation) (L : Layout) (st : Store) (s' : State) (out : Outcome) (σ' : Memory) : Prop :=
  (out = .normal ∧ ∃ a' st', (W.setting callers).Crosses t s a st s' a' st' ∧ Tracks L σ' st st') ∨
    W.Leaves callers t none loops s.module.values.size a L st out σ'

def Follows (W : World) (callers : List Activation) (t : Target) (loops : List Loop) (s : State)
    (a : Activation) (L : Layout) (st : Store) (s' : State) (env' : Env) (out : Outcome)
    (σ' : Memory) : Prop :=
  (out = .normal ∧ ∃ a' st' L', W.Proceeds callers t s a L st s' a' env' L' σ' st') ∨
    W.Leaves callers t none loops s.module.values.size a L st out σ'

theorem Leaves.later (h : W.Leaves callers t behind loops k a₁ L st₁ out σ')
    (hleads : (W.setting callers).Leads (.running a callers st) (.running a₁ callers st₁))
    (hkept : Kept W.module n a a₁) (hn : n ≤ k) (hstays : Stays st st₁) :
    W.Leaves callers t behind loops n a L st out σ' := by
  obtain ⟨bb, a', st', haim, ha, ht, hanswer⟩ := h
  exact ⟨bb, a', st', haim, ⟨hleads.trans ha.leads, ha.entered, hkept.trans ha.kept hn, ha.led⟩,
    ht.after hstays, hanswer⟩

theorem Leaves.ne_normal (h : W.Leaves callers t none loops n a L st out σ') : out ≠ .normal := by
  rintro rfl
  obtain ⟨bb, a', st', haim, -⟩ := h
  cases haim

theorem Leaves.abrupt (h : W.Leaves callers t none loops n a L st out σ')
    (behind : Option BlockId) :
    W.Leaves callers t behind loops n a L st out σ' := by
  have hne := h.ne_normal
  obtain ⟨bb, a', st', haim, hrest⟩ := h
  refine ⟨bb, a', st', ?_, hrest⟩
  cases out with
  | normal => exact absurd rfl hne
  | leave | next | ret r => exact haim

/-- A loop is left only behind itself, or with a result. -/
theorem Leaves.outer (h : W.Leaves callers t behind [] n a L st out σ') (loops : List Loop) :
    W.Leaves callers t behind loops n a L st out σ' := by
  obtain ⟨bb, a', st', haim, hrest⟩ := h
  refine ⟨bb, a', st', ?_, hrest⟩
  cases out with
  | leave | next => cases haim
  | normal | ret r => exact haim

theorem Leaves.within (h : W.Leaves callers t behind loops n a L' st out σ') (hw : L.Within L') :
    W.Leaves callers t behind loops n a L st out σ' := by
  obtain ⟨bb, a', st', haim, ha, ht, hanswer⟩ := h
  exact ⟨bb, a', st', haim, ha, ⟨ht.agree.within hw, ht.stays⟩, hanswer⟩

theorem Ends.within (h : W.Ends callers t loops s a L' st s' out σ') (hw : L.Within L') :
    W.Ends callers t loops s a L st s' out σ' := by
  refine h.imp (And.imp_right ?_) fun h => h.within hw
  rintro ⟨a', st', hcross, ht⟩
  exact ⟨a', st', hcross, ht.agree.within hw, ht.stays⟩

theorem Ends.later (h : W.Ends callers t loops s₁ a₁ L st₁ s' out σ')
    (hcross : (W.setting callers).Crosses t s a st s₁ a₁ st₁) (hstays : Stays st st₁) :
    W.Ends callers t loops s a L st s' out σ' := by
  refine h.imp (And.imp_right ?_) fun h => h.later hcross.leads hcross.kept hcross.size hstays
  rintro ⟨a', st', hcross', ht⟩
  exact ⟨a', st', hcross.trans hcross', ht.after hstays⟩

theorem Follows.ends (h : W.Follows callers t loops s a L st s' env' out σ') :
    W.Ends callers t loops s a L st s' out σ' := by
  refine h.imp_left (And.imp_right ?_)
  rintro ⟨a', st', L', hp⟩
  exact ⟨a', st', hp.crosses, hp.fits.agree.within hp.within, hp.stays⟩

theorem Ends.follows (h : W.Ends callers t loops s a L st s' out σ') (hscope : s'.scope = s.scope)
    (hfits : W.Fits t s.scope s.module.values.size a env L σ st) :
    W.Follows callers t loops s a L st s' env out σ' := by
  refine h.imp_left (And.imp_right ?_)
  rintro ⟨a', st', hcross, ht⟩
  exact ⟨a', st', L, .of_crosses hfits hcross hscope ht⟩

/-- The ways of a statement come together where the block behind it is opened. -/
theorem Leaves.join (h : W.Leaves callers t (some after) loops s.module.values.size a L st out σ')
    (hat : At t true P s₁) (hafter : after ∈ P) (hrun : startBlock t after s₁ = .ok ((), s'))
    (hsize : s.module.values.size ≤ s'.module.values.size) :
    W.Ends callers t loops s a L st s' out σ' := by
  obtain ⟨bb, a', st', haim, ha, ht, hanswer⟩ := h
  cases out with
  | normal =>
    obtain rfl := Option.some.inj haim
    exact .inl ⟨rfl, a', st', ha.crosses hat hafter hrun hsize, ht⟩
  | leave | next | ret r => exact .inr ⟨bb, a', st', haim, ha, ht, hanswer⟩

/-! Evaluation with a given amount of fuel. -/

def ExecOk (W : World) (n : Nat) : Prop :=
  ∀ ⦃t loops x P s s' a env env' out L σ σ' st callers⦄, isPlain x = true →
    W.Fits t s.scope s.module.values.size a env L σ st → At t false P s →
      LoopsOk s.module t.func loops →
    lowerStmt t loops x s = .ok ((), s') → Extends s'.module W.module →
      (W.setting callers).Standing t s a →
    exec W.lib W.globals n env x σ = some ((env', out), σ') →
      W.Follows callers t loops s a L st s' env' out σ'

def ExecAllOk (W : World) (n : Nat) : Prop :=
  ∀ ⦃t loops xs P s s' a env out L σ σ' st callers⦄, arePlain xs = true →
    W.Fits t s.scope s.module.values.size a env L σ st → At t false P s →
      LoopsOk s.module t.func loops →
    lowerStmts t loops xs s = .ok ((), s') → Extends s'.module W.module →
      (W.setting callers).Standing t s a →
    execAll W.lib W.globals n env xs σ = some (out, σ') → W.Ends callers t loops s a L st s' out σ'

def IterOk (W : World) (n : Nat) : Prop :=
  ∀ ⦃t loops test body s s' a env out L σ σ' st callers⦄ (c : LoopSteps t loops test body s s'),
    isPlain body = true →
    isDecl body = false → W.Fits t c.opened.scope c.opened.module.values.size a env L σ st →
    (W.setting callers).Entered t c.loop.test a → Extends s'.module W.module →
    iterate W.lib W.globals n env test body σ = some (out, σ') →
    W.Leaves callers t (some c.loop.exit) [] c.opened.module.values.size a L st out σ'

theorem leaves_arm (hexec : W.ExecOk n) (harm : Arm t loops bb after x s s')
    (hplain : isPlain x = true) (hfits : W.Fits t s.scope s.module.values.size a env L σ st)
    (hent : (W.setting callers).Entered t bb a) (he : Extends s'.module W.module)
    (h : exec W.lib W.globals n env x σ = some ((env', out), σ')) :
    W.Leaves callers t (some after) loops s.module.values.size a L st out σ' := by
  obtain ⟨P, hat, hbb⟩ := harm.closed
  obtain ⟨s₁, s₂, id, Q, hstart, hm₁, h₁, hloops₁, hrun, h₂, hjump, hm₂⟩ := harm.steps
  have hsize := hm₁.extends.size_values
  have hfits₁ : W.Fits t s₁.scope s₁.module.values.size a env L σ st :=
    hm₁.scope ▸ hfits.next (.refl _ _ _) hsize (.refl hfits.agree)
  rcases (hexec hplain hfits₁ h₁ hloops₁ hrun (hm₂.extends.trans he) (hent.standing hat hbb hstart)
    h).ends with
    ⟨rfl, a₂, st₂, hcross₂, ht₂⟩ | hleaves
  · obtain ⟨a₃, ha₃⟩ := Setting.arrives_jump h₂ hcross₂.standing hjump he trivial st₂
    have ha := hcross₂.arrives ha₃
    exact ⟨after, a₃, st₂, rfl, { ha with kept := ha.kept.mono hsize }, ht₂, trivial⟩
  · exact (hleaves.abrupt _).later .refl (.refl _ _ _) hsize (.refl st)

theorem points_of_toPlace {l : Location} {step : Walk} {c : Bool} {name : String} {place : ValueId}
    (hl : W.Reaches L a l step) (hdims : l.dims = [])
    (hrun : (step.stop c).toPlace name span s = .ok (place, s')) :
    s = s' ∧ W.Points L a place l := by
  cases step with
  | atFirst ptr pointee =>
    obtain ⟨⟨d, ds, hcons, -⟩, -⟩ := hl
    rw [hdims] at hcons
    cases hcons
  | inside ptr pointee =>
    obtain ⟨rfl, hpoints⟩ := hl
    rw [hdims] at hrun
    cases c with
    | true => exact (reject_ok.mp hrun).elim
    | false =>
      obtain ⟨rfl, rfl⟩ := pure_ok.mp hrun
      exact ⟨rfl, hpoints⟩

theorem ends_assign {target : Span} {name : String} {indices : List Expr} {value : Expr}
    (hev : W.EvalOk n) (hfits : W.Fits t s.scope s.module.values.size a env L σ st)
    (hat : At t false P s)
    (hrun : lowerStmt t loops (.assign span target name indices value) s = .ok ((), s'))
    (he : Extends s'.module W.module) (hs : (W.setting callers).Standing t s a)
    (h : exec W.lib W.globals (n + 1) env (.assign span target name indices value) σ =
      some ((env', out), σ')) : W.Ends callers t loops s a L st s' out σ' := by
  obtain ⟨-, rfl, l, l', w, σ₁, σ₂, hname, hwalk, hw, hdims, hwrite⟩ := exec_assign h
  rw [lowerStmt] at hrun
  obtain ⟨v, s₁, hvRun, hrun⟩ := bind_ok.mp hrun
  obtain ⟨place, s₂, hplaceRun, hrun⟩ := bind_ok.mp hrun
  obtain ⟨x, s₃, hxRun, hrun⟩ := bind_ok.mp hrun
  obtain ⟨_, s₄, hstoreRun, hpure⟩ := bind_ok.mp hrun
  obtain ⟨-, rfl⟩ := pure_ok.mp hpure
  obtain ⟨hm₁, h₁, hv⟩ := (yields_lowerExpr hat (.lval target name indices)).ok hvRun
  obtain ⟨hm₂, h₂, hplace⟩ := (yields_toPlace h₁ hv name target).ok hplaceRun
  obtain ⟨hm₃, h₃, hx⟩ := (yields_lowerScalar h₂ value).ok hxRun
  obtain ⟨hm₄, -, -⟩ := (yields_store h₃ hx (hm₃.readable hplace)).ok hstoreRun
  have he₃ := hm₄.extends.trans he
  obtain ⟨a₁, st₁, step, c, hcross₁, hl, rfl, ht₁⟩ :=
    crosses_lval hev hfits hname hwalk hat rfl hvRun le_rfl
    ((hm₂.trans hm₃).extends.trans he₃) hs (.refl _ _ _)
  obtain ⟨rfl, r, hobject, hptr⟩ := points_of_toPlace hl hdims hplaceRun
  obtain ⟨a₂, st₂, _, hcross₂, hread, rfl, ht₂⟩ :=
    hev.number (hfits.later ht₁) hw callers s₃.module.values.size h₂ hm₁.scope hxRun
    hcross₁.size le_rfl he₃ hcross₁.standing hcross₁.kept
  obtain ⟨st₃, hst₃, hagree, hstays⟩ := ht₂.agree.write hobject hwrite
  obtain ⟨a₃, hcross₃⟩ := Setting.crosses_store h₃ hcross₂.standing hstoreRun he trivial hread
    ((hcross₂.read_eq hplace).trans hptr) hst₃
  exact .inl ⟨rfl, a₃, st₃, hcross₁.trans (hcross₂.trans hcross₃), hagree,
    ht₁.stays.trans (ht₂.stays.trans hstays)⟩

theorem ends_cond {yes : Stmt} {no : Option Stmt} (hev : W.EvalOk n) (hexec : W.ExecOk n)
    (hplain : isPlain (.cond span test yes no) = true)
    (hfits : W.Fits t s.scope s.module.values.size a env L σ st) (hat : At t false P s)
    (hloops : LoopsOk s.module t.func loops)
    (hrun : lowerStmt t loops (.cond span test yes no) s = .ok ((), s'))
    (he : Extends s'.module W.module) (hs : (W.setting callers).Standing t s a)
    (h : exec W.lib W.globals (n + 1) env (.cond span test yes no) σ = some ((env', out), σ')) :
    W.Ends callers t loops s a L st s' out σ' := by
  obtain ⟨-, w, σ₁, hw, hcases⟩ := exec_cond h
  obtain ⟨c⟩ := exists_condSteps hat hloops hrun
  obtain ⟨Q, hhere⟩ := c.here
  obtain ⟨u, hbranch⟩ := c.branch
  obtain ⟨R, hclosed, hafter⟩ := c.closed_at
  have hyesPlain : isPlain yes = true ∧ isDecl yes = false := by
    cases no <;> simp only [isPlain, Bool.and_eq_true, Bool.not_eq_true'] at hplain
    · exact ⟨hplain.2, hplain.1⟩
    · exact ⟨hplain.1.1.2, hplain.1.1.1⟩
  have hno : Passes t c.chosen c.closed := by
    have := c.no
    cases no with
    | none => exact this.2 ▸ (Moves.refl t c.closed).passes
    | some x => exact Arm.passes this
  -- the modules in between
  have he₅ : Extends c.closed.module W.module := c.moves_join.extends.trans he
  have he₄ : Extends c.chosen.module W.module := hno.grows.extends.trans he₅
  have he₃ : Extends c.branched.module W.module := c.yes.passes.grows.extends.trans he₄
  have hmoves : Moves t s c.branched := c.moves_tests.trans (c.moves_labels.trans c.moves_branch)
  have hsize₃ := hmoves.extends.size_values
  have hsize₄ := hsize₃.trans c.yes.passes.grows.extends.size_values
  have hsize : s.module.values.size ≤ s'.module.values.size :=
    hsize₄.trans (hno.grows.extends.size_values.trans c.moves_join.extends.size_values)
  -- the run comes to one of the blocks
  obtain ⟨a₁, st₁, _, hcross₁, hread, rfl, ht₁⟩ :=
    hev.number hfits hw callers c.tested.module.values.size hat rfl c.tests le_rfl
    le_rfl ((c.moves_labels.trans c.moves_branch).extends.trans he₃) hs (.refl _ _ _)
  have hlabels := c.labels _ a₁ st₁ hcross₁.standing
  obtain ⟨a₂, ha₂⟩ := Setting.arrives_branch hhere hlabels.standing hbranch he₃ trivial hread st₁
  have ha := (hcross₁.trans hlabels).arrives ha₂
  have hfits₂ {k : Nat} (hk : s.module.values.size ≤ k) : W.Fits t s.scope k a₂ env L σ₁ st₁ :=
    hfits.next ha.kept hk ht₁
  -- whichever way is taken, the run leaves for the block behind, or for where the arm leaves to
  have hdone : W.Leaves callers t (some c.after) loops s.module.values.size a L st out σ' := by
    rcases hcases with ⟨hzero, rfl, rfl, rfl⟩ | ⟨hzero, x, env₁, rfl, hx⟩ | ⟨hne, env₁, hx⟩
    · rw [if_pos hzero, c.no.1] at ha
      exact ⟨c.after, a₂, st₁, rfl, ha, ht₁, trivial⟩
    · rw [if_pos hzero] at ha
      simp only [isPlain, Bool.and_eq_true, Bool.not_eq_true'] at hplain
      have hscope :=
        scope_of_arm (fun h hl => scope_lowerStmt h hl yes hyesPlain.1 hyesPlain.2) c.yes
      refine (leaves_arm hexec c.no hplain.2 ?_ ha.entered he₅ hx).later ha.leads ha.kept
        hsize₄ ht₁.stays
      rw [hscope, hmoves.scope]
      exact hfits₂ hsize₄
    · rw [if_neg hne] at ha
      refine (leaves_arm hexec c.yes hyesPlain.1 ?_ ha.entered he₄ hx).later ha.leads ha.kept
        hsize₃ ht₁.stays
      rw [hmoves.scope]
      exact hfits₂ hsize₃
  exact hdone.join hclosed hafter c.joins hsize

theorem IterOk.succ (hev : W.EvalOk n) (hexec : W.ExecOk n) (hiter : W.IterOk n) :
    W.IterOk (n + 1) := by
  intro t loops test body s s' a env out L σ σ' st callers c hplain hdecl hfits hent he h
  obtain ⟨w, σ₁, hw, hcases⟩ := iterate_cases h
  obtain ⟨P, hentered, htest⟩ := c.entered_at
  obtain ⟨Q, hopened⟩ := c.opened_at
  obtain ⟨R, htested⟩ := c.tested_at
  obtain ⟨u, hbranch⟩ := c.branch
  have he₂ : Extends c.closed.module W.module := c.moves_join.extends.trans he
  have he₁ : Extends c.branched.module W.module := c.body.passes.grows.extends.trans he₂
  have hmoves := c.moves_test.trans c.moves_branch
  have hsize := hmoves.extends.size_values
  obtain ⟨a₁, st₁, _, hcross₁, hread, rfl, ht₁⟩ :=
    hev.number hfits hw callers c.tested.module.values.size hopened rfl c.tests le_rfl
    le_rfl (c.moves_branch.extends.trans he₁) (hent.standing hentered htest c.opens) (.refl _ _ _)
  obtain ⟨a₂, ha₂⟩ := Setting.arrives_branch htested hcross₁.standing hbranch he₁ trivial hread st₁
  have ha := hcross₁.arrives ha₂
  rcases hcases with ⟨hzero, rfl, rfl⟩ | ⟨hne, env₁, out₁, σ₂, hbody, hcases⟩
  · rw [if_pos hzero] at ha
    exact ⟨c.loop.exit, a₂, st₁, rfl, ha, ht₁, trivial⟩
  · rw [if_neg hne] at ha
    have hfits₂ : W.Fits t c.branched.scope c.branched.module.values.size a₂ env L σ₁ st₁ :=
      hmoves.scope ▸ hfits.next ha.kept hsize ht₁
    obtain ⟨bb, a₃, st₃, haim, ha₃, ht₃, hanswer⟩ :=
      (leaves_arm hexec c.body hplain hfits₂ ha.entered he₂ hbody).later
      ha.leads ha.kept hsize ht₁.stays
    rcases hcases with ⟨hnext, hiterate⟩ | ⟨rfl, rfl, rfl⟩ | ⟨r, rfl, rfl, rfl⟩
    · -- both ways the code is at the test again
      obtain rfl : c.loop.test = bb := by rcases hnext with rfl | rfl <;> exact Option.some.inj haim
      exact (hiter c hplain hdecl (hfits.next ha₃.kept le_rfl ht₃) ha₃.entered he hiterate).later
        ha₃.leads ha₃.kept le_rfl
        ht₃.stays
    · obtain rfl := Option.some.inj haim
      exact ⟨c.loop.exit, a₃, st₃, rfl, ha₃, ht₃, trivial⟩
    · exact ⟨bb, a₃, st₃, haim, ha₃, ht₃, hanswer⟩

theorem ends_loop (hiter : W.IterOk n) (hplain : isPlain (.loop span test body) = true)
    (hfits : W.Fits t s.scope s.module.values.size a env L σ st) (hat : At t false P s)
    (hloops : LoopsOk s.module t.func loops)
    (hrun : lowerStmt t loops (.loop span test body) s = .ok ((), s'))
    (he : Extends s'.module W.module) (hs : (W.setting callers).Standing t s a)
    (h : exec W.lib W.globals (n + 1) env (.loop span test body) σ = some ((env', out), σ')) :
    W.Ends callers t loops s a L st s' out σ' := by
  obtain ⟨c⟩ := exists_loopSteps hat hloops hrun
  simp only [isPlain, Bool.and_eq_true, Bool.not_eq_true'] at hplain
  obtain ⟨P, hhere⟩ := c.here
  obtain ⟨u, henter⟩ := c.enters
  obtain ⟨R, hclosed, hafter⟩ := c.closed_at
  have hp := c.moves_open.passes.trans (c.moves_test.passes.trans (c.moves_branch.passes.trans
    (c.body.passes.trans c.moves_join.passes)))
  have hlabels := c.labels _ a st hs
  obtain ⟨a₁, ha₁⟩ :=
    Setting.arrives_jump hhere hlabels.standing henter (hp.grows.extends.trans he) trivial st
  have ha := hlabels.arrives ha₁
  have hmoves := c.moves_labels.trans (c.moves_enter.trans c.moves_open)
  have hsize := hmoves.extends.size_values
  have hfits₁ : W.Fits t c.opened.scope c.opened.module.values.size a₁ env L σ st :=
    hmoves.scope ▸ hfits.next ha.kept hsize (.refl hfits.agree)
  have hleaves := (hiter c hplain.2 hplain.1 hfits₁ ha.entered he (exec_loop h).2).later ha.leads
    ha.kept hsize (.refl st)
  exact (hleaves.outer loops).join hclosed hafter c.joins
    ((c.moves_labels.trans c.moves_enter).extends.size_values.trans hp.grows.extends.size_values)

theorem leaves_jump {id : ValueId} (hfits : W.Fits t scope lo a env L σ st) (hat : At t false P s)
    (hbb : IsTarget s.module t.func bb) (hjump : build (Build.jump t.func bb) s = .ok (id, s₁))
    (hfresh : openFresh t s₁ = .ok ((), s')) (he : Extends s'.module W.module)
    (hs : (W.setting callers).Standing t s a) (haim : aim t none loops out = some bb)
    (hanswer : ∀ a', Kept W.module s.module.values.size a a' → Answers t a' st out) :
    W.Leaves callers t none loops s.module.values.size a L st out σ := by
  obtain ⟨hm₁, h₁⟩ := (gives_jump hat hbb).ok hjump
  obtain ⟨a', ha⟩ := Setting.arrives_jump hat hs hjump
    (((gives_openFresh h₁).ok hfresh).1.extends.trans he) trivial st
  exact ⟨bb, a', st, haim, ha, .refl hfits.agree, hanswer a' ha.kept⟩

theorem leaves_ret {value : Option Expr} (hev : W.EvalOk n)
    (hfits : W.Fits t s.scope s.module.values.size a env L σ st) (hat : At t false P s)
    (hrun : lowerStmt t loops (.ret span value) s = .ok ((), s')) (he : Extends s'.module W.module)
    (hs : (W.setting callers).Standing t s a)
    (h : exec W.lib W.globals (n + 1) env (.ret span value) σ = some ((env', out), σ')) :
    W.Leaves callers t none loops s.module.values.size a L st out σ' := by
  obtain ⟨id, s₁, s₂, hjump, hfresh, hvalue⟩ := ret_ok hrun
  obtain ⟨-, h⟩ := exec_ret h
  cases value with
  | none =>
    obtain ⟨rfl, rfl⟩ := h
    rw [hvalue] at hjump
    exact leaves_jump hfits hat hat.exit_isTarget hjump hfresh he hs rfl fun _ _ => trivial
  | some e =>
    obtain ⟨slot, v, u, s₀, hresult, hvRun, hstoreRun⟩ := hvalue
    obtain ⟨w, hw, rfl⟩ := h
    obtain ⟨hm₀, h₀, hv⟩ := (yields_lowerScalar hat e).ok hvRun
    obtain ⟨hm₁, h₁, -⟩ := (yields_store h₀ hv (h₀.result slot hresult)).ok hstoreRun
    have he₁ := (moves_leave h₁ h₁.exit_isTarget hjump hfresh).extends.trans he
    obtain ⟨a₁, st₁, w', hcross₁, hread, rfl, ht₁⟩ :=
      hev.number hfits hw callers s₀.module.values.size hat rfl hvRun le_rfl le_rfl
      (hm₁.extends.trans he₁) hs (.refl _ _ _)
    have hlocal := hfits.room.result slot hresult
    obtain ⟨r, vals, henv, hspare, hmem, hlen⟩ := hfits.room.slot slot ⟨hlocal, .inr hresult⟩
    have hpos : 0 < vals.length := by
      have hty : W.module.tyOf slot = .ptr .i32 :=
        (he₁.readable (h₁.result slot hresult)).tyOf_eq
      rw [hlen, hty]
      decide
    obtain ⟨vals₁, st₂, -, hlen₁, hstore, hmem₂, ht₂⟩ := ht₁.scratch hspare hmem hpos (.word w')
    have henv₁ : a₁.env slot = some (.addr r 0) :=
      (hcross₁.kept.env slot (.inr hlocal.node)).trans henv
    obtain ⟨a₂, hcross₂⟩ :=
      Setting.crosses_store (k := W.setting callers) h₀ hcross₁.standing hstoreRun he₁ trivial hread
      ((a₁.read_alloc hlocal.node).trans henv₁) (by simpa using hstore)
    have hcross := hcross₁.trans hcross₂
    have hanswer (a' : Activation) (hkept : Kept W.module s₁.module.values.size a₂ a') :
      Answers t a' st₂ (.ret (some w')) :=
      ⟨slot, r, hresult, (hkept.env slot (.inr hlocal.node)).trans
        ((hcross₂.kept.env slot (.inr hlocal.node)).trans henv₁),
        (Store.load_eq (i := 0) hmem₂).trans (List.getElem?_set_self (hlen₁ ▸ hpos))⟩
    exact (leaves_jump (hfits.next hcross.kept hcross.size ht₂) h₁ h₁.exit_isTarget hjump hfresh he
      hcross₂.standing rfl
      hanswer).later hcross.leads hcross.kept hcross.size ht₂.stays

theorem ExecOk.succ (hev : W.EvalOk n) (hexec : W.ExecOk n) (hall : W.ExecAllOk n)
    (hiter : W.IterOk n) : W.ExecOk (n + 1) := by
  intro t loops x P s s' a env env' out L σ σ' st callers hplain hfits hat hloops hrun he hs h
  have hscope (hdecl : isDecl x = false) := scope_lowerStmt hat hloops x hplain hdecl hrun
  cases x with
  | block span ss =>
    obtain ⟨rfl, hss⟩ := exec_block h
    rw [lowerStmt] at hrun
    obtain ⟨⟨⟩, s₁, henter, hrun⟩ := bind_ok.mp hrun
    obtain ⟨⟨⟩, s₂, hssRun, hexit⟩ := bind_ok.mp hrun
    obtain rfl := (Prod.mk.inj (Except.ok.inj henter)).2
    obtain rfl := (Prod.mk.inj (Except.ok.inj hexit)).2
    -- a block ends in the environment it began in: what is new in its own scope goes with it
    have hinner : W.Fits t (s.scope.enter .block) s.module.values.size a env' L σ st :=
      { hfits with names := hfits.names.enter _ }
    rw [isPlain] at hplain
    have hends := hall hplain hinner hat.enter hloops hssRun he ⟨hs.func, hs.rest⟩ hss
    refine Ends.follows (hends.imp_left (And.imp_right ?_)) (hscope rfl) hfits
    rintro ⟨a', st', hcross, ht⟩
    exact ⟨a', st', crosses_define ⟨hcross.leads, hcross.standing, hcross.kept, hcross.size,
      hcross.led⟩, ht⟩
  | decl span d =>
    rw [lowerStmt] at hrun
    rw [exec] at h
    obtain ⟨env₁, σ₁, hdecls, hpure⟩ := bind_some.mp h
    obtain ⟨heq, rfl⟩ := pure_some.mp hpure
    cases heq
    exact .inl ⟨rfl, proceeds_locals hev d.defs hfits hat hs hrun he hdecls⟩
  | assign span target name indices value =>
    obtain ⟨rfl, -⟩ := exec_assign h
    exact (ends_assign hev hfits hat hrun he hs h).follows (hscope rfl) hfits
  | expr span value =>
    cases value with
    | none =>
      rw [lowerStmt] at hrun
      obtain ⟨-, rfl⟩ := pure_ok.mp hrun
      rw [exec] at h
      obtain ⟨heq, rfl⟩ := pure_some.mp h
      cases heq
      exact .inl ⟨rfl, a, st, L, .of_crosses hfits (.refl hs st) rfl (.refl hfits.agree)⟩
    | some e =>
      rw [lowerStmt] at hrun
      obtain ⟨v, s₁, hvRun, hpure⟩ := bind_ok.mp hrun
      obtain ⟨-, rfl⟩ := pure_ok.mp hpure
      rw [exec] at h
      obtain ⟨y, σ₁, hy, hpure⟩ := bind_some.mp h
      obtain ⟨heq, rfl⟩ := pure_some.mp hpure
      cases heq
      obtain ⟨a', st', hcross, -, ht⟩ :=
        hev hfits hy callers hat rfl hvRun le_rfl he hs (.refl _ _ _)
      exact .inl ⟨rfl, a', st', L, .of_crosses hfits hcross (hscope rfl) ht⟩
  | cond span test yes no =>
    obtain ⟨rfl, -⟩ := exec_cond h
    exact (ends_cond hev hexec hplain hfits hat hloops hrun he hs h).follows (hscope rfl) hfits
  | loop span test body =>
    obtain ⟨rfl, -⟩ := exec_loop h
    exact (ends_loop hiter hplain hfits hat hloops hrun he hs h).follows (hscope rfl) hfits
  | leave span =>
    obtain ⟨l, ls, id, s₁, rfl, hjump, hfresh⟩ := jump_ok (.inl ⟨rfl, rfl⟩) hrun
    rw [exec] at h
    obtain ⟨heq, rfl⟩ := pure_some.mp h
    cases heq
    exact .inr (leaves_jump hfits hat (hloops l (List.mem_cons_self ..)).2 hjump hfresh he hs rfl
      fun _ _ => trivial)
  | next span =>
    obtain ⟨l, ls, id, s₁, rfl, hjump, hfresh⟩ := jump_ok (.inr ⟨rfl, rfl⟩) hrun
    rw [exec] at h
    obtain ⟨heq, rfl⟩ := pure_some.mp h
    cases heq
    exact .inr (leaves_jump hfits hat (hloops l (List.mem_cons_self ..)).1 hjump hfresh he hs rfl
      fun _ _ => trivial)
  | ret span value => exact .inr (leaves_ret hev hfits hat hrun he hs h)

theorem ExecAllOk.succ (hexec : W.ExecOk n) (hall : W.ExecAllOk n) : W.ExecAllOk (n + 1) := by
  intro t loops xs P s s' a env out L σ σ' st callers hplain hfits hat hloops hrun he hs h
  cases xs with
  | nil =>
    rw [lowerStmts] at hrun
    obtain ⟨-, rfl⟩ := pure_ok.mp hrun
    rw [execAll] at h
    obtain ⟨rfl, rfl⟩ := pure_some.mp h
    exact .inl ⟨rfl, a, st, .refl hs st, .refl hfits.agree⟩
  | cons x xs =>
    rw [lowerStmts] at hrun
    obtain ⟨⟨⟩, s₁, hxRun, hxsRun⟩ := bind_ok.mp hrun
    rw [arePlain, Bool.and_eq_true] at hplain
    obtain ⟨hp₁, h₁⟩ := (lasts_lowerStmt hat hloops x).ok hxRun
    have hloops₁ := hloops.extends hp₁.grows.extends
    obtain ⟨hp₂, -⟩ := (lasts_lowerStmts h₁ hloops₁ xs).ok hxsRun
    obtain ⟨env₁, out₁, σ₁, hx, hcases⟩ := execAll_cons h
    have hfirst := hexec hplain.1 hfits hat hloops hxRun (hp₂.grows.extends.trans he) hs hx
    rcases hcases with ⟨rfl, hxs⟩ | ⟨hne, rfl, rfl⟩
    · rcases hfirst with ⟨-, a₁, st₁, L₁, hp⟩ | hleaves
      · have hrest := hall hplain.2 hp.fits h₁ hloops₁ hxsRun he hp.crosses.standing hxs
        exact (hrest.within hp.within).later hp.crosses hp.stays
      · exact absurd rfl hleaves.ne_normal
    · rcases hfirst with ⟨heq, -⟩ | hleaves
      · exact absurd heq hne
      · exact .inr hleaves

end World

end Sysy.Meaning
