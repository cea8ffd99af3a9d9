import Sysy.Lowering.Program

/-!
Outcomes of lowering. `Gives x s Q` says that the steps `x`, taken in the state `s`, end as `Q`
tells or find a flaw of the program, and never meet a fault. Steps that are taken one after the
other are opened by `bind_ok`.
-/

namespace Sysy.Lowering
open Ir

variable {α β : Type} {s s' : State}

def Gives (x : Lower α) (s : State) (Q : α → State → Prop) : Prop :=
  match x s with
  | .ok (a, s') => Q a s'
  | .error (.flawed _) => True
  | .error (.fault _) => False

theorem bind_eq_ok {ε : Type} {y : Except ε α} {k : α → Except ε β} {b : β} :
    (y >>= k) = .ok b ↔ ∃ a, y = .ok a ∧ k a = .ok b := by
  cases y with
  | error e => simp [bind, Except.bind]
  | ok a => simp [bind, Except.bind]

theorem bind_ok {x : Lower α} {k : α → Lower β} {b : β} :
    (x >>= k) s = .ok (b, s') ↔ ∃ a s₁, x s = .ok (a, s₁) ∧ k a s₁ = .ok (b, s') := by
  simp only [bind, StateT.bind, Except.bind]
  cases h : x s with
  | error e => simp
  | ok p =>
    obtain ⟨a, s₁⟩ := p
    constructor
    · exact fun hk => ⟨a, s₁, rfl, hk⟩
    · rintro ⟨_, _, heq, hk⟩
      cases heq
      exact hk

theorem bind_run (x : Lower α) (k : α → Lower β) (s : State) : (x >>= k) s = match x s with
    | .ok (a, s') => k a s'
    | .error e => .error e := by
  simp only [bind, StateT.bind, Except.bind]
  cases x s <;> rfl

theorem run_bind {x : Lower α} {k : α → Lower β} {a : α} (h : x s = .ok (a, s')) :
    (x >>= k) s = k a s' := by
  simp only [bind, StateT.bind, Except.bind, h]

theorem run_bind_error {x : Lower α} {k : α → Lower β} {e : LoweringStop} (h : x s = .error e) :
    (x >>= k) s = .error e := by
  simp only [bind, StateT.bind, Except.bind, h]

theorem get_run : (get : Lower State) s = .ok (s, s) := rfl

theorem enter_run (kind : ScopeKind) :
    enter kind s = .ok ((), { s with scope := s.scope.enter kind }) := rfl

theorem pure_ok {a b : α} : (pure a : Lower α) s = .ok (b, s') ↔ a = b ∧ s = s' := by
  change Except.ok (a, s) = .ok (b, s') ↔ _
  simp

theorem build_ok {x : Build α} {a : α} :
    build x s = .ok (a, s') ↔ x s.module = .ok (a, s'.module) ∧ s'.scope = s.scope := by
  obtain ⟨m, scope⟩ := s
  obtain ⟨m', scope'⟩ := s'
  simp only [build]
  cases h : x m with
  | error f => simp
  | ok p => simp [Prod.ext_iff, eq_comm, and_assoc]

theorem reject_ok {e : LoweringError} {a : α} : (reject e : Lower α) s = .ok (a, s') ↔ False := by
  simp [reject, throw, throwThe, MonadExceptOf.throw, StateT.lift, bind, Except.bind]

theorem check_ok {r : Except LoweringError α} {a : α} :
    check r s = .ok (a, s') ↔ r = .ok a ∧ s = s' := by
  cases r with
  | error e => simp [check, reject_ok]
  | ok b => simp [check, pure_ok]

theorem resolve_ok {name : String} {span : Span} {b : Binding} :
    resolve name span s = .ok (b, s') ↔ s.scope.resolve name = .ok b ∧ s = s' := by
  unfold resolve
  rw [run_bind get_run]
  cases s.scope.resolve name with
  | error e => simp [reject_ok]
  | ok b' => simp [pure_ok]

theorem define_ok {name : String} {span : Span} {b : Binding} {u : Unit} :
    define name span b s = .ok (u, s') ↔ ∃ scope, s.scope.define name b = .ok scope ∧
    s' = { s with scope } := by
  unfold define
  rw [run_bind get_run]
  cases s.scope.define name b with
  | error e => simp [reject_ok]
  | ok scope =>
    constructor
    · intro h
      exact ⟨scope, rfl, (Prod.mk.inj (Except.ok.inj h)).2.symm⟩
    · rintro ⟨_, heq, rfl⟩
      cases heq
      rfl

theorem module_of_define {name : String} {span : Span} {b : Binding} {u : Unit}
    (h : define name span b s = .ok (u, s')) :
    s'.module = s.module := by
  obtain ⟨scope, -, rfl⟩ := define_ok.mp h
  rfl

theorem foldConst_ok {e : Expr} {w : Word} : foldConst e s = .ok (w, s') ↔ fold s.scope e = .ok w ∧
    s = s' := check_ok

theorem defineConst_ok {d : VarDef} {u : Unit} (hrun : defineConst d s = .ok (u, s')) :
    ∃ e w scope, d.init = some (.expr e) ∧ fold s.scope e = .ok w ∧
    s.scope.define d.name (.const w) = .ok scope ∧ s' = { s with scope } := by
  rw [defineConst] at hrun
  generalize d.init = init at hrun ⊢
  rcases init with _ | (e | ⟨span, elems⟩)
  · exact (reject_ok.mp hrun).elim
  · obtain ⟨w, s₁, hfold, hdefine⟩ := bind_ok.mp hrun
    obtain ⟨hw, rfl⟩ := foldConst_ok.mp hfold
    obtain ⟨scope, hdef, rfl⟩ := define_ok.mp hdefine
    exact ⟨e, w, scope, rfl, hw, hdef, rfl⟩
  · exact (reject_ok.mp hrun).elim

theorem dimsOf_ok {es : List Expr} {ds : List Nat} :
    dimsOf es s = .ok (ds, s') ↔ foldDims s.scope 1 es = .ok ds ∧ s = s' :=
  check_ok

namespace Gives
variable {x : Lower α} {k : α → Lower β} {Q : α → State → Prop} {R : β → State → Prop}

theorem ok {a : α} (h : Gives x s Q) (hx : x s = .ok (a, s')) : Q a s' := by
  rw [Gives, hx] at h
  exact h

theorem mono {R : α → State → Prop} (h : Gives x s Q) (hQ : ∀ a s', Q a s' → R a s') :
    Gives x s R := by
  unfold Gives at *
  split at h
  · exact hQ _ _ h
  · trivial
  · exact h.elim

theorem and {R : α → State → Prop} (h : Gives x s Q) (h' : Gives x s R) : Gives x s fun a s' =>
    Q a s' ∧ R a s' := by
  unfold Gives at *
  split at h
  · rename_i heq
    rw [heq] at h'
    exact ⟨h, h'⟩
  · trivial
  · exact h.elim

theorem ran (h : Gives x s Q) : Gives x s fun a s' => x s = .ok (a, s') ∧ Q a s' := by
  unfold Gives at *
  split at h
  · rename_i heq
    exact ⟨heq, h⟩
  · trivial
  · exact h.elim

theorem bind (h : Gives x s Q) (hk : ∀ a s', Q a s' → Gives (k a) s' R) : Gives (x >>= k) s R := by
  have hx : (x >>= k) s = match x s with
      | .ok (a, s') => k a s'
      | .error e => .error e := by
    simp only [Bind.bind, StateT.bind, Except.bind]
    cases x s <;> rfl
  unfold Gives at h ⊢
  rw [hx]
  split at h
  · rename_i a s' heq
    rw [heq]
    exact hk a s' h
  · rename_i heq
    rw [heq]
    trivial
  · exact h.elim

theorem pure {a : α} (h : Q a s) : Gives (pure a : Lower α) s Q := h

theorem reject {e : LoweringError} : Gives (reject e : Lower α) s Q := trivial

theorem check {r : Except LoweringError α} (h : ∀ a, r = .ok a → Q a s) :
    Gives (check r) s Q := by
  cases r with
  | error e => trivial
  | ok a => exact h a rfl

theorem build {x : Build α} {a : α} {m : Module} (hx : x s.module = .ok (a, m))
    (h : Q a { s with module := m }) : Gives (build x) s Q := by
  obtain ⟨_, scope⟩ := s
  simp only [Gives, Lowering.build, hx]
  exact h

theorem get_bind {k : State → Lower β} (h : Gives (k s) s R) : Gives (get >>= k) s R := h

theorem define {name : String} {span : Span} {b : Binding} {Q : Unit → State → Prop}
    (h : ∀ scope, s.scope.define name b = .ok scope → Q () { s with scope }) :
    Gives (define name span b) s Q := by
  refine get_bind ?_
  split
  · exact h _ ‹_›
  · exact reject

theorem resolve {name : String} {span : Span} {Q : Binding → State → Prop}
    (h : ∀ b, s.scope.resolve name = .ok b → Q b s) : Gives (resolve name span) s Q := by
  refine get_bind ?_
  split
  · exact h _ ‹_›
  · exact reject

theorem foldConst {e : Expr} {Q : Word → State → Prop}
    (h : ∀ w, fold s.scope e = .ok w → Q w s) : Gives (foldConst e) s Q := by
  refine get_bind ?_
  exact check h

theorem dimsOf {es : List Expr} {Q : List Nat → State → Prop}
    (h : ∀ ds, foldDims s.scope 1 es = .ok ds → Q ds s) : Gives (dimsOf es) s Q := by
  refine get_bind ?_
  exact check h

end Gives

end Sysy.Lowering
