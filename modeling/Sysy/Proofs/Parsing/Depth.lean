import Sysy.Proofs.Parsing.Progress

/-!
The bound on the depth of the readers is large enough: a reader with more of it does the same.
Between two tokens there are fewer than ten calls, so what a reader needs depends on the number of
tokens ahead, and each lemma states it for that reader.
-/

namespace Sysy.Parser
open Token Grammar

variable {α β : Type} {r r' : Reader α} {v v' : View}

def Alike (r r' : Reader α) (v : View) : Prop :=
  ∀ c : Cursor, c.view = v → r.run.run c = r'.run.run c

namespace Alike
variable {k k' : α → Reader β}

theorem refl (r : Reader α) (v : View) : Alike r r v := fun _ _ => rfl

theorem bind {Q : α → View → Prop} {E : View → Prop} (h : Alike r r' v) (hr : Ends r v Q E)
    (hk : ∀ a v', Q a v' → Alike (k a) (k' a) v') : Alike (r >>= k) (r' >>= k') v := by
  intro c hc
  have hends := hr c hc
  rw [run_bind, run_bind, ← h c hc]
  generalize r.run.run c = x at hends ⊢
  match x with
  | (some a, c') => exact hk a c'.view hends c' rfl
  | (none, c') => rfl

theorem behind (h : Alike r r' v) (hr : Loose r)
    (hk : ∀ a v', v'.tokens.length ≤ v.tokens.length → Alike (k a) (k' a) v') :
    Alike (r >>= k) (r' >>= k') v :=
  bind h (hr.leaves v) fun a v' hv' => hk a v' hv'.length_le

theorem ite {p : Prop} [Decidable p] {s s' : Reader α} (h : p → Alike r r' v)
    (hs : ¬p → Alike s s' v) :
    Alike (if p then r else s) (if p then r' else s') v := by
  by_cases hp : p
  · rw [if_pos hp, if_pos hp]
    exact h hp
  · rw [if_neg hp, if_neg hp]
    exact hs hp

theorem ask {a : α} (h : Ends r v (fun a' v' => a' = a ∧ v' = v) fun _ => False)
    (hk : Alike (k a) (k' a) v) :
    Alike (r >>= k) (r >>= k') v := by
  refine bind (refl r v) h ?_
  rintro _ _ ⟨rfl, rfl⟩
  exact hk

theorem peek {k k' : Token → Reader β} (h : Alike (k v.token) (k' v.token) v) :
    Alike (peek >>= k) (peek >>= k') v := by
  refine ask ?_ h
  rw [← bind_pure Parser.peek]
  exact Ends.peek (Ends.pure ⟨rfl, rfl⟩)

theorem at_ {kind : Kind} {k k' : Bool → Reader β}
    (hyes : v.token.kind = kind → Alike (k true) (k' true) v)
    (hno : v.token.kind ≠ kind → Alike (k false) (k' false) v) :
    Alike (at_ kind >>= k) (at_ kind >>= k') v := by
  unfold Parser.at_
  rw [bind_assoc, bind_assoc]
  refine peek ?_
  rw [pure_bind, pure_bind]
  by_cases h : v.token.kind = kind
  · rw [beq_iff_eq.mpr h]
    exact hyes h
  · rw [beq_eq_false_iff_ne.mpr h]
    exact hno h

theorem atAny {kinds : List Kind} {k k' : Bool → Reader β}
    (hyes : v.token.kind ∈ kinds → Alike (k true) (k' true) v)
    (hno : v.token.kind ∉ kinds → Alike (k false) (k' false) v) :
    Alike (atAny kinds >>= k) (atAny kinds >>= k') v := by
  unfold Parser.atAny
  rw [bind_assoc, bind_assoc]
  refine peek ?_
  rw [pure_bind, pure_bind]
  by_cases h : v.token.kind ∈ kinds
  · rw [List.contains_iff_mem.mpr h]
    exact hyes h
  · rw [Bool.eq_false_iff.mpr fun hc => h (List.contains_iff_mem.mp hc)]
    exact hno h

theorem get {k k' : Cursor → Reader β} (h : ∀ c : Cursor, c.view = v → Alike (k c) (k' c) v) :
    Alike (get >>= k) (get >>= k') v :=
  fun c hc => h c hc c hc

theorem failed (hr : Ends r v (fun _ _ => False) fun _ => True) : Alike (r >>= k) (r >>= k') v :=
  bind (refl r v) hr fun _ _ hfalse => hfalse.elim

theorem reject (p : Problem) (v : View) : Alike (reject p >>= k) (reject p >>= k') v :=
  failed (Ends.reject trivial)

theorem length_lt {ts : List Token} (h : ts <:+ v.tokens.tail) (heof : v.token.kind ≠ .eof) :
    ts.length < v.tokens.length := by
  cases htokens : v.tokens with
  | nil =>
    have hkind : v.token.kind = .eof := by rw [View.kind_token, htokens]; rfl
    exact absurd hkind heof
  | cons t rest =>
    rw [htokens] at h
    exact Nat.lt_succ_of_le h.length_le

theorem take {k k' : Token → Reader β} (heof : v.token.kind ≠ .eof)
    (h : ∀ v', v'.tokens.length < v.tokens.length → Alike (k v.token) (k' v.token) v') :
    Alike (advance >>= k) (advance >>= k') v := by
  have hadvance : Ends advance v (fun t v' => t = v.token ∧ v' = v.advance) fun _ => False := by
    rw [← bind_pure Parser.advance]
    exact Ends.advance (Ends.pure ⟨rfl, rfl⟩)
  refine bind (refl _ v) hadvance ?_
  rintro _ _ ⟨rfl, rfl⟩
  exact h v.advance (length_lt (tokens_advance heof ▸ List.suffix_refl _) heof)

theorem expect {kind : Kind} {place : String} {k k' : Token → Reader β} (heof : kind ≠ .eof)
    (h : ∀ t v', v'.tokens.length < v.tokens.length → Alike (k t) (k' t) v') :
    Alike (expect kind place >>= k) (expect kind place >>= k') v := by
  unfold Parser.expect
  rw [bind_assoc, bind_assoc]
  refine at_ (fun hkind => ?_) fun _ => ?_
  · rw [if_pos rfl]
    exact take (hkind ▸ heof) (h _)
  · rw [if_neg Bool.false_ne_true]
    exact reject _ v

theorem ident {k k' : Token → Reader β}
    (h : ∀ t v', v'.tokens.length < v.tokens.length → Alike (k t) (k' t) v') :
    Alike (ident >>= k) (ident >>= k') v := by
  unfold Parser.ident
  rw [bind_assoc, bind_assoc]
  refine peek ?_
  by_cases hkind : v.token.kind = .ident
  · rw [if_pos hkind]
    exact take (by simp [hkind]) (h _)
  · rw [if_neg hkind]
    exact reject _ v

theorem attempt (h : Alike r r' v) : Alike (attempt r) (attempt r') v := by
  intro c hc
  rw [run_attempt, run_attempt, h c hc]

/-- The readers of lists with commas have one shape. -/
theorem listed {item item' : Reader α} {items items' : Reader (List α)} (hitem : Alike item item' v)
    (hloose : Loose item) (hlooses : Loose items)
    (hitems : ∀ v', v'.tokens.length < v.tokens.length → Alike items items' v') :
    Alike (do
      let a ← item
      if ← Parser.at_ .comma then
        let _ ← advance
        return a :: (← items)
      else return [a]) (do
      let a ← item'
      if ← Parser.at_ .comma then
        let _ ← advance
        return a :: (← items')
      else return [a]) v := by
  refine hitem.behind hloose fun a v₁ h₁ => ?_
  refine at_ (fun hcomma => take (by simp [hcomma]) fun v₂ h₂ => ?_) fun _ => .refl _ v₁
  exact (hitems v₂ (by omega)).behind hlooses fun _ v₃ _ => .refl _ v₃

end Alike

/-! Expressions. -/

structure AlikeExprs (b b' : Nat) : Prop where
  expr : ∀ v, 10 * v.tokens.length + 4 ≤ min b b' → Alike (expr b) (expr b') v
  binary : ∀ v least, 10 * v.tokens.length + 3 ≤ min b b' →
    Alike (binary b least) (binary b' least) v
  climb : ∀ v least left, 10 * v.tokens.length + 1 ≤ min b b' → Alike (climb b least left)
    (climb b' least left) v
  unary : ∀ v, 10 * v.tokens.length + 2 ≤ min b b' → Alike (unary b) (unary b') v
  primary : ∀ v, 10 * v.tokens.length + 1 ≤ min b b' → Alike (primary b) (primary b') v
  exprs : ∀ v, 10 * v.tokens.length + 5 ≤ min b b' → Alike (exprs b) (exprs b') v
  dims : ∀ v, 10 * v.tokens.length + 1 ≤ min b b' → Alike (dims b) (dims b') v

theorem alikeExprs_zero {b b' : Nat} (h : min b b' = 0) : AlikeExprs b b' := by
  constructor <;> intros <;> omega

theorem alike_climb {b b' : Nat} (ih : AlikeExprs b b') (v : View) (least : Nat) (left : Expr)
    (hb : 10 * v.tokens.length ≤ min b b') :
    Alike (climb (b + 1) least left) (climb (b' + 1) least left) v := by
  rw [climb, climb]
  refine Alike.peek ?_
  split
  · exact Alike.refl _ v
  · rename_i p op hop
    refine Alike.ite (fun _ => Alike.refl _ v) fun _ =>
      Alike.take (ne_of_binaryOp? hop).1 fun v₁ h₁ => ?_
    have hgo : Alike (do
        let right ← binary b (p + 1)
        climb b least (.binary (left.span.cover right.span) op left right)) (do
        let right ← binary b' (p + 1)
        climb b' least (.binary (left.span.cover right.span) op left right)) v₁ :=
      (ih.binary v₁ (p + 1) (by omega)).behind ((Built.exprs_all b).binary _) fun right v₂ h₂ =>
        ih.climb v₂ _ _ (by omega)
    exact Alike.atAny (fun _ => hgo) fun _ => .reject _ v₁

theorem alike_primary {b b' : Nat} (ih : AlikeExprs b b') (v : View)
    (hb : 10 * v.tokens.length ≤ min b b') :
    Alike (primary (b + 1)) (primary (b' + 1)) v := by
  rw [primary, primary]
  refine Alike.peek ?_
  split
  · exact Alike.refl _ v
  · rename_i hkind
    refine Alike.take (by simp [hkind]) fun v₁ h₁ => Alike.at_ (fun hlp => ?_) fun _ => ?_
    · refine Alike.take (by simp [hlp]) fun v₂ h₂ => Alike.at_ (fun _ => .refl _ v₂) fun _ => ?_
      exact (ih.exprs v₂ (by omega)).behind (Built.exprs_all b).exprs fun _ v₃ _ => .refl _ v₃
    · exact (ih.dims v₁ (by omega)).behind (Built.exprs_all b).dims fun _ v₂ _ => .refl _ v₂
  · rename_i hkind
    refine Alike.take (by simp [hkind]) fun v₁ h₁ => ?_
    exact (ih.expr v₁ (by omega)).behind (Built.exprs_all b).expr fun _ v₂ _ => .refl _ v₂
  · exact Alike.refl _ v

theorem alikeExprs (b b' : Nat) : AlikeExprs b b' := by
  induction b generalizing b' with
  | zero => exact alikeExprs_zero (Nat.zero_min b')
  | succ b ih =>
    cases b' with
    | zero => exact alikeExprs_zero (Nat.min_zero (b + 1))
    | succ b' =>
      have ih := ih b'
      constructor
      case expr =>
        intro v hb
        rw [expr, expr]
        exact Alike.atAny (fun _ => ih.binary v 0 (by omega)) fun _ => .refl _ v
      case binary =>
        intro v least hb
        rw [binary, binary]
        exact (ih.unary v (by omega)).behind (Built.exprs_all b).unary fun left v₁ h₁ =>
          ih.climb v₁ least left (by omega)
      case climb => exact fun v least left hb => alike_climb ih v least left (by omega)
      case unary =>
        intro v hb
        rw [unary, unary]
        refine Alike.peek ?_
        split
        · rename_i op hop
          refine Alike.take (ne_of_unaryOp? hop).1 fun v₁ h₁ => ?_
          exact (ih.unary v₁ (by omega)).behind (Built.exprs_all b).unary fun _ v₂ _ => .refl _ v₂
        · exact ih.primary v (by omega)
      case primary => exact fun v hb => alike_primary ih v (by omega)
      case exprs =>
        intro v hb
        rw [exprs, exprs]
        exact .listed (ih.expr v (by omega)) (Built.exprs_all b).expr (Built.exprs_all b).exprs
          fun v' hlt => ih.exprs v' (by omega)
      case dims =>
        intro v hb
        rw [dims, dims]
        refine Alike.at_ (fun hlb => Alike.take (by simp [hlb]) fun v₁ h₁ => ?_) fun _ => .refl _ v
        refine (ih.expr v₁ (by omega)).behind (Built.exprs_all b).expr fun e v₂ h₂ => ?_
        refine Alike.expect (by decide) fun _ v₃ h₃ => ?_
        exact (ih.dims v₃ (by omega)).behind (Built.exprs_all b).dims fun _ v₄ _ => .refl _ v₄

/-! Initialisers and declarations. -/

theorem alike_init (b b' : Nat) :
    (∀ v : View, 10 * v.tokens.length + 5 ≤ min b b' → Alike (init b) (init b') v) ∧
      ∀ v : View, 10 * v.tokens.length + 6 ≤ min b b' → Alike (inits b) (inits b') v := by
  induction b generalizing b' with
  | zero => exact ⟨fun v hb => by omega, fun v hb => by omega⟩
  | succ b ih =>
    cases b' with
    | zero => exact ⟨fun v hb => by omega, fun v hb => by omega⟩
    | succ b' =>
      obtain ⟨ihInit, ihInits⟩ := ih b'
      refine ⟨fun v hb => ?_, fun v hb => ?_⟩
      · rw [init, init]
        refine Alike.at_ (fun hlb => Alike.take (by simp [hlb]) fun v₁ h₁ => ?_) fun _ => ?_
        · refine Alike.at_ (fun _ => .refl _ v₁) fun _ => ?_
          exact (ihInits v₁ (by omega)).behind (Built.init_all b).2 fun _ v₂ _ => .refl _ v₂
        · exact ((alikeExprs b b').expr v (by omega)).behind (Built.exprs_all b).expr fun _ v₁ _ =>
            .refl _ v₁
      · rw [inits, inits]
        exact .listed (ihInit v (by omega)) (Built.init_all b).1 (Built.init_all b).2
          fun v' hlt => ihInits v' (by omega)

theorem alike_varDef (b b' : Nat) (isConst : Bool) (name : Token) (v : View)
    (hb : 10 * v.tokens.length + 1 ≤ min b b') :
    Alike (varDef b isConst name) (varDef b' isConst name) v := by
  rw [varDef, varDef]
  refine ((alikeExprs b b').dims v hb).behind (Built.exprs_all b).dims fun ds v₁ h₁ => ?_
  refine Alike.at_ (fun heq => Alike.take (by simp [heq]) fun v₂ h₂ => ?_) fun _ => .refl _ v₁
  exact ((alike_init b b').1 v₂ (by omega)).behind (Built.init_all b).1 fun _ v₃ _ => .refl _ v₃

theorem alike_varDefs (isConst : Bool) (b b' : Nat) (first : Token) (v : View)
    (hb : 10 * v.tokens.length + 2 ≤ min b b') :
    Alike (varDefs isConst b first) (varDefs isConst b' first) v := by
  induction b generalizing b' first v with
  | zero => omega
  | succ b ih =>
    cases b' with
    | zero => omega
    | succ b' =>
      rw [varDefs, varDefs]
      refine (alike_varDef b b' isConst first v (by omega)).behind (.varDef ..) fun d v₁ h₁ => ?_
      refine Alike.at_ (fun hcomma => Alike.take (by simp [hcomma]) fun v₂ h₂ => ?_) fun _ =>
        .refl _ v₁
      refine Alike.ident fun name v₃ h₃ => ?_
      exact (ih b' name v₃ (by omega)).behind (.varDefs ..) fun _ v₄ _ => .refl _ v₄

theorem alike_declRest (b b' : Nat) (isConst : Bool) (first : Token) (v : View)
    (hb : 10 * v.tokens.length + 2 ≤ min b b') :
    Alike (declRest b isConst first) (declRest b' isConst first) v := by
  rw [declRest, declRest]
  exact (alike_varDefs isConst b b' first v hb).behind (.varDefs ..) fun _ v₁ _ => .refl _ v₁

theorem alike_decl (b b' : Nat) (v : View) (hb : 10 * v.tokens.length + 2 ≤ min b b') :
    Alike (decl b) (decl b') v := by
  have hrest (isConst : Bool) {v₁ : View} (h₁ : v₁.tokens.length ≤ v.tokens.length) : Alike (do
      let _ ← expect .kwInt " in declaration"
      let name ← ident
      declRest b isConst name) (do
      let _ ← expect .kwInt " in declaration"
      let name ← ident
      declRest b' isConst name) v₁ :=
    Alike.expect (by decide) fun _ v₂ h₂ => Alike.ident fun name v₃ h₃ =>
      alike_declRest b b' isConst name v₃ (by omega)
  rw [decl, decl]
  refine Alike.at_ (fun hconst => ?_) fun _ => hrest false le_rfl
  exact Alike.take (by simp [hconst]) fun v₁ h₁ => hrest true h₁.le

/-! Statements. -/

theorem alike_condition (b b' : Nat) (v : View) (hb : 10 * v.tokens.length ≤ min b b') :
    Alike (condition b) (condition b') v := by
  rw [condition, condition]
  refine Alike.expect (by decide) fun _ v₁ h₁ => ?_
  exact ((alikeExprs b b').expr v₁ (by omega)).behind (Built.exprs_all b).expr fun _ v₂ _ =>
    .refl _ v₂

theorem alike_simpleStmt (b b' : Nat) (v : View) (hb : 10 * v.tokens.length + 4 ≤ min b b') :
    Alike (simpleStmt b) (simpleStmt b') v := by
  rw [simpleStmt, simpleStmt]
  refine ((alikeExprs b b').expr v hb).behind (Built.exprs_all b).expr fun e v₁ h₁ => ?_
  refine Alike.at_ (fun heq => Alike.take (by simp [heq]) fun v₂ h₂ => ?_) fun _ => .refl _ v₁
  split
  · exact ((alikeExprs b b').expr v₂ (by omega)).behind (Built.exprs_all b).expr fun _ v₃ _ =>
      .refl _ v₃
  · exact .refl _ v₂

structure AlikeStmts (b b' : Nat) : Prop where
  block : ∀ v, 10 * v.tokens.length + 1 ≤ min b b' → Alike (block b) (block b') v
  stmts : ∀ v, 10 * v.tokens.length + 6 ≤ min b b' → Alike (stmts b) (stmts b') v
  stmt : ∀ v, 10 * v.tokens.length + 5 ≤ min b b' → Alike (stmt b) (stmt b') v

theorem alikeStmts_zero {b b' : Nat} (h : min b b' = 0) : AlikeStmts b b' := by
  constructor <;> intros <;> omega

theorem ite_bind (p : Prop) [Decidable p] (r r' : Reader α) (k : α → Reader β) :
    (if p then r else r') >>= k = if p then r >>= k else r' >>= k := by
  split <;> rfl

theorem stmts_succ (b : Nat) : stmts (b + 1) = do
    if ← atAny [.rbrace, .eof] then return []
    if (← get).enough then failure
    let outcome ← stmtRound b
    return outcome :: (← stmts b) := by
  rw [stmts]
  unfold stmtRound
  simp only [bind_assoc, pure_bind, ite_bind]

theorem items_succ (b : Nat) : items (b + 1) = (do
    if ← at_ .eof then return []
    if (← get).enough then return []
    match ← itemRound b with
    | some i => return i :: (← items b)
    | none => items b) := by
  rw [items]
  unfold itemRound
  simp only [bind_assoc, pure_bind, ite_bind]
  refine bind_congr fun ended => ite_congr rfl (fun _ => rfl) fun _ => bind_congr fun c =>
    ite_congr rfl (fun _ => rfl) fun _ => ?_
  refine bind_congr fun outcome => ?_
  cases outcome with
  | none => rfl
  | some i => rfl

theorem alike_stmtRound {b b' : Nat} {v : View} (h : Alike (stmt b) (stmt b') v) :
    Alike (stmtRound b) (stmtRound b') v :=
  (Alike.attempt h).behind (.attempt (Built.stmts_all b).stmt) fun _ v₁ _ => .refl _ v₁

theorem alike_stmts {b b' : Nat} (ih : AlikeStmts b b') (v : View)
    (hb : 10 * v.tokens.length + 5 ≤ min b b') :
    Alike (stmts (b + 1)) (stmts (b' + 1)) v := by
  rw [stmts_succ, stmts_succ]
  refine Alike.atAny (fun _ => .refl _ v) fun hgo => Alike.get fun c _ =>
    Alike.ite (fun _ => .failed (Ends.failure trivial)) fun _ => ?_
  obtain ⟨hbrace, heof⟩ : v.token.kind ≠ .rbrace ∧ v.token.kind ≠ .eof := by simpa using hgo
  refine (alike_stmtRound (ih.stmt v hb)).bind (passes_stmtRound (by omega) hbrace heof)
    fun outcome v₁ h₁ => ?_
  have hlt := Alike.length_lt h₁ heof
  exact (ih.stmts v₁ (by omega)).behind (Built.stmts_all b).stmts fun _ v₂ _ => .refl _ v₂

theorem alike_stmt {b b' : Nat} (ih : AlikeStmts b b') (v : View)
    (hb : 10 * v.tokens.length + 4 ≤ min b b') :
    Alike (stmt (b + 1)) (stmt (b' + 1)) v := by
  have hstmt : Loose (stmt b) := (Built.stmts_all b).stmt
  rw [stmt, stmt]
  refine Alike.peek ?_
  split
  · exact (ih.block v (by omega)).behind (Built.stmts_all b).block fun _ v₁ _ => .refl _ v₁
  · exact (alike_decl b b' v (by omega)).behind (.decl b) fun _ v₁ _ => .refl _ v₁
  · exact (alike_decl b b' v (by omega)).behind (.decl b) fun _ v₁ _ => .refl _ v₁
  · rename_i hkind
    refine Alike.take (by simp [hkind]) fun v₁ h₁ => ?_
    refine (alike_condition b b' v₁ (by omega)).behind (.condition b) fun test v₂ h₂ => ?_
    refine (ih.stmt v₂ (by omega)).behind hstmt fun yes v₃ h₃ => ?_
    refine Alike.at_ (fun helse => Alike.take (by simp [helse]) fun v₄ h₄ => ?_) fun _ => .refl _ v₃
    exact (ih.stmt v₄ (by omega)).behind hstmt fun _ v₅ _ => .refl _ v₅
  · rename_i hkind
    refine Alike.take (by simp [hkind]) fun v₁ h₁ => ?_
    refine (alike_condition b b' v₁ (by omega)).behind (.condition b) fun test v₂ h₂ => ?_
    exact (ih.stmt v₂ (by omega)).behind hstmt fun _ v₃ _ => .refl _ v₃
  · exact .refl _ v
  · exact .refl _ v
  · rename_i hkind
    refine Alike.take (by simp [hkind]) fun v₁ h₁ => Alike.at_ (fun _ => .refl _ v₁) fun _ => ?_
    have hvalue : Alike (some <$> expr b) (some <$> expr b') v₁ := by
      rw [map_eq_pure_bind, map_eq_pure_bind]
      exact ((alikeExprs b b').expr v₁ (by omega)).behind (Built.exprs_all b).expr fun _ v₂ _ =>
        .refl _ v₂
    exact hvalue.behind (.map (Built.exprs_all b).expr) fun _ v₂ _ => .refl _ v₂
  · exact .refl _ v
  · exact alike_simpleStmt b b' v hb

theorem alikeStmts (b b' : Nat) : AlikeStmts b b' := by
  induction b generalizing b' with
  | zero => exact alikeStmts_zero (Nat.zero_min b')
  | succ b ih =>
    cases b' with
    | zero => exact alikeStmts_zero (Nat.min_zero (b + 1))
    | succ b' =>
      have ih := ih b'
      refine ⟨fun v hb => ?_, fun v hb => alike_stmts ih v (by omega),
        fun v hb => alike_stmt ih v (by omega)⟩
      rw [block, block]
      refine Alike.expect (by decide) fun _ v₁ h₁ => ?_
      exact (ih.stmts v₁ (by omega)).behind (Built.stmts_all b).stmts fun _ v₂ _ => .refl _ v₂

/-! Items. -/

theorem alike_param (b b' : Nat) (v : View) (hb : 10 * v.tokens.length ≤ min b b') :
    Alike (param b) (param b') v := by
  rw [param, param]
  refine Alike.expect (by decide) fun type v₁ h₁ => Alike.ident fun name v₂ h₂ => ?_
  refine Alike.at_ (fun hlb => Alike.take (by simp [hlb]) fun v₃ h₃ => ?_) fun _ => .refl _ v₂
  refine Alike.expect (by decide) fun _ v₄ h₄ => ?_
  exact ((alikeExprs b b').dims v₄ (by omega)).behind (Built.exprs_all b).dims fun _ v₅ _ =>
    .refl _ v₅

theorem alike_params (b b' : Nat) (v : View) (hb : 10 * v.tokens.length + 1 ≤ min b b') :
    Alike (params b) (params b') v := by
  induction b generalizing b' v with
  | zero => omega
  | succ b ih =>
    cases b' with
    | zero => omega
    | succ b' =>
      rw [params, params]
      exact .listed (alike_param b b' v (by omega)) (.param b) (.params b)
        fun v' hlt => ih b' v' (by omega)

theorem alike_funcRest (b b' : Nat) (type name : Token) (ps : List Param) (v : View)
    (hb : 10 * v.tokens.length ≤ min b b') :
    Alike (funcRest b type name ps) (funcRest b' type name ps) v := by
  rw [funcRest, funcRest]
  refine Alike.expect (by decide) fun _ v₁ h₁ => Alike.at_ (fun _ => ?_) fun _ => .reject _ v₁
  exact ((alikeStmts b b').block v₁ (by omega)).behind (Built.stmts_all b).block fun _ v₂ _ =>
    .refl _ v₂

theorem alike_func (b b' : Nat) (type name : Token) (v : View) (hlp : v.token.kind = .lparen)
    (hb : 10 * v.tokens.length ≤ min b b') : Alike (func b type name) (func b' type name) v := by
  rw [func_eq, func_eq]
  refine Alike.take (by simp [hlp]) fun v₁ h₁ => ?_
  refine Alike.at_ (fun _ => alike_funcRest b b' type name [] v₁ (by omega)) fun _ => ?_
  exact (alike_params b b' v₁ (by omega)).behind (.params b) fun ps v₂ h₂ =>
    alike_funcRest b b' type name ps v₂ (by omega)

theorem alike_typedItem (b b' : Nat) (type : Token) (v : View) (hkind : v.token.kind ≠ .eof)
    (hb : 10 * v.tokens.length ≤ min b b' + 10) :
    Alike (typedItem b type) (typedItem b' type) v := by
  rw [typedItem, typedItem]
  refine Alike.take hkind fun v₁ h₁ => Alike.ident fun name v₂ h₂ => ?_
  refine Alike.at_ (fun hlp => alike_func b b' _ name v₂ hlp (by omega)) fun _ => ?_
  rw [if_neg Bool.false_ne_true, if_neg Bool.false_ne_true]
  refine Alike.ite (fun _ => .refl _ v₂) fun _ => ?_
  exact (alike_declRest b b' false name v₂ (by omega)).behind (.declRest ..) fun _ v₃ _ =>
    .refl _ v₃

theorem alike_item (b b' : Nat) (v : View) (hb : 10 * v.tokens.length + 2 ≤ min b b') :
    Alike (item b) (item b') v := by
  rw [item_eq, item_eq]
  refine Alike.peek ?_
  split
  · exact (alike_decl b b' v hb).behind (.decl b) fun _ v₁ _ => .refl _ v₁
  · rename_i hkind
    exact alike_typedItem b b' _ v (by simp [hkind]) (by omega)
  · rename_i hkind
    exact alike_typedItem b b' _ v (by simp [hkind]) (by omega)
  · exact .refl _ v

theorem alike_itemRound {b b' : Nat} {v : View} (hb : 10 * v.tokens.length + 2 ≤ min b b') :
    Alike (itemRound b) (itemRound b') v :=
  (Alike.attempt (alike_item b b' v hb)).behind (.attempt (.item b)) fun _ v₁ _ => .refl _ v₁

end Sysy.Parser
