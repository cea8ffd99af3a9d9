import Sysy.Proofs.Parsing.Soundness

/-!
Whatever the grammar says is read without an error, and the tree that is made of it is the
grammar's. The readers look one token ahead, so each lemma asks what the token behind the part is
not: it must not go on with it.
-/

namespace Sysy.Parser
open Token Grammar

variable {α β : Type} {r : Reader α} {v v' : View} {R : β → View → Prop} {E : View → Prop}
  {ts rest : List Token}

def Accepts (r : Reader α) (v : View) (ts : List Token) (a : α) : Prop :=
  Ends r v (fun a' v' => a' = a ∧ v.Took ts v') fun _ => False

theorem Accepts.bind {a : α} {k : α → Reader β} (h : Accepts r v ts a)
    (hk : ∀ v', v.Took ts v' → Ends (k a) v' R fun _ => False) :
    Ends (r >>= k) v R fun _ => False := by
  refine Ends.bind h ?_
  rintro _ v' ⟨rfl, hv'⟩
  exact hk v' hv'

/-! Steps with a token that is known. -/

theorem View.token_eq {t : Token} (hv : v.tokens = t :: rest) : v.token = t := by
  rw [View.token, hv]
namespace Ends
variable {t : Token}

theorem peekKnown {k : Token → Reader β} (hv : v.tokens = t :: rest) (h : Ends (k t) v R E) :
    Ends (Parser.peek >>= k) v R E := peek (by rwa [View.token_eq hv])

theorem known {k : Token → Reader β} (hv : v.tokens = t :: rest)
    (h : ∀ v', v.Took [t] v' → v'.tokens = rest → Ends (k t) v' R E) :
    ∀ v', v.Took [v.token] v' → Ends (k v.token) v' R E := by
  intro v' h'
  rw [View.token_eq hv] at h' ⊢
  exact h v' h' (h'.rest hv)

theorem takeKnown {k : Token → Reader β} {kind : Kind} (hv : v.tokens = t :: rest)
    (ht : t.kind = kind) (hne : kind ≠ .eof ∧ kind ≠ .invalid)
    (h : ∀ v', v.Took [t] v' → v'.tokens = rest → Ends (k t) v' R E) :
    Ends (Parser.advance >>= k) v R E := by
  have htoken := View.token_eq hv
  exact take (by rw [htoken, ht]; exact hne.1) (by rw [htoken, ht]; exact hne.2) (known hv h)

theorem expectKnown {k : Token → Reader β} {kind : Kind} {place : String}
    (hv : v.tokens = t :: rest) (ht : t.kind = kind) (hne : kind ≠ .eof ∧ kind ≠ .invalid)
    (h : ∀ v', v.Took [t] v' → v'.tokens = rest → Ends (k t) v' R E) :
    Ends (Parser.expect kind place >>= k) v R E :=
  expect hne.1 hne.2 (fun _ => known hv h) fun hne' => absurd (View.token_eq hv ▸ ht) hne'

theorem identKnown {k : Token → Reader β} (hv : v.tokens = t :: rest) (ht : t.kind = .ident)
    (h : ∀ v', v.Took [t] v' → v'.tokens = rest → Ends (k t) v' R E) :
    Ends (Parser.ident >>= k) v R E :=
  ident (fun _ => known hv h) fun hne' => absurd (View.token_eq hv ▸ ht) hne'

theorem atKnown {k : Bool → Reader β} {kind : Kind} (hv : v.tokens = t :: rest) (ht : t.kind = kind)
    (h : Ends (k true) v R E) : Ends (Parser.at_ kind >>= k) v R E :=
  at_ (fun _ => h) fun hne => absurd (View.token_eq hv ▸ ht) hne

theorem atOther {k : Bool → Reader β} {kind : Kind} (hv : kindOf v.tokens ≠ kind)
    (h : Ends (k false) v R E) :
    Ends (Parser.at_ kind >>= k) v R E :=
  at_ (fun heq => absurd ((View.kind_token v).symm.trans heq) hv) fun _ => h

end Ends

/-! Lists with commas. The readers of them have one shape. -/

section Listed
variable {a : α} {as : List α} {item : Reader α} {items : Reader (List α)}

theorem listed_one (hv : v.tokens = ts ++ rest) (hrest : kindOf rest ≠ .comma)
    (ha : Accepts item v ts a) :
    Accepts (do
      let a ← item
      if ← at_ .comma then
        let _ ← advance
        return a :: (← items)
      else return [a]) v ts [a] := by
  refine ha.bind fun v₁ h₁ => ?_
  refine Ends.atOther (by rwa [h₁.rest hv]) ?_
  exact Ends.pure ⟨rfl, h₁⟩

theorem listed_cons {t : Token} {ts' : List Token} (hv : v.tokens = ts ++ t :: (ts' ++ rest))
    (ht : t.kind = .comma) (ha : Accepts item v ts a)
    (has : ∀ v', v'.tokens = ts' ++ rest → v'.tokens.length < v.tokens.length →
      Accepts items v' ts' as) :
    Accepts (do
      let a ← item
      if ← at_ .comma then
        let _ ← advance
        return a :: (← items)
      else return [a]) v (ts ++ t :: ts') (a :: as) := by
  refine ha.bind fun v₁ h₁ => ?_
  have hv₁ := h₁.rest hv
  refine Ends.atKnown hv₁ ht ?_
  rw [if_pos rfl]
  refine Ends.takeKnown hv₁ ht (by decide) fun v₂ h₂ hv₂ => ?_
  have h₁₂ := h₁.trans h₂
  have hlen := h₁₂.length
  refine (has v₂ hv₂ (by simp at hlen; omega)).bind fun v₃ h₃ => ?_
  exact Ends.pure ⟨rfl, by simpa using h₁₂.trans h₃⟩

end Listed

/-! Expressions. -/

structure Closes (k : Nat) (rest : List Token) : Prop where
  stops : ∀ p op, binaryOp? (kindOf rest) = some (p, op) → p < k
  lbracket : kindOf rest ≠ .lbracket
  lparen : kindOf rest ≠ .lparen

theorem Closes.of_le {j k : Nat} (h : Closes j rest) (hle : j ≤ k) : Closes k rest :=
  ⟨fun p op hop => (h.stops p op hop).trans_le hle, h.lbracket, h.lparen⟩

theorem Closes.of_kind {k : Nat} {t : Token} {kind : Kind} (ht : t.kind = kind)
    (hkind : binaryOp? kind = none ∧ kind ≠ .lbracket ∧ kind ≠ .lparen) : Closes k (t :: rest) := by
  subst ht
  exact ⟨fun p op hop => by simp [kindOf, hkind.1] at hop, hkind.2.1, hkind.2.2⟩

theorem Closes.of_op {k p : Nat} {t : Token} {op : BinaryOp} (ht : binaryOp? t.kind = some (p, op))
    (hp : p < k) :
    Closes k (t :: rest) := by
  refine ⟨fun p' op' hop => ?_, fun h => ?_, fun h => ?_⟩
  · rw [kindOf, ht] at hop
    cases hop
    exact hp
  · rw [kindOf] at h
    rw [h] at ht
    cases ht
  · rw [kindOf] at h
    rw [h] at ht
    cases ht

def ExprAccepted (ts : List Token) (e : Expr) : Prop := ∀ ⦃v : View⦄ ⦃rest : List Token⦄ ⦃b : Nat⦄,
  v.tokens = ts ++ rest → Closes 1 rest → 10 * v.tokens.length + 4 ≤ b → Accepts (expr b) v ts e

def LevelAccepted (k : Nat) (ts : List Token) (e : Expr) : Prop :=
  ∀ ⦃v : View⦄ ⦃rest : List Token⦄ ⦃least b : Nat⦄
  ⦃R : Expr → View → Prop⦄, v.tokens = ts ++ rest → Closes (k + 1) rest → least ≤ k →
    10 * v.tokens.length + 3 ≤ b →
    (∀ b' v', v.Took ts v' → 10 * v'.tokens.length + 1 ≤ b' →
      Ends (climb b' least e) v' R fun _ => False) →
    Ends (binary b least) v R fun _ => False

def UnaryAccepted (ts : List Token) (e : Expr) : Prop := ∀ ⦃v : View⦄ ⦃rest : List Token⦄ ⦃b : Nat⦄,
  v.tokens = ts ++ rest → Closes 7 rest → 10 * v.tokens.length + 2 ≤ b → Accepts (unary b) v ts e

def PrimaryAccepted (ts : List Token) (e : Expr) : Prop :=
  ∀ ⦃v : View⦄ ⦃rest : List Token⦄ ⦃b : Nat⦄,
  v.tokens = ts ++ rest → Closes 7 rest → 10 * v.tokens.length + 1 ≤ b → Accepts (primary b) v ts e

def ExprsAccepted (ts : List Token) (es : List Expr) : Prop :=
  ∀ ⦃v : View⦄ ⦃rest : List Token⦄ ⦃b : Nat⦄,
  v.tokens = ts ++ rest → Closes 1 rest → kindOf rest ≠ .comma → 10 * v.tokens.length + 5 ≤ b →
    Accepts (exprs b) v ts es

def IndicesAccepted (ts : List Token) (es : List Expr) : Prop :=
  ∀ ⦃v : View⦄ ⦃rest : List Token⦄ ⦃b : Nat⦄,
  v.tokens = ts ++ rest → kindOf rest ≠ .lbracket → 10 * v.tokens.length + 1 ≤ b →
    Accepts (dims b) v ts es

/-- Nothing follows that binds tightly enough. -/
theorem ends_climb {b least : Nat} {e : Expr} {R : Expr → View → Prop}
    (hstops : Closes least v.tokens) (hb : 10 * v.tokens.length + 1 ≤ b) (h : R e v) :
    Ends (climb b least e) v R fun _ => False := by
  obtain ⟨b, rfl⟩ : ∃ b', b = b' + 1 := ⟨b - 1, by omega⟩
  rw [climb]
  refine Ends.peek ?_
  split
  · exact Ends.pure h
  · rename_i p op hop
    rw [View.kind_token] at hop
    rw [if_pos (hstops.stops p op hop)]
    exact Ends.pure h

theorem LevelAccepted.expr {e : Expr} (h : LevelAccepted 1 ts e)
    (hbegins : Begins (· ∈ exprStarts) ts) :
    ExprAccepted ts e := by
  intro v rest b hv hrest hb
  obtain ⟨b, rfl⟩ : ∃ b', b = b' + 1 := ⟨b - 1, by omega⟩
  rw [Parser.expr]
  refine Ends.atAny (fun _ => ?_) fun hno => ?_
  · refine h hv (hrest.of_le (by decide)) (by decide) (by omega) fun b' v' h' hb' => ?_
    refine ends_climb ?_ hb' ⟨rfl, h'⟩
    rw [h'.rest hv]
    refine ⟨fun p op hop => ?_, hrest.lbracket, hrest.lparen⟩
    exact absurd (hrest.stops p op hop) (not_lt.mpr (tightness_of_binaryOp? hop).1)
  · exact absurd (View.token_begins hbegins hv) hno

theorem LevelAccepted.up {k : Nat} {e : Expr} (h : LevelAccepted (k + 1) ts e) :
    LevelAccepted k ts e := by
  intro v rest least b R hv hrest hleast hb hk
  exact h hv (hrest.of_le (by omega)) (by omega) hb hk

theorem level_unary {e : Expr} (h : UnaryAccepted ts e) : LevelAccepted 7 ts e := by
  intro v rest least b R hv hrest _ hb hk
  obtain ⟨b, rfl⟩ : ∃ b', b = b' + 1 := ⟨b - 1, by omega⟩
  rw [binary]
  have hrest' : Closes 7 rest := by
    refine ⟨fun p op hop => ?_, hrest.lbracket, hrest.lparen⟩
    have := tightness_of_binaryOp? hop
    omega
  refine (h hv hrest' (by omega)).bind fun v' h' => hk b v' h' ?_
  have := h'.length
  omega

theorem level_binary {k : Nat} {t : Token} {ts' : List Token} {op : BinaryOp} {l r : Expr}
    (hl : LevelAccepted k ts l) (ht : binaryOp? t.kind = some (k, op))
    (hr : LevelAccepted (k + 1) ts' r) (hbegins : Begins (· ∈ exprStarts) ts') :
    LevelAccepted k (ts ++ t :: ts') (.binary (l.span.cover r.span) op l r) := by
  intro v rest least b R hv hrest hleast hb hk
  obtain ⟨heof, hinvalid⟩ := ne_of_binaryOp? ht
  have hv₀ : v.tokens = ts ++ t :: (ts' ++ rest) := by simpa using hv
  refine hl hv₀ (.of_op ht (Nat.lt_succ_self k)) hleast hb fun b₁ v₁ h₁ hb₁ => ?_
  obtain ⟨b₁, rfl⟩ : ∃ b', b₁ = b' + 1 := ⟨b₁ - 1, by omega⟩
  have hv₁ := h₁.rest hv₀
  rw [climb]
  refine Ends.peekKnown hv₁ ?_
  rw [ht]
  dsimp only
  rw [if_neg (not_lt.mpr hleast)]
  refine Ends.takeKnown hv₁ rfl ⟨heof, hinvalid⟩ fun v₂ h₂ hv₂ => ?_
  have hlen₂ := h₂.length
  refine Ends.atAny (fun _ => ?_) fun hno => ?_
  · rw [if_neg (by simp)]
    refine Ends.bind (Q := fun e v' => e = r ∧ v₂.Took ts' v') ?_ ?_
    · refine hr hv₂ (hrest.of_le (by omega)) le_rfl (by simp at hlen₂; omega) fun b₃ v₃ h₃ hb₃ => ?_
      refine ends_climb ?_ hb₃ ⟨rfl, h₃⟩
      rw [h₃.rest hv₂]
      exact hrest
    · rintro _ v₃ ⟨rfl, h₃⟩
      have hlen₃ := h₃.length
      refine hk b₁ v₃ ?_ (by simp at hlen₂; omega)
      simpa using (h₁.trans h₂).trans h₃
  · exact absurd (View.token_begins hbegins hv₂) hno

theorem unary_op {t : Token} {op : UnaryOp} {e : Expr} (ht : unaryOp? t.kind = some op)
    (he : UnaryAccepted ts e) :
    UnaryAccepted (t :: ts) (.unary (t.span.cover e.span) op e) := by
  intro v rest b hv hrest hb
  obtain ⟨b, rfl⟩ : ∃ b', b = b' + 1 := ⟨b - 1, by omega⟩
  obtain ⟨heof, hinvalid⟩ := ne_of_unaryOp? ht
  rw [unary]
  refine Ends.peekKnown hv ?_
  rw [ht]
  refine Ends.takeKnown hv rfl ⟨heof, hinvalid⟩ fun v₁ h₁ hv₁ => ?_
  have hlen := h₁.length
  refine (he hv₁ hrest (by simp at hlen; omega)).bind fun v₂ h₂ => ?_
  exact Ends.pure ⟨rfl, h₁.trans h₂⟩

theorem unary_primary {e : Expr} (he : PrimaryAccepted ts e) (hprimary : IsPrimary ts e) :
    UnaryAccepted ts e := by
  intro v rest b hv hrest hb
  obtain ⟨b, rfl⟩ : ∃ b', b = b' + 1 := ⟨b - 1, by omega⟩
  rw [unary]
  obtain ⟨t, ts', rfl, hkind⟩ : Begins (unaryOp? · = none) ts := by
    cases hprimary with
    | lit ht | lval ht | call ht | paren ht => exact ⟨_, _, rfl, by rw [ht]; rfl⟩
  refine Ends.peekKnown hv ?_
  rw [hkind]
  exact he hv hrest (by omega)

theorem primary_lit {t : Token} {n : Nat} (ht : t.kind = .intLit)
    (hn : Integer.read? t.text = some n) (hsmall : n < 2 ^ 32) :
    PrimaryAccepted [t] (.lit t.span (BitVec.ofNat 32 n)) := by
  intro v rest b hv _ hb
  obtain ⟨b, rfl⟩ : ∃ b', b = b' + 1 := ⟨b - 1, by omega⟩
  rw [primary]
  refine Ends.peekKnown hv ?_
  rw [ht]
  dsimp only
  rw [literal]
  refine Ends.takeKnown hv ht (by decide) fun v₁ h₁ _ => ?_
  rw [hn]
  dsimp only
  rw [if_pos (show n < 0x100000000 from hsmall)]
  exact Ends.pure ⟨rfl, h₁⟩

theorem primary_lval {t : Token} {es : List Expr} (ht : t.kind = .ident)
    (hes : IndicesAccepted ts es) (hindices : IsIndices ts es) :
    PrimaryAccepted (t :: ts) (.lval (t.span.cover (endSpan t.span ts))
      (Bytes.toAscii t.text) es) := by
  intro v rest b hv hrest hb
  obtain ⟨b, rfl⟩ : ∃ b', b = b' + 1 := ⟨b - 1, by omega⟩
  rw [primary]
  refine Ends.peekKnown hv ?_
  rw [ht]
  refine Ends.takeKnown hv ht (by decide) fun v₁ h₁ hv₁ => ?_
  have hlen := h₁.length
  have hother : kindOf v₁.tokens ≠ .lparen := by
    rw [hv₁]
    cases hindices with
    | nil => exact hrest.lparen
    | cons hlb => simp [kindOf, hlb]
  refine Ends.atOther hother ?_
  rw [if_neg Bool.false_ne_true]
  refine (hes hv₁ hrest.lbracket (by simp at hlen; omega)).bind fun v₂ h₂ => ?_
  refine Ends.lastSpan (Ends.pure ⟨?_, h₁.trans h₂⟩)
  rw [h₂.last, h₁.last]
  rfl

theorem primary_call {t lp rp : Token} {es : List Expr} (ht : t.kind = .ident)
    (hlp : lp.kind = .lparen)
    (hes : ts = [] ∧ es = [] ∨ ExprsAccepted ts es ∧ Begins (· ∈ exprStarts) ts)
    (hrp : rp.kind = .rparen) :
    PrimaryAccepted (t :: lp :: (ts ++ [rp]))
      (.call (t.span.cover rp.span) (Bytes.toAscii t.text) es) := by
  intro v rest b hv _ hb
  obtain ⟨b, rfl⟩ : ∃ b', b = b' + 1 := ⟨b - 1, by omega⟩
  have hv₀ : v.tokens = t :: lp :: (ts ++ rp :: rest) := by simpa using hv
  rw [primary]
  refine Ends.peekKnown hv₀ ?_
  rw [ht]
  refine Ends.takeKnown hv₀ ht (by decide) fun v₁ h₁ hv₁ => ?_
  refine Ends.atKnown hv₁ hlp ?_
  rw [if_pos rfl]
  refine Ends.takeKnown hv₁ hlp (by decide) fun v₂ h₂ hv₂ => ?_
  have h₁₂ := h₁.trans h₂
  have hlen := h₁₂.length
  have hclose {v₃ : View} (h₃ : v₂.Took ts v₃) : Ends (do
      let close ← expect .rparen " after call arguments"
      Pure.pure (Expr.call (t.span.cover close.span) (Bytes.toAscii t.text) es)) v₃
      (fun e v' => e = .call (t.span.cover rp.span) (Bytes.toAscii t.text) es ∧
        v.Took (t :: lp :: (ts ++ [rp])) v')
      fun _ => False := by
    refine Ends.expectKnown (h₃.rest hv₂) hrp (by decide) fun v₄ h₄ _ => ?_
    exact Ends.pure ⟨rfl, by simpa using (h₁₂.trans h₃).trans h₄⟩
  rcases hes with ⟨rfl, rfl⟩ | ⟨hes, hbegins⟩
  · refine Ends.atKnown hv₂ hrp ?_
    rw [if_pos rfl, pure_bind]
    exact hclose (.refl v₂)
  · refine Ends.atOther (View.kindOf_ne hbegins hv₂ (by decide)) ?_
    rw [if_neg Bool.false_ne_true]
    refine (hes hv₂ (.of_kind hrp (by decide)) (by simp [kindOf, hrp])
      (by simp at hlen; omega)).bind fun v₃ h₃ => ?_
    exact hclose h₃

theorem primary_paren {lp rp : Token} {e : Expr} (hlp : lp.kind = .lparen) (he : ExprAccepted ts e)
    (hrp : rp.kind = .rparen) : PrimaryAccepted (lp :: (ts ++ [rp])) e := by
  intro v rest b hv _ hb
  obtain ⟨b, rfl⟩ : ∃ b', b = b' + 1 := ⟨b - 1, by omega⟩
  have hv₀ : v.tokens = lp :: (ts ++ rp :: rest) := by simpa using hv
  rw [primary]
  refine Ends.peekKnown hv₀ ?_
  rw [hlp]
  refine Ends.takeKnown hv₀ hlp (by decide) fun v₁ h₁ hv₁ => ?_
  have hlen := h₁.length
  refine (he hv₁ (.of_kind hrp (by decide)) (by simp at hlen; omega)).bind fun v₂ h₂ => ?_
  refine Ends.expectKnown (h₂.rest hv₁) hrp (by decide) fun v₃ h₃ _ => ?_
  exact Ends.pure ⟨rfl, by simpa using (h₁.trans h₂).trans h₃⟩

theorem exprs_one {e : Expr} (he : ExprAccepted ts e) : ExprsAccepted ts [e] := by
  intro v rest b hv hrest hcomma hb
  obtain ⟨b, rfl⟩ : ∃ b', b = b' + 1 := ⟨b - 1, by omega⟩
  rw [exprs]
  exact listed_one hv hcomma (he hv hrest (by omega))

theorem exprs_cons {t : Token} {ts' : List Token} {e : Expr} {es : List Expr}
    (he : ExprAccepted ts e) (ht : t.kind = .comma) (hes : ExprsAccepted ts' es) :
    ExprsAccepted (ts ++ t :: ts') (e :: es) := by
  intro v rest b hv hrest hcomma hb
  obtain ⟨b, rfl⟩ : ∃ b', b = b' + 1 := ⟨b - 1, by omega⟩
  have hv₀ : v.tokens = ts ++ t :: (ts' ++ rest) := by simpa using hv
  rw [exprs]
  exact listed_cons hv₀ ht (he hv₀ (.of_kind ht (by decide)) (by omega))
    fun v' hv' hlt => hes hv' hrest hcomma (by omega)

theorem indices_nil : IndicesAccepted [] [] := by
  intro v rest b hv hrest hb
  obtain ⟨b, rfl⟩ : ∃ b', b = b' + 1 := ⟨b - 1, by omega⟩
  rw [dims]
  refine Ends.atOther (by rwa [hv]) ?_
  exact Ends.pure ⟨rfl, .refl v⟩

theorem indices_cons {lb rb : Token} {ts' : List Token} {e : Expr} {es : List Expr}
    (hlb : lb.kind = .lbracket) (he : ExprAccepted ts e) (hrb : rb.kind = .rbracket)
    (hes : IndicesAccepted ts' es) :
    IndicesAccepted (lb :: (ts ++ rb :: ts')) (e :: es) := by
  intro v rest b hv hrest hb
  obtain ⟨b, rfl⟩ : ∃ b', b = b' + 1 := ⟨b - 1, by omega⟩
  have hv₀ : v.tokens = lb :: (ts ++ rb :: (ts' ++ rest)) := by simpa using hv
  rw [dims]
  refine Ends.atKnown hv₀ hlb ?_
  rw [if_pos rfl]
  refine Ends.takeKnown hv₀ hlb (by decide) fun v₁ h₁ hv₁ => ?_
  have hlen := h₁.length
  refine (he hv₁ (.of_kind hrb (by decide)) (by simp at hlen; omega)).bind fun v₂ h₂ => ?_
  refine Ends.expectKnown (h₂.rest hv₁) hrb (by decide) fun v₃ h₃ hv₃ => ?_
  have h₁₃ := (h₁.trans h₂).trans h₃
  have hlen₃ := h₁₃.length
  refine (hes hv₃ hrest (by simp at hlen₃; omega)).bind fun v₄ h₄ => ?_
  exact Ends.pure ⟨rfl, by simpa using h₁₃.trans h₄⟩

mutual

theorem primaryAccepted : ∀ {ts : List Token} {e : Expr}, IsPrimary ts e → PrimaryAccepted ts e
  | _, _, .lit ht hn hsmall => primary_lit ht hn hsmall
  | _, _, .lval ht hes => primary_lval ht (indicesAccepted hes) hes
  | _, _, .call ht hlp .nil hrp => primary_call ht hlp (.inl ⟨rfl, rfl⟩) hrp
  | _, _, .call ht hlp (.some hes) hrp =>
    primary_call ht hlp (.inr ⟨exprsAccepted hes, hes.begins⟩) hrp
  | _, _, .paren hlp he hrp => primary_paren hlp ((levelAccepted he).expr he.begins) hrp

theorem unaryAccepted : ∀ {ts : List Token} {e : Expr}, IsUnary ts e → UnaryAccepted ts e
  | _, _, .op ht he => unary_op ht (unaryAccepted he)
  | _, _, .primary he => unary_primary (primaryAccepted he) he

theorem levelAccepted :
    ∀ {k : Nat} {ts : List Token} {e : Expr}, IsLevel k ts e → LevelAccepted k ts e
  | _, _, _, .unary he => level_unary (unaryAccepted he)
  | _, _, _, .up he => (levelAccepted he).up
  | _, _, _, .binary hl ht hr => level_binary (levelAccepted hl) ht (levelAccepted hr) hr.begins

theorem exprsAccepted : ∀ {ts : List Token} {es : List Expr}, IsExprs ts es → ExprsAccepted ts es
  | _, _, .one he => exprs_one ((levelAccepted he).expr he.begins)
  | _, _, .cons he ht hes => exprs_cons ((levelAccepted he).expr he.begins) ht (exprsAccepted hes)

theorem indicesAccepted :
    ∀ {ts : List Token} {es : List Expr}, IsIndices ts es → IndicesAccepted ts es
  | _, _, .nil => indices_nil
  | _, _, .cons hlb he hrb hes =>
    indices_cons hlb ((levelAccepted he).expr he.begins) hrb (indicesAccepted hes)

end

theorem exprAccepted {e : Expr} (h : IsExpr ts e) : ExprAccepted ts e :=
  (levelAccepted h).expr h.begins

/-! Initialisers and declarations. -/

def InitAccepted (ts : List Token) (i : Init) : Prop := ∀ ⦃v : View⦄ ⦃rest : List Token⦄ ⦃b : Nat⦄,
  v.tokens = ts ++ rest → Closes 1 rest → 10 * v.tokens.length + 5 ≤ b → Accepts (init b) v ts i

def InitsAccepted (ts : List Token) (is : List Init) : Prop :=
  ∀ ⦃v : View⦄ ⦃rest : List Token⦄ ⦃b : Nat⦄,
  v.tokens = ts ++ rest → Closes 1 rest → kindOf rest ≠ .comma → 10 * v.tokens.length + 6 ≤ b →
    Accepts (inits b) v ts is

theorem init_expr {e : Expr} (he : IsExpr ts e) : InitAccepted ts (.expr e) := by
  intro v rest b hv hrest hb
  obtain ⟨b, rfl⟩ : ∃ b', b = b' + 1 := ⟨b - 1, by omega⟩
  rw [init]
  refine Ends.atOther (View.kindOf_ne he.begins hv (by decide)) ?_
  rw [if_neg Bool.false_ne_true]
  refine (exprAccepted he hv hrest (by omega)).bind fun v₁ h₁ => ?_
  exact Ends.pure ⟨rfl, h₁⟩

theorem init_list {lb rb : Token} {is : List Init} (hlb : lb.kind = .lbrace)
    (his : ts = [] ∧ is = [] ∨ InitsAccepted ts is ∧ Begins (· ≠ .rbrace) ts)
    (hrb : rb.kind = .rbrace) :
    InitAccepted (lb :: (ts ++ [rb])) (.list (lb.span.cover rb.span) is) := by
  intro v rest b hv _ hb
  obtain ⟨b, rfl⟩ : ∃ b', b = b' + 1 := ⟨b - 1, by omega⟩
  have hv₀ : v.tokens = lb :: (ts ++ rb :: rest) := by simpa using hv
  rw [init]
  refine Ends.atKnown hv₀ hlb ?_
  rw [if_pos rfl]
  refine Ends.takeKnown hv₀ hlb (by decide) fun v₁ h₁ hv₁ => ?_
  have hlen := h₁.length
  have hclose {v₂ : View} (h₂ : v₁.Took ts v₂) : Ends (do
      let close ← expect .rbrace " to close initializer list"
      Pure.pure (Init.list (lb.span.cover close.span) is)) v₂
      (fun i v' => i = .list (lb.span.cover rb.span) is ∧ v.Took (lb :: (ts ++ [rb])) v') fun _ =>
        False := by
    refine Ends.expectKnown (h₂.rest hv₁) hrb (by decide) fun v₃ h₃ _ => ?_
    exact Ends.pure ⟨rfl, by simpa using (h₁.trans h₂).trans h₃⟩
  rcases his with ⟨rfl, rfl⟩ | ⟨his, hbegins⟩
  · refine Ends.atKnown hv₁ hrb ?_
    rw [if_pos rfl, pure_bind]
    exact hclose (.refl v₁)
  · refine Ends.atOther (View.kindOf_ne hbegins hv₁ (by simp)) ?_
    rw [if_neg Bool.false_ne_true]
    refine (his hv₁ (.of_kind hrb (by decide)) (by simp [kindOf, hrb])
      (by simp at hlen; omega)).bind fun v₂ h₂ => ?_
    exact hclose h₂

theorem inits_one {i : Init} (hi : InitAccepted ts i) : InitsAccepted ts [i] := by
  intro v rest b hv hrest hcomma hb
  obtain ⟨b, rfl⟩ : ∃ b', b = b' + 1 := ⟨b - 1, by omega⟩
  rw [inits]
  exact listed_one hv hcomma (hi hv hrest (by omega))

theorem inits_cons {t : Token} {ts' : List Token} {i : Init} {is : List Init}
    (hi : InitAccepted ts i) (ht : t.kind = .comma) (his : InitsAccepted ts' is) :
    InitsAccepted (ts ++ t :: ts') (i :: is) := by
  intro v rest b hv hrest hcomma hb
  obtain ⟨b, rfl⟩ : ∃ b', b = b' + 1 := ⟨b - 1, by omega⟩
  have hv₀ : v.tokens = ts ++ t :: (ts' ++ rest) := by simpa using hv
  rw [inits]
  exact listed_cons hv₀ ht (hi hv₀ (.of_kind ht (by decide)) (by omega))
    fun v' hv' hlt => his hv' hrest hcomma (by omega)

mutual

theorem initAccepted : ∀ {ts : List Token} {i : Init}, IsInit ts i → InitAccepted ts i
  | _, _, .expr he => init_expr he
  | _, _, .empty hlb hrb => init_list hlb (.inl ⟨rfl, rfl⟩) hrb
  | _, _, .list hlb his hrb => init_list hlb (.inr ⟨initsAccepted his, his.begins⟩) hrb

theorem initsAccepted : ∀ {ts : List Token} {is : List Init}, IsInits ts is → InitsAccepted ts is
  | _, _, .one hi => inits_one (initAccepted hi)
  | _, _, .cons hi ht his => inits_cons (initAccepted hi) ht (initsAccepted his)

end

theorem varDef_accepted {isConst : Bool} {t : Token} {d : VarDef} {b : Nat}
    (h : IsVarDef isConst (t :: ts) d) (hv : v.tokens = ts ++ rest)
    (hrest : kindOf rest ∈ [.comma, .semicolon]) (hb : 10 * v.tokens.length + 1 ≤ b) :
    Accepts (varDef b isConst t) v ts d := by
  rw [varDef]
  cases h with
  | plain hconst _ hes =>
    refine (indicesAccepted hes hv (fun hlb => by simp [hlb] at hrest) hb).bind fun v₁ h₁ => ?_
    refine Ends.atOther (fun heq => by rw [h₁.rest hv] at heq; simp [heq] at hrest) ?_
    subst hconst
    exact Ends.pure ⟨rfl, h₁⟩
  | @init _ eq ts ts' _ _ _ hes heq hi =>
    have hv₀ : v.tokens = ts ++ eq :: (ts' ++ rest) := by simpa using hv
    refine (indicesAccepted hes hv₀ (by simp [kindOf, heq]) hb).bind fun v₁ h₁ => ?_
    have hv₁ := h₁.rest hv₀
    refine Ends.atKnown hv₁ heq ?_
    rw [if_pos rfl]
    refine Ends.takeKnown hv₁ heq (by decide) fun v₂ h₂ hv₂ => ?_
    have h₁₂ := h₁.trans h₂
    have hlen := h₁₂.length
    have hcloses : Closes 1 rest := by
      refine ⟨fun p op hop => ?_, fun hlb => ?_, fun hlp => ?_⟩
      · rcases List.mem_pair.mp hrest with hk | hk <;> rw [hk] at hop <;> cases hop
      · simp [hlb] at hrest
      · simp [hlp] at hrest
    refine (initAccepted hi hv₂ hcloses (by simp at hlen; omega)).bind fun v₃ h₃ => ?_
    exact Ends.pure ⟨rfl, by simpa using h₁₂.trans h₃⟩

theorem varDefs_accepted {isConst : Bool} {ts₀ : List Token} {ds : List VarDef}
    (h : IsList (IsVarDef isConst) ts₀ ds) :
    ∀ {v : View} {t : Token} {ts : List Token} {b : Nat}, ts₀ = t :: ts →
      v.tokens = ts ++ rest → kindOf rest = .semicolon → 10 * v.tokens.length + 2 ≤ b →
      Accepts (varDefs isConst b t) v ts ds := by
  induction h with
  | one hd =>
    rintro v t ts b rfl hv hrest hb
    obtain ⟨b, rfl⟩ : ∃ b', b = b' + 1 := ⟨b - 1, by omega⟩
    rw [varDefs]
    refine (varDef_accepted hd hv (by simp [hrest]) (by omega)).bind fun v₁ h₁ => ?_
    refine Ends.atOther (by simp [h₁.rest hv, hrest]) ?_
    exact Ends.pure ⟨rfl, h₁⟩
  | @cons comma ts₁ ts' d ds hd hcomma hds ih =>
    intro v t ts b hts hv hrest hb
    obtain ⟨b, rfl⟩ : ∃ b', b = b' + 1 := ⟨b - 1, by omega⟩
    obtain ⟨t', ts₁, rfl, -⟩ := hd.begins
    obtain ⟨name, ts', rfl, hname⟩ := hds.begins_of fun hd => hd.begins
    obtain ⟨rfl, rfl⟩ := List.cons.inj hts
    have hv₀ : v.tokens = ts₁ ++ comma :: name :: (ts' ++ rest) := by simpa using hv
    rw [varDefs]
    refine (varDef_accepted hd hv₀ (by simp [kindOf, hcomma]) (by omega)).bind fun v₁ h₁ => ?_
    have hv₁ := h₁.rest hv₀
    refine Ends.atKnown hv₁ hcomma ?_
    rw [if_pos rfl]
    refine Ends.takeKnown hv₁ hcomma (by decide) fun v₂ h₂ hv₂ => ?_
    refine Ends.identKnown hv₂ hname fun v₃ h₃ hv₃ => ?_
    have h₁₃ := (h₁.trans h₂).trans h₃
    have hlen := h₁₃.length
    refine (ih rfl hv₃ hrest (by simp at hlen; omega)).bind fun v₄ h₄ => ?_
    exact Ends.pure ⟨rfl, by simpa using h₁₃.trans h₄⟩

theorem declRest_accepted {isConst : Bool} {t semi : Token} {ds : List VarDef} {b : Nat}
    (hds : IsList (IsVarDef isConst) (t :: ts) ds) (hsemi : semi.kind = .semicolon)
    (hv : v.tokens = ts ++ semi :: rest) (hb : 10 * v.tokens.length + 2 ≤ b) :
    Accepts (declRest b isConst t) v (ts ++ [semi]) { isConst, defs := ds } := by
  rw [declRest]
  refine (varDefs_accepted hds rfl hv hsemi hb).bind fun v₁ h₁ => ?_
  refine Ends.expectKnown (h₁.rest hv) hsemi (by decide) fun v₂ h₂ _ => ?_
  exact Ends.pure ⟨rfl, h₁.trans h₂⟩

theorem decl_accepted {d : Decl} {b : Nat} (h : IsDecl ts d) (hv : v.tokens = ts ++ rest)
    (hb : 10 * v.tokens.length + 2 ≤ b) : Accepts (decl b) v ts d := by
  rw [decl]
  cases h with
  | @var int semi ts ds hint hds hsemi =>
    obtain ⟨name, ts, rfl, hname⟩ := hds.begins_of fun hd => hd.begins
    have hv₀ : v.tokens = int :: name :: (ts ++ semi :: rest) := by simpa using hv
    refine Ends.atOther (by simp [hv₀, kindOf, hint]) ?_
    refine Ends.expectKnown hv₀ hint (by decide) fun v₁ h₁ hv₁ => ?_
    refine Ends.identKnown hv₁ hname fun v₂ h₂ hv₂ => ?_
    have h₁₂ := h₁.trans h₂
    have hlen := h₁₂.length
    refine (declRest_accepted hds hsemi hv₂ (by omega)).mono ?_ fun _ h => h
    rintro _ v₃ ⟨rfl, h₃⟩
    exact ⟨rfl, by simpa using h₁₂.trans h₃⟩
  | @const const int semi ts ds hconst hint hds hsemi =>
    obtain ⟨name, ts, rfl, hname⟩ := hds.begins_of fun hd => hd.begins
    have hv₀ : v.tokens = const :: int :: name :: (ts ++ semi :: rest) := by simpa using hv
    refine Ends.atKnown hv₀ hconst ?_
    refine Ends.takeKnown hv₀ hconst (by decide) fun v₁ h₁ hv₁ => ?_
    refine Ends.expectKnown hv₁ hint (by decide) fun v₂ h₂ hv₂ => ?_
    refine Ends.identKnown hv₂ hname fun v₃ h₃ hv₃ => ?_
    have h₁₃ := (h₁.trans h₂).trans h₃
    have hlen := h₁₃.length
    refine (declRest_accepted hds hsemi hv₃ (by omega)).mono ?_ fun _ h => h
    rintro _ v₄ ⟨rfl, h₄⟩
    exact ⟨rfl, by simpa using h₁₃.trans h₄⟩

/-! Statements. -/

theorem condition_accepted {e : Expr} {b : Nat} (h : IsCondition ts e) (hv : v.tokens = ts ++ rest)
    (hb : 10 * v.tokens.length ≤ b) : Accepts (condition b) v ts e := by
  rw [condition]
  obtain @⟨lp, rp, ts, _, hlp, he, hrp⟩ := h
  have hv₀ : v.tokens = lp :: (ts ++ rp :: rest) := by simpa using hv
  refine Ends.expectKnown hv₀ hlp (by decide) fun v₁ h₁ hv₁ => ?_
  have hlen := h₁.length
  refine (exprAccepted he hv₁ (.of_kind hrp (by decide)) (by simp at hlen; omega)).bind
    fun v₂ h₂ => ?_
  refine Ends.expectKnown (h₂.rest hv₁) hrp (by decide) fun v₃ h₃ _ => ?_
  exact Ends.pure ⟨rfl, by simpa using (h₁.trans h₂).trans h₃⟩

def StmtAccepted (isOpen : Bool) (ts : List Token) (s : Stmt) : Prop :=
  ∀ ⦃v : View⦄ ⦃rest : List Token⦄ ⦃b : Nat⦄,
  v.tokens = ts ++ rest → (isOpen = true → kindOf rest ≠ .kwElse) → Room v 5 b →
    Accepts (stmt b) v ts s

def StmtsAccepted (ts : List Token) (ss : List Stmt) : Prop :=
  ∀ ⦃v : View⦄ ⦃rest : List Token⦄ ⦃b : Nat⦄,
  v.tokens = ts ++ rest → kindOf rest = .rbrace → Room v 6 b → Accepts (stmts b) v ts (ss.map some)

theorem block_accepted {lb rb : Token} {ss : List Stmt} {b : Nat} (hlb : lb.kind = .lbrace)
    (hss : StmtsAccepted ts ss) (hrb : rb.kind = .rbrace)
    (hv : v.tokens = lb :: (ts ++ [rb]) ++ rest) (hroom : Room v 1 b) :
    Accepts (block b) v (lb :: (ts ++ [rb])) (lb.span.cover rb.span, ss) := by
  obtain ⟨b, rfl⟩ : ∃ b', b = b' + 1 := ⟨b - 1, by have := hroom.2; omega⟩
  have hv₀ : v.tokens = lb :: (ts ++ rb :: rest) := by simpa using hv
  rw [block]
  refine Ends.expectKnown hv₀ hlb (by decide) fun v₁ h₁ hv₁ => ?_
  refine (hss hv₁ hrb (Room.behind h₁ (by simp; omega) hroom)).bind fun v₂ h₂ => ?_
  refine Ends.expectKnown (h₂.rest hv₁) hrb (by decide) fun v₃ h₃ _ => ?_
  rw [mapM_some]
  exact Ends.pure ⟨rfl, by simpa using (h₁.trans h₂).trans h₃⟩

theorem stmts_nil : StmtsAccepted [] [] := by
  intro v rest b hv hrest hroom
  obtain ⟨b, rfl⟩ : ∃ b', b = b' + 1 := ⟨b - 1, by have := hroom.2; omega⟩
  rw [stmts]
  refine Ends.atAny (fun _ => Ends.pure ⟨rfl, .refl v⟩) fun hno => ?_
  rw [View.kind_token, hv, List.nil_append, hrest] at hno
  exact absurd hno (by decide)

theorem stmts_cons {isOpen : Bool} {ts' : List Token} {s : Stmt} {ss : List Stmt}
    (hs : StmtAccepted isOpen ts s) (hbegins : Begins (· ∉ endsStmts) ts)
    (hss : StmtsAccepted ts' ss) (helse : ts' = [] ∨ Begins (· ∉ endsStmts) ts') :
    StmtsAccepted (ts ++ ts') (s :: ss) := by
  intro v rest b hv hrest hroom
  obtain ⟨b, rfl⟩ : ∃ b', b = b' + 1 := ⟨b - 1, by have := hroom.2; omega⟩
  have hv₀ : v.tokens = ts ++ (ts' ++ rest) := by simpa using hv
  rw [stmts]
  refine Ends.atAny (fun hends => ?_) fun _ => ?_
  · refine absurd ?_ (View.token_begins hbegins hv₀)
    exact (show [Kind.rbrace, .eof] ⊆ endsStmts by decide) hends
  rw [if_neg Bool.false_ne_true]
  refine Ends.get fun c hc => ?_
  have hlimit : c.limit = 0 := (congrArg View.limit hc).trans hroom.1
  simp only [Cursor.enough, hlimit, ne_eq, not_true_eq_false, decide_false, Bool.false_and,
    Bool.false_eq_true, if_false]
  have hno : kindOf (ts' ++ rest) ≠ .kwElse := by
    rcases helse with rfl | ⟨t, ts', rfl, ht⟩
    · simp [hrest]
    · rintro heq
      exact ht ((show t.kind = .kwElse from heq) ▸ by decide)
  refine Ends.attempt (hs hv₀ (fun _ => hno) (Room.behind (.refl v) (by simp; omega) hroom)) ?_
    fun _ h => h.elim
  rintro _ v₁ ⟨rfl, h₁⟩
  have hpos := hbegins.length_pos
  refine (hss (h₁.rest hv₀) hrest (Room.behind h₁ (by omega) hroom)).bind fun v₂ h₂ => ?_
  exact Ends.pure ⟨rfl, h₁.trans h₂⟩

theorem stmt_block {lb rb : Token} {ss : List Stmt} (hlb : lb.kind = .lbrace)
    (hss : StmtsAccepted ts ss) (hrb : rb.kind = .rbrace) :
    StmtAccepted false (lb :: (ts ++ [rb])) (.block (lb.span.cover rb.span) ss) := by
  intro v rest b hv _ hroom
  obtain ⟨b, rfl⟩ : ∃ b', b = b' + 1 := ⟨b - 1, by have := hroom.2; omega⟩
  rw [stmt]
  refine Ends.peekKnown hv ?_
  rw [hlb]
  refine (block_accepted hlb hss hrb hv (Room.behind (.refl v) (by simp; omega) hroom)).bind
    fun v₁ h₁ => ?_
  exact Ends.pure ⟨rfl, h₁⟩

theorem stmt_decl {t : Token} {d : Decl} (hd : IsDecl (t :: ts) d) :
    StmtAccepted false (t :: ts) (.decl (t.span.cover (endSpan t.span ts)) d) := by
  intro v rest b hv _ hroom
  obtain ⟨b, rfl⟩ : ∃ b', b = b' + 1 := ⟨b - 1, by have := hroom.2; omega⟩
  have hread : Accepts (do
      let d ← decl b
      Pure.pure (Stmt.decl (t.span.cover (← lastSpan)) d)) v (t :: ts)
      (.decl (t.span.cover (endSpan t.span ts)) d) := by
    refine (decl_accepted hd hv (by have := hroom.2; omega)).bind fun v₁ h₁ => ?_
    exact Ends.lastSpan (Ends.pure ⟨by rw [h₁.last_cons], h₁⟩)
  rw [stmt]
  refine Ends.peekKnown hv ?_
  cases hd with
  | var hint => rw [hint]; exact hread
  | const hconst => rw [hconst]; exact hread

theorem stmt_simple {s : Stmt} (hbegins : Begins (· ∈ exprStarts) ts)
    (h : ∀ ⦃v : View⦄ ⦃rest : List Token⦄ ⦃b : Nat⦄, v.tokens = ts ++ rest → 10 * v.tokens.length +
      4 ≤ b → Accepts (simpleStmt b) v ts s) :
    StmtAccepted false ts s := by
  intro v rest b hv _ hroom
  obtain ⟨b, rfl⟩ : ∃ b', b = b' + 1 := ⟨b - 1, by have := hroom.2; omega⟩
  have hkind := View.token_begins hbegins hv
  rw [stmt]
  refine Ends.peek ?_
  generalize v.token.kind = kind at hkind
  have hread : Accepts (simpleStmt b) v ts s := h hv (by have := hroom.2; omega)
  simp only [exprStarts, List.mem_cons, List.not_mem_nil, or_false] at hkind
  rcases hkind with rfl | rfl | rfl | rfl | rfl | rfl <;> exact hread

theorem stmt_assign {eq semi : Token} {ts' : List Token} {target : Span} {name : String}
    {es : List Expr} {e : Expr} (htarget : IsTarget ts target name es) (heq : eq.kind = .assign)
    (he : IsExpr ts' e) (hsemi : semi.kind = .semicolon) :
    StmtAccepted false (ts ++ eq :: (ts' ++ [semi]))
      (.assign (target.cover semi.span) target name es e) := by
  refine stmt_simple (htarget.begins.append _) fun v rest b hv hb => ?_
  have hv₀ : v.tokens = ts ++ eq :: (ts' ++ semi :: rest) := by simpa using hv
  rw [simpleStmt]
  refine (exprAccepted htarget.isExpr hv₀ (.of_kind heq (by decide)) hb).bind fun v₁ h₁ => ?_
  have hv₁ := h₁.rest hv₀
  refine Ends.atKnown hv₁ heq ?_
  rw [if_pos rfl]
  refine Ends.takeKnown hv₁ heq (by decide) fun v₂ h₂ hv₂ => ?_
  have h₁₂ := h₁.trans h₂
  have hlen := h₁₂.length
  refine (exprAccepted he hv₂ (.of_kind hsemi (by decide)) (by omega)).bind fun v₃ h₃ => ?_
  refine Ends.expectKnown (h₃.rest hv₂) hsemi (by decide) fun v₄ h₄ _ => ?_
  have h₁₄ := (h₁₂.trans h₃).trans h₄
  refine Ends.lastSpan (Ends.pure ⟨?_, by simpa using h₁₄⟩)
  rw [h₁₄.last_snoc]

theorem stmt_expr {semi : Token} {e : Expr} (he : IsExpr ts e) (hsemi : semi.kind = .semicolon) :
    StmtAccepted false (ts ++ [semi]) (.expr (e.span.cover semi.span) (some e)) := by
  refine stmt_simple (he.begins.append _) fun v rest b hv hb => ?_
  have hv₀ : v.tokens = ts ++ semi :: rest := by simpa using hv
  rw [simpleStmt]
  refine (exprAccepted he hv₀ (.of_kind hsemi (by decide)) hb).bind fun v₁ h₁ => ?_
  have hv₁ := h₁.rest hv₀
  refine Ends.atOther (by simp [hv₁, kindOf, hsemi]) ?_
  rw [if_neg Bool.false_ne_true]
  refine Ends.expectKnown hv₁ hsemi (by decide) fun v₂ h₂ _ => ?_
  have h₁₂ := h₁.trans h₂
  refine Ends.lastSpan (Ends.pure ⟨?_, h₁₂⟩)
  rw [h₁₂.last_snoc]

theorem stmt_skip {semi : Token} (hsemi : semi.kind = .semicolon) :
    StmtAccepted false [semi] (.expr semi.span none) := by
  intro v rest b hv _ hroom
  obtain ⟨b, rfl⟩ : ∃ b', b = b' + 1 := ⟨b - 1, by have := hroom.2; omega⟩
  rw [stmt]
  refine Ends.peekKnown hv ?_
  rw [hsemi]
  exact Ends.takeKnown hv hsemi (by decide) fun v₁ h₁ _ => Ends.pure ⟨rfl, h₁⟩

/-- What is read behind a keyword with a condition and a statement. -/
theorem guarded_accepted {isOpen : Bool} {t : Token} {kind : Kind} {ts' : List Token} {e : Expr}
    {s : Stmt} {b : Nat} {k : Expr → Stmt → Reader β} (ht : t.kind = kind)
    (hne : kind ≠ .eof ∧ kind ≠ .invalid) (he : IsCondition ts e) (hs : StmtAccepted isOpen ts' s)
    (hv : v.tokens = t :: (ts ++ (ts' ++ rest))) (hno : isOpen = true → kindOf rest ≠ .kwElse)
    (hroom : Room v 5 (b + 1))
    (hk : ∀ v', v.Took (t :: ts ++ ts') v' → v'.tokens = rest →
      Ends (k e s) v' R fun _ => False) :
    Ends (do
      let _ ← advance
      let e ← condition b
      let s ← stmt b
      k e s) v R fun _ => False := by
  refine Ends.takeKnown hv ht hne fun v₁ h₁ hv₁ => ?_
  have hlen := h₁.length
  refine (condition_accepted he hv₁ (by have := hroom.2; simp at hlen; omega)).bind fun v₂ h₂ => ?_
  have h₁₂ := h₁.trans h₂
  have hv₂ := h₂.rest hv₁
  refine (hs hv₂ hno (Room.behind h₁₂ (by simp; omega) hroom)).bind fun v₃ h₃ => ?_
  exact hk v₃ (by simpa using h₁₂.trans h₃) (h₃.rest hv₂)

theorem stmt_cond {isOpen : Bool} {t : Token} {ts' : List Token} {e : Expr} {s : Stmt}
    (ht : t.kind = .kwIf) (he : IsCondition ts e) (hs : StmtAccepted isOpen ts' s)
    (hbegins : Begins (· ∉ endsStmts) ts') :
    StmtAccepted true (t :: (ts ++ ts')) (.cond (t.span.cover (endSpan t.span ts')) e s none) := by
  intro v rest b hv hno hroom
  obtain ⟨b, rfl⟩ : ∃ b', b = b' + 1 := ⟨b - 1, by have := hroom.2; omega⟩
  have hv₀ : v.tokens = t :: (ts ++ (ts' ++ rest)) := by simpa using hv
  rw [stmt]
  refine Ends.peekKnown hv₀ ?_
  rw [ht]
  refine guarded_accepted ht (by decide) he hs hv₀ (fun _ => hno rfl) hroom fun v₁ h₁ hv₁ => ?_
  refine Ends.atOther (by rw [hv₁]; exact hno rfl) ?_
  rw [if_neg Bool.false_ne_true]
  refine Ends.lastSpan (Ends.pure ⟨?_, h₁⟩)
  rw [h₁.last_append hbegins t.span]

theorem stmt_condElse {isOpen : Bool} {t el : Token} {ts₁ ts₂ : List Token} {e : Expr}
    {s₁ s₂ : Stmt} (ht : t.kind = .kwIf) (he : IsCondition ts e) (hs₁ : StmtAccepted false ts₁ s₁)
    (hel : el.kind = .kwElse) (hs₂ : StmtAccepted isOpen ts₂ s₂)
    (hbegins : Begins (· ∉ endsStmts) ts₂) :
    StmtAccepted isOpen (t :: (ts ++ (ts₁ ++ el :: ts₂)))
      (.cond (t.span.cover (endSpan t.span ts₂)) e s₁ (some s₂)) := by
  intro v rest b hv hno hroom
  obtain ⟨b, rfl⟩ : ∃ b', b = b' + 1 := ⟨b - 1, by have := hroom.2; omega⟩
  have hv₀ : v.tokens = t :: (ts ++ (ts₁ ++ el :: (ts₂ ++ rest))) := by simpa using hv
  rw [stmt]
  refine Ends.peekKnown hv₀ ?_
  rw [ht]
  refine guarded_accepted ht (by decide) he hs₁ hv₀ (fun hopen => by cases hopen) hroom
    fun v₁ h₁ hv₁ => ?_
  refine Ends.atKnown hv₁ hel ?_
  rw [if_pos rfl]
  refine Ends.takeKnown hv₁ hel (by decide) fun v₂ h₂ hv₂ => ?_
  have h₁₂ := h₁.trans h₂
  refine (hs₂ hv₂ hno (Room.behind h₁₂ (by simp; omega) hroom)).bind fun v₃ h₃ => ?_
  have h₁₃ := h₁₂.trans h₃
  refine Ends.lastSpan (Ends.pure ⟨?_, by simpa using h₁₃⟩)
  rw [h₁₃.last_append hbegins t.span]

theorem stmt_loop {isOpen : Bool} {t : Token} {ts' : List Token} {e : Expr} {s : Stmt}
    (ht : t.kind = .kwWhile) (he : IsCondition ts e) (hs : StmtAccepted isOpen ts' s)
    (hbegins : Begins (· ∉ endsStmts) ts') :
    StmtAccepted isOpen (t :: (ts ++ ts')) (.loop (t.span.cover (endSpan t.span ts')) e s) := by
  intro v rest b hv hno hroom
  obtain ⟨b, rfl⟩ : ∃ b', b = b' + 1 := ⟨b - 1, by have := hroom.2; omega⟩
  have hv₀ : v.tokens = t :: (ts ++ (ts' ++ rest)) := by simpa using hv
  rw [stmt]
  refine Ends.peekKnown hv₀ ?_
  rw [ht]
  refine guarded_accepted ht (by decide) he hs hv₀ hno hroom fun v₁ h₁ _ => ?_
  refine Ends.lastSpan (Ends.pure ⟨?_, h₁⟩)
  rw [h₁.last_append hbegins t.span]

theorem keyword_accepted {t semi : Token} {v₁ : View} {place : String} (make : Span → Stmt)
    (h₁ : v.Took [t] v₁) (hsemi : semi.kind = .semicolon) (hv₁ : v₁.tokens = semi :: rest) :
    Ends (do
      let _ ← expect .semicolon place
      Pure.pure (make (t.span.cover (← lastSpan)))) v₁
      (fun s v' => s = make (t.span.cover semi.span) ∧ v.Took [t, semi] v') fun _ => False := by
  refine Ends.expectKnown hv₁ hsemi (by decide) fun v₂ h₂ _ => ?_
  refine Ends.lastSpan (Ends.pure ⟨?_, h₁.trans h₂⟩)
  rw [(h₁.trans h₂).last_snoc]

theorem stmt_jump {t semi : Token} {make : Span → Stmt}
    (h : t.kind = .kwBreak ∧ make = .leave ∨ t.kind = .kwContinue ∧ make = .next)
    (hsemi : semi.kind = .semicolon) :
    StmtAccepted false [t, semi] (make (t.span.cover semi.span)) := by
  intro v rest b hv _ hroom
  obtain ⟨b, rfl⟩ : ∃ b', b = b' + 1 := ⟨b - 1, by have := hroom.2; omega⟩
  rw [stmt]
  refine Ends.peekKnown hv ?_
  rcases h with ⟨ht, rfl⟩ | ⟨ht, rfl⟩
  all_goals
    rw [ht]
    exact Ends.takeKnown hv ht (by decide) fun v₁ h₁ hv₁ => keyword_accepted _ h₁ hsemi hv₁

theorem stmt_ret {t semi : Token} (ht : t.kind = .kwReturn) (hsemi : semi.kind = .semicolon) :
    StmtAccepted false [t, semi] (.ret (t.span.cover semi.span) none) := by
  intro v rest b hv _ hroom
  obtain ⟨b, rfl⟩ : ∃ b', b = b' + 1 := ⟨b - 1, by have := hroom.2; omega⟩
  rw [stmt]
  refine Ends.peekKnown hv ?_
  rw [ht]
  refine Ends.takeKnown hv ht (by decide) fun v₁ h₁ hv₁ => ?_
  refine Ends.atKnown hv₁ hsemi ?_
  rw [if_pos rfl, pure_bind]
  exact keyword_accepted (.ret · none) h₁ hsemi hv₁

theorem stmt_retVal {t semi : Token} {e : Expr} (ht : t.kind = .kwReturn) (he : IsExpr ts e)
    (hsemi : semi.kind = .semicolon) :
    StmtAccepted false (t :: (ts ++ [semi])) (.ret (t.span.cover semi.span) (some e)) := by
  intro v rest b hv _ hroom
  obtain ⟨b, rfl⟩ : ∃ b', b = b' + 1 := ⟨b - 1, by have := hroom.2; omega⟩
  have hv₀ : v.tokens = t :: (ts ++ semi :: rest) := by simpa using hv
  rw [stmt]
  refine Ends.peekKnown hv₀ ?_
  rw [ht]
  refine Ends.takeKnown hv₀ ht (by decide) fun v₁ h₁ hv₁ => ?_
  have hlen := h₁.length
  refine Ends.atOther (View.kindOf_ne he.begins hv₁ (by decide)) ?_
  rw [if_neg Bool.false_ne_true, bind_map_left]
  refine (exprAccepted he hv₁ (.of_kind hsemi (by decide))
    (by have := hroom.2; simp at hlen; omega)).bind fun v₂ h₂ => ?_
  refine Ends.expectKnown (h₂.rest hv₁) hsemi (by decide) fun v₃ h₃ _ => ?_
  have h₁₃ := (h₁.trans h₂).trans h₃
  refine Ends.lastSpan (Ends.pure ⟨?_, by simpa using h₁₃⟩)
  rw [h₁₃.last_snoc]

mutual

theorem stmtAccepted :
    ∀ {isOpen : Bool} {ts : List Token} {s : Stmt}, IsStmt isOpen ts s → StmtAccepted isOpen ts s
  | _, _, _, .block hlb hss hrb => stmt_block hlb (stmtsAccepted hss) hrb
  | _, _, _, .decl hd => stmt_decl hd
  | _, _, _, .assign htarget heq he hsemi => stmt_assign htarget heq he hsemi
  | _, _, _, .expr he hsemi => stmt_expr he hsemi
  | _, _, _, .skip hsemi => stmt_skip hsemi
  | _, _, _, .cond ht he hs => stmt_cond ht he (stmtAccepted hs) hs.begins
  | _, _, _, .condElse ht he hs₁ hel hs₂ =>
    stmt_condElse ht he (stmtAccepted hs₁) hel (stmtAccepted hs₂) hs₂.begins
  | _, _, _, .loop ht he hs => stmt_loop ht he (stmtAccepted hs) hs.begins
  | _, _, _, .leave ht hsemi => stmt_jump (.inl ⟨ht, rfl⟩) hsemi
  | _, _, _, .next ht hsemi => stmt_jump (.inr ⟨ht, rfl⟩) hsemi
  | _, _, _, .ret ht hsemi => stmt_ret ht hsemi
  | _, _, _, .retVal ht he hsemi => stmt_retVal ht he hsemi

theorem stmtsAccepted : ∀ {ts : List Token} {ss : List Stmt}, IsStmts ts ss → StmtsAccepted ts ss
  | _, _, .nil => stmts_nil
  | _, _, .cons hs hss => stmts_cons (stmtAccepted hs) hs.begins (stmtsAccepted hss) hss.begins

end

/-! Items. -/

theorem param_accepted {p : Param} {b : Nat} (h : IsParam ts p) (hv : v.tokens = ts ++ rest)
    (hrest : kindOf rest ≠ .lbracket) (hb : 10 * v.tokens.length ≤ b) :
    Accepts (param b) v ts p := by
  rw [param]
  cases h with
  | number hint ht =>
    refine Ends.expectKnown hv hint (by decide) fun v₁ h₁ hv₁ => ?_
    refine Ends.identKnown hv₁ ht fun v₂ h₂ hv₂ => ?_
    refine Ends.atOther (by rwa [hv₂]) ?_
    exact Ends.pure ⟨rfl, h₁.trans h₂⟩
  | array hint ht hlb hrb hes =>
    refine Ends.expectKnown hv hint (by decide) fun v₁ h₁ hv₁ => ?_
    refine Ends.identKnown hv₁ ht fun v₂ h₂ hv₂ => ?_
    refine Ends.atKnown hv₂ hlb ?_
    rw [if_pos rfl]
    refine Ends.takeKnown hv₂ hlb (by decide) fun v₃ h₃ hv₃ => ?_
    refine Ends.expectKnown hv₃ hrb (by decide) fun v₄ h₄ hv₄ => ?_
    have h₁₄ := ((h₁.trans h₂).trans h₃).trans h₄
    have hlen := h₁₄.length
    refine (indicesAccepted hes hv₄ hrest (by simp at hlen; omega)).bind fun v₅ h₅ => ?_
    refine Ends.lastSpan (Ends.pure ⟨?_, by simpa using h₁₄.trans h₅⟩)
    rw [h₅.last, h₁₄.last_snoc]

theorem params_accepted {ps : List Param} (h : IsList IsParam ts ps) : ∀ {v : View} {b : Nat},
    v.tokens = ts ++ rest → kindOf rest = .rparen → 10 * v.tokens.length + 1 ≤ b →
    Accepts (params b) v ts ps := by
  induction h with
  | one hp =>
    intro v b hv hrest hb
    obtain ⟨b, rfl⟩ : ∃ b', b = b' + 1 := ⟨b - 1, by omega⟩
    rw [params]
    exact listed_one hv (by simp [hrest]) (param_accepted hp hv (by simp [hrest]) (by omega))
  | @cons comma ts ts' p ps hp hcomma hps ih =>
    intro v b hv hrest hb
    obtain ⟨b, rfl⟩ : ∃ b', b = b' + 1 := ⟨b - 1, by omega⟩
    have hv₀ : v.tokens = ts ++ comma :: (ts' ++ rest) := by simpa using hv
    rw [params]
    exact listed_cons hv₀ hcomma (param_accepted hp hv₀ (by simp [kindOf, hcomma]) (by omega))
      fun v' hv' hlt => ih hv' hrest (by omega)

theorem func_accepted {type t lp rp lb rb : Token} {ts' : List Token} {ps : List Param}
    {ss : List Stmt} {b : Nat} (hlp : lp.kind = .lparen) (hps : IsParams ts ps)
    (hrp : rp.kind = .rparen) (hlb : lb.kind = .lbrace) (hss : IsStmts ts' ss)
    (hrb : rb.kind = .rbrace) (hv : v.tokens = lp :: (ts ++ rp :: lb :: (ts' ++ rb :: rest)))
    (hroom : Room v 2 b) : Accepts (func b type t) v (lp :: (ts ++ rp :: lb :: (ts' ++ [rb])))
      (.func (type.span.cover rb.span)
        { name := Bytes.toAscii t.text, nameSpan := t.span, isVoid := type.kind == .kwVoid,
          params := ps
          bodySpan := lb.span.cover rb.span, body := ss }) := by
  rw [func_eq]
  refine Ends.takeKnown hv hlp (by decide) fun v₁ h₁ hv₁ => ?_
  have hlen := h₁.length
  -- the body behind the parameters
  have hbody {v₂ : View} (h₂ : v₁.Took ts v₂) : Ends (funcRest b type t ps) v₂
        (fun i v' => i = Item.func (type.span.cover rb.span)
        { name := Bytes.toAscii t.text, nameSpan := t.span, isVoid := type.kind == .kwVoid,
          params := ps
          bodySpan := lb.span.cover rb.span, body := ss } ∧
            v.Took (lp :: (ts ++ rp :: lb :: (ts' ++ [rb]))) v')
      fun _ => False := by
    have hv₂ := h₂.rest hv₁
    rw [funcRest]
    refine Ends.expectKnown hv₂ hrp (by decide) fun v₃ h₃ hv₃ => ?_
    have h₁₃ := (h₁.trans h₂).trans h₃
    refine Ends.atKnown hv₃ hlb ?_
    rw [Bool.not_true, if_neg Bool.false_ne_true]
    refine (block_accepted hlb (stmtsAccepted hss) hrb (by simpa using hv₃)
      (Room.behind h₁₃ (by simp; omega) hroom)).bind fun v₄ h₄ => ?_
    have h₁₄ : v.Took (lp :: (ts ++ rp :: lb :: ts') ++ [rb]) v₄ := by simpa using h₁₃.trans h₄
    refine Ends.lastSpan (Ends.pure ⟨?_, by simpa using h₁₄⟩)
    rw [h₁₄.last_snoc]
  cases hps with
  | nil =>
    refine Ends.atKnown hv₁ hrp ?_
    rw [if_pos rfl, pure_bind]
    exact hbody (.refl v₁)
  | some hps =>
    refine Ends.atOther (View.kindOf_ne (hps.begins_of fun hp => hp.begins) hv₁ (by decide)) ?_
    rw [if_neg Bool.false_ne_true]
    refine (params_accepted hps hv₁ hrp (by have := hroom.2; simp at hlen; omega)).bind
      fun v₂ h₂ => ?_
    exact hbody h₂

theorem item_accepted {i : Item} {b : Nat} (h : IsItem ts i) (hv : v.tokens = ts ++ rest)
    (hroom : Room v 2 b) :
    Accepts (item b) v ts i := by
  rw [item]
  cases h with
  | @decl t ts d hd =>
    refine Ends.peekKnown hv ?_
    cases hd with
    | const hconst hint hds hsemi =>
      rw [hconst]
      refine (decl_accepted (.const hconst hint hds hsemi) hv hroom.2).bind fun v₁ h₁ => ?_
      exact Ends.lastSpan (Ends.pure ⟨by rw [h₁.last_cons], h₁⟩)
    | @var _ semi ts ds hint hds hsemi =>
      obtain ⟨name, ts, rfl, hname⟩ := hds.begins_of fun hd => hd.begins
      have hv₀ : v.tokens = t :: name :: (ts ++ semi :: rest) := by simpa using hv
      rw [hint]
      refine Ends.takeKnown hv₀ hint (by decide) fun v₁ h₁ hv₁ => ?_
      refine Ends.identKnown hv₁ hname fun v₂ h₂ hv₂ => ?_
      have h₁₂ := h₁.trans h₂
      have hlen := h₁₂.length
      -- behind the name of a variable there is no parenthesis, so it is not taken for a function
      have hother : kindOf v₂.tokens ≠ .lparen := by
        rcases hds.second with rfl | hsecond
        · simp [hv₂, kindOf, hsemi]
        · exact View.kindOf_ne hsecond hv₂ (by decide)
      refine Ends.atOther hother ?_
      rw [if_neg Bool.false_ne_true, if_neg (by decide)]
      refine (declRest_accepted hds hsemi hv₂ (by have := hroom.2; omega)).bind fun v₃ h₃ => ?_
      have h₁₃ : v.Took (t :: (name :: ts ++ [semi])) v₃ := by simpa using h₁₂.trans h₃
      exact Ends.lastSpan (Ends.pure ⟨by rw [h₁₃.last_cons], h₁₃⟩)
  | @func type t lp rp lb rb ts ts' ps ss htype ht hlp hps hrp hlb hss hrb =>
    have hv₀ : v.tokens = type :: t :: lp :: (ts ++ rp :: lb :: (ts' ++ rb :: rest)) :=
      by simpa using hv
    refine Ends.peekKnown hv₀ ?_
    rcases htype with htype | htype
    all_goals
      rw [htype]
      refine Ends.takeKnown hv₀ htype (by decide) fun v₁ h₁ hv₁ => ?_
      refine Ends.identKnown hv₁ ht fun v₂ h₂ hv₂ => ?_
      refine Ends.atKnown hv₂ hlp ?_
      rw [if_pos rfl]
      have h₁₂ := h₁.trans h₂
      refine (func_accepted hlp hps hrp hlb hss hrb hv₂ (Room.behind h₁₂ (by simp) hroom)).mono ?_
        fun _ h => h
      rintro _ v₃ ⟨rfl, h₃⟩
      exact ⟨by rw [htype], h₁₂.trans h₃⟩

theorem items_accepted {is : List Item} (h : IsItems ts is) :
    ∀ {v : View} {b : Nat}, v.tokens = ts ++ rest →
    kindOf rest = .eof → Room v 3 b → Accepts (items b) v ts is := by
  induction h with
  | nil =>
    intro v b hv hrest hroom
    obtain ⟨b, rfl⟩ : ∃ b', b = b' + 1 := ⟨b - 1, by have := hroom.2; omega⟩
    rw [items]
    refine Ends.at_ (fun _ => Ends.pure ⟨rfl, .refl v⟩) fun hno => ?_
    rw [View.kind_token, hv] at hno
    exact absurd hrest hno
  | @cons ts ts' i is hi his ih =>
    intro v b hv hrest hroom
    obtain ⟨b, rfl⟩ : ∃ b', b = b' + 1 := ⟨b - 1, by have := hroom.2; omega⟩
    have hv₀ : v.tokens = ts ++ (ts' ++ rest) := by simpa using hv
    rw [items]
    refine Ends.atOther (View.kindOf_ne hi.begins hv₀ (by decide)) ?_
    rw [if_neg Bool.false_ne_true]
    refine Ends.get fun c hc => ?_
    have hlimit : c.limit = 0 := (congrArg View.limit hc).trans hroom.1
    simp only [Cursor.enough, hlimit, ne_eq, not_true_eq_false, decide_false, Bool.false_and,
      Bool.false_eq_true, if_false]
    refine Ends.attempt (item_accepted hi hv₀ (Room.behind (.refl v) (by simp; omega) hroom)) ?_
      fun _ h => h.elim
    rintro _ v₁ ⟨rfl, h₁⟩
    have hpos := hi.begins.length_pos
    refine (ih (h₁.rest hv₀) hrest (Room.behind h₁ (by omega) hroom)).bind fun v₂ h₂ => ?_
    exact Ends.pure ⟨rfl, h₁.trans h₂⟩

end Sysy.Parser
