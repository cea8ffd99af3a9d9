import Sysy.Proofs.Parsing.Reading

/-!
Whatever the parser reads without an error is what the grammar says. The readers fail only behind an
error, as long as their bound is large enough for the tokens ahead.
-/

namespace Sysy.Parser
open Token Grammar

variable {α β : Type} {r : Reader α} {k : α → Reader β} {v v' : View} {P P' : Prop}
  {Q : α → View → Prop}
  {R : β → View → Prop} {ts : List Token}

/-- There are at least `n` errors, and more than that if `P` holds. -/
def Fails (n : Nat) (P : Prop) (v : View) : Prop := n ≤ v.errors ∧ (P → n < v.errors)

/-- A reader that ends as `Q` tells, or behind an error if its bound is large enough, which `P`
says. -/
def Sound (r : Reader α) (v : View) (P : Prop) (Q : α → View → Prop) : Prop :=
  Ends r v Q (Fails v.errors P)

theorem Fails.complain (h : v.Took ts v') : Fails v.errors P v'.complain := by
  have := h.errors
  simp only [Fails, View.complain]
  exact ⟨by omega, fun _ => by omega⟩

theorem Fails.of_not (h : ¬P) : Fails v.errors P v := ⟨le_rfl, fun hP => absurd hP h⟩

theorem Sound.behind (hr : Sound r v' P' Q) (h : v.Took ts v') (hP : P → P') :
    Ends r v' Q (Fails v.errors P) :=
  hr.mono (fun _ _ hQ => hQ) fun w hw => by
    rw [Fails, h.errors] at hw
    exact ⟨hw.1, fun hp => hw.2 (hP hp)⟩

theorem Sound.bind (hr : Sound r v' P' Q) (h : v.Took ts v') (hP : P → P')
    (hk : ∀ a v'', Q a v'' → Ends (k a) v'' R (Fails v.errors P)) :
    Ends (r >>= k) v' R (Fails v.errors P) :=
  Ends.bind (hr.behind h hP) hk

/-- The readers of lists with commas have one shape. -/
theorem sound_listed {item : Reader α} {items : Reader (List α)} {I : List Token → α → Prop}
    {L : List Token → List α → Prop} {Room : View → Prop}
    (hitem : Sound item v P' fun a v' => ∃ ts, I ts a ∧ v.Took ts v') (hP : P → P')
    (hitems : ∀ v', Sound items v' (Room v') fun as v'' => ∃ ts, L ts as ∧ v'.Took ts v'')
    (hroom : ∀ v', v'.tokens.length < v.tokens.length → P → Room v')
    (hone : ∀ ts a, I ts a → L ts [a])
    (hcons : ∀ ts t ts' a as, I ts a → t.kind = .comma → L ts' as → L (ts ++ t :: ts') (a :: as)) :
    Sound (do
      let a ← item
      if ← at_ .comma then
        let _ ← advance
        return a :: (← items)
      else return [a]) v P fun as v' => ∃ ts, L ts as ∧ v.Took ts v' := by
  refine Sound.bind hitem (.refl v) hP fun a v₁ ⟨ts, ha, h₁⟩ => ?_
  refine Ends.at_ (fun hcomma => ?_) fun _ => Ends.pure ⟨ts, hone ts a ha, h₁⟩
  refine Ends.take (by simp [hcomma]) (by simp [hcomma]) fun v₂ h₂ => ?_
  have h₁₂ := h₁.trans h₂
  have hlen := h₁₂.length
  refine Sound.bind (hitems v₂) h₁₂ (hroom v₂ (by simp at hlen; omega))
    fun as v₃ ⟨ts', has, h₃⟩ => ?_
  exact Ends.pure ⟨_, hcons ts _ ts' a as ha hcomma has, by simpa using h₁₂.trans h₃⟩

def Stops (k : Nat) (v : View) : Prop := ∀ p op, binaryOp? v.token.kind = some (p, op) → p < k

structure SoundExprs (b : Nat) : Prop where
  expr : ∀ v, Sound (expr b) v (10 * v.tokens.length + 4 ≤ b) fun e v' => ∃ ts, IsExpr ts e ∧
    v.Took ts v'
  binary : ∀ v least, least ≤ 7 → Sound (binary b least) v (10 * v.tokens.length + 3 ≤
    b) fun e v' =>
    ∃ ts, IsLevel least ts e ∧ v.Took ts v' ∧ Stops least v'
  climb : ∀ v least left ts k, IsLevel k ts left → least ≤ k → Stops (k + 1) v →
    Sound (climb b least left) v (10 * v.tokens.length + 1 ≤ b) fun e v' =>
      ∃ ts', IsLevel least (ts ++ ts') e ∧ v.Took ts' v' ∧ Stops least v'
  unary : ∀ v, Sound (unary b) v (10 * v.tokens.length + 2 ≤ b) fun e v' => ∃ ts, IsUnary ts e ∧
    v.Took ts v'
  primary : ∀ v, Sound (primary b) v (10 * v.tokens.length + 1 ≤ b) fun e v' =>
    ∃ ts, IsPrimary ts e ∧ v.Took ts v'
  exprs : ∀ v, Sound (exprs b) v (10 * v.tokens.length + 5 ≤ b) fun es v' => ∃ ts, IsExprs ts es ∧
    v.Took ts v'
  dims : ∀ v, Sound (dims b) v (10 * v.tokens.length + 1 ≤ b) fun es v' => ∃ ts, IsIndices ts es ∧
    v.Took ts v'

theorem sound_literal (h : v.token.kind = .intLit) : Sound literal v P fun e v' =>
    ∃ ts, IsPrimary ts e ∧ v.Took ts v' := by
  rw [literal]
  refine Ends.take (by simp [h]) (by simp [h]) fun v₁ h₁ => ?_
  split
  · rename_i n hn
    split
    · rename_i hsmall
      exact Ends.pure ⟨[v.token], .lit h hn hsmall, h₁⟩
    · exact Ends.complain (Ends.failure (.complain h₁))
  · exact Ends.complain (Ends.failure (.complain h₁))

theorem soundExprs_zero : SoundExprs 0 where
  expr v := by rw [expr]; exact Ends.failure (.of_not (by omega))
  binary v least _ := by rw [binary]; exact Ends.failure (.of_not (by omega))
  climb v least left ts k _ _ _ := by rw [climb]; exact Ends.failure (.of_not (by omega))
  unary v := by rw [unary]; exact Ends.failure (.of_not (by omega))
  primary v := by rw [primary]; exact Ends.failure (.of_not (by omega))
  exprs v := by rw [exprs]; exact Ends.failure (.of_not (by omega))
  dims v := by rw [dims]; exact Ends.failure (.of_not (by omega))

theorem sound_climb {b : Nat} (ih : SoundExprs b) {least k : Nat} {left : Expr}
    (hleft : IsLevel k ts left) (hle : least ≤ k) (hstops : Stops (k + 1) v) :
    Sound (climb (b + 1) least left) v (10 * v.tokens.length + 1 ≤ b + 1) fun e v' =>
      ∃ ts', IsLevel least (ts ++ ts') e ∧ v.Took ts' v' ∧ Stops least v' := by
  rw [climb]
  refine Ends.peek ?_
  split
  · rename_i hnone
    refine Ends.pure ⟨[], by simpa using hleft.of_le hle, .refl v, fun p op h => ?_⟩
    rw [hnone] at h
    cases h
  · rename_i p op hop
    have hp : p ≤ k := Nat.le_of_lt_succ (hstops p op hop)
    obtain ⟨heof, hinvalid⟩ := ne_of_binaryOp? hop
    split
    · rename_i hlt
      refine Ends.pure ⟨[], by simpa using hleft.of_le hle, .refl v, fun p' op' h => ?_⟩
      rw [hop] at h
      cases h
      exact hlt
    · rename_i hge
      have hp6 := (tightness_of_binaryOp? hop).2
      refine Ends.take heof hinvalid fun v₁ h₁ => ?_
      have hlen := h₁.length
      refine Ends.atAny (fun _ => ?_) fun _ => ?_
      · refine Sound.bind (ih.binary v₁ (p + 1) (by omega)) h₁ (fun h => by simp at hlen; omega)
          fun right v₂ ⟨ts₂, hright, h₂, hstop⟩ => ?_
        have hbinary : IsLevel p (ts ++ v.token :: ts₂)
          (.binary (left.span.cover right.span) op left right) :=
          .binary (hleft.of_le hp) hop hright
        have h₁₂ := h₁.trans h₂
        have hlen₂ := h₁₂.length
        refine (Sound.behind (ih.climb v₂ least _ _ p hbinary (by omega) hstop) h₁₂
          (fun h => by simp at hlen₂; omega)).mono ?_ fun _ h => h
        rintro e v₃ ⟨ts₃, he, h₃, hstop₃⟩
        exact ⟨_, by simpa using he, by simpa using h₁₂.trans h₃, hstop₃⟩
      · exact Ends.bind (Q :=
          fun _ _ => False) (Ends.reject (.complain h₁)) fun _ _ hfalse => hfalse.elim

theorem sound_primary {b : Nat} (ih : SoundExprs b) (v : View) :
    Sound (primary (b + 1)) v (10 * v.tokens.length + 1 ≤ b + 1) fun e v' => ∃ ts, IsPrimary ts e ∧
    v.Took ts v' := by
  rw [primary]
  refine Ends.peek ?_
  split
  · rename_i hkind
    exact sound_literal hkind
  · rename_i hkind
    refine Ends.take (by simp [hkind]) (by simp [hkind]) fun v₁ h₁ => ?_
    have hlen := h₁.length
    refine Ends.at_ (fun hlp => ?_) fun hlp => ?_
    · refine Ends.take (by simp [hlp]) (by simp [hlp]) fun v₂ h₂ => ?_
      have h₁₂ := h₁.trans h₂
      have hlen₂ := h₁₂.length
      -- the closing parenthesis behind the arguments
      have hclose {ts : List Token} {es : List Expr} {v₃ : View} (hes : IsArgs ts es)
        (h₃ : v₂.Took ts v₃) :
          Ends (do
            let close ← expect .rparen " after call arguments"
            Pure.pure (Expr.call (v.token.span.cover close.span)
              (Bytes.toAscii v.token.text) es)) v₃
            (fun e v' => ∃ ts, IsPrimary ts e ∧ v.Took ts v')
              (Fails v.errors (10 * v.tokens.length + 1 ≤ b + 1)) := by
        refine Ends.expect (by decide) (by decide) (fun hrp v₄ h₄ => ?_) fun _ =>
          .complain (h₁₂.trans h₃)
        refine Ends.pure ⟨_, .call hkind hlp hes hrp, ?_⟩
        simpa using (h₁₂.trans h₃).trans h₄
      refine Ends.at_ (fun _ => ?_) fun _ => ?_
      · rw [if_pos rfl, pure_bind]
        exact hclose .nil (.refl v₂)
      · rw [if_neg Bool.false_ne_true]
        exact Sound.bind (ih.exprs v₂) h₁₂ (fun h => by simp at hlen₂; omega)
          fun es v₃ ⟨ts, hes, h₃⟩ => hclose (.some hes) h₃
    · rw [if_neg Bool.false_ne_true]
      refine Sound.bind (ih.dims v₁) h₁ (fun h => by simp at hlen; omega)
        fun es v₂ ⟨ts, hes, h₂⟩ => ?_
      refine Ends.lastSpan (Ends.pure ⟨v.token :: ts, ?_, h₁.trans h₂⟩)
      rw [h₂.last, h₁.last]
      exact .lval hkind hes
  · rename_i hkind
    refine Ends.take (by simp [hkind]) (by simp [hkind]) fun v₁ h₁ => ?_
    have hlen := h₁.length
    refine Sound.bind (ih.expr v₁) h₁ (fun h => by simp at hlen; omega) fun e v₂ ⟨ts, he, h₂⟩ => ?_
    refine Ends.expect (by decide) (by decide) (fun hrp v₃ h₃ => ?_) fun _ =>
      .complain (h₁.trans h₂)
    exact Ends.pure ⟨_, .paren hkind he hrp, by simpa using (h₁.trans h₂).trans h₃⟩
  · exact Ends.reject (.complain (.refl v))

theorem soundExprs (b : Nat) : SoundExprs b := by
  induction b with
  | zero => exact soundExprs_zero
  | succ b ih =>
    refine ⟨fun v => ?_, fun v least h7 => ?_, fun v least left ts k hleft hle hstops =>
      sound_climb ih hleft hle hstops,
      fun v => ?_, sound_primary ih, fun v => ?_, fun v => ?_⟩
    · rw [expr]
      refine Ends.atAny (fun _ => ?_) fun _ => ?_
      · refine (Sound.behind (ih.binary v 0 (by omega)) (.refl v) (fun h => by omega)).mono ?_
          fun _ h => h
        rintro e v' ⟨ts, he, h, -⟩
        exact ⟨ts, he.one, h⟩
      · rw [if_neg Bool.false_ne_true]
        exact Ends.peek (Ends.reject (.complain (.refl v)))
    · rw [binary]
      refine Sound.bind (ih.unary v) (.refl v) (fun h => by omega) fun left v₁ ⟨ts, hleft, h₁⟩ => ?_
      have hlen := h₁.length
      -- no operator is as tight as 8, so the first operand may stand alone
      have hstops : Stops 8 v₁ := fun p op hop => by
        have := tightness_of_binaryOp? hop
        omega
      refine (Sound.behind (ih.climb v₁ least left ts 7 (.unary hleft) h7 hstops) h₁
        (fun h => by omega)).mono ?_ fun _ h => h
      rintro e v₂ ⟨ts₂, he, h₂, hstop⟩
      exact ⟨_, he, h₁.trans h₂, hstop⟩
    · rw [unary]
      refine Ends.peek ?_
      split
      · rename_i op hop
        obtain ⟨heof, hinvalid⟩ := ne_of_unaryOp? hop
        refine Ends.take heof hinvalid fun v₁ h₁ => ?_
        have hlen := h₁.length
        refine Sound.bind (ih.unary v₁) h₁ (fun h => by simp at hlen; omega)
          fun e v₂ ⟨ts, he, h₂⟩ => ?_
        exact Ends.pure ⟨_, .op hop he, h₁.trans h₂⟩
      · refine (Sound.behind (ih.primary v) (.refl v) (fun h => by omega)).mono ?_ fun _ h => h
        rintro e v' ⟨ts, he, h⟩
        exact ⟨ts, .primary he, h⟩
    · rw [exprs]
      exact sound_listed (ih.expr v) (fun h => by omega) ih.exprs (fun v' hlt h => by omega)
        (fun _ _ => .one) fun _ _ _ _ _ => .cons
    · rw [dims]
      refine Ends.at_ (fun hlb => ?_) fun _ => Ends.pure ⟨[], .nil, .refl v⟩
      refine Ends.take (by simp [hlb]) (by simp [hlb]) fun v₁ h₁ => ?_
      have hlen := h₁.length
      refine Sound.bind (ih.expr v₁) h₁ (fun h => by simp at hlen; omega)
        fun e v₂ ⟨ts, he, h₂⟩ => ?_
      have h₁₂ := h₁.trans h₂
      refine Ends.expect (by decide) (by decide) (fun hrb v₃ h₃ => ?_) fun _ => .complain h₁₂
      have h₁₃ := h₁₂.trans h₃
      have hlen₃ := h₁₃.length
      refine Sound.bind (ih.dims v₃) h₁₃ (fun h => by simp at hlen₃; omega)
        fun es v₄ ⟨ts', hes, h₄⟩ => ?_
      exact Ends.pure ⟨_, .cons hlb he hrb hes, by simpa using h₁₃.trans h₄⟩

/-! Initialisers and declarations. -/

theorem sound_inits (b : Nat) :
    (∀ v, Sound (init b) v (10 * v.tokens.length + 5 ≤ b) fun i v' => ∃ ts, IsInit ts i ∧
      v.Took ts v') ∧
      ∀ v, Sound (inits b) v (10 * v.tokens.length + 6 ≤ b) fun is v' => ∃ ts, IsInits ts is ∧
      v.Took ts v' := by
  induction b with
  | zero =>
    refine ⟨fun v => ?_, fun v => ?_⟩
    · rw [init]
      exact Ends.failure (.of_not (by omega))
    · rw [inits]
      exact Ends.failure (.of_not (by omega))
  | succ b ih =>
    obtain ⟨ihInit, ihInits⟩ := ih
    refine ⟨fun v => ?_, fun v => ?_⟩
    · rw [init]
      refine Ends.at_ (fun hlb => ?_) fun _ => ?_
      · refine Ends.take (by simp [hlb]) (by simp [hlb]) fun v₁ h₁ => ?_
        have hlen := h₁.length
        refine Ends.at_ (fun hempty => ?_) fun _ => ?_
        · rw [if_pos rfl, pure_bind]
          refine Ends.expect (by decide) (by decide) (fun hrb v₂ h₂ => ?_) fun _ => .complain h₁
          exact Ends.pure ⟨_, .empty hlb hrb, h₁.trans h₂⟩
        · rw [if_neg Bool.false_ne_true]
          refine Sound.bind (ihInits v₁) h₁ (fun h => by simp at hlen; omega)
            fun is v₂ ⟨ts, his, h₂⟩ => ?_
          refine Ends.expect (by decide) (by decide) (fun hrb v₃ h₃ => ?_) fun _ =>
            .complain (h₁.trans h₂)
          exact Ends.pure ⟨_, .list hlb his hrb, by simpa using (h₁.trans h₂).trans h₃⟩
      · refine Sound.bind ((soundExprs b).expr v) (.refl v) (fun h => by omega)
          fun e v₁ ⟨ts, he, h₁⟩ => ?_
        exact Ends.pure ⟨ts, .expr he, h₁⟩
    · rw [inits]
      exact sound_listed (ihInit v) (fun h => by omega) ihInits (fun v' hlt h => by omega)
        (fun _ _ => .one) fun _ _ _ _ _ => .cons

theorem sound_varDef (b : Nat) (isConst : Bool) {name : Token} (hname : name.kind = .ident)
    (v : View) :
    Sound (varDef b isConst name) v (10 * v.tokens.length + 1 ≤ b) fun d v' =>
      ∃ ts, IsVarDef isConst (name :: ts) d ∧ v.Took ts v' := by
  rw [varDef]
  refine Sound.bind ((soundExprs b).dims v) (.refl v) id fun es v₁ ⟨ts, hes, h₁⟩ => ?_
  refine Ends.at_ (fun heq => ?_) fun _ => ?_
  · refine Ends.take (by simp [heq]) (by simp [heq]) fun v₂ h₂ => ?_
    have h₁₂ := h₁.trans h₂
    have hlen₂ := h₁₂.length
    refine Sound.bind ((sound_inits b).1 v₂) h₁₂ (fun h => by simp at hlen₂; omega)
      fun i v₃ ⟨ts', hi, h₃⟩ => ?_
    exact Ends.pure ⟨_, .init hname hes heq hi, by simpa using h₁₂.trans h₃⟩
  · cases isConst with
    | true => exact Ends.reject (.complain h₁)
    | false => exact Ends.pure ⟨ts, .plain rfl hname hes, h₁⟩

theorem sound_varDefs (isConst : Bool) (b : Nat) : ∀ {first : Token}, first.kind = .ident → ∀ v,
    Sound (varDefs isConst b first) v (10 * v.tokens.length + 2 ≤ b) fun ds v' =>
      ∃ ts, IsList (IsVarDef isConst) (first :: ts) ds ∧ v.Took ts v' := by
  induction b with
  | zero =>
    intro first _ v
    rw [varDefs]
    exact Ends.failure (.of_not (by omega))
  | succ b ih =>
    intro first hfirst v
    rw [varDefs]
    refine Sound.bind (sound_varDef b isConst hfirst v) (.refl v) (fun h => by omega)
      fun d v₁ ⟨ts, hd, h₁⟩ => ?_
    refine Ends.at_ (fun hcomma => ?_) fun _ => Ends.pure ⟨ts, .one hd, h₁⟩
    refine Ends.take (by simp [hcomma]) (by simp [hcomma]) fun v₂ h₂ => ?_
    have h₁₂ := h₁.trans h₂
    refine Ends.ident (fun hname v₃ h₃ => ?_) fun _ => .complain h₁₂
    have h₁₃ := h₁₂.trans h₃
    have hlen₃ := h₁₃.length
    refine Sound.bind (ih hname v₃) h₁₃ (fun h => by simp at hlen₃; omega)
      fun ds v₄ ⟨ts', hds, h₄⟩ => ?_
    have hlist := IsList.cons hd hcomma hds
    exact Ends.pure ⟨_, by simpa using hlist, by simpa using h₁₃.trans h₄⟩

theorem sound_declRest (b : Nat) (isConst : Bool) {first : Token} (hfirst : first.kind = .ident)
    (v : View) :
    Sound (declRest b isConst first) v (10 * v.tokens.length + 2 ≤ b) fun d v' => ∃ ts semi,
      d.isConst = isConst ∧ IsList (IsVarDef isConst) (first :: ts) d.defs ∧
        semi.kind = .semicolon ∧ v.Took (ts ++ [semi]) v' := by
  rw [declRest]
  refine Sound.bind (sound_varDefs isConst b hfirst v) (.refl v) id fun ds v₁ ⟨ts, hds, h₁⟩ => ?_
  refine Ends.expect (by decide) (by decide) (fun hsemi v₂ h₂ => ?_) fun _ => .complain h₁
  exact Ends.pure ⟨ts, _, rfl, hds, hsemi, h₁.trans h₂⟩

theorem sound_decl (b : Nat) (v : View) :
    Sound (decl b) v (10 * v.tokens.length + 2 ≤ b) fun d v' =>
    ∃ ts, IsDecl (v.token :: ts) d ∧ v.Took (v.token :: ts) v' := by
  -- behind `const`, if it is there
  have hrest (isConst : Bool) {ts : List Token} {v₁ : View} (h₁ : v.Took ts v₁) :
      Ends (do
        let _ ← expect .kwInt " in declaration"
        let name ← ident
        declRest b isConst name) v₁ (fun d v' => ∃ ts' semi, v₁.token.kind = .kwInt ∧
          d.isConst = isConst ∧
          IsList (IsVarDef isConst) ts' d.defs ∧ semi.kind = .semicolon ∧
            v₁.Took (v₁.token :: (ts' ++ [semi])) v')
        (Fails v.errors (10 * v.tokens.length + 2 ≤ b)) := by
    refine Ends.expect (by decide) (by decide) (fun hint v₂ h₂ => ?_) fun _ => .complain h₁
    refine Ends.ident (fun hname v₃ h₃ => ?_) fun _ => .complain (h₁.trans h₂)
    have h₁₃ := (h₁.trans h₂).trans h₃
    have hlen₃ := h₁₃.length
    refine (Sound.behind (sound_declRest b isConst hname v₃) h₁₃ (fun h => by omega)).mono ?_
      fun _ h => h
    rintro d v₄ ⟨ts', semi, hconst, hds, hsemi, h₄⟩
    exact ⟨_, semi, hint, hconst, hds, hsemi, by simpa using (h₂.trans h₃).trans h₄⟩
  rw [decl]
  refine Ends.at_ (fun hconst => ?_) fun _ => ?_
  · refine Ends.take (by simp [hconst]) (by simp [hconst]) fun v₁ h₁ => ?_
    refine (hrest true h₁).mono ?_ fun _ h => h
    rintro ⟨_, ds⟩ v' ⟨ts, semi, hint, rfl, hds, hsemi, h⟩
    exact ⟨_, .const hconst hint hds hsemi, h₁.trans h⟩
  · refine (hrest false (.refl v)).mono ?_ fun _ h => h
    rintro ⟨_, ds⟩ v' ⟨ts, semi, hint, rfl, hds, hsemi, h⟩
    exact ⟨_, .var hint hds hsemi, h⟩

/-! Statements. -/

theorem sound_condition (b : Nat) (v : View) :
    Sound (condition b) v (10 * v.tokens.length ≤ b) fun e v' =>
    ∃ ts, IsCondition ts e ∧ v.Took ts v' := by
  rw [condition]
  refine Ends.expect (by decide) (by decide) (fun hlp v₁ h₁ => ?_) fun _ => .complain (.refl v)
  have hlen := h₁.length
  refine Sound.bind ((soundExprs b).expr v₁) h₁ (fun h => by simp at hlen; omega)
    fun e v₂ ⟨ts, he, h₂⟩ => ?_
  refine Ends.expect (by decide) (by decide) (fun hrp v₃ h₃ => ?_) fun _ => .complain (h₁.trans h₂)
  exact Ends.pure ⟨_, .intro hlp he hrp, by simpa using (h₁.trans h₂).trans h₃⟩

theorem View.Took.last_snoc {t : Token} (h : v.Took (ts ++ [t]) v') : v'.last = t.span := by
  rw [h.last, View.endSpan_append]
  rfl

theorem sound_simpleStmt (b : Nat) (v : View) :
    Sound (simpleStmt b) v (10 * v.tokens.length + 4 ≤ b) fun s v' =>
    ∃ ts, IsStmt false ts s ∧ v.Took ts v' := by
  rw [simpleStmt]
  refine Sound.bind ((soundExprs b).expr v) (.refl v) id fun e v₁ ⟨ts, he, h₁⟩ => ?_
  refine Ends.at_ (fun heq => ?_) fun _ => ?_
  · refine Ends.take (by simp [heq]) (by simp [heq]) fun v₂ h₂ => ?_
    have h₁₂ := h₁.trans h₂
    have hlen₂ := h₁₂.length
    split
    · rename_i target name es
      refine Sound.bind ((soundExprs b).expr v₂) h₁₂ (fun h => by omega)
        fun value v₃ ⟨ts', hvalue, h₃⟩ => ?_
      have h₁₃ := h₁₂.trans h₃
      refine Ends.expect (by decide) (by decide) (fun hsemi v₄ h₄ => ?_) fun _ => .complain h₁₃
      have h₁₄ := h₁₃.trans h₄
      refine Ends.lastSpan (Ends.pure ⟨_, ?_, by simpa using h₁₄⟩)
      rw [h₁₄.last_snoc]
      exact .assign (he.isTarget rfl) heq hvalue hsemi
    · exact Ends.complain (Ends.failure (.complain h₁₂))
  · refine Ends.expect (by decide) (by decide) (fun hsemi v₂ h₂ => ?_) fun _ => .complain h₁
    have h₁₂ := h₁.trans h₂
    refine Ends.lastSpan (Ends.pure ⟨_, ?_, h₁₂⟩)
    rw [h₁₂.last_snoc]
    exact .expr he hsemi

theorem ends_skipUntil (ks : List Kind) (v : View) :
    Ends (skipUntil ks) v (fun _ v' => v'.errors = v.errors) fun _ => False := by
  have hskip (b : Nat) : ∀ v, Ends (skipTo ks b) v (fun _ v' => v'.errors = v.errors) fun _ =>
    False := by
    induction b with
    | zero => exact fun v => Ends.pure rfl
    | succ b ih =>
      intro v
      rw [skipTo]
      refine Ends.atAny (fun _ => Ends.pure rfl) fun _ => ?_
      refine Ends.advance ((ih v.advance).mono ?_ fun _ h => h)
      exact fun _ v' h => h.trans View.errors_advance
  rw [skipUntil]
  exact Ends.get fun c _ => hskip _ v

theorem Fails.of_le {n m : Nat} (h : Fails n P v) (hle : v.errors ≤ m) (hv' : v'.errors = m) :
    Fails n P v' := by
  rw [Fails, hv']
  exact ⟨h.1.trans hle, fun hP => (h.2 hP).trans_le hle⟩

/-- The bound of a reader of statements is large enough for the tokens ahead, and errors are not
limited. -/
def Room (v : View) (n b : Nat) : Prop := v.limit = 0 ∧ 10 * v.tokens.length + n ≤ b

theorem Room.behind {n n' b b' : Nat} (h : v.Took ts v') (hn : n' + b ≤ n + 10 * ts.length + b') :
    Room v n b → Room v' n' b' := by
  rintro ⟨hlimit, hroom⟩
  have hlen := h.length
  exact ⟨h.limit.trans hlimit, by omega⟩

def StmtRead (v : View) (s : Stmt) (v' : View) : Prop :=
  ∃ isOpen ts, IsStmt isOpen ts s ∧ v.Took ts v' ∧ (isOpen = true → v'.token.kind ≠ .kwElse)

structure SoundStmts (b : Nat) : Prop where
  block : ∀ v, Sound (block b) v (Room v 1 b) fun p v' => ∃ lb ts rb, lb.kind = .lbrace ∧
    IsStmts ts p.2 ∧
    rb.kind = .rbrace ∧ p.1 = lb.span.cover rb.span ∧ v.Took (lb :: (ts ++ [rb])) v'
  stmts : ∀ v, Sound (stmts b) v (Room v 6 b) fun outcomes v' =>
    (∃ ts ss, outcomes = ss.map some ∧ IsStmts ts ss ∧ v.Took ts v') ∨ none ∈ outcomes ∧
      Fails v.errors (Room v 6 b) v'
  stmt : ∀ v, Sound (stmt b) v (Room v 5 b) (StmtRead v)

theorem mapM_some (ss : List Stmt) : ((ss.map some).mapM fun s => s) = some ss := by
  induction ss with
  | nil => rfl
  | cons s ss ih => rw [List.map_cons, List.mapM_cons, ih]; rfl

theorem mapM_of_none_mem {outcomes : List (Option Stmt)} (h : none ∈ outcomes) :
    (outcomes.mapM fun s => s) = none := by
  induction outcomes with
  | nil => cases h
  | cons o outcomes ih =>
    rw [List.mapM_cons]
    rcases List.mem_cons.mp h with rfl | h
    · rfl
    · rw [ih h]
      cases o <;> rfl

theorem sound_block {b : Nat} (ih : SoundStmts b) (v : View) :
    Sound (block (b + 1)) v (Room v 1 (b + 1)) fun p v' =>
    ∃ lb ts rb, lb.kind = .lbrace ∧ IsStmts ts p.2 ∧ rb.kind = .rbrace ∧
      p.1 = lb.span.cover rb.span ∧ v.Took (lb :: (ts ++ [rb])) v' := by
  rw [block]
  refine Ends.expect (by decide) (by decide) (fun hlb v₁ h₁ => ?_) fun _ => .complain (.refl v)
  have hroom : Room v 1 (b + 1) → Room v₁ 6 b := Room.behind h₁ (by simp; omega)
  refine Sound.bind (ih.stmts v₁) h₁ hroom fun outcomes v₂ h => ?_
  rcases h with ⟨ts, ss, rfl, hss, h₂⟩ | ⟨hnone, hfails⟩
  · refine Ends.expect (by decide) (by decide) (fun hrb v₃ h₃ => ?_) fun _ =>
      .complain (h₁.trans h₂)
    rw [mapM_some]
    exact Ends.pure ⟨_, ts, _, hlb, hss, hrb, rfl, by simpa using (h₁.trans h₂).trans h₃⟩
  · have hfails₂ : Fails v.errors (Room v 1 (b + 1)) v₂ := by
      rw [Fails, h₁.errors] at hfails
      exact ⟨hfails.1, fun hP => hfails.2 (hroom hP)⟩
    refine Ends.expect (by decide) (by decide) (fun _ v₃ h₃ => ?_) fun _ => ?_
    · rw [mapM_of_none_mem hnone]
      exact Ends.failure (hfails₂.of_le le_rfl h₃.errors)
    · exact hfails₂.of_le (Nat.le_succ _) rfl

theorem sound_stmts {b : Nat} (ih : SoundStmts b) (v : View) :
    Sound (stmts (b + 1)) v (Room v 6 (b + 1))
    fun outcomes v' => (∃ ts ss, outcomes = ss.map some ∧ IsStmts ts ss ∧ v.Took ts v') ∨
      none ∈ outcomes ∧ Fails v.errors (Room v 6 (b + 1)) v' := by
  rw [stmts]
  refine Ends.atAny (fun _ => Ends.pure (.inl ⟨[], [], rfl, .nil, .refl v⟩)) fun _ => ?_
  rw [if_neg Bool.false_ne_true]
  refine Ends.get fun c hc => ?_
  dsimp only
  split
  · rename_i henough
    refine Ends.bind (Q :=
      fun _ _ => False) (Ends.failure (.of_not fun hroom => ?_)) fun _ _ hfalse => hfalse.elim
    have hlimit : c.limit = 0 := (congrArg View.limit hc).trans hroom.1
    simp [Cursor.enough, hlimit] at henough
  -- the statements behind the first one, if there were errors until then
  have hrest {v₁ : View} (hfails : Fails v.errors (Room v 6 (b + 1)) v₁) : Ends (do
      let outcomes ← stmts b
      Pure.pure (none :: outcomes)) v₁ (fun outcomes v' => (∃ ts ss, outcomes = ss.map some ∧
        IsStmts ts ss ∧ v.Took ts v') ∨
        none ∈ outcomes ∧ Fails v.errors (Room v 6 (b + 1)) v')
          (Fails v.errors (Room v 6 (b + 1))) := by
    refine Ends.bind (Q := fun _ v₂ => v₁.errors ≤ v₂.errors)
      ((ih.stmts v₁).mono (fun outcomes v₂ h => ?_) fun v₂ h => hfails.of_le h.1 rfl)
      fun outcomes v₂ h => Ends.pure (.inr ⟨List.mem_cons_self .., hfails.of_le h rfl⟩)
    rcases h with ⟨_, _, _, _, h⟩ | ⟨_, h⟩
    · exact h.errors.ge
    · exact h.1
  refine Ends.attempt (ih.stmt v) (fun s v₁ ⟨isOpen, ts, hs, h₁, _⟩ => ?_) fun v₁ h₁ => ?_
  · simp only [Option.isNone_some, Bool.false_eq_true, if_false]
    have hroom : Room v 6 (b + 1) → Room v₁ 6 b := by
      have := hs.begins.length_pos
      exact Room.behind h₁ (by omega)
    refine Sound.bind (ih.stmts v₁) h₁ hroom fun outcomes v₂ h => Ends.pure ?_
    rcases h with ⟨ts', ss, rfl, hss, h₂⟩ | ⟨hnone, hfails⟩
    · exact .inl ⟨_, s :: ss, rfl, .cons hs hss, h₁.trans h₂⟩
    · rw [Fails, h₁.errors] at hfails
      exact .inr ⟨List.mem_cons_of_mem _ hnone, hfails.1, fun hP => hfails.2 (hroom hP)⟩
  · have hfails : Fails v.errors (Room v 6 (b + 1)) v₁ :=
      ⟨h₁.1, fun hP => h₁.2 (Room.behind (.refl v) (by simp; omega) hP)⟩
    simp only [Option.isNone_none, if_true]
    refine Ends.bind ((ends_skipUntil _ v₁).mono (fun _ _ h => h) fun _ h => h.elim)
      fun _ v₂ h₂ => ?_
    have hfails₂ := hfails.of_le le_rfl h₂
    refine Ends.at_ (fun _ => ?_) fun _ => ?_
    · rw [if_pos rfl]
      exact Ends.advance (hrest (hfails₂.of_le le_rfl View.errors_advance))
    · rw [if_neg Bool.false_ne_true]
      exact hrest hfails₂

theorem View.Took.last_append {ts' : List Token} {K : Kind → Prop} (h : v.Took (ts ++ ts') v')
    (hts : Begins K ts') (d : Span) :
    v'.last = endSpan d ts' := by
  obtain ⟨t, rest, rfl, -⟩ := hts
  rw [h.last, View.endSpan_append]
  simp [endSpan, List.getLast?_cons]

theorem sound_cond {b : Nat} (ih : SoundStmts b) {v₁ : View} (hif : v.token.kind = .kwIf)
    (h₁ : v.Took [v.token] v₁) :
    Ends (do
      let test ← condition b
      let yes ← stmt b
      if ← at_ .kwElse then
        let _ ← advance
        let no ← stmt b
        Pure.pure (Stmt.cond (v.token.span.cover (← lastSpan)) test yes (some no))
      else Pure.pure (Stmt.cond (v.token.span.cover (← lastSpan)) test yes none)) v₁ (StmtRead v)
      (Fails v.errors (Room v 5 (b + 1))) := by
  have hlen₁ := h₁.length
  refine Sound.bind (sound_condition b v₁) h₁ (fun h => by simp [Room] at hlen₁ h; omega)
    fun test v₂ ⟨ts, htest, h₂⟩ => ?_
  have h₁₂ := h₁.trans h₂
  refine Sound.bind (ih.stmt v₂) h₁₂ (Room.behind h₁₂ (by simp; omega))
    fun yes v₃ ⟨isOpen, ts', hyes, h₃, helse⟩ => ?_
  have h₁₃ := h₁₂.trans h₃
  refine Ends.at_ (fun hel => ?_) fun hel => ?_
  · have hclosed : isOpen = false := by
      cases isOpen with
      | false => rfl
      | true => exact absurd hel (helse rfl)
    subst hclosed
    refine Ends.take (by simp [hel]) (by simp [hel]) fun v₄ h₄ => ?_
    have h₁₄ := h₁₃.trans h₄
    refine Sound.bind (ih.stmt v₄) h₁₄ (Room.behind h₁₄ (by simp; omega))
      fun no v₅ ⟨isOpen, ts'', hno, h₅, helse'⟩ => ?_
    have h₁₅ := h₁₄.trans h₅
    refine Ends.lastSpan (Ends.pure ⟨isOpen, _, ?_, by simpa using h₁₅, helse'⟩)
    rw [h₁₅.last_append hno.begins v.token.span]
    exact .condElse hif htest hyes hel hno
  · refine Ends.lastSpan (Ends.pure ⟨true, _, ?_, by simpa using h₁₃, fun _ => hel⟩)
    rw [h₁₃.last_append hyes.begins v.token.span]
    exact .cond hif htest hyes

theorem sound_keyword {b : Nat} {v₁ : View} {place : String} (make : Span → Stmt)
    (h₁ : v.Took [v.token] v₁)
    (hmake : ∀ semi : Token, semi.kind = .semicolon → IsStmt false [v.token, semi]
      (make (v.token.span.cover semi.span))) :
    Ends (do
      let _ ← expect .semicolon place
      Pure.pure (make (v.token.span.cover (← lastSpan)))) v₁ (StmtRead v)
        (Fails v.errors (Room v 5 (b + 1))) := by
  refine Ends.expect (by decide) (by decide) (fun hsemi v₂ h₂ => ?_) fun _ => .complain h₁
  have h₁₂ := h₁.trans h₂
  refine Ends.lastSpan (Ends.pure ⟨false, _, ?_, h₁₂, by simp⟩)
  rw [h₁₂.last_snoc]
  exact hmake _ hsemi

theorem sound_declStmt (b : Nat) (v : View) : Ends (do
    let d ← decl b
    Pure.pure (Stmt.decl (v.token.span.cover (← lastSpan)) d)) v (StmtRead v)
      (Fails v.errors (Room v 5 (b + 1))) := by
  refine Sound.bind (sound_decl b v) (.refl v) (fun h => by simp [Room] at h; omega)
    fun d v₁ ⟨ts, hd, h₁⟩ => ?_
  refine Ends.lastSpan (Ends.pure ⟨false, _, ?_, h₁, by simp⟩)
  have hlast : v₁.last = endSpan v.token.span ts := by
    rw [h₁.last]
    exact View.endSpan_append _ [v.token] ts
  rw [hlast]
  exact .decl hd

theorem sound_stmt {b : Nat} (ih : SoundStmts b) (v : View) :
    Sound (stmt (b + 1)) v (Room v 5 (b + 1)) (StmtRead v) := by
  rw [stmt]
  refine Ends.peek ?_
  split
  · refine Sound.bind (ih.block v) (.refl v) (Room.behind (.refl v) (by simp; omega))
      fun p v₁ ⟨lb, ts, rb, hlb, hss, hrb, hspan, h₁⟩ => ?_
    obtain ⟨span, ss⟩ := p
    obtain rfl : span = lb.span.cover rb.span := hspan
    exact Ends.pure ⟨false, _, .block hlb hss hrb, h₁, by simp⟩
  · exact sound_declStmt b v
  · exact sound_declStmt b v
  · rename_i hif
    exact Ends.take (by simp [hif]) (by simp [hif]) fun v₁ h₁ => sound_cond ih hif h₁
  · rename_i hwhile
    refine Ends.take (by simp [hwhile]) (by simp [hwhile]) fun v₁ h₁ => ?_
    have hlen₁ := h₁.length
    refine Sound.bind (sound_condition b v₁) h₁ (fun h => by simp [Room] at hlen₁ h; omega)
      fun test v₂ ⟨ts, htest, h₂⟩ => ?_
    have h₁₂ := h₁.trans h₂
    refine Sound.bind (ih.stmt v₂) h₁₂ (Room.behind h₁₂ (by simp; omega))
      fun body v₃ ⟨isOpen, ts', hbody, h₃, helse⟩ => ?_
    have h₁₃ := h₁₂.trans h₃
    refine Ends.lastSpan (Ends.pure ⟨isOpen, _, ?_, by simpa using h₁₃, helse⟩)
    rw [h₁₃.last_append hbody.begins v.token.span]
    exact .loop hwhile htest hbody
  · rename_i hbreak
    exact Ends.take (by simp [hbreak]) (by simp [hbreak]) fun v₁ h₁ =>
      sound_keyword .leave h₁ fun _ => .leave hbreak
  · rename_i hcontinue
    exact Ends.take (by simp [hcontinue]) (by simp [hcontinue]) fun v₁ h₁ =>
      sound_keyword .next h₁ fun _ => .next hcontinue
  · rename_i hreturn
    refine Ends.take (by simp [hreturn]) (by simp [hreturn]) fun v₁ h₁ => ?_
    have hlen₁ := h₁.length
    refine Ends.at_ (fun _ => ?_) fun _ => ?_
    · rw [if_pos rfl, pure_bind]
      exact sound_keyword (.ret · none) h₁ fun _ => .ret hreturn
    · rw [if_neg Bool.false_ne_true, bind_map_left]
      refine Sound.bind ((soundExprs b).expr v₁) h₁ (fun h => by simp [Room] at hlen₁ h; omega)
        fun e v₂ ⟨ts, he, h₂⟩ => ?_
      have h₁₂ := h₁.trans h₂
      refine Ends.expect (by decide) (by decide) (fun hsemi v₃ h₃ => ?_) fun _ => .complain h₁₂
      have h₁₃ := h₁₂.trans h₃
      refine Ends.lastSpan (Ends.pure ⟨false, _, ?_, by simpa using h₁₃, by simp⟩)
      rw [h₁₃.last_snoc]
      exact .retVal hreturn he hsemi
  · rename_i hsemi
    exact Ends.take (by simp [hsemi]) (by simp [hsemi]) fun v₁ h₁ =>
      Ends.pure ⟨false, _, .skip hsemi, h₁, by simp⟩
  · refine (Sound.behind (sound_simpleStmt b v) (.refl v)
      (fun h => by simp [Room] at h; omega)).mono ?_ fun _ h => h
    rintro s v' ⟨ts, hs, h⟩
    exact ⟨false, ts, hs, h, by simp⟩

theorem soundStmts (b : Nat) : SoundStmts b := by
  induction b with
  | zero =>
    have hroom {v : View} {n : Nat} (hn : 0 < n) : ¬Room v n 0 := by
      rintro ⟨-, h⟩
      omega
    refine ⟨fun v => ?_, fun v => ?_, fun v => ?_⟩
    · rw [block]
      exact Ends.failure (.of_not (hroom (by decide)))
    · rw [stmts]
      exact Ends.failure (.of_not (hroom (by decide)))
    · rw [stmt]
      exact Ends.failure (.of_not (hroom (by decide)))
  | succ b ih => exact ⟨sound_block ih, sound_stmts ih, sound_stmt ih⟩

/-! Items. -/

theorem sound_param (b : Nat) (v : View) : Sound (param b) v (10 * v.tokens.length ≤ b) fun p v' =>
    ∃ ts, IsParam ts p ∧ v.Took ts v' := by
  rw [param]
  refine Ends.expect (by decide) (by decide) (fun hint v₁ h₁ => ?_) fun _ => .complain (.refl v)
  refine Ends.ident (fun hname v₂ h₂ => ?_) fun _ => .complain h₁
  have h₁₂ := h₁.trans h₂
  refine Ends.at_ (fun hlb => ?_) fun _ => Ends.pure ⟨_, .number hint hname, h₁₂⟩
  refine Ends.take (by simp [hlb]) (by simp [hlb]) fun v₃ h₃ => ?_
  have h₁₃ := h₁₂.trans h₃
  refine Ends.expect (by decide) (by decide) (fun hrb v₄ h₄ => ?_) fun _ => .complain h₁₃
  have h₁₄ := h₁₃.trans h₄
  have hlen₄ := h₁₄.length
  refine Sound.bind ((soundExprs b).dims v₄) h₁₄ (fun h => by simp at hlen₄; omega)
    fun es v₅ ⟨ts, hes, h₅⟩ => ?_
  refine Ends.lastSpan (Ends.pure ⟨_, ?_, by simpa using h₁₄.trans h₅⟩)
  rw [h₅.last, h₁₄.last_snoc]
  exact .array hint hname hlb hrb hes

theorem sound_params (b : Nat) : ∀ v, Sound (params b) v (10 * v.tokens.length + 1 ≤ b) fun ps v' =>
    ∃ ts, IsList IsParam ts ps ∧ v.Took ts v' := by
  induction b with
  | zero =>
    intro v
    rw [params]
    exact Ends.failure (.of_not (by omega))
  | succ b ih =>
    intro v
    rw [params]
    exact sound_listed (sound_param b v) (fun h => by omega) ih (fun v' hlt h => by omega)
      (fun _ _ => .one) fun _ _ _ _ _ => .cons

theorem sound_func (b : Nat) {type name : Token} {v₁ : View}
    (htype : type.kind = .kwInt ∨ type.kind = .kwVoid) (hname : name.kind = .ident)
    (hlp : v₁.token.kind = .lparen) (h₁ : v.Took [type, name] v₁) :
    Ends (func b type name) v₁ (fun i v' => ∃ ts, IsItem ts i ∧ v.Took ts v')
      (Fails v.errors (Room v 2 b)) := by
  rw [func_eq]
  refine Ends.take (by simp [hlp]) (by simp [hlp]) fun v₂ h₂ => ?_
  have h₁₂ := h₁.trans h₂
  have hlen₂ := h₁₂.length
  -- the body behind the parameters
  have hrest {ts : List Token} {ps : List Param} {v₃ : View} (hps : IsParams ts ps)
      (h₃ : v₂.Took ts v₃) :
      Ends (funcRest b type name ps) v₃ (fun i v' => ∃ ts, IsItem ts i ∧ v.Took ts v')
        (Fails v.errors (Room v 2 b)) := by
    have h₁₃ := h₁₂.trans h₃
    rw [funcRest]
    refine Ends.expect (by decide) (by decide) (fun hrp v₄ h₄ => ?_) fun _ => .complain h₁₃
    have h₁₄ := h₁₃.trans h₄
    refine Ends.at_ (fun _ => ?_) fun _ => ?_
    · refine Sound.bind ((soundStmts b).block v₄) h₁₄ (Room.behind h₁₄ (by simp; omega))
        fun p v₅ ⟨lb, ts', rb, hlb, hss, hrb, hspan, h₅⟩ => ?_
      obtain ⟨span, ss⟩ := p
      obtain rfl : span = lb.span.cover rb.span := hspan
      have h₁₅ := h₁₄.trans h₅
      have hsnoc : v.Took (type :: name :: v₁.token :: (ts ++ v₃.token :: lb :: ts') ++ [rb]) v₅ :=
        by simpa using h₁₅
      refine Ends.lastSpan (Ends.pure ⟨_, ?_, by simpa using hsnoc⟩)
      rw [hsnoc.last_snoc]
      exact .func htype hname hlp hps hrp hlb hss hrb
    · exact Ends.bind (Q :=
        fun _ _ => False) (Ends.reject (.complain h₁₄)) fun _ _ hfalse => hfalse.elim
  refine Ends.at_ (fun _ => ?_) fun _ => ?_
  · rw [if_pos rfl, pure_bind]
    exact hrest .nil (.refl v₂)
  · rw [if_neg Bool.false_ne_true]
    exact Sound.bind (sound_params b v₂) h₁₂ (fun h => by simp [Room] at hlen₂ h; omega)
      fun ps v₃ ⟨ts, hps, h₃⟩ => hrest (.some hps) h₃

theorem View.Took.last_cons {t : Token} (h : v.Took (t :: ts) v') :
    v'.last = endSpan t.span ts := by
  rw [h.last]
  exact View.endSpan_append _ [t] ts

theorem sound_typedItem (b : Nat) (v : View)
    (htype : v.token.kind = .kwInt ∨ v.token.kind = .kwVoid) :
    Ends (typedItem b v.token) v (fun i v' => ∃ ts, IsItem ts i ∧ v.Took ts v')
      (Fails v.errors (Room v 2 b)) := by
  rw [typedItem]
  have hne : v.token.kind ≠ .eof ∧ v.token.kind ≠ .invalid :=
    by rcases htype with h | h <;> simp [h]
  refine Ends.take hne.1 hne.2 fun v₁ h₁ => ?_
  refine Ends.ident (fun hname v₂ h₂ => ?_) fun _ => .complain h₁
  have h₁₂ := h₁.trans h₂
  have hlen₂ := h₁₂.length
  refine Ends.at_ (fun hlp => sound_func b htype hname hlp h₁₂) fun _ => ?_
  rw [if_neg Bool.false_ne_true]
  split
  · exact Ends.complain (Ends.failure (.complain h₁₂))
  · rename_i hvoid
    refine Sound.bind (sound_declRest b false hname v₂) h₁₂ (fun h => by
      simp [Room] at hlen₂ h; omega)
      fun d v₃ ⟨ts, semi, hconst, hds, hsemi, h₃⟩ => ?_
    obtain ⟨isConst, ds⟩ := d
    obtain rfl : isConst = false := hconst
    have h₁₃ : v.Took (v.token :: (v₁.token :: ts ++ [semi])) v₃ := by simpa using h₁₂.trans h₃
    refine Ends.lastSpan (Ends.pure ⟨_, ?_, h₁₃⟩)
    rw [h₁₃.last_cons]
    exact .decl (.var (htype.resolve_right hvoid) hds hsemi)

theorem sound_item (b : Nat) (v : View) : Sound (item b) v (Room v 2 b) fun i v' =>
    ∃ ts, IsItem ts i ∧ v.Took ts v' := by
  rw [item_eq]
  refine Ends.peek ?_
  split
  · refine Sound.bind (sound_decl b v) (.refl v) (fun h => h.2) fun d v₁ ⟨ts, hd, h₁⟩ => ?_
    refine Ends.lastSpan (Ends.pure ⟨_, ?_, h₁⟩)
    rw [h₁.last_cons]
    exact .decl hd
  · rename_i hint
    exact sound_typedItem b v (.inl hint)
  · rename_i hvoid
    exact sound_typedItem b v (.inr hvoid)
  · exact Ends.complain (Ends.failure (.complain (.refl v)))

theorem IsItem_length_pos {i : Item} (h : IsItem ts i) : 0 < ts.length := by
  cases h <;> simp

theorem sound_items (b : Nat) :
    ∀ v, Ends (items b) v (fun is v' => v.errors ≤ v'.errors ∧ (Room v 3 b →
    v.errors < v'.errors ∨ ∃ ts, IsItems ts is ∧ v.Took ts v' ∧ v'.token.kind = .eof)) fun _ =>
      False := by
  induction b with
  | zero =>
    intro v
    rw [items]
    refine Ends.pure ⟨le_rfl, ?_⟩
    rintro ⟨-, h⟩
    omega
  | succ b ih =>
    intro v
    rw [items]
    refine Ends.at_ (fun heof =>
      Ends.pure ⟨le_rfl, fun _ => .inr ⟨[], .nil, .refl v, heof⟩⟩) fun _ => ?_
    rw [if_neg Bool.false_ne_true]
    refine Ends.get fun c hc => ?_
    split
    · rename_i henough
      refine Ends.pure ⟨le_rfl, ?_⟩
      rintro ⟨hlimit, -⟩
      have hlimit : c.limit = 0 := (congrArg View.limit hc).trans hlimit
      simp [Cursor.enough, hlimit] at henough
    -- behind an item that is left out
    have hskipped {v₁ : View} (hle : v.errors ≤ v₁.errors) (hlt : Room v 3 (b + 1) →
      v.errors < v₁.errors) :
        Ends (items b) v₁ (fun is v' => v.errors ≤ v'.errors ∧ (Room v 3 (b + 1) →
          v.errors < v'.errors ∨ ∃ ts, IsItems ts is ∧ v.Took ts v' ∧ v'.token.kind = .eof))
            fun _ => False := by
      refine (ih v₁).mono (fun is v' h => ?_) fun _ h => h
      exact ⟨hle.trans h.1, fun hroom => .inl ((hlt hroom).trans_le h.1)⟩
    refine Ends.attempt (sound_item b v) (fun i v₁ ⟨ts, hi, h₁⟩ => ?_) fun v₁ h₁ => ?_
    · refine Ends.bind (ih v₁) fun is v₂ ⟨hle, hroom⟩ => ?_
      have herrors := h₁.errors
      refine Ends.pure ⟨by omega, fun hr => ?_⟩
      -- the bound is spent by one for each item, and an item has a token
      have hpos := IsItem_length_pos hi
      rcases hroom (Room.behind h₁ (by omega) hr) with hlt | ⟨ts', his, h₂, heof⟩
      · exact .inl (by omega)
      · exact .inr ⟨_, .cons hi his, h₁.trans h₂, heof⟩
    · have hlt : Room v 3 (b + 1) → v.errors < v₁.errors :=
        fun hr => h₁.2 (Room.behind (.refl v) (by simp; omega) hr)
      refine Ends.bind (ends_skipUntil _ v₁) fun _ v₂ h₂ => ?_
      rw [← h₂] at hlt
      have hle : v.errors ≤ v₂.errors := h₂ ▸ h₁.1
      refine Ends.atAny (fun _ => ?_) fun _ => ?_
      · rw [if_pos rfl]
        exact Ends.advance (hskipped (hle.trans_eq View.errors_advance.symm) fun hr =>
          (hlt hr).trans_eq View.errors_advance.symm)
      · rw [if_neg Bool.false_ne_true]
        exact hskipped hle hlt

end Sysy.Parser
