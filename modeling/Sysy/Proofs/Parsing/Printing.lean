import Sysy.Proofs.Parsing.Reports
import Sysy.Proofs.Token.Phrases
import Sysy.Tree.Outline

/-!
What is printed of an expression is read back. The text of an expression has all its parentheses, so
it is a number, a name with indices or arguments, or something in parentheses, and stands for the
same tree wherever it is put. Only a letter or a digit behind it would be taken for a part of it.
-/

namespace Sysy

namespace Expr

mutual

def bare : Expr → Expr
  | .lit _ v => .lit {} v
  | .lval _ name es => .lval {} name (bares es)
  | .unary _ op e => .unary {} op e.bare
  | .binary _ op l r => .binary {} op l.bare r.bare
  | .call _ name es => .call {} name (bares es)

def bares : List Expr → List Expr
  | [] => []
  | e :: es => e.bare :: bares es

end

mutual

def literals : Expr → List Word
  | .lit _ v => [v]
  | .lval _ _ es | .call _ _ es => literalsOf es
  | .unary _ _ e => e.literals
  | .binary _ _ l r => l.literals ++ r.literals

def literalsOf : List Expr → List Word
  | [] => []
  | e :: es => e.literals ++ literalsOf es

end

mutual

def parts : Expr → List Expr
  | .lit s v => [.lit s v]
  | .lval s name es => .lval s name es :: partsOf es
  | .unary s op e => .unary s op e :: e.parts
  | .binary s op l r => .binary s op l r :: (l.parts ++ r.parts)
  | .call s name es => .call s name es :: partsOf es

def partsOf : List Expr → List Expr
  | [] => []
  | e :: es => e.parts ++ partsOf es

end

theorem mem_parts_self (e : Expr) : e ∈ e.parts := by
  cases e <;> exact List.mem_cons_self ..

end Expr

namespace Grammar

theorem IsPrimary.isLevel {k : Nat} {ts : List Token} {e : Expr} (h : IsPrimary ts e) (hk : k ≤ 7) :
    IsLevel k ts e :=
  (IsLevel.unary (.primary h)).of_le hk

end Grammar

namespace Parser
open Token Grammar

/-! Operators. -/

theorem lexes_unaryOp (op : UnaryOp) :
    Lexes (fun rest => rest.head? ≠ some 61) (Bytes.ofString op.symbol) fun ts =>
    ∃ t, ts = [t] ∧ unaryOp? t.kind = some op := by
  have hlexes (b : UInt8) (kind : Kind) (hkind : unaryOp? kind = some op)
    (hblank : isBlank b = false) (hslash : b ≠ 47)
      (hlexeme : ∀ rest : Bytes, rest.head? ≠ some 61 → lexeme b rest = (kind, [b])) :
      Lexes (fun rest => rest.head? ≠ some 61) [b] fun ts =>
        ∃ t, ts = [t] ∧ unaryOp? t.kind = some op := by
    refine (Lexes.token (r :=
      []) (ne_of_unaryOp? hkind) hblank (fun _ _ h => hslash h.1) hlexeme).mono (fun _ h => h) ?_
    rintro _ ⟨t, rfl, ht, -⟩
    exact ⟨t, rfl, ht ▸ hkind⟩
  cases op with
  | plus => exact hlexes 43 .plus rfl rfl (by decide) fun _ _ => rfl
  | minus => exact hlexes 45 .minus rfl rfl (by decide) fun _ _ => rfl
  | not =>
    have hbang (rest : Bytes) (hrest : rest.head? ≠ some 61) : lexeme 33 rest = (.bang, [33]) := by
      have hpunct : punct 33 rest.head? = (.bang, 1) := by
        rw [punct]
        exact hrest
      rw [lexeme, if_neg (by decide), if_neg (by decide), hpunct]
      rfl
    exact hlexes 33 .bang rfl rfl (by decide) hbang

theorem lexes_binaryOp (op : BinaryOp) :
    Lexes (fun rest => rest.head? = some 32) (Bytes.ofString op.symbol) fun ts =>
    ∃ t p, ts = [t] ∧ binaryOp? t.kind = some (p, op) := by
  have hlexes (b : UInt8) (r : Bytes) (kind : Kind) {p : Nat}
    (hkind : binaryOp? kind = some (p, op))
      (hblank : isBlank b = false) (hr : r = [] ∨ b ≠ 47)
        (hlexeme : ∀ rest : Bytes, lexeme b (r ++ 32 :: rest) = (kind, b :: r)) :
      Lexes (fun rest => rest.head? = some 32) (b :: r) fun ts =>
        ∃ t p, ts = [t] ∧ binaryOp? t.kind = some (p, op) := by
    refine (Lexes.token (ne_of_binaryOp? hkind) hblank (fun rest hrest h => ?_) fun rest hrest =>
      ?_).mono (fun _ h => h) ?_
    · rcases hr with rfl | hb
      · rw [List.nil_append, hrest] at h
        exact absurd h.2 (by decide)
      · exact hb h.1
    · obtain ⟨rest, rfl⟩ := List.head?_eq_some_iff.mp hrest
      exact hlexeme rest
    · rintro _ ⟨t, rfl, ht, -⟩
      exact ⟨t, p, rfl, ht ▸ hkind⟩
  cases op with
  | add => exact hlexes 43 [] .plus rfl rfl (.inl rfl) fun _ => rfl
  | sub => exact hlexes 45 [] .minus rfl rfl (.inl rfl) fun _ => rfl
  | mul => exact hlexes 42 [] .star rfl rfl (.inl rfl) fun _ => rfl
  | div => exact hlexes 47 [] .slash rfl rfl (.inl rfl) fun _ => rfl
  | mod => exact hlexes 37 [] .percent rfl rfl (.inl rfl) fun _ => rfl
  | lt => exact hlexes 60 [] .lt rfl rfl (.inl rfl) fun _ => rfl
  | gt => exact hlexes 62 [] .gt rfl rfl (.inl rfl) fun _ => rfl
  | le => exact hlexes 60 [61] .ltEq rfl rfl (.inr (by decide)) fun _ => rfl
  | ge => exact hlexes 62 [61] .gtEq rfl rfl (.inr (by decide)) fun _ => rfl
  | eq => exact hlexes 61 [61] .eqEq rfl rfl (.inr (by decide)) fun _ => rfl
  | ne => exact hlexes 33 [61] .bangEq rfl rfl (.inr (by decide)) fun _ => rfl
  | and => exact hlexes 38 [38] .andAnd rfl rfl (.inr (by decide)) fun _ => rfl
  | or => exact hlexes 124 [124] .orOr rfl rfl (.inr (by decide)) fun _ => rfl

/-! Parts of expressions. -/

structure Prints (e : Expr) : Prop where
  first : ∃ b r, Bytes.ofString e.text = b :: r ∧ b ≠ 61
  reads : Lexes EndsWord (Bytes.ofString e.text) fun ts => ∃ e', IsPrimary ts e' ∧ e'.bare = e.bare

theorem prints_paren {e : Expr} {s : Bytes} (htext : Bytes.ofString e.text = 40 :: (s ++ [41]))
    (h : Lexes EndsWord s fun ts => ∃ e', IsExpr ts e' ∧ e'.bare = e.bare) : Prints e := by
  refine ⟨⟨40, _, htext, by decide⟩, ?_⟩
  rw [htext]
  refine h.parens.mono (fun _ _ => trivial) ?_
  rintro _ ⟨lp, ts, rp, rfl, hlp, ⟨e', he', hbare⟩, hrp⟩
  exact ⟨e', .paren hlp he' hrp, hbare⟩

theorem prints_lit {s : Span} {v : Sysy.Word} (hv : 0 ≤ v.toInt) : Prints (.lit s v) := by
  obtain ⟨n, hn⟩ := Int.eq_ofNat_of_zero_le hv
  have hvalue : BitVec.ofNat 32 n = v := by
    rw [← BitVec.ofInt_natCast, ← hn, BitVec.ofInt_toInt]
  have hsmall : n < 2 ^ 32 := by
    have hlt := v.toInt_lt
    omega
  have htext : (Expr.lit s v).text = toString n := by
    rw [Expr.text, hn]
    rfl
  obtain ⟨b, r, hdigits, hb, hr, hinteger, hread⟩ := decimal n
  rw [← htext] at hdigits
  obtain ⟨-, -, hne, -, -⟩ := ne_of_isWordByte (b := b) (by rw [isWordByte, hb, Bool.or_true])
  refine ⟨⟨b, r, hdigits, hne⟩, ?_⟩
  rw [hdigits]
  refine (Lexes.number hb hr hinteger).mono (fun _ h => h) ?_
  rintro _ ⟨t, rfl, ht, hdigits⟩
  exact ⟨_, .lit ht (hdigits ▸ hread) hsmall, by rw [Expr.bare, Expr.bare, hvalue]⟩

theorem prints_unary {s : Span} {op : UnaryOp} {e : Expr} (he : Prints e) :
    Prints (.unary s op e) := by
  obtain ⟨b, r, hfirst, hne⟩ := he.first
  have htext : Bytes.ofString (Expr.unary s op e).text =
    40 :: ((Bytes.ofString op.symbol ++ Bytes.ofString e.text) ++ [41]) := by
    rw [Expr.text]
    simp only [Bytes.ofString_append, List.append_assoc]
    rfl
  refine prints_paren htext (((lexes_unaryOp op).append he.reads fun rest _ => ?_).mono
    (fun _ h => h) ?_)
  · rw [hfirst]
    exact fun heq => hne (Option.some.inj heq)
  · rintro _ ⟨_, ts, rfl, ⟨t, rfl, ht⟩, e', he', hbare⟩
    exact ⟨_, (IsLevel.unary (.op ht (.primary he'))).of_le (by decide), by
      rw [Expr.bare, Expr.bare, hbare]⟩

theorem prints_binary {s : Span} {op : BinaryOp} {l r : Expr} (hl : Prints l) (hr : Prints r) :
    Prints (.binary s op l r) := by
  have htext : Bytes.ofString (Expr.binary s op l r).text =
      40 :: ((Bytes.ofString l.text ++
        ([32] ++ (Bytes.ofString op.symbol ++ ([32] ++ Bytes.ofString r.text)))) ++ [41]) := by
    rw [Expr.text]
    simp only [Bytes.ofString_append, List.append_assoc]
    rfl
  have hright := Lexes.blank.append hr.reads fun _ _ => trivial
  have hop := (lexes_binaryOp op).append hright fun _ _ => rfl
  have hinner := hl.reads.append (Lexes.blank.append hop fun _ _ => trivial) fun _ _ =>
    endsWord_cons rfl
  refine prints_paren htext (hinner.mono (fun _ h => h) ?_)
  rintro _ ⟨ts, _, rfl, ⟨l', hl', hbare⟩, _, _, rfl, rfl, _, _, rfl, ⟨t, p, rfl, ht⟩, _, ts', rfl,
    rfl, r', hr', hbare'⟩
  obtain ⟨hlow, hhigh⟩ := tightness_of_binaryOp? ht
  have hlevel := IsLevel.binary (hl'.isLevel (by omega)) ht (hr'.isLevel (by omega))
  exact ⟨_, hlevel.of_le hlow, by rw [Expr.bare, Expr.bare, hbare, hbare']⟩

/-! Names with indices or arguments. -/

def PrintsIndices (es : List Expr) : Prop :=
  Lexes Any (Bytes.ofString (Expr.indexText es)) fun ts => ∃ es', IsIndices ts es' ∧
    Expr.bares es' = Expr.bares es

def PrintsArgs (R : List Token → List Expr → Prop) (es : List Expr) : Prop :=
  Lexes EndsWord (Bytes.ofString (Expr.argText es)) fun ts =>
    ∃ es', R ts es' ∧ Expr.bares es' = Expr.bares es

theorem first_of_isName {text rest : Bytes} (h : IsName text) : ∃ b r, text ++ rest = b :: r ∧
    b ≠ 61 := by
  have hwords := h.words
  obtain ⟨b, r, rfl, -⟩ := h
  exact ⟨b, r ++ rest, rfl, (ne_of_isWordByte (hwords b (List.mem_cons_self ..))).2.2.1⟩

theorem prints_lval {s : Span} {text : Bytes} {es : List Expr} (hname : IsName text)
    (hes : PrintsIndices es) :
    Prints (.lval s (Bytes.toAscii text) es) := by
  have htext : Bytes.ofString (Expr.lval s (Bytes.toAscii text) es).text = text ++ Bytes.ofString
    (Expr.indexText es) := by
    rw [Expr.text, Bytes.ofString_append, hname.ascii]
  have hends (rest : Bytes) (hrest : EndsWord rest) :
    EndsWord (Bytes.ofString (Expr.indexText es) ++ rest) := by
    cases es with
    | nil => exact hrest
    | cons e es =>
      rw [Expr.indexText]
      simp only [Bytes.ofString_append, List.append_assoc]
      exact endsWord_cons rfl
  refine ⟨htext ▸ first_of_isName hname, ?_⟩
  rw [htext]
  have hindices : Lexes EndsWord _ _ := hes.mono (fun _ _ => trivial) fun _ h => h
  refine ((Lexes.name hname).append hindices hends).mono (fun _ h => h) ?_
  rintro _ ⟨_, ts, rfl, ⟨t, rfl, ht, rfl⟩, es', hes', hbare⟩
  exact ⟨_, .lval ht hes', by rw [Expr.bare, Expr.bare, hbare]⟩

theorem prints_call {s : Span} {text : Bytes} {es : List Expr} (hname : IsName text)
    (hes : PrintsArgs IsArgs es) :
    Prints (.call s (Bytes.toAscii text) es) := by
  have htext : Bytes.ofString (Expr.call s (Bytes.toAscii text) es).text =
      text ++ 40 :: (Bytes.ofString (Expr.argText es) ++ [41]) := by
    rw [Expr.text]
    simp only [Bytes.ofString_append, List.append_assoc, hname.ascii]
    rfl
  refine ⟨htext ▸ first_of_isName hname, ?_⟩
  rw [htext]
  refine ((Lexes.name hname).append hes.parens fun _ _ => endsWord_cons rfl).mono
    (fun _ _ => trivial) ?_
  rintro _ ⟨_, _, rfl, ⟨t, rfl, ht, rfl⟩, lp, ts, rp, rfl, hlp, ⟨es', hes', hbare⟩, hrp⟩
  exact ⟨_, .call ht hlp hes' hrp, by rw [Expr.bare, Expr.bare, hbare]⟩

theorem printsIndices_cons {e : Expr} {es : List Expr} (he : Prints e) (hes : PrintsIndices es) :
    PrintsIndices (e :: es) := by
  have htext : Bytes.ofString (Expr.indexText (e :: es)) =
      91 :: (Bytes.ofString e.text ++ [93]) ++ Bytes.ofString (Expr.indexText es) := by
    rw [Expr.indexText]
    simp only [Bytes.ofString_append, List.append_assoc, List.cons_append]
    rfl
  unfold PrintsIndices
  rw [htext]
  refine (he.reads.brackets.append hes fun _ _ => trivial).mono (fun _ h => h) ?_
  rintro _ ⟨_, ts', rfl, ⟨lb, ts, rb, rfl, hlb, ⟨e', he', hbare⟩, hrb⟩, es', hes', hbares⟩
  refine ⟨e' :: es', ?_, by rw [Expr.bares, Expr.bares, hbare, hbares]⟩
  simpa using IsIndices.cons hlb (he'.isLevel (by decide)) hrb hes'

theorem printsExprs_one {e : Expr} (he : Prints e) : PrintsArgs IsExprs [e] := by
  refine he.reads.mono (fun _ h => h) ?_
  rintro ts ⟨e', he', hbare⟩
  exact ⟨[e'], .one (he'.isLevel (by decide)), by rw [Expr.bares, Expr.bares, hbare]; rfl⟩

theorem printsExprs_cons {e : Expr} {es : List Expr} (he : Prints e) (hne : es ≠ [])
    (hes : PrintsArgs IsExprs es) :
    PrintsArgs IsExprs (e :: es) := by
  have htext : Bytes.ofString (Expr.argText (e :: es)) =
      Bytes.ofString e.text ++ ([44] ++ ([32] ++ Bytes.ofString (Expr.argText es))) := by
    rw [Expr.argText]
    · simp only [Bytes.ofString_append, List.append_assoc]
      rfl
    · exact hne
  unfold PrintsArgs
  rw [htext]
  have hcomma : Lexes Any [44] fun ts => ∃ t, ts = [t] ∧ t.kind = .comma :=
    .mark (fun _ => rfl) (by decide) (by decide)
  have hrest := hcomma.append (Lexes.blank.append hes fun _ _ => trivial) fun _ _ => trivial
  refine (he.reads.append hrest fun _ _ => endsWord_cons rfl).mono (fun _ h => h) ?_
  rintro _ ⟨ts, _, rfl, ⟨e', he', hbare⟩, _, _, rfl, ⟨t, rfl, ht⟩, _, ts', rfl, rfl, es',
    hes', hbares⟩
  exact ⟨e' :: es', .cons (he'.isLevel (by decide)) ht hes', by
    rw [Expr.bares, Expr.bares, hbare, hbares]⟩

/-! All expressions. -/

def AreNames (ts : List Token) : Prop := ∀ t ∈ ts, t.kind = .ident → IsName t.text

namespace AreNames
variable {t : Token} {ts ts' : List Token}

theorem head (h : AreNames (t :: ts)) (ht : t.kind = .ident) : IsName t.text :=
  h t (List.mem_cons_self ..) ht

theorem tail (h : AreNames (t :: ts)) : AreNames ts := (List.forall_mem_cons.mp h).2

theorem left (h : AreNames (ts ++ ts')) : AreNames ts := (List.forall_mem_append.mp h).1

theorem right (h : AreNames (ts ++ ts')) : AreNames ts' := (List.forall_mem_append.mp h).2

end AreNames

def Unsigned (vs : List Sysy.Word) : Prop := ∀ v ∈ vs, 0 ≤ v.toInt

theorem unsigned_append {vs vs' : List Sysy.Word} : Unsigned (vs ++ vs') ↔ Unsigned vs ∧
    Unsigned vs' := List.forall_mem_append

mutual

theorem prints_primary :
    ∀ {ts : List Token} {e : Expr}, IsPrimary ts e → AreNames ts → Unsigned e.literals → Prints e
  | _, _, .lit .., _, hv => prints_lit (hv _ (List.mem_singleton_self _))
  | _, _, .lval ht hes, hn, hv => prints_lval (hn.head ht) (prints_indices hes hn.tail hv)
  | _, _, .call ht _ hes _, hn, hv =>
    prints_call (hn.head ht) (prints_args hes hn.tail.tail.left hv)
  | _, _, .paren _ he _, hn, hv => prints_level he hn.tail.left hv

theorem prints_unaries :
    ∀ {ts : List Token} {e : Expr}, IsUnary ts e → AreNames ts → Unsigned e.literals → Prints e
  | _, _, .op _ he, hn, hv => prints_unary (prints_unaries he hn.tail hv)
  | _, _, .primary he, hn, hv => prints_primary he hn hv

theorem prints_level :
    ∀ {k : Nat} {ts : List Token} {e : Expr}, IsLevel k ts e → AreNames ts →
    Unsigned e.literals → Prints e
  | _, _, _, .unary he, hn, hv => prints_unaries he hn hv
  | _, _, _, .up he, hn, hv => prints_level he hn hv
  | _, _, _, .binary hl _ hr, hn, hv =>
    prints_binary (prints_level hl hn.left (unsigned_append.mp hv).1) (prints_level hr hn.right.tail
      (unsigned_append.mp hv).2)

theorem prints_args :
    ∀ {ts : List Token} {es : List Expr}, IsArgs ts es → AreNames ts →
    Unsigned (Expr.literalsOf es) → PrintsArgs IsArgs es
  | _, _, .nil, _, _ => Lexes.nil.mono (fun _ h => h) fun _ h => ⟨[], h ▸ .nil, rfl⟩
  | _, _, .some hes, hn, hv =>
    (prints_exprs hes hn hv).mono (fun _ h => h) fun _ ⟨es', hes', hbares⟩ =>
      ⟨es', .some hes', hbares⟩

theorem prints_exprs :
    ∀ {ts : List Token} {es : List Expr}, IsExprs ts es → AreNames ts →
    Unsigned (Expr.literalsOf es) → PrintsArgs IsExprs es
  | _, _, .one he, hn, hv => printsExprs_one (prints_level he hn (unsigned_append.mp hv).1)
  | _, _, .cons he _ hes, hn, hv =>
    printsExprs_cons (prints_level he hn.left (unsigned_append.mp hv).1) (by rintro rfl; cases hes)
      (prints_exprs hes hn.right.tail (unsigned_append.mp hv).2)

theorem prints_indices : ∀ {ts : List Token} {es : List Expr}, IsIndices ts es → AreNames ts →
    Unsigned (Expr.literalsOf es) → PrintsIndices es
  | _, _, .nil, _, _ => Lexes.nil.mono (fun _ h => h) fun _ h => ⟨[], h ▸ .nil, rfl⟩
  | _, _, .cons _ he _ hes, hn, hv =>
    printsIndices_cons (prints_level he hn.tail.left (unsigned_append.mp hv).1)
      (prints_indices hes hn.tail.right.tail (unsigned_append.mp hv).2)

end

/-! Parts of what is read. -/

def Readable (e : Expr) : Prop := ∃ k ts, IsLevel k ts e ∧ AreNames ts

mutual

theorem readable_primary :
    ∀ {ts : List Token} {e : Expr}, IsPrimary ts e → AreNames ts → ∀ p ∈ e.parts, Readable p
  | _, _, .lit ht hread hsmall, hn =>
    List.forall_mem_singleton.mpr ⟨1, _, (IsPrimary.lit ht hread hsmall).isExpr, hn⟩
  | _, _, .lval ht hes, hn =>
    List.forall_mem_cons.mpr ⟨⟨1, _, (IsPrimary.lval ht hes).isExpr, hn⟩,
      readable_indices hes hn.tail⟩
  | _, _, .call ht hlp hes hrp, hn =>
    List.forall_mem_cons.mpr ⟨⟨1, _, (IsPrimary.call ht hlp hes hrp).isExpr, hn⟩,
      readable_args hes hn.tail.tail.left⟩
  | _, _, .paren _ he _, hn => readable_level he hn.tail.left

theorem readable_unary :
    ∀ {ts : List Token} {e : Expr}, IsUnary ts e → AreNames ts → ∀ p ∈ e.parts, Readable p
  | _, _, .op ht he, hn =>
    List.forall_mem_cons.mpr ⟨⟨7, _, .unary (.op ht he), hn⟩, readable_unary he hn.tail⟩
  | _, _, .primary he, hn => readable_primary he hn

theorem readable_level :
    ∀ {k : Nat} {ts : List Token} {e : Expr}, IsLevel k ts e → AreNames ts →
    ∀ p ∈ e.parts, Readable p
  | _, _, _, .unary he, hn => readable_unary he hn
  | _, _, _, .up he, hn => readable_level he hn
  | k, _, _, .binary hl ht hr, hn => List.forall_mem_cons.mpr ⟨⟨k, _, .binary hl ht hr, hn⟩,
      List.forall_mem_append.mpr ⟨readable_level hl hn.left, readable_level hr hn.right.tail⟩⟩

theorem readable_args :
    ∀ {ts : List Token} {es : List Expr}, IsArgs ts es → AreNames ts →
    ∀ p ∈ Expr.partsOf es, Readable p
  | _, _, .nil, _ => List.forall_mem_nil _
  | _, _, .some hes, hn => readable_exprs hes hn

theorem readable_exprs :
    ∀ {ts : List Token} {es : List Expr}, IsExprs ts es → AreNames ts →
    ∀ p ∈ Expr.partsOf es, Readable p
  | _, _, .one he, hn => List.forall_mem_append.mpr ⟨readable_level he hn, List.forall_mem_nil _⟩
  | _, _, .cons he _ hes, hn =>
    List.forall_mem_append.mpr ⟨readable_level he hn.left, readable_exprs hes hn.right.tail⟩

theorem readable_indices : ∀ {ts : List Token} {es : List Expr}, IsIndices ts es → AreNames ts →
    ∀ p ∈ Expr.partsOf es, Readable p
  | _, _, .nil, _ => List.forall_mem_nil _
  | _, _, .cons _ he _ hes, hn =>
    List.forall_mem_append.mpr ⟨readable_level he hn.tail.left,
      readable_indices hes hn.tail.right.tail⟩

end

/-! Texts of their own. -/

/-- The text of an expression has tokens that stand for it, and its end behind them. -/
theorem Prints.lexemes {e : Expr} (h : Prints e) (file : Nat) : ∃ ts e' stop,
    lexemes file (Bytes.ofString e.text) = (ts ++ [stop]).map (⟨[], ·⟩) ∧ stop.kind = .eof ∧
    IsExpr ts e' ∧ e'.bare = e.bare := by
  obtain ⟨ts, ⟨e', he', hbare⟩, hscan⟩ := h.reads file 0 [] nofun
  rw [List.append_nil] at hscan
  refine ⟨ts, e', endOf file (0 + (Bytes.ofString e.text).length), ?_, rfl, he'.isExpr, hbare⟩
  rw [Sysy.lexemes, hscan, List.map_append]
  rfl

/-- Tokens without problems that stand for an expression are read up to the end behind them. -/
theorem expr_of_isExpr {ts : List Token} {last : Token} {e : Expr} (he : IsExpr ts e)
    (hlast : last.kind = .eof) (file limit : Nat) {b : Nat} (hb : depthBound (ts.length + 1) ≤ b) :
    ∃ c',
    (expr b).run.run (start file limit ((ts ++ [last]).map (⟨[], ·⟩))) = (some e, c') ∧
      c'.errors = 0 ∧ c'.reported.toList = [] ∧ c'.token = last := by
  generalize hls : (ts ++ [last]).map (fun t => (⟨[], t⟩ : Lexeme)) = ls
  have hproblems : ∀ l ∈ ls, l.problems = [] := hls ▸ List.forall_mem_map.mpr fun _ _ => rfl
  have htokens : (start file limit ls).view.tokens = ts ++ [last] := by
    rw [← hls]
    simp [Cursor.view, start, Function.comp_def]
  have hbound : 10 * (start file limit ls).view.tokens.length + 4 ≤ b := by
    rw [htokens]
    unfold depthBound at hb
    simp only [List.length_append, List.length_singleton]
    omega
  have haccept := exprAccepted he htokens (.of_kind hlast (by decide)) hbound _ rfl
  have hlocated : Located ls := fun l hl d hd => by rw [hproblems l hl] at hd; cases hd
  have hheard := (Built.exprs_all b).expr.heard hlocated (heard_start file limit ls)
  generalize (expr b).run.run (start file limit ls) = x at haccept hheard
  obtain ⟨_ | e', c'⟩ := x
  case none => exact haccept.elim
  case some =>
    obtain ⟨rfl, htook⟩ := haccept
    have herrors : c'.errors = 0 := htook.errors
    refine ⟨c', rfl, herrors, List.eq_nil_iff_forall_not_mem.mpr fun d hd => ?_, ?_⟩
    · rcases (hheard.sources d hd).2 with hpos | ⟨l, hl, hd⟩
      · exact absurd herrors (Nat.ne_of_gt hpos)
      · rw [hproblems l hl] at hd
        cases hd
    · rw [← Cursor.token_view, View.token_eq (htook.rest htokens)]

/-- Each part of an expression that the parser has read somewhere in a file, if no number in it is
negative, is printed as a text that is read back: lexer and parser find nothing wrong with it, the
end of the text is reached, and the tree is the same but for its spans. -/
theorem text_reads_back {file b : Nat} {content : Bytes} {c c' : Cursor} {e p : Expr}
    (hc : c.ahead <:+ lexemes file content) (hread : (expr b).run.run c = (some e, c'))
    (hp : p ∈ e.parts) (hv : ∀ v ∈ p.literals, 0 ≤ v.toInt) (file' limit' : Nat) :
    (∀ l ∈ lexemes file' (Bytes.ofString p.text), l.problems = []) ∧
    ∀ b', depthBound (lexemes file' (Bytes.ofString p.text)).length ≤ b' → ∃ p' c₁,
      (expr b').run.run (start file' limit' (lexemes file' (Bytes.ofString p.text))) =
        (some p', c₁) ∧
      p'.bare = p.bare ∧ c₁.errors = 0 ∧ c₁.reported.toList = [] ∧ c₁.token.kind = .eof := by
  have hsound := (soundExprs b).expr c.view c rfl
  rw [hread] at hsound
  obtain ⟨ts, he, htook⟩ := hsound
  have hnames : AreNames ts := by
    intro t ht hident
    have hview : t ∈ c.view.tokens := htook.tokens ▸ List.mem_append_left _ ht
    obtain ⟨l, hl, rfl⟩ := List.mem_map.mp hview
    exact isName_of_mem (hc.subset hl) hident
  obtain ⟨k, ts, hlevel, hnames⟩ := readable_level he hnames p hp
  obtain ⟨ts', p', last, hlexemes, hlast, hexpr, hbare⟩ :=
    (prints_level hlevel hnames hv).lexemes file'
  rw [hlexemes]
  refine ⟨List.forall_mem_map.mpr fun _ _ => rfl, fun b' hb' => ?_⟩
  obtain ⟨c₁, hrun, herrors, hreported, htoken⟩ :=
    expr_of_isExpr hexpr hlast file' limit' (by simpa using hb')
  exact ⟨p', c₁, hrun, hbare, herrors, hreported, htoken ▸ hlast⟩

def exprSample : Bytes := Bytes.ofString "a[0x10] + -f(b, 2)/3 && !c;"

theorem text_reads_back_exprSample :
    ∃ e c', (expr 300).run.run (start 0 0 (lexemes 0 exprSample)) = (some e, c') ∧
    e.text = "((a[16] + ((-f(b, 2)) / 3)) && (!c))" ∧ (∀ v ∈ e.literals, 0 ≤ v.toInt) ∧
    ∃ e' c₁, (expr 300).run.run (start 0 0 (lexemes 0 (Bytes.ofString e.text))) = (some e', c₁) ∧
      e'.bare = e.bare ∧ c₁.errors = 0 ∧ c₁.token.kind = .eof := by
  have htext : ((expr 300).run.run (start 0 0 (lexemes 0 exprSample))).1.map Expr.text =
      some "((a[16] + ((-f(b, 2)) / 3)) && (!c))" := by decide +kernel
  have hunsigned : ((expr 300).run.run (start 0 0 (lexemes 0 exprSample))).1.map
      (fun e => e.literals.all fun v => decide (0 ≤ v.toInt)) = some true := by decide +kernel
  generalize hx : (expr 300).run.run (start 0 0 (lexemes 0 exprSample)) = x at htext hunsigned
  obtain ⟨_ | e, c'⟩ := x
  case none => cases htext
  case some =>
    have htext : e.text = "((a[16] + ((-f(b, 2)) / 3)) && (!c))" := Option.some.inj htext
    have hv : ∀ v ∈ e.literals, 0 ≤ v.toInt := by simpa using hunsigned
    obtain ⟨-, hback⟩ :=
      text_reads_back (c := start 0 0 (lexemes 0 exprSample)) (List.suffix_refl _) hx
      e.mem_parts_self hv 0 0
    have hlength : depthBound (lexemes 0 (Bytes.ofString e.text)).length ≤ 300 := by
      rw [htext]
      decide +kernel
    obtain ⟨e', c₁, hrun, hbare, herrors, -, heof⟩ := hback 300 hlength
    exact ⟨e, c', rfl, htext, hv, e', c₁, hrun, hbare, herrors, heof⟩

end Parser

end Sysy
