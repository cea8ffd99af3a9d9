import Sysy.Proofs.Token.Tiling
import Sysy.Text.Integer

/-!
Texts that are cut into the same tokens wherever they stand. A token is as long as it can be, so
what follows a text matters: `Lexes K s R` says that `R` holds for the tokens of `s` if `K` holds
for the text behind it. Such texts can be put one behind the other.
-/

namespace Sysy

/-! Bytes of texts. -/

namespace Bytes

@[simp] theorem ofString_append (s t : String) : ofString (s ++ t) = ofString s ++ ofString t := by
  simp [ofString]

theorem ofString_ofList (cs : List Char) :
    ofString (String.ofList cs) = cs.flatMap String.utf8EncodeChar := by
  simp [ofString, List.utf8Encode]

theorem ofString_ascii {cs : List Char} (h : ∀ c ∈ cs, c.toNat < 128) :
    ofString (String.ofList cs) = cs.map Char.toUInt8 := by
  rw [ofString_ofList]
  induction cs with
  | nil => rfl
  | cons c cs ih =>
    obtain ⟨hc, hcs⟩ := List.forall_mem_cons.mp h
    have hsize : c.utf8Size = 1 := by
      rw [Char.utf8Size_eq_one_iff, UInt32.le_iff_toNat_le]
      exact Nat.le_of_lt_succ hc
    rw [List.flatMap_cons, ih hcs, String.utf8EncodeChar_eq_singleton hsize]
    rfl

theorem ofString_toAscii {b : Bytes} (h : ∀ x ∈ b, x < 128) : ofString (toAscii b) = b := by
  have hchar : ∀ n : Fin 128, (Char.ofNat n).toNat < 128 ∧ (Char.ofNat n).toUInt8 = UInt8.ofNat n :=
    by decide +kernel
  have hbyte (x : UInt8) (hx : x ∈ b) : (Char.ofNat x.toNat).toNat < 128 ∧
    (Char.ofNat x.toNat).toUInt8 = x := by
    simpa using hchar ⟨x.toNat, UInt8.lt_iff_toNat_lt.mp (h x hx)⟩
  rw [toAscii, ofString_ascii (List.forall_mem_map.mpr fun x hx => (hbyte x hx).1), List.map_map]
  exact (List.map_congr_left fun x hx => (hbyte x hx).2).trans (List.map_id b)

end Bytes

namespace Token

/-- Whatever stands behind the text `s`, if only `K` holds for it: `R` holds for the tokens of `s`,
nothing is wrong with them, and the lexer goes on behind `s`. -/
def Lexes (K : Bytes → Prop) (s : Bytes) (R : List Token → Prop) : Prop :=
  ∀ (file off : Nat) (rest : Bytes), K rest → ∃ ts, R ts ∧
    Lexeme.scanAll file 0 off (s ++ rest) = ts.map (⟨[], ·⟩) ++ Lexeme.scanAll file 0
      (off + s.length) rest

def Any (_ : Bytes) : Prop := True

def EndsWord (rest : Bytes) : Prop := ∀ b ∈ rest.head?, isWordByte b = false

theorem endsWord_cons {b : UInt8} {rest : Bytes} (h : isWordByte b = false) :
    EndsWord (b :: rest) := by
  intro b' hb'
  obtain rfl := Option.some.inj hb'
  exact h

theorem ne_of_isWordByte {b : UInt8} (h : isWordByte b = true) :
    isBlank b = false ∧ b ≠ 47 ∧ b ≠ 61 ∧ b < 128 ∧ (isDigit b = true → isLetter b = false) := by
  have hall : ∀ n : Fin 256, isWordByte (UInt8.ofNat n) = true → isBlank (UInt8.ofNat n) = false ∧
    UInt8.ofNat n ≠ 47 ∧
      UInt8.ofNat n ≠ 61 ∧ UInt8.ofNat n < 128 ∧ (isDigit (UInt8.ofNat n) = true →
        isLetter (UInt8.ofNat n) = false) := by
    decide +kernel
  simpa using hall ⟨b.toNat, b.toNat_lt⟩ (by simpa using h)

def IsName (text : Bytes) : Prop :=
  ∃ b r, text = b :: r ∧ isLetter b = true ∧ (∀ x ∈ r, isWordByte x = true) ∧
  Kind.keyword? (Bytes.toAscii text) = none

theorem IsName.words {text : Bytes} (h : IsName text) : ∀ x ∈ text, isWordByte x = true := by
  obtain ⟨b, r, rfl, hletter, hr, -⟩ := h
  exact List.forall_mem_cons.mpr ⟨by rw [isWordByte, hletter, Bool.true_or], hr⟩

theorem IsName.ascii {text : Bytes} (h : IsName text) :
    Bytes.ofString (Bytes.toAscii text) = text :=
  Bytes.ofString_toAscii fun x hx => (ne_of_isWordByte (h.words x hx)).2.2.2.1

namespace Lexes
variable {K K' : Bytes → Prop} {s s' : Bytes} {R R' : List Token → Prop}

theorem mono (h : Lexes K s R) (hK : ∀ rest, K' rest → K rest) (hR : ∀ ts, R ts → R' ts) :
    Lexes K' s R' := by
  intro file off rest hrest
  obtain ⟨ts, hts, hscan⟩ := h file off rest (hK rest hrest)
  exact ⟨ts, hR ts hts, hscan⟩

theorem nil : Lexes K [] (· = []) := fun _ _ _ _ => ⟨[], rfl, rfl⟩

theorem append (h : Lexes K s R) (h' : Lexes K' s' R') (hK : ∀ rest, K' rest → K (s' ++ rest)) :
    Lexes K' (s ++ s') fun ts => ∃ ts₁ ts₂, ts = ts₁ ++ ts₂ ∧ R ts₁ ∧ R' ts₂ := by
  intro file off rest hrest
  obtain ⟨ts, hts, hscan⟩ := h file off (s' ++ rest) (hK rest hrest)
  obtain ⟨ts', hts', hscan'⟩ := h' file (off + s.length) rest hrest
  refine ⟨ts ++ ts', ⟨ts, ts', rfl, hts, hts'⟩, ?_⟩
  rw [List.append_assoc, hscan, hscan', List.map_append, List.append_assoc, List.length_append,
    Nat.add_assoc]

theorem takeWhile_word {r rest : Bytes} (hr : ∀ x ∈ r, isWordByte x = true)
    (hrest : EndsWord rest) :
    (r ++ rest).takeWhile isWordByte = r := by
  rw [List.takeWhile_append_of_pos hr]
  cases rest with
  | nil => rw [List.takeWhile_nil, List.append_nil]
  | cons b rest => rw [List.takeWhile_cons_of_neg (by simp [hrest b rfl]), List.append_nil]

theorem token {b : UInt8} {r : Bytes} {kind : Kind} (hkind : kind ≠ .eof ∧ kind ≠ .invalid)
    (hblank : isBlank b = false)
    (hslash : ∀ rest, K rest →
      ¬(b = 47 ∧ ((r ++ rest).head? = some 47 ∨ (r ++ rest).head? = some 42)))
    (hlexeme : ∀ rest, K rest → lexeme b (r ++ rest) = (kind, b :: r)) :
    Lexes K (b :: r) fun ts => ∃ t, ts = [t] ∧ t.kind = kind ∧ t.text = b :: r := by
  intro file off rest hrest
  have hstarts : StartsToken (b :: (r ++ rest)) := ⟨hblank, hslash rest hrest⟩
  have hskips : Skips off (b :: (r ++ rest)) [] (b :: (r ++ rest)) := .token hstarts
  have hscan : Lexeme.scan file off (b :: r ++ rest) = ⟨_, _⟩ :=
    scan_token hskips (hlexeme rest hrest)
  refine ⟨[⟨kind, ⟨file, off, off + (b :: r).length⟩, b :: r⟩], ⟨_, rfl, rfl, rfl⟩, ?_⟩
  rw [scanAll_step rfl (List.cons_ne_nil b r) hscan hkind.1 rfl]
  simp [owed, hkind.2, Piece.joined]

theorem lt_stop_scan {file off : Nat} {s : Bytes} (h : (Lexeme.scan file off s).token.kind ≠ .eof) :
    off < (Lexeme.scan file off s).token.span.stop := by
  obtain ⟨gaps, rest, hskips⟩ := exists_skips off s
  cases rest with
  | nil =>
    rw [scan_end hskips] at h
    exact absurd rfl h
  | cons b r =>
    obtain ⟨kind, w, after, -, hlexeme, -⟩ := exists_lexeme b r
    rw [scan_token hskips hlexeme]
    simp only [List.length_cons]
    omega

theorem blank : Lexes Any [32] (· = []) := by
  intro file off rest _
  refine ⟨[], rfl, ?_⟩
  show Lexeme.scanAll file 0 off (32 :: rest) = Lexeme.scanAll file 0 (off + 1) rest
  have hscan : Lexeme.scan file off (32 :: rest) = Lexeme.scan file (off + 1) rest := by
    unfold Lexeme.scan
    rw [skipTrivia_blank_step (by decide)]
  rw [Lexeme.scanAll, hscan]
  cases rest with
  | nil => rfl
  | cons b r =>
    rw [Lexeme.scanAll]
    by_cases heof : (Lexeme.scan file (off + 1) (b :: r)).token.kind = .eof
    · rw [if_pos heof, if_pos heof]
    · have hlt := lt_stop_scan heof
      rw [if_neg heof, if_neg heof]
      generalize (Lexeme.scan file (off + 1) (b :: r)).token.span.stop = stop at hlt
      obtain ⟨n, rfl⟩ : ∃ n, stop = off + 1 + 1 + n := ⟨stop - (off + 1 + 1), by omega⟩
      rw [show off + 1 + 1 + n - off - 1 = n + 1 by
        omega, show off + 1 + 1 + n - (off + 1) - 1 = n by omega, Lexeme.scanAll]

theorem mark {b : UInt8} {kind : Kind} (hpunct : ∀ next, punct b next = (kind, 1))
    (hkind : kind ≠ .eof ∧ kind ≠ .invalid)
    (hb : isBlank b = false ∧ isLetter b = false ∧ isDigit b = false ∧ b ≠ 47) :
    Lexes Any [b] fun ts => ∃ t, ts = [t] ∧ t.kind = kind := by
  obtain ⟨hblank, hletter, hdigit, hslash⟩ := hb
  refine (token hkind hblank (fun _ _ h => hslash h.1) fun rest _ => ?_).mono (fun _ h => h) ?_
  · rw [lexeme, hletter, hdigit, hpunct]
    rfl
  · rintro _ ⟨t, rfl, ht, -⟩
    exact ⟨t, rfl, ht⟩

theorem name {text : Bytes} (h : IsName text) :
    Lexes EndsWord text fun ts => ∃ t, ts = [t] ∧ t.kind = .ident ∧ t.text = text := by
  obtain ⟨b, r, rfl, hletter, hr, hkeyword⟩ := h
  obtain ⟨hblank, hslash, -, -, -⟩ :=
    ne_of_isWordByte (b := b) (by rw [isWordByte, hletter, Bool.true_or])
  refine token (by decide) hblank (fun _ _ h => hslash h.1) fun rest hrest => ?_
  rw [lexeme, if_pos hletter, takeWhile_word hr hrest]
  dsimp only
  rw [hkeyword]
  rfl

theorem number {b : UInt8} {r : Bytes} (hdigit : isDigit b = true)
    (hr : ∀ x ∈ r, isWordByte x = true) (hinteger : isInteger (b :: r) = true) :
    Lexes EndsWord (b :: r) fun ts => ∃ t, ts = [t] ∧ t.kind = .intLit ∧ t.text = b :: r := by
  obtain ⟨hblank, hslash, -, -, hletter⟩ :=
    ne_of_isWordByte (b := b) (by rw [isWordByte, hdigit, Bool.or_true])
  refine token (by decide) hblank (fun _ _ h => hslash h.1) fun rest hrest => ?_
  rw [lexeme, hletter hdigit, if_neg Bool.false_ne_true, if_pos hdigit, takeWhile_word hr hrest]
  dsimp only
  rw [if_pos hinteger]

theorem enclosed {b b' : UInt8} {kind kind' : Kind}
    (hopen : Lexes Any [b] fun ts => ∃ t, ts = [t] ∧ t.kind = kind) (h : Lexes K s R)
    (hclose : Lexes Any [b'] fun ts => ∃ t, ts = [t] ∧ t.kind = kind')
    (hK : ∀ rest, K (b' :: rest)) :
    Lexes Any (b :: (s ++ [b'])) fun ts => ∃ t ts' t', ts = t :: (ts' ++ [t']) ∧ t.kind = kind ∧
    R ts' ∧ t'.kind = kind' := by
  refine (hopen.append (h.append hclose fun rest _ => hK rest) fun _ _ => trivial).mono
    (fun _ h => h) ?_
  rintro _ ⟨_, _, rfl, ⟨t, rfl, ht⟩, ts, _, rfl, hts, t', rfl, ht'⟩
  exact ⟨t, ts, t', rfl, ht, hts, ht'⟩

theorem parens (h : Lexes EndsWord s R) :
    Lexes Any (40 :: (s ++ [41])) fun ts => ∃ t ts' t', ts = t :: (ts' ++ [t']) ∧
    t.kind = .lparen ∧ R ts' ∧ t'.kind = .rparen :=
  enclosed (mark (fun _ => rfl) (by decide) (by decide)) h (mark (fun _ => rfl) (by decide)
    (by decide))
    fun _ => endsWord_cons rfl

theorem brackets (h : Lexes EndsWord s R) :
    Lexes Any (91 :: (s ++ [93])) fun ts => ∃ t ts' t', ts = t :: (ts' ++ [t']) ∧
    t.kind = .lbracket ∧ R ts' ∧ t'.kind = .rbracket :=
  enclosed (mark (fun _ => rfl) (by decide) (by decide)) h (mark (fun _ => rfl) (by decide)
    (by decide))
    fun _ => endsWord_cons rfl

end Lexes

/-! Names and numbers of files. -/

theorem isName_of_lexeme {b : UInt8} {r text : Bytes} (h : lexeme b r = (.ident, text)) :
    IsName text := by
  unfold lexeme at h
  by_cases hletter : isLetter b = true
  · rw [if_pos hletter] at h
    obtain ⟨hkeyword, rfl⟩ := Prod.mk.inj h
    refine ⟨b, _, rfl, hletter, fun x hx => List.all_eq_true.mp List.all_takeWhile x hx,
      Option.eq_none_iff_forall_ne_some.mpr fun k hk => ?_⟩
    have hmem : k ∈ Kind.keywords := List.mem_of_find?_eq_some hk
    rw [hk] at hkeyword
    obtain rfl : k = .ident := hkeyword
    exact absurd hmem (by decide)
  · rw [if_neg hletter] at h
    by_cases hdigit : isDigit b = true
    · rw [if_pos hdigit] at h
      have hkind := (Prod.mk.inj h).1
      split at hkind <;> cases hkind
    · rw [if_neg hdigit] at h
      exact absurd (Prod.mk.inj h).1 (punct_ne (by decide) b r.head?)

theorem exists_lexeme_of_mem {file : Nat} {content : Bytes} {l : Lexeme}
    (hl : l ∈ lexemes file content) (hkind : l.token.kind ≠ .eof) :
    ∃ b r, lexeme b r = (l.token.kind, l.token.text) := by
  obtain ⟨ps, htiles, hscan⟩ := scanAll_tiles file 0 content
  rw [lexemes, hscan, lexed] at hl
  rcases List.mem_append.mp hl with hl | hl
  · obtain ⟨t, ht, rfl⟩ := List.mem_map.mp hl
    obtain ⟨⟨i, p⟩, hq, hp⟩ := List.mem_filterMap.mp ht
    obtain ⟨before, after, -, -, hfits⟩ := htiles.stands hq
    cases p with
    | token kind text =>
      obtain rfl := Option.some.inj hp
      obtain ⟨-, b, r, -, hlexeme⟩ := hfits
      exact ⟨b, _, hlexeme⟩
    | _ => cases hp
  · obtain rfl := List.mem_singleton.mp hl
    exact absurd rfl hkind

theorem isName_of_mem {file : Nat} {content : Bytes} {l : Lexeme} (hl : l ∈ lexemes file content)
    (hident : l.token.kind = .ident) : IsName l.token.text := by
  obtain ⟨b, r, hlexeme⟩ := exists_lexeme_of_mem hl (by rw [hident]; decide)
  exact isName_of_lexeme (hident ▸ hlexeme)

theorem digit_toUInt8 {c : Char} (h : c.isDigit = true) :
    isDigit c.toUInt8 = true ∧ c.toUInt8 ≠ 95 ∧ c.toNat < 128 ∧
    (c.toUInt8 = 48 → c = '0') ∧ Integer.digit? c.toUInt8 = some (c.toNat - '0'.toNat) ∧
    c.toNat - '0'.toNat < 10 := by
  have hall : ∀ n : Fin 58, 48 ≤ n.val → isDigit (Char.ofNat n).toUInt8 = true ∧
    (Char.ofNat n).toUInt8 ≠ 95 ∧
      (Char.ofNat n).toNat < 128 ∧ ((Char.ofNat n).toUInt8 = 48 → Char.ofNat n = '0') ∧
      Integer.digit? (Char.ofNat n).toUInt8 = some ((Char.ofNat n).toNat - '0'.toNat) ∧
      (Char.ofNat n).toNat - '0'.toNat < 10 := by decide +kernel
  have hrange : 48 ≤ c.toNat ∧ c.toNat ≤ 57 := by
    simp only [Char.isDigit, Bool.and_eq_true, decide_eq_true_eq] at h
    exact ⟨UInt32.le_iff_toNat_le.mp h.1, UInt32.le_iff_toNat_le.mp h.2⟩
  simpa using hall ⟨c.toNat, Nat.lt_succ_of_le hrange.2⟩ hrange.1

theorem digits?_map {cs : List Char} (h : ∀ c ∈ cs, c.isDigit = true) (acc : Nat) :
    Integer.digits? 10 acc (cs.map Char.toUInt8) = some (Nat.ofDigitChars 10 cs acc) := by
  induction cs generalizing acc with
  | nil => rfl
  | cons c cs ih =>
    obtain ⟨hc, hcs⟩ := List.forall_mem_cons.mp h
    obtain ⟨-, hne, -, -, hdigit, hlt⟩ := digit_toUInt8 hc
    rw [List.map_cons, Integer.digits?, if_neg hne, hdigit]
    dsimp only
    rw [if_pos hlt, ih hcs, Nat.ofDigitChars_cons]

theorem underscoresFit_of_not_mem {s : Bytes} (h : 95 ∉ s) (after : Bool) :
    Integer.underscoresFit after s = true := by
  induction s generalizing after with
  | nil => rfl
  | cons b s ih =>
    rw [List.mem_cons, not_or] at h
    rw [Integer.underscoresFit]
    · exact ih h.2 true
    · exact fun hb => h.1 hb.symm

/-- Only zero starts with a zero. -/
theorem head_toDigits {n : Nat} (hn : 0 < n) : (Nat.toDigits 10 n).head? ≠ some '0' := by
  induction n using Nat.strongRecOn with
  | ind n ih =>
    rw [Nat.toDigits_eq_if (by decide)]
    split
    · rename_i hlt
      have hall : ∀ d : Fin 10, 0 < d.val → [d.val.digitChar].head? ≠ some '0' := by decide
      exact hall ⟨n, hlt⟩ hn
    · rw [List.head?_append_of_ne_nil _ Nat.toDigits_ne_nil]
      exact ih (n / 10) (by omega) (by omega)

theorem decimal (n : Nat) : ∃ b r, Bytes.ofString (toString n) = b :: r ∧ isDigit b = true ∧
    (∀ x ∈ r, isWordByte x = true) ∧ isInteger (b :: r) = true ∧ Integer.read? (b :: r) =
      some n := by
  have hdigits : ∀ c ∈ Nat.toDigits 10 n, c.isDigit = true :=
    fun c hc => Nat.isDigit_of_mem_toDigits (by decide) (by decide) hc
  have htext : Bytes.ofString (toString n) = (Nat.toDigits 10 n).map Char.toUInt8 := by
    rw [Nat.toString_eq_ofList_toDigits, Bytes.ofString_ascii fun c hc =>
      (digit_toUInt8 (hdigits c hc)).2.2.1]
  rcases Nat.eq_zero_or_pos n with rfl | hn
  · exact ⟨48, [], by rw [htext]; rfl, by decide, by simp, by decide, by decide⟩
  · obtain ⟨c, cs, hcs⟩ := List.exists_cons_of_ne_nil (Nat.toDigits_ne_nil (n := n) (b := 10))
    have hhead := head_toDigits hn
    have hvalue := Nat.ofDigitChars_ten_toDigits (n := n)
    rw [hcs] at hdigits hhead htext hvalue
    obtain ⟨hc, htail⟩ := List.forall_mem_cons.mp hdigits
    have hzero : c.toUInt8 ≠ 48 := fun h => hhead (congrArg some ((digit_toUInt8 hc).2.2.2.1 h))
    have hall : ∀ x ∈ (c :: cs).map Char.toUInt8, isDigit x = true ∧ x ≠ 95 :=
      List.forall_mem_map.mpr fun d hd =>
        ⟨(digit_toUInt8 (hdigits d hd)).1, (digit_toUInt8 (hdigits d hd)).2.1⟩
    refine ⟨c.toUInt8, cs.map Char.toUInt8, htext, (digit_toUInt8 hc).1, fun x hx => ?_, ?_, ?_⟩
    · rw [isWordByte, (hall x (List.mem_cons_of_mem _ hx)).1, Bool.or_true]
    · rw [isInteger]
      · exact List.all_eq_true.mpr fun x hx => (hall x hx).1
      all_goals exact fun _ h => hzero (List.cons.inj h).1
    · have hmark : Integer.mark (c.toUInt8 :: cs.map Char.toUInt8) =
        (10, c.toUInt8 :: cs.map Char.toUInt8, false) := by
        rw [Integer.mark]
        · exact fun _ _ _ h => hzero (List.cons.inj h).1
        · exact fun _ h => hzero (List.cons.inj h).1
      have hfit : Integer.underscoresFit false (c.toUInt8 :: cs.map Char.toUInt8) = true :=
        underscoresFit_of_not_mem (fun h => (hall 95 h).2 rfl) false
      rw [Integer.read?, hmark]
      dsimp only
      rw [if_pos hfit, ← List.map_cons, digits?_map hdigits, hvalue]

end Token

end Sysy
