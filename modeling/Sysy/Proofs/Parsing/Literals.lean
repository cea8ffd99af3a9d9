import Mathlib.Data.Int.ModEq
import Mathlib.Data.List.TakeWhile
import Mathlib.Data.Nat.Digits.Defs
import Sysy.Proofs.Parsing.Limits
import Sysy.Proofs.Token.Phrases

/-!
The lexer and the parser agree on integers.

The lexer knows an integer by its digits; the parser reads it once more, in a grammar that is wider:
it has base marks for binary and octal numbers, and underscores between digits. `value` is what a
literal means. Every integer that the lexer finds is read as its value, and the texts that only the
wider grammar allows are no integers to the lexer.
-/

namespace Sysy.Token

def digitValue (b : UInt8) : Nat :=
  if b ≤ 57 then b.toNat - 48 else if b ≤ 70 then b.toNat - 55 else b.toNat - 87

def numeral (base : Nat) (ds : Bytes) : Nat := Nat.ofDigits base (ds.reverse.map digitValue)

/-- What an integer means: it is hexadecimal behind `0x`, octal behind a zero, and decimal
otherwise. -/
def value : Bytes → Nat
  | 48 :: 120 :: ds => numeral 16 ds
  | 48 :: 88 :: ds => numeral 16 ds
  | 48 :: ds => numeral 8 ds
  | ds => numeral 10 ds

/-- The mark of a base that the language does not have, or an underscore. -/
def IsForeign (s : Bytes) : Prop :=
  95 ∈ s ∨ ∃ m r, s = 48 :: m :: r ∧ (m = 98 ∨ m = 66 ∨ m = 111 ∨ m = 79)

section Digits
variable {base : Nat} {ds : Bytes} {b : UInt8}

def IsDigitOf (base : Nat) (b : UInt8) : Prop := b ≠ 95 ∧ Integer.belongs base b = true

instance (base : Nat) (b : UInt8) : Decidable (IsDigitOf base b) :=
  inferInstanceAs (Decidable (_ ∧ _))

theorem forall_byte {p : UInt8 → Prop} (h : ∀ n : Fin 256, p (UInt8.ofNat n))
    (b : UInt8) : p b := by
  have hb := h ⟨b.toNat, b.toNat_lt⟩
  rwa [UInt8.ofNat_toNat] at hb

theorem isDigit_iff : isDigit b = true ↔ IsDigitOf 10 b :=
  forall_byte (p := fun b => isDigit b = true ↔ IsDigitOf 10 b) (by decide +kernel) b

theorem isOctalDigit_iff : isOctalDigit b = true ↔ IsDigitOf 8 b :=
  forall_byte (p := fun b => isOctalDigit b = true ↔ IsDigitOf 8 b) (by decide +kernel) b

theorem isHexDigit_iff : isHexDigit b = true ↔ IsDigitOf 16 b :=
  forall_byte (p := fun b => isHexDigit b = true ↔ IsDigitOf 16 b) (by decide +kernel) b

theorem digit?_of_isDigitOf (h : IsDigitOf base b) (hbase : base ≤ 16) :
    Integer.digit? b = some (digitValue b) ∧ digitValue b < base := by
  obtain ⟨hne, hb⟩ := h
  obtain ⟨d, hd, hlt⟩ : ∃ d, Integer.digit? b = some d ∧ d < base := by
    simpa [Integer.belongs, hne, Option.any_eq_true] using hb
  have hvalue : ∀ b : UInt8, (Integer.digit? b).all (fun d => 16 ≤ d || d == digitValue b) = true :=
    forall_byte (by decide +kernel)
  have hb := hvalue b
  rw [hd] at hb
  have heq : d = digitValue b := by
    simp only [Option.all_some, Bool.or_eq_true, decide_eq_true_eq, beq_iff_eq] at hb
    omega
  exact heq ▸ ⟨hd, hlt⟩

theorem isWordByte_of_belongs (h : Integer.belongs base b = true) (hbase : base ≤ 16) :
    isWordByte b = true := by
  by_cases hb : b = 95
  · rw [hb]
    rfl
  · obtain ⟨hdigit, -⟩ := digit?_of_isDigitOf ⟨hb, h⟩ hbase
    have hword : ∀ b : UInt8, (Integer.digit? b).isSome = true → isWordByte b = true :=
      forall_byte (by decide +kernel)
    exact hword b (by rw [hdigit]; rfl)

theorem digits?_eq (hbase : base ≤ 16) (h : ∀ b ∈ ds, IsDigitOf base b) (acc : Nat) :
    Integer.digits? base acc ds = some (base ^ ds.length * acc + numeral base ds) := by
  induction ds generalizing acc with
  | nil => simp [Integer.digits?, numeral]
  | cons b ds ih =>
    obtain ⟨hb, hds⟩ := List.forall_mem_cons.mp h
    obtain ⟨hdigit, hlt⟩ := digit?_of_isDigitOf hb hbase
    have hnumeral : numeral base (b :: ds) = numeral base ds + base ^ ds.length * digitValue b := by
      simp [numeral, Nat.ofDigits_append]
    rw [Integer.digits?, if_neg hb.1, hdigit]
    dsimp only
    rw [if_pos hlt, ih hds, hnumeral, List.length_cons]
    congr 1
    ring

theorem belongs_of_digits? {acc n : Nat} (h : Integer.digits? base acc ds = some n) :
    ∀ b ∈ ds, Integer.belongs base b = true := by
  induction ds generalizing acc with
  | nil => exact List.forall_mem_nil _
  | cons b ds ih =>
    rw [List.forall_mem_cons]
    rw [Integer.digits?] at h
    by_cases hb : b = 95
    · rw [if_pos hb] at h
      exact ⟨by simp [Integer.belongs, hb], ih h⟩
    · rw [if_neg hb] at h
      cases hdigit : Integer.digit? b with
      | none => simp [hdigit] at h
      | some d =>
        rw [hdigit] at h
        dsimp only at h
        by_cases hlt : d < base
        · rw [if_pos hlt] at h
          exact ⟨by simp [Integer.belongs, hdigit, hlt], ih h⟩
        · simp [hlt] at h

end Digits

section Forms
variable {s ds : Bytes} {base n : Nat} {marked : Bool}

inductive Written : Bytes → (base : Nat) → (ds : Bytes) → (marked : Bool) → Prop
  | hex {m d : UInt8} {r : Bytes} (hm : m = 120 ∨ m = 88) : Written (48 :: m :: d :: r) 16
      (d :: r) true
  | foreign {m d : UInt8} {r : Bytes} {base : Nat} (hm : m = 98 ∨ m = 66 ∨ m = 111 ∨ m = 79)
      (hbase : base ≤ 8) :
      Written (48 :: m :: d :: r) base (d :: r) true
  | octal {r : Bytes} (hr : ∀ m d r', r = m :: d :: r' → m ≠ 120 ∧ m ≠ 88) :
      Written (48 :: r) 8 r true
  | decimal {b : UInt8} {r : Bytes} (hb : b ≠ 48) : Written (b :: r) 10 (b :: r) false

theorem written_mark (hs : s ≠ []) (h : Integer.mark s = (base, ds, marked)) :
    Written s base ds marked := by
  unfold Integer.mark at h
  split at h
  · rename_i m d r
    by_cases hhex : m = 120 ∨ m = 88
    · rw [if_pos hhex] at h
      cases h
      exact .hex hhex
    · rw [if_neg hhex] at h
      by_cases hoct : m = 111 ∨ m = 79
      · rw [if_pos hoct] at h
        cases h
        exact .foreign (.inr (.inr hoct)) (Nat.le_refl 8)
      · rw [if_neg hoct] at h
        by_cases hbin : m = 98 ∨ m = 66
        · rw [if_pos hbin] at h
          cases h
          exact .foreign (hbin.imp id .inl) (by decide)
        · rw [if_neg hbin] at h
          cases h
          refine .octal fun m' d' r' heq => ?_
          obtain rfl := (List.cons.inj heq).1
          exact not_or.mp hhex
  · rename_i r hshort
    cases h
    exact .octal fun m d r' heq => (hshort m d r' heq).elim
  · rename_i hzero
    cases h
    obtain ⟨b, r, rfl⟩ := List.exists_cons_of_ne_nil hs
    exact .decimal fun hb => hzero r (by rw [hb])

theorem exists_written (hs : s ≠ []) :
    ∃ base ds marked, Integer.mark s = (base, ds, marked) ∧ Written s base ds marked :=
  ⟨_, _, _, rfl, written_mark hs rfl⟩

theorem Written.base_le (h : Written s base ds marked) : base ≤ 16 := by
  cases h with
  | foreign _ hbase => exact Nat.le_trans hbase (by decide)
  | _ => decide

theorem isInteger_octal {r : Bytes} (hr : ∀ m d r', r = m :: d :: r' → m ≠ 120 ∧ m ≠ 88) :
    isInteger (48 :: r) = true ↔ ∀ b ∈ r, IsDigitOf 8 b := by
  have hall : r.all isOctalDigit = true ↔ ∀ b ∈ r, IsDigitOf 8 b :=
    by simp only [List.all_eq_true, isOctalDigit_iff]
  rw [← hall]
  match r with
  | [] => exact Iff.rfl
  | [m] =>
    have hletter : isOctalDigit 120 = false ∧ isOctalDigit 88 = false := by decide
    unfold isInteger
    split <;> simp_all
  | m :: d :: r =>
    obtain ⟨hlower, hupper⟩ := hr m d r rfl
    rw [isInteger]
    · exact fun _ h => hlower (List.cons.inj h).1
    · exact fun _ h => hupper (List.cons.inj h).1

theorem isInteger_foreign {m : UInt8} {r : Bytes} (hm : m = 98 ∨ m = 66 ∨ m = 111 ∨ m = 79) :
    isInteger (48 :: m :: r) = false := by
  rcases hm with rfl | rfl | rfl | rfl <;> rfl

theorem Written.digits (h : Written s base ds marked) (hinteger : isInteger s = true) :
    (∀ b ∈ ds, IsDigitOf base b) ∧ value s = numeral base ds := by
  cases h with
  | @hex m d r hm =>
    have hall : (∀ b ∈ d :: r, isHexDigit b = true) ∧ value (48 :: m :: d :: r) = numeral 16
      (d :: r) := by
      rcases hm with rfl | rfl
      · exact ⟨by simpa [isInteger] using hinteger, rfl⟩
      · exact ⟨by simpa [isInteger] using hinteger, rfl⟩
    exact ⟨fun b hb => isHexDigit_iff.mp (hall.1 b hb), hall.2⟩
  | foreign hm =>
    rw [isInteger_foreign hm] at hinteger
    cases hinteger
  | octal hr =>
    have hall := (isInteger_octal hr).mp hinteger
    refine ⟨hall, ?_⟩
    have hne : ∀ x : UInt8, x = 120 ∨ x = 88 → ∀ r', ds ≠ x :: r' := by
      rintro x hx r' rfl
      have hx' := isOctalDigit_iff.mpr (hall x (List.mem_cons_self ..))
      rcases hx with rfl | rfl <;> exact absurd hx' Bool.false_ne_true
    rw [value]
    · exact hne 120 (.inl rfl)
    · exact hne 88 (.inr rfl)
  | @decimal b r hb =>
    have hzero : ∀ r', b :: r ≠ 48 :: r' := fun r' heq => hb (List.cons.inj heq).1
    rw [isInteger] at hinteger
    · refine ⟨fun x hx => isDigit_iff.mp (List.all_eq_true.mp hinteger x hx), ?_⟩
      rw [value]
      all_goals exact fun r' => hzero _
    all_goals exact fun r' => hzero _

theorem not_isForeign_of_isInteger (hs : s ≠ []) (hinteger : isInteger s = true) :
    ¬ IsForeign s := by
  rintro (hunderscore | ⟨m, r, rfl, hm⟩)
  · obtain ⟨base, ds, marked, -, hwritten⟩ := exists_written hs
    have hne : 95 ∉ ds := fun hmem => ((hwritten.digits hinteger).1 95 hmem).1 rfl
    cases hwritten with
    | hex hm => exact hne (by rcases hm with rfl | rfl <;> simpa using hunderscore)
    | foreign hm => exact hne (by rcases hm with rfl | rfl | rfl | rfl <;> simpa using hunderscore)
    | octal => exact hne (by simpa using hunderscore)
    | decimal => exact hne hunderscore
  · rw [isInteger_foreign hm] at hinteger
    cases hinteger

/-- What can be read is an integer of the language unless it has a foreign mark or an underscore. -/
theorem Written.isInteger (h : Written s base ds marked)
    (hds : ∀ b ∈ ds, Integer.belongs base b = true) (hown : ¬ IsForeign s) :
    isInteger s = true := by
  obtain ⟨hunderscore, hmark⟩ := not_or.mp hown
  cases h with
  | @hex m d r hm =>
    have hall : (d :: r).all isHexDigit = true := by
      refine List.all_eq_true.mpr fun b hb => isHexDigit_iff.mpr ⟨?_, hds b hb⟩
      rintro rfl
      exact hunderscore (List.mem_cons_of_mem _ (List.mem_cons_of_mem _ hb))
    rcases hm with rfl | rfl
    · simpa [Token.isInteger] using hall
    · simpa [Token.isInteger] using hall
  | foreign hm hbase => exact absurd ⟨_, _, rfl, hm⟩ hmark
  | octal hr =>
    refine (isInteger_octal hr).mpr fun b hb => ⟨?_, hds b hb⟩
    rintro rfl
    exact hunderscore (List.mem_cons_of_mem _ hb)
  | @decimal b r hb =>
    have hzero : ∀ r', b :: r ≠ 48 :: r' := fun r' heq => hb (List.cons.inj heq).1
    rw [Token.isInteger]
    · refine List.all_eq_true.mpr fun x hx => isDigit_iff.mpr ⟨?_, hds x hx⟩
      rintro rfl
      exact hunderscore hx
    all_goals exact fun r' => hzero _

theorem Written.words (h : Written s base ds marked) (hds : ∀ b ∈ ds, Integer.belongs base b = true)
    (hfit : Integer.underscoresFit marked ds = true) :
    ∃ b r, s = b :: r ∧ isDigit b = true ∧ ∀ x ∈ r, isWordByte x = true := by
  have hwords : ∀ x ∈ ds, isWordByte x = true :=
    fun x hx => isWordByte_of_belongs (hds x hx) h.base_le
  cases h with
  | @hex m d r hm =>
    exact ⟨48, _, rfl, rfl, List.forall_mem_cons.mpr ⟨by rcases hm with rfl | rfl <;> rfl, hwords⟩⟩
  | @foreign m d r base hm hbase =>
    exact ⟨48, _, rfl, rfl, List.forall_mem_cons.mpr ⟨by
      rcases hm with rfl | rfl | rfl | rfl <;> rfl, hwords⟩⟩
  | octal => exact ⟨48, _, rfl, rfl, hwords⟩
  | @decimal b r hb =>
    obtain ⟨hhead, htail⟩ := List.forall_mem_cons.mp hwords
    have hne : b ≠ 95 := by
      rintro rfl
      rw [Integer.underscoresFit] at hfit
      cases hfit
    exact ⟨b, r, rfl, isDigit_iff.mpr ⟨hne, hds b (List.mem_cons_self ..)⟩, htail⟩

theorem underscoresFit_of_digits (h : ∀ b ∈ ds, IsDigitOf base b) :
    Integer.underscoresFit marked ds = true :=
  underscoresFit_of_not_mem (fun hmem => (h 95 hmem).1 rfl) marked

theorem read?_of_mark (hs : s ≠ []) (hmark : Integer.mark s = (base, ds, marked)) :
    Integer.read? s = if Integer.underscoresFit marked ds then Integer.digits? base 0 ds
      else none := by
  obtain ⟨b, r, rfl⟩ := List.exists_cons_of_ne_nil hs
  rw [Integer.read?, hmark]

theorem read?_eq_value (hs : s ≠ []) (hinteger : isInteger s = true) :
    Integer.read? s = some (value s) := by
  obtain ⟨base, ds, marked, hmark, hwritten⟩ := exists_written hs
  obtain ⟨hds, hvalue⟩ := hwritten.digits hinteger
  rw [read?_of_mark hs hmark, if_pos (underscoresFit_of_digits hds),
    digits?_eq hwritten.base_le hds, Nat.mul_zero,
    Nat.zero_add, hvalue]

theorem read64_eq_value (hs : s ≠ []) (hinteger : isInteger s = true) :
    Integer.read64 s = if value s < 2 ^ 64 then .ok (value s) else .error .outOfRange := by
  obtain ⟨base, ds, marked, hmark, hwritten⟩ := exists_written hs
  obtain ⟨hds, hvalue⟩ := hwritten.digits hinteger
  have htake : ds.takeWhile (Integer.belongs base) = ds :=
    List.takeWhile_eq_self_iff.mpr fun x hx => (hds x hx).2
  have hall : ds.all (Integer.belongs base) = true := List.all_eq_true.mpr fun x hx => (hds x hx).2
  obtain ⟨b, r, rfl⟩ := List.exists_cons_of_ne_nil hs
  rw [Integer.read64, hmark]
  dsimp only
  rw [htake, digits?_eq hwritten.base_le hds, Nat.mul_zero, Nat.zero_add, ← hvalue,
    Option.getD_some, hall,
    underscoresFit_of_digits hds]
  have hpow : 2 ^ 64 = 0x10000000000000000 := rfl
  rw [hpow]
  by_cases hsmall : value (b :: r) < 0x10000000000000000
  · rw [if_neg (Nat.not_le.mpr hsmall), if_pos hsmall]
    rfl
  · rw [if_pos (Nat.not_lt.mp hsmall), if_neg hsmall]

theorem written_of_read? (h : Integer.read? s = some n) :
    ∃ base ds marked, Written s base ds marked ∧
    (∀ b ∈ ds, Integer.belongs base b = true) ∧ Integer.underscoresFit marked ds = true := by
  have hs : s ≠ [] := by
    rintro rfl
    cases h
  obtain ⟨base, ds, marked, hmark, hwritten⟩ := exists_written hs
  rw [read?_of_mark hs hmark] at h
  by_cases hfit : Integer.underscoresFit marked ds = true
  · rw [if_pos hfit] at h
    exact ⟨base, ds, marked, hwritten, belongs_of_digits? h, hfit⟩
  · rw [if_neg hfit] at h
    cases h

/-- Of the texts that can be read, the lexer takes those for integers that have no foreign mark and
no underscore. -/
theorem isInteger_eq_of_read? (h : Integer.read? s = some n) : isInteger s = true ↔
    ¬ IsForeign s := by
  obtain ⟨base, ds, marked, hwritten, hds, -⟩ := written_of_read? h
  refine ⟨not_isForeign_of_isInteger ?_, hwritten.isInteger hds⟩
  rintro rfl
  cases h

end Forms

section Found
variable {file n : Nat} {s content rest : Bytes} {b : UInt8} {r : Bytes}

theorem isInteger_of_lexeme {text : Bytes} (h : lexeme b r = (.intLit, text)) : text ≠ [] ∧
    isInteger text = true := by
  unfold lexeme at h
  by_cases hletter : isLetter b = true
  · rw [if_pos hletter] at h
    exact absurd (Prod.mk.inj h).1 (keyword_ne (by decide) _)
  · rw [if_neg hletter] at h
    by_cases hdigit : isDigit b = true
    · rw [if_pos hdigit] at h
      obtain ⟨hkind, rfl⟩ := Prod.mk.inj h
      refine ⟨nofun, ?_⟩
      by_contra hinteger
      rw [if_neg hinteger] at hkind
      cases hkind
    · rw [if_neg hdigit] at h
      exact absurd (Prod.mk.inj h).1 (punct_ne (by decide) b r.head?)

theorem lexemes_number (file : Nat) (hdigit : isDigit b = true) (hr : ∀ x ∈ r, isWordByte x = true)
    (hrest : EndsWord rest) :
    let t : Token :=
      ⟨if isInteger (b :: r) then .intLit else .invalid, ⟨file, 0, (b :: r).length⟩, b :: r⟩
    ∃ ls, lexemes file (b :: r ++ rest) = ⟨owed t, t⟩ :: ls := by
  intro t
  obtain ⟨hblank, hslash, -, -, hletter⟩ :=
    ne_of_isWordByte (b := b) (by rw [isWordByte, hdigit, Bool.or_true])
  have hlexeme : lexeme b (r ++ rest) = (t.kind, b :: r) := by
    rw [lexeme, hletter hdigit, if_neg Bool.false_ne_true, if_pos hdigit,
      Lexes.takeWhile_word hr hrest]
  have hskips : Skips 0 (b :: (r ++ rest)) [] (b :: (r ++ rest)) :=
    .token ⟨hblank, fun h => hslash h.1⟩
  have hkind : t.kind ≠ .eof := by
    show (if isInteger (b :: r) then Kind.intLit else .invalid) ≠ .eof
    split <;> decide
  refine ⟨Lexeme.scanAll file 0 (0 + (b :: r).length) rest, ?_⟩
  have hstop : t.span.stop = 0 + (b :: r).length := (Nat.zero_add _).symm
  have hscan : Lexeme.scan file 0 (b :: r ++ rest) = ⟨owed t, t⟩ := by
    simpa [t, Piece.joined] using scan_token hskips hlexeme
  rw [lexemes, scanAll_step rfl (List.cons_ne_nil b r) hscan hkind hstop]

end Found

end Sysy.Token

namespace Sysy.Parser
open Token

theorem run_literal {c : Cursor} {n : Nat} (h : Integer.read? c.token.text = some n) :
    literal.run.run c = if n < 2 ^ 32 then (some (.lit c.token.span (BitVec.ofNat 32 n)),
      c.look.advance) else (none, c.look.advance.complain
        (if n < 2 ^ 64 then .integerTooLarge c.token.text else .badInteger c.token.text)
          c.token.span) := by
  have hadvance : advance.run.run c = (some c.token, c.look.advance) := by
    rw [← Cursor.token_look c]
    rfl
  rw [literal, run_bind, hadvance]
  dsimp only
  rw [h]
  dsimp only
  have hpow : 2 ^ 32 = 0x100000000 := rfl
  rw [hpow]
  by_cases hsmall : n < 0x100000000
  · rw [if_pos hsmall, if_pos hsmall]
    rfl
  · rw [if_neg hsmall, if_neg hsmall, run_bind]
    rfl

theorem toInt_ofNat_modEq (n : Nat) : (BitVec.ofNat 32 n).toInt ≡ n [ZMOD 2 ^ 32] := by
  rw [BitVec.toInt_eq_toNat_bmod, BitVec.toNat_ofNat, Int.natCast_mod]
  exact (Int.bmod_emod (m := 2 ^ 32)).trans (Int.emod_emod_of_dvd _ (Int.dvd_refl _))

/-- The parser accepts an integer of a file if and only if its value fits 32 bits, and takes it
modulo `2 ^ 32`. Texts with a foreign mark or an underscore are one invalid token each. -/
theorem literal_agrees (file : Nat) :
    (∀ content : Bytes, ∀ l ∈ lexemes file content, l.token.kind = .intLit →
      let n := value l.token.text
      Integer.read64 l.token.text = (if n < 2 ^ 64 then .ok n else .error .outOfRange) ∧
      ∀ c : Cursor, c.token = l.token →
        ((literal.run.run c).1.isSome ↔ n < 2 ^ 32) ∧
        (n < 2 ^ 32 → ∃ w : Sysy.Word,
          literal.run.run c = (some (.lit l.token.span w), c.look.advance) ∧
          w.toInt ≡ n [ZMOD 2 ^ 32]) ∧
        (2 ^ 32 ≤ n → literal.run.run c = (none, c.look.advance.complain
          (if n < 2 ^ 64 then .integerTooLarge l.token.text else .badInteger l.token.text)
          l.token.span))) ∧
    ∀ (s : Bytes) (n : Nat), Integer.read? s = some n → ∀ rest, EndsWord rest →
      let span : Span := ⟨file, 0, s.length⟩
      (IsForeign s → ∃ ls, lexemes file (s ++ rest) =
        ⟨[(Problem.badInteger s).located span], ⟨.invalid, span, s⟩⟩ :: ls) ∧
      (¬ IsForeign s → n = value s ∧ ∃ ls, lexemes file (s ++ rest) =
        ⟨[], ⟨.intLit, span, s⟩⟩ :: ls) := by
  constructor
  · intro content l hl hkind n
    obtain ⟨b, r, hlexeme⟩ := exists_lexeme_of_mem hl (by rw [hkind]; decide)
    obtain ⟨hne, hinteger⟩ := isInteger_of_lexeme (hkind ▸ hlexeme)
    refine ⟨read64_eq_value hne hinteger, fun c hc => ?_⟩
    have hrun := run_literal (c := c) (hc ▸ read?_eq_value hne hinteger)
    rw [hc] at hrun
    rw [hrun]
    by_cases hsmall : n < 2 ^ 32
    · rw [if_pos hsmall]
      refine ⟨iff_of_true rfl hsmall, fun _ => ⟨_, rfl, toInt_ofNat_modEq n⟩,
        fun hlarge => absurd hsmall (Nat.not_lt.mpr hlarge)⟩
    · rw [if_neg hsmall]
      exact ⟨iff_of_false (by simp) hsmall, fun h => absurd h hsmall, fun _ => rfl⟩
  · intro s n hread rest hrest span
    obtain ⟨base, ds, marked, hwritten, hds, hfit⟩ := written_of_read? hread
    obtain ⟨b, r, rfl, hdigit, hr⟩ := hwritten.words hds hfit
    obtain ⟨ls, hls⟩ := lexemes_number file hdigit hr hrest
    have hforeign := isInteger_eq_of_read? hread
    constructor
    · intro hf
      -- the lexer takes the whole word, and then sees that it is none of its integers
      have hinteger : ¬ isInteger (b :: r) = true := fun h => hforeign.mp h hf
      rw [if_neg hinteger] at hls
      refine ⟨ls, hls.trans ?_⟩
      rw [owed, if_pos rfl, problem, List.head?_cons, Option.map_some, hdigit]
      rfl
    · intro hown
      have hinteger := hforeign.mpr hown
      rw [if_pos hinteger] at hls
      have hvalue := read?_eq_value (List.cons_ne_nil b r) hinteger
      exact ⟨Option.some.inj (hread.symm.trans hvalue), ls, hls⟩

def edgeSample : Bytes := [48, 120, 70, 70, 70, 70, 70, 70, 70, 70]

def edgeCursor : Cursor := { TokenStream.ofFile 0 edgeSample with last := {}, limit := 0 }

/-- The largest integer is taken, and `0b1_1` in front of a semicolon is an invalid token. -/
theorem literal_agrees_edgeSample :
    (∃ l ∈ lexemes 0 edgeSample, l.token.kind = .intLit ∧ edgeCursor.token = l.token ∧
      value l.token.text < 2 ^ 32 ∧ ∃ w : Sysy.Word,
        literal.run.run edgeCursor = (some (.lit l.token.span w), edgeCursor.look.advance) ∧
        w.toInt ≡ value l.token.text [ZMOD 2 ^ 32]) ∧
    Integer.read? [48, 98, 49, 95, 49] = some 3 ∧ EndsWord [59] ∧ IsForeign [48, 98, 49, 95, 49] ∧
      ∃ ls, lexemes 0 ([48, 98, 49, 95, 49] ++ [59]) =
        ⟨[(Problem.badInteger [48, 98, 49, 95, 49]).located ⟨0, 0, 5⟩],
          ⟨.invalid, ⟨0, 0, 5⟩, [48, 98, 49, 95, 49]⟩⟩ :: ls := by
  obtain ⟨htaken, hforeign⟩ := literal_agrees 0
  have hmem : (⟨[], ⟨.intLit, ⟨0, 0, 10⟩, edgeSample⟩⟩ : Lexeme) ∈ lexemes 0 edgeSample := by decide
  have hsmall : value edgeSample < 2 ^ 32 := by decide +kernel
  have hread : Integer.read? [48, 98, 49, 95, 49] = some 3 := by decide
  have hrest : EndsWord [59] := endsWord_cons rfl
  have hf : IsForeign [48, 98, 49, 95, 49] := .inl (by decide)
  exact ⟨⟨_, hmem, rfl, rfl, hsmall, ((htaken edgeSample _ hmem rfl).2 edgeCursor rfl).2.1 hsmall⟩,
    hread, hrest, hf,
    (hforeign _ 3 hread [59] hrest).1 hf⟩

end Sysy.Parser
