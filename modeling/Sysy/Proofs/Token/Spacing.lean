import Mathlib.Data.List.TakeWhile
import Sysy.Proofs.Token.Phrases

/-!
Where tokens are set apart, it does not matter how.

A token depends on what stands behind it only as far as a longer one would begin in the same place,
and a blank is part of no token. So the lexer finds given tokens again when it reads their texts
with blanks and comments between them, if each gap begins with a blank. `Tiles.unique` is what this
rests on: a text can be cut into pieces in one way only, hence any cut of it is the one that the
lexer makes.
-/

namespace Sysy.Token
open Piece

section Unique
variable {p p' : Piece} {rest rest' s : Bytes} {ps ps' : List Piece}

theorem not_startsToken_of_trivia (h : p.Fits rest) (htrivia : p.IsTrivia) :
    ¬ StartsToken (p.text ++ rest) := by
  cases p with
  | token kind text => exact absurd htrivia id
  | blank b =>
    intro hstarts
    exact Bool.false_ne_true (hstarts.1.symm.trans h)
  | line body => exact fun hstarts => hstarts.2 ⟨rfl, .inl rfl⟩
  | block body => exact fun hstarts => hstarts.2 ⟨rfl, .inr rfl⟩
  | unclosed body => exact fun hstarts => hstarts.2 ⟨rfl, .inr rfl⟩

theorem takeWhile_line {body : Bytes} (hbody : 10 ∉ body)
    (hrest : rest = [] ∨ rest.head? = some 10) :
    (body ++ rest).takeWhile (· ≠ 10) = body := by
  have hall : ∀ b ∈ body, decide (b ≠ 10) = true :=
    fun b hb => decide_eq_true (ne_of_mem_of_not_mem hb hbody)
  rw [List.takeWhile_append_of_pos hall]
  rcases hrest with rfl | hrest
  · rw [List.takeWhile_nil, List.append_nil]
  · obtain ⟨r, rfl⟩ := List.head?_eq_some_iff.mp hrest
    rw [List.takeWhile_cons_of_neg (by decide), List.append_nil]

theorem length_le_of_open {body body' : Bytes} (hopen : ¬ [42, 47] <:+: body')
    (heq : body ++ 42 :: 47 :: rest = body' ++ 42 :: 47 :: rest') : body'.length ≤ body.length := by
  by_contra hlt
  rcases List.append_eq_append_iff.mp heq with ⟨more, rfl, hmark⟩ | ⟨more, rfl, -⟩
  · -- what `body'` has more begins with the mark, or with half of it and then with a whole one
    match more with
    | [] => exact hlt (Nat.le_of_eq (congrArg _ (List.append_nil body)))
    | [b] =>
      obtain ⟨-, hmark⟩ := List.cons.inj hmark
      exact absurd (List.cons.inj hmark).1 (by decide)
    | b :: b' :: more =>
      obtain ⟨hb, hmark⟩ := List.cons.inj hmark
      have hb' := (List.cons.inj hmark).1
      exact hopen ⟨body, more, by rw [hb, hb', List.append_assoc]; rfl⟩
  · exact hlt (by rw [List.length_append]; exact Nat.le_add_right ..)

/-- A text begins with one piece only. -/
theorem Piece.Fits.unique (h : p.Fits rest) (h' : p'.Fits rest')
    (heq : p.text ++ rest = p'.text ++ rest') : p = p' := by
  cases p with
  | token kind text =>
    cases p' with
    | token kind' text' =>
      obtain ⟨-, b, r, rfl, hlexeme⟩ := h
      obtain ⟨-, b', r', rfl, hlexeme'⟩ := h'
      obtain ⟨rfl, hr⟩ := List.cons.inj heq
      have hsame : lexeme b (r ++ rest) = lexeme b (r' ++ rest') := congrArg (lexeme b) hr
      rw [hlexeme, hlexeme'] at hsame
      obtain ⟨rfl, htext⟩ := Prod.mk.inj hsame
      rw [htext]
    | _ => exact absurd (heq ▸ h.1) (not_startsToken_of_trivia h' trivial)
  | blank b =>
    cases p' with
    | token => exact absurd (heq ▸ h'.1) (not_startsToken_of_trivia (p := .blank b) h trivial)
    | blank b' => exact congrArg Piece.blank (List.cons.inj heq).1
    | _ =>
      obtain rfl : b = 47 := (List.cons.inj heq).1
      exact absurd h Bool.false_ne_true
  | line body =>
    cases p' with
    | token => exact absurd (heq ▸ h'.1) (not_startsToken_of_trivia (p := .line body) h trivial)
    | blank b =>
      obtain rfl : 47 = b := (List.cons.inj heq).1
      exact absurd h' Bool.false_ne_true
    | line body' =>
      have hbody : body ++ rest = body' ++ rest' := (List.cons.inj (List.cons.inj heq).2).2
      rw [← takeWhile_line h.1 h.2, hbody, takeWhile_line h'.1 h'.2]
    | _ => exact absurd (List.cons.inj (List.cons.inj heq).2).1 (by decide)
  | block body =>
    cases p' with
    | token => exact absurd (heq ▸ h'.1) (not_startsToken_of_trivia (p := .block body) h trivial)
    | blank b =>
      obtain rfl : 47 = b := (List.cons.inj heq).1
      exact absurd h' Bool.false_ne_true
    | line => exact absurd (List.cons.inj (List.cons.inj heq).2).1 (by decide)
    | block body' =>
      -- neither comment is closed before its end, so none of them is longer than the other
      have hbody : body ++ [42, 47] ++ rest = body' ++ [42, 47] ++ rest' :=
        (List.cons.inj (List.cons.inj heq).2).2
      rw [List.append_assoc, List.append_assoc] at hbody
      have hlength := Nat.le_antisymm (length_le_of_open h hbody.symm) (length_le_of_open h' hbody)
      exact congrArg Piece.block (List.append_inj hbody hlength).1
    | unclosed body' =>
      obtain ⟨hopen, rfl⟩ := h'
      have hbody : body ++ [42, 47] ++ rest = body' ++ [] := (List.cons.inj (List.cons.inj heq).2).2
      rw [List.append_nil] at hbody
      exact absurd ⟨body, rest, hbody⟩ hopen
  | unclosed body =>
    obtain ⟨hopen, rfl⟩ := h
    cases p' with
    | token => exact absurd (heq ▸ h'.1) (not_startsToken_of_trivia (p := .unclosed body) ⟨hopen,
        rfl⟩ trivial)
    | blank b =>
      obtain rfl : 47 = b := (List.cons.inj heq).1
      exact absurd h' Bool.false_ne_true
    | line => exact absurd (List.cons.inj (List.cons.inj heq).2).1 (by decide)
    | block body' =>
      have hbody : body ++ [] = body' ++ [42, 47] ++ rest' :=
        (List.cons.inj (List.cons.inj heq).2).2
      rw [List.append_nil] at hbody
      exact absurd ⟨body', rest', hbody.symm⟩ hopen
    | unclosed body' =>
      obtain ⟨-, rfl⟩ := h'
      exact congrArg Piece.unclosed
        (List.append_cancel_right (List.cons.inj (List.cons.inj heq).2).2)

/-- A text can be cut into pieces in one way only. -/
theorem Tiles.unique (h : Tiles s ps) (h' : Tiles s ps') : ps = ps' := by
  induction h generalizing ps' with
  | nil => exact h'.eq_nil.symm
  | @cons p rest ps hfits htail ih =>
    generalize hs : p.text ++ rest = s at h'
    cases h' with
    | nil => exact absurd (List.append_eq_nil_iff.mp hs).1 (text_ne_nil hfits)
    | @cons p' rest' ps' hfits' htail' =>
      obtain rfl := hfits.unique hfits' hs
      obtain rfl := List.append_cancel_left hs
      rw [ih htail']

/-- Any cut of a text is the one that the lexer makes. -/
theorem Tiles.scanAll_eq (file off : Nat) (h : Tiles s ps) :
    Lexeme.scanAll file 0 off s = lexed file off ps := by
  obtain ⟨ps', htiles, hscan⟩ := scanAll_tiles file off s
  rw [hscan, htiles.unique h]

end Unique

section Locality
variable {b : UInt8} {r rest : Bytes} {kind : Kind} {text : Bytes}

theorem punct_cases (b : UInt8) (next : Option UInt8) :
    punct b next = punct b none ∨ (punct b next).2 = 2 ∧ ∃ x, next = some x ∧
    (x = 61 ∨ x = 38 ∨ x = 124) := by
  unfold punct
  split <;> simp

theorem punct_none (b : UInt8) : (punct b none).2 = 1 := by
  unfold punct
  split <;> first | rfl | contradiction

def Apart (rest : Bytes) : Prop := ∀ b ∈ rest.head?, isBlank b = true

theorem takeWhile_alone {p : UInt8 → Bool} (h : (r ++ rest).takeWhile p = r) :
    r.takeWhile p = r := by
  rw [List.takeWhile_eq_self_iff]
  intro x hx
  rw [← h] at hx
  exact List.all_eq_true.mp List.all_takeWhile x hx

theorem takeWhile_apart (h : r.takeWhile isWordByte = r) (hrest : Apart rest) :
    (r ++ rest).takeWhile isWordByte = r := by
  rw [List.takeWhile_append_of_pos (List.takeWhile_eq_self_iff.mp h)]
  cases rest with
  | nil => rw [List.takeWhile_nil, List.append_nil]
  | cons x rest =>
    have hx : isBlank x = true := hrest x rfl
    have hword : ¬ isWordByte x = true :=
      fun hword => Bool.false_ne_true ((ne_of_isWordByte hword).1.symm.trans hx)
    rw [List.takeWhile_cons_of_neg hword, List.append_nil]

theorem lexeme_word (hword : isWordByte b = true) {r r' : Bytes}
    (h : r.takeWhile isWordByte = r'.takeWhile isWordByte) :
    lexeme b r = lexeme b r' := by
  unfold lexeme
  rw [h]
  by_cases hletter : isLetter b = true
  · rw [if_pos hletter, if_pos hletter]
  · have hdigit : isDigit b = true := by simpa [isWordByte, hletter] using hword
    rw [if_neg hletter, if_neg hletter, if_pos hdigit, if_pos hdigit]

theorem lexeme_mark (hword : ¬ isWordByte b = true) (r : Bytes) :
    lexeme b r = ((punct b r.head?).1, b :: r.take ((punct b r.head?).2 - 1)) := by
  rw [isWordByte, Bool.or_eq_true, not_or] at hword
  rw [lexeme, if_neg hword.1, if_neg hword.2]

theorem takeWhile_of_lexeme (hword : isWordByte b = true) {r r' : Bytes}
    (h : lexeme b r = (kind, b :: r')) :
    r.takeWhile isWordByte = r' := by
  unfold lexeme at h
  by_cases hletter : isLetter b = true
  · rw [if_pos hletter] at h
    exact (List.cons.inj (Prod.mk.inj h).2).2
  · have hdigit : isDigit b = true := by simpa [isWordByte, hletter] using hword
    rw [if_neg hletter, if_pos hdigit] at h
    exact (List.cons.inj (Prod.mk.inj h).2).2

theorem mark_cases (hword : ¬ isWordByte b = true) {s : Bytes} (h : lexeme b s = (kind, b :: r)) :
    (r = [] ∧ punct b none = (kind, 1)) ∨ ∃ x, r = [x] ∧ punct b (some x) = (kind, 2) := by
  rw [lexeme_mark hword] at h
  obtain ⟨hkind, hr⟩ := Prod.mk.inj h
  replace hr := (List.cons.inj hr).2
  rcases punct_cases b s.head? with hnone | ⟨htwo, x, hx, -⟩
  · rw [hnone] at hkind
    rw [hnone, punct_none] at hr
    exact .inl ⟨hr.symm, Prod.ext hkind (punct_none b)⟩
  · obtain ⟨s', rfl⟩ := List.head?_eq_some_iff.mp hx
    rw [htwo] at hr
    exact .inr ⟨x, hr.symm, Prod.ext hkind htwo⟩

/-- A token that stands in front of some text stands alone, too. -/
theorem lexeme_alone (h : lexeme b (r ++ rest) = (kind, b :: r)) : lexeme b r = (kind, b :: r) := by
  by_cases hword : isWordByte b = true
  · have htake := takeWhile_of_lexeme hword h
    rw [← h]
    exact lexeme_word hword ((takeWhile_alone htake).trans htake.symm)
  · rw [lexeme_mark hword]
    rcases mark_cases hword h with ⟨rfl, hpunct⟩ | ⟨x, rfl, hpunct⟩
    · rw [List.head?_nil, hpunct, List.take_nil]
    · rw [List.head?_singleton, hpunct]
      rfl

theorem lexeme_apart (hrest : Apart rest) (h : lexeme b r = (kind, b :: r)) :
    lexeme b (r ++ rest) = (kind, b :: r) := by
  by_cases hword : isWordByte b = true
  · have htake := takeWhile_of_lexeme hword h
    rw [← h]
    exact lexeme_word hword ((takeWhile_apart htake hrest).trans htake.symm)
  · rw [lexeme_mark hword]
    rcases mark_cases hword h with ⟨rfl, hpunct⟩ | ⟨x, rfl, hpunct⟩
    · rw [List.nil_append]
      rcases punct_cases b rest.head? with hnone | ⟨-, x, hx, hdouble⟩
      · rw [hnone, hpunct]
        rfl
      · -- no operator of two bytes ends with a blank
        have hblank : isBlank x = true := hrest x hx
        rcases hdouble with rfl | rfl | rfl <;> exact absurd hblank Bool.false_ne_true
    · rw [List.singleton_append, List.head?_cons, hpunct]
      rfl

theorem startsToken_alone (h : StartsToken (b :: (r ++ rest))) : StartsToken (b :: r) := by
  refine ⟨h.1, fun hcomment => h.2 ⟨hcomment.1, ?_⟩⟩
  cases r with
  | nil => exact absurd hcomment.2 (by simp)
  | cons x r => exact hcomment.2

theorem startsToken_apart (hrest : Apart rest) (h : StartsToken (b :: r)) :
    StartsToken (b :: (r ++ rest)) := by
  refine ⟨h.1, fun hcomment => ?_⟩
  cases r with
  | nil =>
    rcases hcomment.2 with hhead | hhead
    · exact absurd (hrest _ hhead) Bool.false_ne_true
    · exact absurd (hrest _ hhead) Bool.false_ne_true
  | cons x r => exact h.2 hcomment

theorem fits_alone (h : (Piece.token kind text).Fits rest) : (Piece.token kind text).Fits [] := by
  obtain ⟨hstarts, b, r, rfl, hlexeme⟩ := h
  have halone := lexeme_alone hlexeme
  refine ⟨?_, b, r, rfl, ?_⟩
  · rw [List.append_nil]
    exact startsToken_alone hstarts
  · rw [List.append_nil]
    exact halone

theorem fits_apart (hrest : Apart rest) (h : (Piece.token kind text).Fits []) :
    (Piece.token kind text).Fits rest := by
  obtain ⟨hstarts, b, r, rfl, hlexeme⟩ := h
  rw [List.append_nil] at hstarts hlexeme
  exact ⟨startsToken_apart hrest hstarts, b, r, rfl, lexeme_apart hrest hlexeme⟩

end Locality

section Rows
variable {file off : Nat} {s rest text : Bytes} {kind : Kind} {ps : List Piece}

def row (t : Token) : Kind × Bytes := (t.kind, t.text)

/-- The kinds and the texts of the tokens of a file, the end of the file last. -/
def rows (file : Nat) (content : Bytes) : List (Kind × Bytes) :=
  (lexemes file content).map fun l => row l.token

/-- A text that is one token, and that the lexer reads as such when there is nothing else. -/
def Alone (file : Nat) (kind : Kind) (text : Bytes) : Prop :=
  (lexemes file text).map (·.token) = [⟨kind, ⟨file, 0, text.length⟩, text⟩, endOf file text.length]

def Piece.row? : Piece → Option (Kind × Bytes)
  | .token kind text => some (kind, text)
  | _ => none

theorem map_row_tokens (file off : Nat) (ps : List Piece) :
    (tokens file off ps).map row = ps.filterMap row? := by
  induction ps generalizing off with
  | nil => rfl
  | cons p ps ih =>
    have htail := ih (off + p.text.length)
    cases p with
    | token kind text => exact congrArg (List.cons (kind, text)) htail
    | _ => exact htail

/-- What the lexer finds does not depend on where the pieces stand. -/
theorem Tiles.rows_eq (h : Tiles s ps) : rows file s = ps.filterMap row? ++ [(.eof, [])] := by
  rw [rows, lexemes, h.scanAll_eq, lexed, List.map_append, List.map_map, ← map_row_tokens file 0]
  rfl

theorem Alone.fits (h : Alone file kind text) : (Piece.token kind text).Fits [] := by
  obtain ⟨ps, htiles, hscan⟩ := scanAll_tiles file 0 text
  have htokens : tokens file 0 ps = [⟨kind, ⟨file, 0, text.length⟩, text⟩] := by
    unfold Alone at h
    rw [lexemes, hscan, lexed, List.map_append, List.map_map] at h
    exact (List.map_id _).symm.trans (List.append_inj_left' h rfl)
  have hmem : (⟨kind, ⟨file, 0, text.length⟩, text⟩ : Token) ∈ tokens file 0 ps :=
    htokens ▸ List.mem_singleton_self _
  obtain ⟨⟨i, p⟩, hq, hp⟩ := List.mem_filterMap.mp hmem
  obtain ⟨before, after, htext, -, hfits⟩ := htiles.stands hq
  cases p with
  | token kind' text' =>
    obtain ⟨rfl, -, rfl⟩ := Token.mk.inj (Option.some.inj hp)
    -- the token covers the text, so there is nothing behind it
    have hlength := congrArg List.length htext
    rw [List.length_append, List.length_append] at hlength
    have hafter : after = [] :=
      List.eq_nil_of_length_eq_zero (by simp only [Piece.text] at hlength; omega)
    exact hafter ▸ hfits
  | _ => cases hp

theorem alone_of_fits (file : Nat) (h : (Piece.token kind text).Fits []) :
    Alone file kind text := by
  have htiles : Tiles (text ++ []) [.token kind text] := .cons h .nil
  rw [List.append_nil] at htiles
  rw [Alone, lexemes, htiles.scanAll_eq, lexed, List.map_append, List.map_map]
  simp [tokens, placed, token?, joined, Piece.text]

end Rows

section Gaps
variable {file : Nat} {s rest : Bytes} {ps : List Piece}

/-- Blanks and whole comments. A comment to the end of its line includes the newline, and one
between marks ends with the first closing mark. -/
inductive IsFiller : Bytes → Prop
  | nil : IsFiller []
  | blank {b : UInt8} {s : Bytes} (hb : isBlank b = true) (hs : IsFiller s) : IsFiller (b :: s)
  | line {body s : Bytes} (hbody : 10 ∉ body) (hs : IsFiller s) :
      IsFiller (47 :: 47 :: (body ++ 10 :: s))
  | block {body s : Bytes} (hbody : ¬ [42, 47] <:+: body) (hs : IsFiller s) :
      IsFiller (47 :: 42 :: (body ++ 42 :: 47 :: s))

/-- What may stand between two tokens: a blank, then blanks and whole comments. -/
def IsGap (s : Bytes) : Prop := ∃ b r, s = b :: r ∧ isBlank b = true ∧ IsFiller r

/-- Texts one behind the other, where `gap i` stands between the texts `i` and `i + 1`. -/
def spread (gap : Nat → Bytes) : List Bytes → Bytes
  | [] => []
  | [s] => s
  | s :: s' :: ss => s ++ (gap 0 ++ spread (fun i => gap (i + 1)) (s' :: ss))

theorem spread_const (gap : Bytes) (ss : List Bytes) :
    spread (fun _ => gap) ss = List.intercalate gap ss := by
  induction ss with
  | nil => rfl
  | cons s ss ih =>
    cases ss with
    | nil => exact (List.append_nil s).symm
    | cons s' ss => rw [spread, ih, List.intercalate_cons_cons, List.append_assoc]

theorem IsFiller.tiles (h : IsFiller s) (hrest : Tiles rest ps) :
    ∃ gaps, Tiles (s ++ rest) (gaps ++ ps) ∧ gaps.filterMap row? = [] := by
  induction h with
  | nil => exact ⟨[], hrest, rfl⟩
  | @blank b s hb _ ih =>
    obtain ⟨gaps, htiles, hrows⟩ := ih
    exact ⟨.blank b :: gaps, .cons (p := .blank b) hb htiles, hrows⟩
  | @line body s hbody _ ih =>
    obtain ⟨gaps, htiles, hrows⟩ := ih
    have hnewline : Tiles (10 :: (s ++ rest)) (.blank 10 :: (gaps ++ ps)) :=
      .cons (p := .blank 10) rfl htiles
    have hline := Tiles.cons (p := .line body) ⟨hbody, .inr rfl⟩ hnewline
    refine ⟨.line body :: .blank 10 :: gaps, ?_, hrows⟩
    rw [List.cons_append, List.cons_append, List.append_assoc]
    exact hline
  | @block body s hbody _ ih =>
    obtain ⟨gaps, htiles, hrows⟩ := ih
    have hblock := Tiles.cons (p := .block body) hbody htiles
    refine ⟨.block body :: gaps, ?_, hrows⟩
    rw [Piece.text, List.cons_append, List.cons_append, List.append_assoc] at hblock
    rw [List.cons_append, List.cons_append, List.append_assoc]
    exact hblock

theorem Tiles.exists_fits {p : Piece} (h : Tiles s ps) (hp : p ∈ ps) : ∃ rest, p.Fits rest := by
  induction h with
  | nil => cases hp
  | cons hfits _ ih =>
    rcases List.mem_cons.mp hp with rfl | hp
    · exact ⟨_, hfits⟩
    · exact ih hp

theorem tiles_spread (ts : List (Kind × Bytes)) (gap : Nat → Bytes)
    (hts : ∀ t ∈ ts, Alone file t.1 t.2) (hgap : ∀ i, i + 1 < ts.length → IsGap (gap i)) :
    ∃ ps, Tiles (spread gap (ts.map (·.2))) ps ∧ ps.filterMap row? = ts := by
  induction ts generalizing gap with
  | nil => exact ⟨[], .nil, rfl⟩
  | cons t ts ih =>
    obtain ⟨ht, hts⟩ := List.forall_mem_cons.mp hts
    cases ts with
    | nil =>
      have htiles := Tiles.cons ht.fits .nil
      rw [List.append_nil] at htiles
      exact ⟨[.token t.1 t.2], htiles, rfl⟩
    | cons t' ts =>
      obtain ⟨ps, htiles, hrows⟩ := ih (fun i => gap (i + 1)) hts fun i hi =>
        hgap (i + 1) (Nat.succ_lt_succ hi)
      obtain ⟨b, r, hfirst, hb, hfiller⟩ := hgap 0 (by simp)
      obtain ⟨gaps, hgaps, hnone⟩ := hfiller.tiles htiles
      have hblank := Tiles.cons (p := .blank b) hb hgaps
      have hapart : Apart (Piece.text (.blank b) ++
        (r ++ spread (fun i => gap (i + 1)) ((t' :: ts).map (·.2)))) :=
        fun x hx => Option.some.inj hx ▸ hb
      have hall := Tiles.cons (fits_apart hapart ht.fits) hblank
      refine ⟨.token t.1 t.2 :: .blank b :: (gaps ++ ps), ?_, ?_⟩
      · rw [List.map_cons, List.map_cons, spread, hfirst]
        exact hall
      · show t :: (gaps ++ ps).filterMap row? = t :: t' :: ts
        rw [List.filterMap_append, hnone, hrows, List.nil_append]

theorem Tiles.alone {t : Kind × Bytes} (h : Tiles s ps) (ht : t ∈ ps.filterMap row?) :
    Alone file t.1 t.2 := by
  obtain ⟨p, hp, hrow⟩ := List.mem_filterMap.mp ht
  obtain ⟨rest, hfits⟩ := h.exists_fits hp
  cases p with
  | token kind text =>
    obtain rfl := Option.some.inj hrow
    exact alone_of_fits file (fits_alone hfits)
  | _ => cases hrow

/-- Blanks and comments between tokens do not matter: texts that are one token each, valid or not,
are found again with the same kinds when they are read in one file, whatever gaps stand between
them. So the tokens of any file are found again in their texts with single spaces between them. -/
theorem rows_spread (file : Nat) :
    (∀ (ts : List (Kind × Bytes)) (gap : Nat → Bytes), (∀ t ∈ ts, Alone file t.1 t.2) →
      (∀ i, i + 1 < ts.length → IsGap (gap i)) →
      rows file (spread gap (ts.map (·.2))) = ts ++ [(.eof, [])]) ∧
    ∀ content : Bytes, ∃ ts, rows file content = ts ++ [(.eof, [])] ∧
      rows file (List.intercalate [32] (ts.map (·.2))) = rows file content := by
  have hspread (ts : List (Kind × Bytes)) (gap : Nat → Bytes) (hts : ∀ t ∈ ts, Alone file t.1 t.2)
      (hgap : ∀ i, i + 1 < ts.length → IsGap (gap i)) : rows file (spread gap (ts.map (·.2))) =
        ts ++ [(.eof, [])] := by
    obtain ⟨ps, htiles, hrows⟩ := tiles_spread ts gap hts hgap
    rw [htiles.rows_eq, hrows]
  refine ⟨hspread, fun content => ?_⟩
  have hspace : IsGap [32] := ⟨32, [], rfl, rfl, .nil⟩
  obtain ⟨ps, htiles, -⟩ := scanAll_tiles file 0 content
  refine ⟨ps.filterMap row?, htiles.rows_eq, ?_⟩
  rw [← spread_const, hspread _ _ (fun t ht => htiles.alone ht) fun _ _ => hspace, htiles.rows_eq]

/-- A slash, half of an operator, a number with letters behind it, and two operators of which one
begins with the other. -/
def mixedSample : List (Kind × Bytes) :=
  [(.slash, [47]), (.invalid, [38]), (.invalid, [49, 50, 97, 98]), (.assign, [61]),
    (.eqEq, [61, 61]), (.ident, [120])]

/-- A blank, a comment with stars, slashes and an opening mark in it, and a comment that ends with
its line. -/
def mixedGap : Bytes :=
  32 :: 47 :: 42 :: ([47, 32, 42, 32, 47, 42, 42] ++ 42 :: 47 :: 47 :: 47 :: ([42, 47, 47] ++ [10]))

theorem isGap_mixedGap : IsGap mixedGap :=
  ⟨32, _, rfl, rfl, .block (by decide) (.line (by decide) .nil)⟩

theorem rows_spread_mixedSample :
    (∀ t ∈ mixedSample, Alone 0 t.1 t.2) ∧ (∀ i, i + 1 < mixedSample.length → IsGap mixedGap) ∧
    rows 0 (spread (fun _ => mixedGap) (mixedSample.map (·.2))) = mixedSample ++ [(.eof, [])] := by
  have halone : ∀ t ∈ mixedSample, Alone 0 t.1 t.2 := by
    unfold Alone
    decide
  exact ⟨halone, fun _ _ => isGap_mixedGap, (rows_spread 0).1 mixedSample (fun _ => mixedGap) halone
    fun _ _ => isGap_mixedGap⟩

end Gaps

end Sysy.Token
