import Mathlib.Data.List.Basic
import Sysy.Token.Lexer

/-!
The tokens of a file, and what stands between them, lie one behind the other and leave no byte out.

A file is cut into pieces: tokens, blanks and comments. `Tiles` says that a text is made of given
pieces, each of which ends where it has to. `scanAll_tiles` says that the lexer finds the tokens of
such a cut, with one diagnostic for each invalid one and one for a comment that is never closed.
-/

namespace Sysy.Token

def StartsToken : Bytes → Prop
  | [] => False
  | b :: r => isBlank b = false ∧ ¬ (b = 47 ∧ (r.head? = some 47 ∨ r.head? = some 42))

inductive Piece where
  | token (kind : Kind) (text : Bytes)
  | blank (b : UInt8)
  | line (body : Bytes)
  | block (body : Bytes)
  | unclosed (body : Bytes)

namespace Piece

def text : Piece → Bytes
  | token _ text => text
  | blank b => [b]
  | line body => 47 :: 47 :: body
  | block body => 47 :: 42 :: (body ++ [42, 47])
  | unclosed body => 47 :: 42 :: body

/-- Whether a piece can stand in front of `rest`. A token is as long as it can be, a comment ends
with its line or with the first closing mark, and a comment without one ends with the file. -/
def Fits (rest : Bytes) : Piece → Prop
  | token kind text =>
    StartsToken (text ++ rest) ∧ ∃ b r, text = b :: r ∧ lexeme b (r ++ rest) = (kind, text)
  | blank b => isBlank b = true
  | line body => 10 ∉ body ∧ (rest = [] ∨ rest.head? = some 10)
  | block body => ¬ [42, 47] <:+: body
  | unclosed body => ¬ [42, 47] <:+: body ∧ rest = []

def IsTrivia : Piece → Prop
  | token .. => False
  | _ => True

def joined (ps : List Piece) : Bytes := ps.flatMap text

theorem joined_cons (p : Piece) (ps : List Piece) : joined (p :: ps) = p.text ++ joined ps := rfl

def placed : Nat → List Piece → List (Nat × Piece)
  | _, [] => []
  | off, p :: ps => (off, p) :: placed (off + p.text.length) ps

def token? (file : Nat) : Nat × Piece → Option Token
  | (off, token kind text) => some ⟨kind, ⟨file, off, off + text.length⟩, text⟩
  | _ => none

def unclosed? : Nat × Piece → Option Nat
  | (off, unclosed _) => some off
  | _ => none

def tokens (file off : Nat) (ps : List Piece) : List Token :=
  (placed off ps).filterMap (token? file)

def opened (off : Nat) (ps : List Piece) : Option Nat := (placed off ps).findSome? unclosed?

theorem text_ne_nil {p : Piece} {rest : Bytes} (h : p.Fits rest) : p.text ≠ [] := by
  cases p with
  | token kind text =>
    obtain ⟨-, b, r, htext, -⟩ := h
    exact htext ▸ List.cons_ne_nil b r
  | _ => exact List.cons_ne_nil _ _

theorem placed_append (ps qs : List Piece) (off : Nat) :
    placed off (ps ++ qs) = placed off ps ++ placed (off + (joined ps).length) qs := by
  induction ps generalizing off with
  | nil => rfl
  | cons p ps ih =>
    rw [List.cons_append, placed, placed, List.cons_append, ih, joined_cons, List.length_append,
      Nat.add_assoc]

theorem tokens_append (file off : Nat) (ps qs : List Piece) :
    tokens file off (ps ++ qs) = tokens file off ps ++ tokens file
      (off + (joined ps).length) qs := by
  rw [tokens, placed_append, List.filterMap_append]
  rfl

theorem opened_append (off : Nat) (ps qs : List Piece) :
    opened off (ps ++ qs) = (opened off ps).or (opened (off + (joined ps).length) qs) := by
  rw [opened, placed_append, List.findSome?_append]
  rfl

theorem mem_of_mem_placed {ps : List Piece} {off : Nat} {q : Nat × Piece} (h : q ∈ placed off ps) :
    q.2 ∈ ps := by
  induction ps generalizing off with
  | nil => cases h
  | cons p ps ih =>
    rcases List.mem_cons.mp h with rfl | h
    · exact List.mem_cons_self ..
    · exact List.mem_cons_of_mem _ (ih h)

theorem tokens_of_trivia {file off : Nat} {ps : List Piece} (h : ∀ p ∈ ps, p.IsTrivia) :
    tokens file off ps = [] := by
  apply List.filterMap_eq_nil_iff.mpr
  rintro ⟨i, p⟩ hp
  have hp := h p (mem_of_mem_placed hp)
  cases p with
  | token => exact hp.elim
  | _ => rfl

end Piece

open Piece

inductive Tiles : Bytes → List Piece → Prop
  | nil : Tiles [] []
  | cons {p : Piece} {rest : Bytes} {ps : List Piece} (hfits : p.Fits rest)
      (htail : Tiles rest ps) :
      Tiles (p.text ++ rest) (p :: ps)

theorem Tiles.eq_joined {s : Bytes} {ps : List Piece} (h : Tiles s ps) : s = joined ps := by
  induction h with
  | nil => rfl
  | cons hfits htail ih => exact congrArg _ ih

theorem Tiles.eq_nil {ps : List Piece} (h : Tiles [] ps) : ps = [] := by
  cases ps with
  | nil => rfl
  | cons p ps =>
    generalize hs : ([] : Bytes) = s at h
    cases h with
    | cons hfits htail => exact absurd (List.append_eq_nil_iff.mp hs.symm).1 (text_ne_nil hfits)

section Trivia

structure Skips (off : Nat) (s : Bytes) (gaps : List Piece) (rest : Bytes) : Prop where
  result : skipTrivia .blank off s = (off + (joined gaps).length, rest, opened off gaps)
  text : s = joined gaps ++ rest
  trivia : ∀ p ∈ gaps, p.IsTrivia
  tiles {ps : List Piece} : Tiles rest ps → Tiles s (gaps ++ ps)
  starts : rest ≠ [] → StartsToken rest ∧ opened off gaps = none

attribute [local simp] skipTrivia

theorem skipTrivia_blank_step {b : UInt8} {off : Nat} {r : Bytes} (h : isBlank b = true) :
    skipTrivia .blank off (b :: r) = skipTrivia .blank (off + 1) r := by
  have hslash : b ≠ 47 := by
    rintro rfl
    exact absurd h (by decide)
  simp [h, hslash]

theorem skipTrivia_line (off : Nat) (s : Bytes) : ∃ body rest, s = body ++ rest ∧ 10 ∉ body ∧
    (rest = [] ∨ rest.head? = some 10) ∧
    skipTrivia .line off s = skipTrivia .blank (off + body.length) rest := by
  induction s generalizing off with
  | nil => exact ⟨[], [], rfl, List.not_mem_nil, .inl rfl, rfl⟩
  | cons b r ih =>
    by_cases hb : b = 10
    · subst hb
      refine ⟨[], 10 :: r, rfl, List.not_mem_nil, .inr rfl, ?_⟩
      rw [List.length_nil, Nat.add_zero, skipTrivia_blank_step (by decide), skipTrivia, if_pos rfl]
    · obtain ⟨body, rest, rfl, hbody, hrest, heq⟩ := ih (off + 1)
      refine ⟨b :: body, rest, rfl, ?_, hrest, ?_⟩
      · exact List.not_mem_cons_of_ne_of_not_mem (Ne.symm hb) hbody
      · rw [skipTrivia, if_neg hb, heq, List.length_cons, Nat.add_right_comm, Nat.add_assoc]

theorem skipTrivia_block (start off : Nat) (s : Bytes) :
    (∃ body rest, s = body ++ 42 :: 47 :: rest ∧ ¬ [42, 47] <:+: body ∧
      skipTrivia (.block start) off s = skipTrivia .blank (off + body.length + 2) rest) ∨
    (¬ [42, 47] <:+: s ∧ skipTrivia (.block start) off s = (off + s.length, [], some start)) := by
  induction s generalizing off with
  | nil => exact .inr ⟨by simp, rfl⟩
  | cons b r ih =>
    by_cases hclose : ∃ r', b :: r = 42 :: 47 :: r'
    · obtain ⟨r', hr'⟩ := hclose
      exact .inl ⟨[], r', hr', by simp, by rw [hr', skipTrivia]; rfl⟩
    · have hstep : skipTrivia (.block start) off (b :: r) = skipTrivia (.block start)
        (off + 1) r := by
        rw [skipTrivia]
        exact fun r' hb hr => hclose ⟨r', by rw [hb, hr]⟩
      rcases ih (off + 1) with ⟨body, rest, rfl, hbody, heq⟩ | ⟨hr, heq⟩
      · refine .inl ⟨b :: body, rest, rfl, ?_, ?_⟩
        · -- a mark at the head of the body would be one at the head of the text
          intro hinfix
          rcases List.infix_cons_iff.mp hinfix with ⟨r', hr'⟩ | hinfix
          · exact hclose ⟨r' ++ 42 :: 47 :: rest, congrArg (· ++ 42 :: 47 :: rest) hr'.symm⟩
          · exact hbody hinfix
        · rw [hstep, heq, List.length_cons, Nat.add_right_comm off, Nat.add_assoc off]
      · refine .inr ⟨?_, ?_⟩
        · intro hinfix
          rcases List.infix_cons_iff.mp hinfix with ⟨r', hr'⟩ | hinfix
          · exact hclose ⟨r', hr'.symm⟩
          · exact hr hinfix
        · rw [hstep, heq, List.length_cons, Nat.add_right_comm off, Nat.add_assoc off]

variable {off : Nat} {p : Piece} {s rest : Bytes} {gaps : List Piece}

theorem Skips.cons
    (hstep : skipTrivia .blank off (p.text ++ s) = skipTrivia .blank (off + p.text.length) s)
    (hfits : p.Fits s) (htrivia : p.IsTrivia) (hclosed : ∀ i, unclosed? (i, p) = none)
    (h : Skips (off + p.text.length) s gaps rest) : Skips off (p.text ++ s) (p :: gaps) rest := by
  have hopened : opened off (p :: gaps) = opened (off + p.text.length) gaps := by
    rw [opened, placed, List.findSome?_cons, hclosed off]
    rfl
  constructor
  case result =>
    rw [hstep, h.result, hopened, joined_cons, List.length_append, Nat.add_assoc]
  case text =>
    rw [joined_cons, List.append_assoc]
    exact congrArg _ h.text
  case trivia => exact List.forall_mem_cons.mpr ⟨htrivia, h.trivia⟩
  case tiles => exact fun hps => .cons hfits (h.tiles hps)
  case starts => exact hopened ▸ h.starts

theorem Skips.end : Skips off [] [] [] where
  result := rfl
  text := rfl
  trivia := List.forall_mem_nil _
  tiles := id
  starts h := absurd rfl h

theorem Skips.unclosed {body : Bytes} (hbody : ¬ [42, 47] <:+: body)
    (hstep : skipTrivia (.block off) (off + 2) body = (off + 2 + body.length, [], some off)) :
    Skips off (47 :: 42 :: body) [.unclosed body] [] := by
  have hjoined : joined [.unclosed body] = 47 :: 42 :: body := List.append_nil _
  constructor
  case result =>
    rw [skipTrivia, hstep, hjoined, List.length_cons, List.length_cons, Nat.add_assoc,
      Nat.add_comm 2]
    rfl
  case text => rw [hjoined, List.append_nil]
  case trivia => exact List.forall_mem_singleton.mpr trivial
  case tiles =>
    intro ps hps
    have := Tiles.cons (p := .unclosed body) ⟨hbody, rfl⟩ hps
    rwa [List.append_nil] at this
  case starts => exact fun h => absurd rfl h

theorem Skips.token (h : StartsToken s) : Skips off s [] s := by
  have hstep : skipTrivia .blank off s = (off, s, none) := by
    cases s with
    | nil => exact h.elim
    | cons b r =>
      obtain ⟨hblank, hcomment⟩ := h
      rw [skipTrivia, if_neg (by rw [hblank]; exact Bool.false_ne_true)]
      · rintro r' rfl rfl
        exact hcomment ⟨rfl, .inl rfl⟩
      · rintro r' rfl rfl
        exact hcomment ⟨rfl, .inr rfl⟩
  exact ⟨hstep, rfl, List.forall_mem_nil _, id, fun _ => ⟨h, rfl⟩⟩

theorem exists_skips (off : Nat) (s : Bytes) : ∃ gaps rest, Skips off s gaps rest := by
  match s with
  | [] => exact ⟨[], [], .end⟩
  | b :: r =>
    by_cases hblank : isBlank b = true
    · obtain ⟨gaps, rest, h⟩ := exists_skips (off + 1) r
      exact ⟨.blank b :: gaps, rest, h.cons (p := .blank b) (skipTrivia_blank_step hblank) hblank
        trivial fun _ => rfl⟩
    by_cases hcomment : b = 47 ∧ (r.head? = some 47 ∨ r.head? = some 42)
    · obtain ⟨rfl, hline | hblock⟩ := hcomment
      · obtain ⟨r, rfl⟩ := List.head?_eq_some_iff.mp hline
        obtain ⟨body, rest, rfl, hbody, hend, heq⟩ := skipTrivia_line (off + 2) r
        obtain ⟨gaps, rest', h⟩ := exists_skips (off + (Piece.line body).text.length) rest
        have hlen : off + 2 + body.length = off + (Piece.line body).text.length := by
          simp only [Piece.text, List.length_cons]
          omega
        have hstep : skipTrivia .blank off ((Piece.line body).text ++ rest) =
            skipTrivia .blank (off + (Piece.line body).text.length) rest := hlen ▸ heq
        exact ⟨.line body :: gaps, rest', h.cons hstep ⟨hbody, hend⟩ trivial fun _ => rfl⟩
      · obtain ⟨r, rfl⟩ := List.head?_eq_some_iff.mp hblock
        rcases skipTrivia_block off (off + 2) r with ⟨body, rest, rfl, hbody, heq⟩ | ⟨hbody, heq⟩
        · obtain ⟨gaps, rest', h⟩ := exists_skips (off + (Piece.block body).text.length) rest
          have hlen : off + 2 + body.length + 2 = off + (Piece.block body).text.length := by
            simp only [Piece.text, List.length_cons, List.length_append, List.length_nil]
            omega
          have htext : 47 :: 42 :: (body ++ 42 :: 47 :: rest) =
            (Piece.block body).text ++ rest := by
            simp only [Piece.text, List.cons_append, List.append_assoc, List.nil_append]
          rw [htext]
          refine ⟨.block body :: gaps, rest', h.cons ?_ hbody trivial fun _ => rfl⟩
          rw [← htext, ← hlen, skipTrivia]
          exact heq
        · exact ⟨_, _, .unclosed hbody heq⟩
    · exact ⟨[], b :: r, .token ⟨Bool.eq_false_iff.mpr hblank, hcomment⟩⟩
termination_by s.length

end Trivia

section Scanning

theorem punct_ne {k : Kind} (hk : k ∈ [.eof, .ident, .intLit]) (b : UInt8) (next : Option UInt8) :
    (punct b next).1 ≠ k := by
  simp only [List.mem_cons, List.not_mem_nil, or_false] at hk
  unfold punct
  split <;> rcases hk with rfl | rfl | rfl <;> exact nofun

theorem keyword_ne {k : Kind} (hk : k ∈ [.eof, .intLit, .invalid]) (word : String) :
    (Kind.keyword? word).getD .ident ≠ k := by
  rintro rfl
  cases h : Kind.keyword? word with
  | none =>
    rw [h] at hk
    exact absurd hk (by decide)
  | some k =>
    rw [h] at hk
    have hkeyword : k ∈ Kind.keywords := List.mem_of_find?_eq_some h
    revert hk hkeyword
    cases k <;> decide

theorem exists_lexeme (b : UInt8) (r : Bytes) : ∃ kind w after,
    r = w ++ after ∧ lexeme b r = (kind, b :: w) ∧ kind ≠ .eof := by
  unfold lexeme
  split
  · exact ⟨_, _, _, (List.takeWhile_append_dropWhile ..).symm, rfl, keyword_ne (by decide) _⟩
  split
  · refine ⟨_, _, _, (List.takeWhile_append_dropWhile ..).symm, rfl, ?_⟩
    split <;> exact nofun
  · exact ⟨_, _, _, (List.take_append_drop ..).symm, rfl, punct_ne (by decide) b r.head?⟩

def endOf (file len : Nat) : Token := ⟨.eof, ⟨file, len, len⟩, []⟩

def owed (t : Token) : List Diagnostic :=
  if t.kind = .invalid then [(problem t.text).located t.span] else []

/-- What is reported about a comment that is opened at `start` and not closed in a file of `len`
bytes. -/
def owedOpen (file len : Nat) (start : Option Nat) : List Diagnostic :=
  start.toList.map fun start => Problem.unclosedComment.located ⟨file, start, len⟩

variable {file off : Nat} {s rest : Bytes} {gaps : List Piece}

theorem scan_end (h : Skips off s gaps []) : Lexeme.scan file off s =
    ⟨owedOpen file (off + s.length) (opened off gaps), endOf file (off + s.length)⟩ := by
  have hlen : (joined gaps).length = s.length := by rw [h.text, List.append_nil]
  rw [Lexeme.scan, h.result, hlen]
  cases opened off gaps <;> rfl

theorem scan_token {b : UInt8} {r w : Bytes} {kind : Kind} (h : Skips off s gaps (b :: r))
    (hlexeme : lexeme b r = (kind, b :: w)) :
    let start := off + (joined gaps).length
    let t : Token := ⟨kind, ⟨file, start, start + (b :: w).length⟩, b :: w⟩
    Lexeme.scan file off s = ⟨owed t, t⟩ := by
  have hopened := (h.starts (List.cons_ne_nil b r)).2
  intro start t
  rw [Lexeme.scan, h.result, hopened]
  dsimp only
  rw [hlexeme]
  rfl

theorem scanAll_skip (file : Nat) (s : Bytes) : ∀ k off, k ≤ s.length →
    Lexeme.scanAll file k off s = Lexeme.scanAll file 0 (off + k) (s.drop k) := by
  induction s with
  | nil =>
    intro k off hk
    obtain rfl : k = 0 := Nat.le_zero.mp hk
    rfl
  | cons b s ih =>
    rintro (_ | k) off hk
    · rfl
    · rw [Lexeme.scanAll, ih k (off + 1) (Nat.le_of_succ_le_succ hk), Nat.add_right_comm,
        Nat.add_assoc, List.drop_succ_cons]

theorem scanAll_step {l : Lexeme} {front after : Bytes} (hs : s = front ++ after)
    (hfront : front ≠ []) (hscan : Lexeme.scan file off s = l) (hkind : l.token.kind ≠ .eof)
    (hstop : l.token.span.stop = off + front.length) :
    Lexeme.scanAll file 0 off s = l :: Lexeme.scanAll file 0 (off + front.length) after := by
  obtain ⟨b, front, rfl⟩ := List.exists_cons_of_ne_nil hfront
  subst hs
  have hskip : off + (b :: front).length - off - 1 = front.length := by
    rw [Nat.add_sub_cancel_left, List.length_cons, Nat.add_sub_cancel]
  have hlength : front.length ≤ (front ++ after).length := by
    rw [List.length_append]
    exact Nat.le_add_right ..
  rw [List.cons_append] at hscan ⊢
  rw [Lexeme.scanAll, hscan, if_neg hkind, hstop, hskip, scanAll_skip file _ _ _ hlength,
    List.drop_left,
    List.length_cons, Nat.add_assoc, Nat.add_comm 1]

def lexed (file off : Nat) (ps : List Piece) : List Lexeme :=
  (tokens file off ps).map (fun t => ⟨owed t, t⟩) ++
    [⟨owedOpen file (off + (joined ps).length) (opened off ps),
      endOf file (off + (joined ps).length)⟩]

theorem lexed_token {ps : List Piece} {kind : Kind} {text : Bytes}
    (htrivia : ∀ p ∈ gaps, p.IsTrivia) (hopened : opened off gaps = none) :
    let start := off + (joined gaps).length
    let t : Token := ⟨kind, ⟨file, start, start + text.length⟩, text⟩
    lexed file off (gaps ++ .token kind text :: ps) = ⟨owed t, t⟩ :: lexed file
      (start + text.length) ps := by
  intro start t
  have htokens : tokens file off (gaps ++ .token kind text :: ps) = t :: tokens file
    (start + text.length) ps := by
    rw [tokens_append, tokens_of_trivia htrivia]
    rfl
  have hopen : opened off (gaps ++ .token kind text :: ps) = opened (start + text.length) ps := by
    rw [opened_append, hopened]
    rfl
  have hlen : off + (joined (gaps ++ .token kind text :: ps)).length = start + text.length +
    (joined ps).length := by
    rw [joined, List.flatMap_append, List.length_append, ← Nat.add_assoc, Nat.add_assoc start,
      ← List.length_append]
    rfl
  rw [lexed, htokens, hopen, hlen]
  rfl

/-- The lexer cuts every text into pieces. -/
theorem scanAll_tiles (file off : Nat) (s : Bytes) : ∃ ps, Tiles s ps ∧
    Lexeme.scanAll file 0 off s = lexed file off ps := by
  obtain ⟨gaps, rest, hskips⟩ := exists_skips off s
  cases rest with
  | nil =>
    have htiles : Tiles s gaps := by simpa using hskips.tiles .nil
    refine ⟨gaps, htiles, ?_⟩
    have hlexed : lexed file off gaps = [Lexeme.scan file off s] := by
      rw [scan_end hskips, lexed, tokens_of_trivia hskips.trivia, ← htiles.eq_joined]
      rfl
    cases s with
    | nil => rw [hlexed, Lexeme.scanAll]
    | cons b r => rw [hlexed, Lexeme.scanAll, if_pos (by rw [scan_end hskips]; rfl)]
  | cons b r =>
    obtain ⟨kind, w, after, rfl, hlexeme, hkind⟩ := exists_lexeme b r
    obtain ⟨hstarts, hopened⟩ := hskips.starts (List.cons_ne_nil b _)
    have hshorter : after.length < s.length := by
      rw [hskips.text]
      simp only [List.length_append, List.length_cons]
      omega
    obtain ⟨ps, hps, heq⟩ := scanAll_tiles file (off + (joined gaps).length + (b :: w).length) after
    have hpiece : (Piece.token kind (b :: w)).Fits after := ⟨hstarts, b, w, rfl, hlexeme⟩
    refine ⟨gaps ++ .token kind (b :: w) :: ps, hskips.tiles (.cons hpiece hps), ?_⟩
    have htext : s = (joined gaps ++ b :: w) ++ after :=
      by rw [hskips.text, List.append_assoc, List.cons_append]
    have hlen : off + (joined gaps ++ b :: w).length = off + (joined gaps).length +
      (b :: w).length := by
      rw [List.length_append, Nat.add_assoc]
    rw [scanAll_step htext (List.append_ne_nil_of_right_ne_nil _ (List.cons_ne_nil b w))
      (scan_token hskips hlexeme) hkind hlen.symm,
      hlen, heq, lexed_token hskips.trivia hopened]
termination_by s.length

/-- A slash behind an opening mark does not close the comment. -/
example : lexemes 0 [97, 47, 42, 47] = lexed 0 0 [.token .ident [97], .unclosed [47]] := by rfl

end Scanning

section Places
variable {off : Nat} {s : Bytes} {ps : List Piece} {q : Nat × Piece}

theorem le_of_mem_placed (h : q ∈ placed off ps) : off ≤ q.1 := by
  induction ps generalizing off with
  | nil => cases h
  | cons p ps ih =>
    rcases List.mem_cons.mp h with rfl | h
    · exact Nat.le_refl off
    · exact Nat.le_trans (Nat.le_add_right ..) (ih h)

theorem pairwise_placed (off : Nat) (ps : List Piece) :
    (placed off ps).Pairwise fun q q' => q.1 + q.2.text.length ≤ q'.1 := by
  induction ps generalizing off with
  | nil => exact .nil
  | cons p ps ih => exact .cons (fun q' h => le_of_mem_placed h) (ih _)

/-- A piece is what the text has where the piece is placed, and fits what comes behind it. -/
theorem Tiles.stands (h : Tiles s ps) (hq : q ∈ placed off ps) : ∃ before after,
    s = before ++ q.2.text ++ after ∧ q.1 = off + before.length ∧ q.2.Fits after := by
  induction h generalizing off with
  | nil => cases hq
  | @cons p rest ps hfits htail ih =>
    rcases List.mem_cons.mp hq with rfl | hq
    · exact ⟨[], rest, rfl, rfl, hfits⟩
    · obtain ⟨before, after, rfl, hoff, hafter⟩ := ih hq
      refine ⟨p.text ++ before, after, ?_, ?_, hafter⟩
      · simp only [List.append_assoc]
      · rw [hoff, List.length_append, Nat.add_assoc]

/-- Every byte of the text is in a piece. -/
theorem Tiles.covers (h : Tiles s ps) {i : Nat} (hle : off ≤ i) (hlt : i < off + s.length) :
    ∃ q ∈ placed off ps, q.1 ≤ i ∧ i < q.1 + q.2.text.length := by
  induction h generalizing off with
  | nil => exact absurd hlt (Nat.not_lt.mpr hle)
  | @cons p rest ps hfits htail ih =>
    by_cases hi : i < off + p.text.length
    · exact ⟨(off, p), List.mem_cons_self .., hle, hi⟩
    · rw [List.length_append, ← Nat.add_assoc] at hlt
      obtain ⟨q, hq, hin⟩ := ih (Nat.not_lt.mp hi) hlt
      exact ⟨q, List.mem_cons_of_mem _ hq, hin⟩

theorem opened_eq_some_iff {start : Nat} (h : Tiles s ps) :
    opened off ps = some start ↔ ∃ body, (start, Piece.unclosed body) ∈ placed off ps := by
  constructor
  · intro hopened
    obtain ⟨⟨i, p⟩, hq, hp⟩ := List.exists_of_findSome?_eq_some hopened
    cases p with
    | unclosed body =>
      obtain rfl := Option.some.inj hp
      exact ⟨body, hq⟩
    | _ => cases hp
  · rintro ⟨body, hq⟩
    induction h generalizing off with
    | nil => cases hq
    | @cons p rest ps hfits htail ih =>
      rcases List.mem_cons.mp hq with heq | hq
      · obtain ⟨rfl, rfl⟩ := Prod.mk.inj heq
        rfl
      · have hrest : rest ≠ [] := by
          rintro rfl
          obtain rfl := htail.eq_nil
          cases hq
        rw [opened, placed, List.findSome?_cons]
        cases p with
        | unclosed body' => exact absurd hfits.2 hrest
        | _ => exact ih hq

theorem Tiles.token {file : Nat} {t : Token} (h : Tiles s ps) (ht : t ∈ tokens file 0 ps) :
    t.kind ≠ .eof ∧ t.span.file = file ∧ t.span.start < t.span.stop ∧ t.span.stop ≤ s.length ∧
      t.text = s.extract t.span.start t.span.stop := by
  obtain ⟨⟨i, p⟩, hq, hp⟩ := List.mem_filterMap.mp ht
  obtain ⟨before, after, rfl, hi, hfits⟩ := h.stands hq
  cases p with
  | token kind text =>
    obtain rfl := Option.some.inj hp
    obtain rfl : i = before.length := hi.trans (Nat.zero_add _)
    obtain ⟨-, b, r, rfl, hlexeme⟩ := hfits
    obtain ⟨kind', w, after', -, hlexeme', hkind⟩ := exists_lexeme b (r ++ after)
    obtain ⟨rfl, -⟩ := Prod.mk.inj (hlexeme.symm.trans hlexeme')
    refine ⟨hkind, rfl, Nat.lt_add_of_pos_right (Nat.zero_lt_succ _), ?_, ?_⟩
    · simp only [Piece.text, List.length_append]
      exact Nat.le_add_right ..
    · simp [Piece.text]
  | _ => cases hp

theorem pairwise_tokens (file off : Nat) (ps : List Piece) :
    (tokens file off ps).Pairwise fun t t' => t.span.stop ≤ t'.span.start := by
  refine List.pairwise_filterMap.mpr ((pairwise_placed off ps).imp ?_)
  rintro ⟨i, p⟩ ⟨i', p'⟩ hle t ht t' ht'
  cases p with
  | token kind text =>
    cases p' with
    | token kind' text' =>
      obtain rfl := Option.some.inj ht
      obtain rfl := Option.some.inj ht'
      exact hle
    | _ => cases ht'
  | _ => cases ht

/-- A byte outside the tokens is in a blank or in a comment. -/
theorem Tiles.covered {i : Nat} (file : Nat) (h : Tiles s ps) (hi : i < s.length) :
    (∃ t ∈ tokens file 0 ps, t.span.start ≤ i ∧ i < t.span.stop) ∨
      ∃ q ∈ placed 0 ps, q.2.IsTrivia ∧ q.1 ≤ i ∧ i < q.1 + q.2.text.length := by
  obtain ⟨⟨start, p⟩, hq, hin⟩ := h.covers (Nat.zero_le i) (by rwa [Nat.zero_add])
  cases p with
  | token kind text => exact .inl ⟨_, List.mem_filterMap.mpr ⟨_, hq, rfl⟩, hin⟩
  | _ => exact .inr ⟨_, hq, trivial, hin⟩

end Places

end Sysy.Token
