import Mathlib.Data.List.GetD
import Sysy.Proofs.Token.Tiling

/-!
A file is read the same however far its reader looks ahead.

A reader asks for tokens with `peek`, which leaves the token where it is, and with `next`. `Reads`
says how far a stream has been read and which tokens have been looked at; a call moves both by what
it asks for, and what a reader gets depends on the number of tokens it took before.
-/

namespace Sysy.Token
open Piece

inductive Call where
  | peek
  | next
  deriving DecidableEq

/-- How many tokens some calls look at: those they take, and the one that the last call asks for. -/
def Call.seen (calls : List Call) : Nat :=
  if calls = [] then 0 else calls.dropLast.count .next + 1

def Call.taken : List Call → List Token → List Token
  | .next :: calls, t :: ts => t :: taken calls ts
  | .peek :: calls, _ :: ts => taken calls ts
  | _, _ => []

end Sysy.Token

namespace Sysy.TokenStream
open Token Piece

def call (s : TokenStream) : Call → Token × TokenStream
  | .peek => (s.token, s.look)
  | .next => (s.token, s.advance)

/-- The answers to some calls, one after the other, and the stream that is left. -/
def drive (s : TokenStream) : List Call → List Token × TokenStream
  | [] => ([], s)
  | c :: calls =>
    let (t, s') := s.call c
    let (ts, s'') := s'.drive calls
    (t :: ts, s'')

theorem drive_cons (s : TokenStream) (c : Call) (calls : List Call) :
    s.drive (c :: calls) = ((s.call c).1 :: ((s.call c).2.drive calls).1,
      ((s.call c).2.drive calls).2) := rfl

end Sysy.TokenStream

namespace Sysy.Token
open Piece

section Reading
variable {ls : List Lexeme} {last : Lexeme} {n seen : Nat} {s : TokenStream}

/-- A stream over the lexemes `ls` and `last` from which `n` tokens were asked for, and of which
`seen` were looked at. The last lexeme is never taken. -/
structure Reads (ls : List Lexeme) (last : Lexeme) (n seen : Nat) (s : TokenStream) : Prop where
  ahead : s.ahead = (ls ++ [last]).drop (min n ls.length)
  count : seen = min n ls.length + if s.looked then 1 else 0
  reported : s.reported.toList = ((ls ++ [last]).take seen).flatMap (·.problems)

structure Ended (ls : List Lexeme) (last : Lexeme) : Prop where
  inner : ∀ l ∈ ls, l.token.kind ≠ .eof
  last : last.token.kind = .eof

theorem Reads.ahead_of_lt (h : Reads ls last n seen s) (hn : n < ls.length) :
    s.ahead = ls[n] :: (ls ++ [last]).drop (n + 1) := by
  have hlt : n < (ls ++ [last]).length := by
    rw [List.length_append]
    exact Nat.lt_add_right _ hn
  rw [h.ahead, Nat.min_eq_left (Nat.le_of_lt hn), List.drop_eq_getElem_cons hlt,
    List.getElem_append_left hn]

theorem Reads.ahead_of_ge (h : Reads ls last n seen s) (hn : ls.length ≤ n) : s.ahead = [last] := by
  rw [h.ahead, Nat.min_eq_right hn, List.drop_left]

theorem Reads.token (h : Reads ls last n seen s) : s.token = (ls.getD n last).token := by
  unfold TokenStream.token
  by_cases hn : n < ls.length
  · rw [h.ahead_of_lt hn, List.getD_eq_getElem _ _ hn]
  · rw [h.ahead_of_ge (Nat.not_lt.mp hn), List.getD_eq_default _ _ (Nat.not_lt.mp hn)]

theorem Reads.look (h : Reads ls last n seen s) : Reads ls last n (min n ls.length + 1) s.look := by
  unfold TokenStream.look
  by_cases hlooked : s.looked = true
  · have hseen : seen = min n ls.length + 1 := by rw [h.count, if_pos hlooked]
    rw [if_pos hlooked, ← hseen]
    exact h
  · have hseen : seen = min n ls.length := by rw [h.count, if_neg hlooked, Nat.add_zero]
    rw [if_neg hlooked]
    refine ⟨h.ahead, rfl, ?_⟩
    show (s.reported ++ ((s.ahead.take 1).flatMap (·.problems)).toArray).toList = _
    rw [Array.toList_append, h.reported, hseen, h.ahead, List.take_add, List.flatMap_append]

theorem Reads.advance (hended : Ended ls last) (h : Reads ls last n seen s) :
    Reads ls last (n + 1) (min n ls.length + 1) s.advance := by
  have hlook := h.look
  by_cases hn : n < ls.length
  · have hkind : s.look.token.kind ≠ .eof := by
      rw [hlook.token, List.getD_eq_getElem _ _ hn]
      exact hended.inner _ (List.getElem_mem hn)
    have hadvance : s.advance = { s.look with ahead := s.look.ahead.tail, looked := false } :=
      if_neg hkind
    have hmin : min (n + 1) ls.length = min n ls.length + 1 := by
      rw [Nat.min_eq_left hn, Nat.min_eq_left (Nat.le_of_lt hn)]
    rw [hadvance]
    constructor
    case ahead => rw [hlook.ahead_of_lt hn, Nat.min_eq_left hn, List.tail_cons]
    case count => exact hmin.symm
    case reported => exact hlook.reported
  · -- the end of the file stays where it is
    have hge : ls.length ≤ n := Nat.not_lt.mp hn
    have hkind : s.look.token.kind = .eof := by
      rw [hlook.token, List.getD_eq_default _ _ hge]
      exact hended.last
    have hadvance : s.advance = s.look := if_pos hkind
    have hmin : min (n + 1) ls.length = min n ls.length := by
      rw [Nat.min_eq_right hge, Nat.min_eq_right (Nat.le_succ_of_le hge)]
    rw [hadvance]
    exact ⟨hmin ▸ hlook.ahead, hmin ▸ hlook.count, hlook.reported⟩

theorem Reads.call (hended : Ended ls last) (h : Reads ls last n seen s) (c : Call) :
    (s.call c).1 = (ls.getD n last).token ∧
      Reads ls last (n + [c].count .next) (min n ls.length + 1) (s.call c).2 := by
  cases c with
  | peek => exact ⟨h.token, h.look⟩
  | next => exact ⟨h.token, h.advance hended⟩

theorem Call.count_cons (c : Call) (calls : List Call) :
    (c :: calls).count .next = [c].count .next + calls.count .next := by
  rw [← List.count_append, List.singleton_append]

/-- What a reader gets, and how far it comes, when it asks for one token after the other. -/
theorem Reads.drive (hended : Ended ls last) (calls : List Call) (h : Reads ls last n seen s) :
    (s.drive calls).1 = (List.range calls.length).map
        (fun i => (ls.getD (n + (calls.take i).count .next) last).token) ∧
      (calls ≠ [] → Reads ls last (n + calls.count .next)
        (min (n + calls.dropLast.count .next) ls.length + 1) (s.drive calls).2) := by
  induction calls generalizing n seen s with
  | nil => exact ⟨rfl, fun h => absurd rfl h⟩
  | cons c calls ih =>
    obtain ⟨htoken, hnext⟩ := h.call hended c
    obtain ⟨htokens, hrest⟩ := ih hnext
    constructor
    · rw [TokenStream.drive_cons, htoken, htokens, List.length_cons, List.range_succ_eq_map,
        List.map_cons, List.map_map]
      refine congrArg (List.cons _) (List.map_congr_left fun i _ => ?_)
      show _ = (ls.getD (n + ((c :: calls).take (i + 1)).count .next) last).token
      rw [List.take_succ_cons, Call.count_cons c (calls.take i), Nat.add_assoc]
    · intro _
      cases calls with
      | nil => exact hnext
      | cons c' calls =>
        have hcalls := hrest (List.cons_ne_nil c' calls)
        rw [Nat.add_assoc, Nat.add_assoc, ← Call.count_cons, ← Call.count_cons] at hcalls
        exact hcalls

/-- Looking ahead does not change what is taken. -/
theorem Reads.taken (hended : Ended ls last) (calls : List Call) {seen' : Nat} {s' : TokenStream}
    (h : Reads ls last n seen s) (h' : Reads ls last n seen' s') :
    Call.taken calls (s.drive calls).1 = (s'.drive (calls.filter (· = .next))).1 := by
  induction calls generalizing n seen s seen' s' with
  | nil => rfl
  | cons c calls ih =>
    obtain ⟨htoken, hnext⟩ := h.call hended c
    cases c with
    | peek => exact ih hnext h'
    | next =>
      obtain ⟨htoken', hnext'⟩ := h'.call hended .next
      rw [List.filter_cons_of_pos (by decide)]
      exact congrArg₂ List.cons (htoken.trans htoken'.symm) (ih hnext hnext')

theorem Reads.taken_eq_map (hended : Ended ls last) (calls : List Call)
    (h : Reads ls last n seen s) :
    Call.taken calls (s.drive calls).1 = (List.range (calls.count .next)).map
      (fun i => (ls.getD (n + i) last).token) := by
  induction calls generalizing n seen s with
  | nil => rfl
  | cons c calls ih =>
    obtain ⟨htoken, hnext⟩ := h.call hended c
    cases c with
    | peek => exact ih hnext
    | next =>
      have hcount : (Call.next :: calls).count .next = calls.count .next + 1 := List.count_cons_self
      rw [hcount, List.range_succ_eq_map, List.map_cons, List.map_map]
      refine congrArg₂ List.cons htoken ((ih hnext).trans ?_)
      apply List.map_congr_left
      intro i _
      show (ls.getD (n + 1 + i) last).token = (ls.getD (n + (i + 1)) last).token
      rw [Nat.add_assoc, Nat.add_comm 1]

end Reading

section File
variable {file : Nat} {content : Bytes} {ps : List Piece}

/-- What is reported when `seen` tokens of a text are looked at, whose end is looked at last. -/
def reports (file len : Nat) (ps : List Piece) (seen : Nat) : List Diagnostic :=
  ((tokens file 0 ps).take seen).flatMap owed ++
    if (tokens file 0 ps).length < seen then owedOpen file len (opened 0 ps) else []

def inner (file : Nat) (ps : List Piece) : List Lexeme :=
  (tokens file 0 ps).map fun t => ⟨owed t, t⟩

def final (file len : Nat) (ps : List Piece) : Lexeme :=
  ⟨owedOpen file len (opened 0 ps), endOf file len⟩

theorem ended_of_tiles (h : Tiles content ps) :
    Ended (inner file ps) (final file content.length ps) where
  inner l hl := by
    obtain ⟨t, ht, rfl⟩ := List.mem_map.mp hl
    exact (h.token ht).1
  last := rfl

theorem reads_ofFile (h : Tiles content ps)
    (hscan : Lexeme.scanAll file 0 0 content = lexed file 0 ps) :
    Reads (inner file ps) (final file content.length ps) 0 0 (TokenStream.ofFile file content) := by
  have hlexed : lexed file 0 ps = inner file ps ++ [final file content.length ps] := by
    rw [lexed, ← h.eq_joined, Nat.zero_add]
    rfl
  constructor
  case ahead =>
    rw [Nat.zero_min, List.drop_zero, ← hlexed, ← hscan]
    rfl
  case count => exact (Nat.zero_min (inner file ps).length).symm
  case reported => rfl

theorem getD_inner (file len : Nat) (ps : List Piece) (i : Nat) :
    ((inner file ps).getD i (final file len ps)).token = (tokens file 0 ps).getD i
      (endOf file len) := by
  rw [inner, List.getD_eq_getElem?_getD, List.getElem?_map, List.getD_eq_getElem?_getD]
  cases (tokens file 0 ps)[i]? <;> rfl

theorem flatMap_inner (ts : List Token) :
    (ts.map fun t => (⟨owed t, t⟩ : Lexeme)).flatMap (·.problems) = ts.flatMap owed :=
  List.flatMap_map ..

theorem reports_succ (file len : Nat) (ps : List Piece) (n : Nat) :
    ((inner file ps ++ [final file len ps]).take (min n (inner file ps).length + 1)).flatMap
      (·.problems) = reports file len ps (n + 1) := by
  have hlen : (inner file ps).length = (tokens file 0 ps).length := List.length_map _
  by_cases hn : n < (tokens file 0 ps).length
  · have hle : n + 1 ≤ (inner file ps).length := hlen ▸ hn
    rw [Nat.min_eq_left (Nat.le_of_succ_le hle), List.take_append_of_le_length hle, reports,
      if_neg (Nat.not_lt.mpr hn), List.append_nil, inner, ← List.map_take, flatMap_inner]
  · have hge : (tokens file 0 ps).length ≤ n := Nat.not_lt.mp hn
    have hall : (inner file ps ++ [final file len ps]).length = (inner file ps).length + 1 :=
      List.length_append
    rw [Nat.min_eq_right (hlen ▸ hge), ← hall, List.take_length, List.flatMap_append, inner,
      flatMap_inner,
      reports, if_pos (Nat.lt_succ_of_le hge), List.take_of_length_le (Nat.le_succ_of_le hge)]
    exact congrArg _ (List.append_nil _)

/-- However a file is read, its tokens are taken in order and its end at last again and again. The
tokens are stretches of the file, and every byte outside them is a blank or in a comment. -/
theorem drive_tiles (file : Nat) (content : Bytes) : ∃ ps, Tiles content ps ∧
    (∀ t ∈ tokens file 0 ps, t.kind ≠ .eof ∧ t.span.file = file ∧ t.span.start < t.span.stop ∧
      t.span.stop ≤ content.length ∧ t.text = content.extract t.span.start t.span.stop) ∧
    ((tokens file 0 ps).Pairwise fun t t' => t.span.stop ≤ t'.span.start) ∧
    (∀ i < content.length, (∃ t ∈ tokens file 0 ps, t.span.start ≤ i ∧ i < t.span.stop) ∨
      ∃ q ∈ placed 0 ps, q.2.IsTrivia ∧ q.1 ≤ i ∧ i < q.1 + q.2.text.length) ∧
    (∀ start, opened 0 ps = some start ↔ ∃ body, (start, Piece.unclosed body) ∈ placed 0 ps) ∧
    ∀ calls : List Call,
      let token (i : Nat) : Token := (tokens file 0 ps).getD i (endOf file content.length)
      let run := (TokenStream.ofFile file content).drive calls
      run.1 = (List.range calls.length).map (fun i => token ((calls.take i).count .next)) ∧
      Call.taken calls run.1 = (List.range (calls.count .next)).map token ∧
      Call.taken calls run.1 =
        ((TokenStream.ofFile file content).drive (calls.filter (· = .next))).1 ∧
      run.2.reported.toList = reports file content.length ps (Call.seen calls) := by
  obtain ⟨ps, htiles, hscan⟩ := scanAll_tiles file 0 content
  refine ⟨ps, htiles, fun t ht => htiles.token ht, pairwise_tokens file 0 ps,
    fun i hi => htiles.covered file hi,
    fun start => opened_eq_some_iff htiles, ?_⟩
  intro calls token run
  have hended : Ended (inner file ps) (final file content.length ps) := ended_of_tiles htiles
  have hreads := reads_ofFile htiles hscan
  obtain ⟨hanswers, hend⟩ := hreads.drive hended calls
  refine ⟨?_, ?_, hreads.taken hended calls hreads, ?_⟩
  · simpa only [getD_inner, Nat.zero_add] using hanswers
  · simpa only [getD_inner, Nat.zero_add] using hreads.taken_eq_map hended calls
  · cases calls with
    | nil => rfl
    | cons c calls =>
      have hreported := (hend (List.cons_ne_nil c calls)).reported
      rw [Nat.zero_add, reports_succ] at hreported
      exact hreported

end File

end Sysy.Token
