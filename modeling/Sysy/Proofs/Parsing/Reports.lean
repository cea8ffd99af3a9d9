import Sysy.Proofs.Parsing.Limits
import Sysy.Proofs.Token.Tiling

/-!
A file about which nothing is reported is read as a whole: its items account for all of its tokens,
whatever the limit on the number of errors is.
-/

namespace Sysy.Parser
open Token Grammar

/-- Nothing is wrong with the tokens of a file, and all of them, from the first one to the end of
the file, make up the items. -/
structure Accounts (file : Nat) (content : Bytes) (is : List Item) : Prop where
  lexed : ∀ l ∈ lexemes file content, l.problems = []
  items : IsItems (sentence file content) is

theorem located_lexemes (file : Nat) (content : Bytes) : Located (lexemes file content) := by
  obtain ⟨ps, -, hscan⟩ := scanAll_tiles file 0 content
  intro l hl d hd
  rw [lexemes, hscan, lexed] at hl
  rcases List.mem_append.mp hl with hl | hl
  · obtain ⟨t, -, rfl⟩ := List.mem_map.mp hl
    simp only [owed] at hd
    split at hd
    · exact ⟨_, _, List.mem_singleton.mp hd⟩
    · cases hd
  · obtain rfl := List.mem_singleton.mp hl
    obtain ⟨start, -, rfl⟩ := List.mem_map.mp hd
    exact ⟨_, _, rfl⟩

section Files
variable {file : Nat} {content : Bytes} {limit : Nat}

def start (file limit : Nat) (tokens : List Lexeme) : Cursor :=
  { ahead := tokens, last := { file := file }, limit := limit }

def stop (file limit : Nat) (tokens : List Lexeme) : Cursor :=
  ((program (depthBound tokens.length)).run.run (start file limit tokens)).2

theorem reported_parse (file limit : Nat) (tokens : List Lexeme) :
    (parse file limit tokens).reported = (stop file limit tokens).reported.toList := rfl

theorem errors_parse (file limit : Nat) (tokens : List Lexeme) :
    (parse file limit tokens).errors = (stop file limit tokens).errors := rfl

theorem heard_start (file limit : Nat) (ls : List Lexeme) : Heard ls (start file limit ls) where
  passed := ⟨[], rfl, List.forall_mem_nil _⟩
  ahead h := by cases h
  first := .inl rfl
  sources := List.forall_mem_nil _

theorem heard_stop (file limit : Nat) (content : Bytes) :
    Heard (lexemes file content) (stop file limit (lexemes file content)) :=
  (Built.program _).heard (located_lexemes file content) (heard_start ..)

theorem stop_under {tokens : List Lexeme} (h : (stop file limit tokens).errors = 0) (limit' : Nat) :
    stop file limit' tokens = (stop file limit tokens).under limit' ∧
      (parse file limit' tokens).program = (parse file limit tokens).program := by
  have hrun := (Built.program (depthBound tokens.length)).agrees limit' (start file limit tokens) h
  have hstart : (start file limit tokens).under limit' = start file limit' tokens := rfl
  rw [hstart] at hrun
  refine ⟨congrArg Prod.snd hrun, ?_⟩
  have hprogram (n : Nat) : (parse file n tokens).program =
      ((program (depthBound tokens.length)).run.run (start file n tokens)).1.getD
        { span := {}, items := [] } := rfl
  rw [hprogram, hprogram, hrun]

theorem looked_program {b : Nat} {c c' : Cursor} {p : Program}
    (h : (program b).run.run c = (some p, c')) :
    c'.looked = true := by
  obtain ⟨first, c₁, -, h⟩ := exists_of_run_bind h
  obtain ⟨is, c₂, -, h⟩ := exists_of_run_bind h
  obtain ⟨last, c₃, hpeek, h⟩ := exists_of_run_bind h
  obtain rfl : c₃ = c' := congrArg Prod.snd h
  obtain rfl : c₂.look = c₃ := congrArg Prod.snd hpeek
  exact looked_look _

theorem ends_program (file : Nat) (content : Bytes) :
    Ends (program (depthBound (lexemes file content).length)) (atStart file (lexemes file content))
      (fun _ v => 0 < v.errors ∨ ∃ t, v.tokens = [t]) fun _ => False := by
  rw [program]
  refine Ends.peek (Ends.bind (sound_items _ _) fun is v hread => Ends.peek (Ends.pure ?_))
  rcases hread.2 (room_atStart file _) with hlt | ⟨ts, -, htook, heof⟩
  · exact .inl (Nat.zero_lt_of_lt hlt)
  · obtain ⟨last, hlast, htokens, hinner⟩ := tokens_lexemes file content
    have hcut := htook.tokens
    rw [atStart, htokens] at hcut
    rw [View.kind_token] at heof
    obtain rfl := eq_of_append_eof hlast hinner htook.inner heof hcut
    exact .inr ⟨last, (List.append_cancel_left hcut).symm⟩

theorem ahead_stop (h : (stop file limit (lexemes file content)).errors = 0) :
    (stop file limit (lexemes file content)).looked = true ∧
      ∃ l, (stop file limit (lexemes file content)).ahead = [l] := by
  obtain ⟨hstop, -⟩ := stop_under h 0
  have hrun := ends_program file content (start file 0 (lexemes file content)) rfl
  have hcursor : ((program (depthBound (lexemes file content).length)).run.run
    (start file 0 (lexemes file content))).2 =
    (stop file limit (lexemes file content)).under 0 := hstop
  generalize hx : (program _).run.run (start file 0 (lexemes file content)) = x at hrun hcursor
  match x with
  | (some p, c) =>
    obtain rfl : c = (stop file limit (lexemes file content)).under 0 := hcursor
    have hlooked : ((stop file limit (lexemes file content)).under 0).looked = true :=
      looked_program hx
    obtain ⟨t, ht⟩ := hrun.resolve_left (Nat.not_lt.mpr (Nat.le_of_eq h))
    obtain ⟨l, hl, -⟩ := List.map_eq_singleton_iff.mp ht
    exact ⟨hlooked, l, hl⟩

theorem located_of_mem_reported {d : Diagnostic}
    (h : d ∈ (parse file limit (lexemes file content)).reported) :
    ∃ p span, d = Problem.located p span :=
  ((heard_stop file limit content).sources d h).1

theorem stop_of_silent (h : (parse file limit (lexemes file content)).reported = []) :
    (stop file limit (lexemes file content)).errors = 0 :=
  (heard_stop file limit content).first.resolve_right fun hne => hne h

theorem lexed_of_silent (h : (parse file limit (lexemes file content)).reported = []) :
    ∀ l ∈ lexemes file content, l.problems = [] := by
  have hheard := heard_stop file limit content
  obtain ⟨hlooked, l, hl⟩ := ahead_stop (stop_of_silent h)
  obtain ⟨done, hls, hdone⟩ := hheard.passed
  have hnone {l : Lexeme}
    (hl : ∀ d ∈ l.problems, d ∈ (stop file limit (lexemes file content)).reported.toList) :
      l.problems = [] := by
    rw [reported_parse] at h
    rw [h] at hl
    exact List.eq_nil_iff_forall_not_mem.mpr fun d hd => List.not_mem_nil (hl d hd)
  intro l' hl'
  rw [hls, hl] at hl'
  rcases List.mem_append.mp hl' with hl' | hl'
  · exact hnone (hdone l' hl')
  · obtain rfl := List.mem_singleton.mp hl'
    exact hnone (hheard.ahead hlooked _ (by rw [hl]; rfl))

theorem accounts_of_silent (h : (parse file limit (lexemes file content)).reported = []) :
    Accounts file content (parse file limit (lexemes file content)).program.items := by
  obtain ⟨hstop, hprogram⟩ := stop_under (stop_of_silent h) 0
  have hzero : (parse file 0 (lexemes file content)).errors = 0 := by
    rw [errors_parse, hstop]
    exact stop_of_silent h
  exact ⟨lexed_of_silent h, hprogram ▸ isItems_of_parse hzero⟩

/-- Nothing is reported, whatever the limit is, exactly about the files that are whole. -/
theorem silent_iff (file limit : Nat) (content : Bytes) :
    (parse file limit (lexemes file content)).reported = [] ↔ ∃ is, Accounts file content is := by
  refine ⟨fun h => ⟨_, accounts_of_silent h⟩, ?_⟩
  rintro ⟨is, hlexed, hitems⟩
  have hzero := (parse_of_isItems hitems).1
  rw [errors_parse] at hzero
  obtain ⟨hstop, -⟩ := stop_under hzero limit
  rw [reported_parse, List.eq_nil_iff_forall_not_mem]
  intro d hd
  rcases ((heard_stop file limit content).sources d hd).2 with herrors | ⟨l, hl, hd⟩
  · rw [hstop] at herrors
    exact absurd hzero (Nat.ne_of_gt herrors)
  · rw [hlexed l hl] at hd
    cases hd

end Files

end Sysy.Parser
