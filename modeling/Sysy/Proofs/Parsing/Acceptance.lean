import Sysy.Proofs.Parsing.Completeness

/-!
The parser accepts the texts of the grammar and no others, and makes the trees of the grammar of
them.
-/

namespace Sysy.Parser
open Token Grammar

theorem exists_tokens_scanAll (file : Nat) (s : Bytes) : ∀ skip off : Nat, ∃ ts stop,
    (Lexeme.scanAll file skip off s).map (·.token) = ts ++ [stop] ∧ stop.kind = .eof ∧
    ∀ t ∈ ts, t.kind ≠ .eof := by
  induction s with
  | nil =>
    intro skip off
    exact ⟨[], _, by rw [Lexeme.scanAll]; rfl, rfl, by simp⟩
  | cons b s ih =>
    rintro (_ | skip) off
    · rw [Lexeme.scanAll]
      by_cases heof : (Lexeme.scan file off (b :: s)).token.kind = .eof
      · exact ⟨[], _, by rw [if_pos heof]; rfl, heof, by simp⟩
      · obtain ⟨ts, stop, hts, hstop, hinner⟩ :=
          ih ((Lexeme.scan file off (b :: s)).token.span.stop - off - 1) (off + 1)
        refine ⟨(Lexeme.scan file off (b :: s)).token :: ts, stop, ?_, hstop,
          List.forall_mem_cons.mpr ⟨heof, hinner⟩⟩
        rw [if_neg heof, List.map_cons, hts]
        rfl
    · rw [Lexeme.scanAll]
      exact ih skip (off + 1)

def sentence (file : Nat) (content : Bytes) : List Token :=
  ((lexemes file content).map (·.token)).dropLast

theorem tokens_lexemes (file : Nat) (content : Bytes) : ∃ stop, stop.kind = .eof ∧
    (lexemes file content).map (·.token) = sentence file content ++ [stop] ∧
    ∀ t ∈ sentence file content, t.kind ≠ .eof := by
  obtain ⟨ts, stop, hts, hstop, hinner⟩ := exists_tokens_scanAll file content 0 0
  have hsentence : sentence file content = ts :=
    by rw [sentence, lexemes, hts, List.dropLast_concat]
  rw [hsentence]
  exact ⟨stop, hstop, hts, hinner⟩

theorem eq_of_append_eof {ts ts' rest : List Token} {stop : Token} (hstop : stop.kind = .eof)
    (hts : ∀ t ∈ ts, t.kind ≠ .eof) (hts' : ∀ t ∈ ts', t.kind ≠ .eof) (hrest : kindOf rest = .eof)
    (h : ts ++ [stop] = ts' ++ rest) : ts = ts' := by
  induction ts generalizing ts' with
  | nil =>
    cases ts' with
    | nil => rfl
    | cons t ts' =>
      obtain ⟨rfl, -⟩ := List.cons.inj h
      exact absurd hstop (hts' _ (List.mem_cons_self ..))
  | cons t ts ih =>
    cases ts' with
    | nil =>
      obtain rfl : rest = t :: (ts ++ [stop]) := h.symm
      exact absurd hrest (hts t (List.mem_cons_self ..))
    | cons t' ts' =>
      obtain ⟨rfl, htail⟩ := List.cons.inj h
      rw [ih (fun t ht => hts t (List.mem_cons_of_mem _ ht))
        (fun t ht => hts' t (List.mem_cons_of_mem _ ht)) htail]

variable {file : Nat} {content : Bytes}

def atStart (file : Nat) (tokens : List Lexeme) : View :=
  ⟨tokens.map (·.token), { file := file }, 0, 0⟩

theorem parse_of_ends {Q : List Item → View → Prop} {tokens : List Lexeme}
    (h : Ends (items (depthBound tokens.length)) (atStart file tokens) Q fun _ => False) :
    ∃ v, Q (parse file 0 tokens).program.items v ∧ v.errors = (parse file 0 tokens).errors := by
  have hprogram : Ends (program (depthBound tokens.length)) (atStart file tokens)
      (fun p v => Q p.items v) fun _ => False := by
    rw [program]
    refine Ends.peek (Ends.bind h fun is v hQ => ?_)
    exact Ends.peek (Ends.pure hQ)
  have hrun := hprogram { ahead := tokens, last := { file := file }, limit := 0 } rfl
  simp only [parse]
  generalize (program (depthBound tokens.length)).run.run _ = x at hrun ⊢
  match x with
  | (some p, c) => exact ⟨c.view, hrun, rfl⟩

theorem room_atStart (file : Nat) (tokens : List Lexeme) :
    Room (atStart file tokens) 3 (depthBound tokens.length) := by
  refine ⟨rfl, ?_⟩
  simp only [atStart, List.length_map, depthBound]
  omega

/-- A file without errors is one of the grammar, and its tree is the grammar's. -/
theorem isItems_of_parse (h : (parse file 0 (lexemes file content)).errors = 0) :
    IsItems (sentence file content) (parse file 0 (lexemes file content)).program.items := by
  obtain ⟨stop, hstop, htokens, hinner⟩ := tokens_lexemes file content
  obtain ⟨v, ⟨-, hread⟩, herrors⟩ :=
    parse_of_ends (sound_items _ (atStart file (lexemes file content)))
  rcases hread (room_atStart file _) with hlt | ⟨ts, his, htook, heof⟩
  · rw [herrors, h] at hlt
    exact absurd hlt (Nat.not_lt_zero _)
  · have hcut := htook.tokens
    rw [atStart, htokens] at hcut
    rw [View.kind_token] at heof
    rwa [eq_of_append_eof hstop hinner htook.inner heof hcut]

/-- A file of the grammar is read without errors. -/
theorem parse_of_isItems {is : List Item} (h : IsItems (sentence file content) is) :
    (parse file 0 (lexemes file content)).errors = 0 ∧
    (parse file 0 (lexemes file content)).program.items = is := by
  obtain ⟨stop, hstop, htokens, -⟩ := tokens_lexemes file content
  obtain ⟨v, ⟨hitems, htook⟩, herrors⟩ := parse_of_ends
    (items_accepted h (v := atStart file (lexemes file content)) htokens hstop
      (room_atStart file _))
  exact ⟨herrors.symm.trans htook.errors, hitems⟩

/-- The parser accepts a file exactly if the grammar derives its tokens, and the items it returns
are those of the derivation, so there is only one. -/
theorem parse_accepts_iff (file : Nat) (content : Bytes) :
    ((parse file 0 (lexemes file content)).errors = 0 ↔
      ∃ is, IsItems (sentence file content) is) ∧
    ∀ is, IsItems (sentence file content) is →
      (parse file 0 (lexemes file content)).program.items = is := by
  refine ⟨⟨fun h => ⟨_, isItems_of_parse h⟩, ?_⟩, fun is his => (parse_of_isItems his).2⟩
  rintro ⟨is, his⟩
  exact (parse_of_isItems his).1

end Sysy.Parser
