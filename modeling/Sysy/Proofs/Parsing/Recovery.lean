import Sysy.Proofs.Parsing.Depth
import Sysy.Proofs.Parsing.Reports

/-!
The loops of the parser come to an end. The loop over the items of a file and the loop over the
statements of a block go in rounds, and a round that fails recovers and goes on. `Rounds` cuts the
tokens that a loop reads into the tokens of its rounds: each round has some, and none belongs to
two.
-/

namespace Sysy.Parser
open Token Grammar

variable {α : Type}

/-- A loop leads from one cursor to another in rounds: for each of them the tokens that it takes,
and its outcome. What a round does is the same for every bound on its depth that is large enough. -/
inductive Rounds (ends : Cursor → Prop) (round : Nat → Reader (Option α)) :
    Cursor → List (List Lexeme × Option α) → Cursor → Prop
  | stop {c : Cursor} (h : ends c) : Rounds ends round c [] c
  | next {c c₁ c' : Cursor} {taken : List Lexeme} {outcome : Option α}
      {rs : List (List Lexeme × Option α)}
      (h : ¬ends c) (hround : ∀ b, 10 * c.ahead.length + 6 ≤ b → (round b).run.run c.look =
        (some outcome, c₁))
      (htaken : c.ahead = taken ++ c₁.ahead) (hsome : taken ≠ [])
        (hrest : Rounds ends round c₁ rs c') :
      Rounds ends round c ((taken, outcome) :: rs) c'

theorem length_lt_of_taken {ls taken rest : List Lexeme} (htaken : ls = taken ++ rest)
    (hsome : taken ≠ []) :
    rest.length < ls.length := by
  have hpos := List.length_pos_of_ne_nil hsome
  rw [htaken, List.length_append]
  exact Nat.lt_add_of_pos_left hpos

namespace Rounds
variable {ends : Cursor → Prop} {round : Nat → Reader (Option α)} {c c' : Cursor}
  {rs : List (List Lexeme × Option α)}

theorem ended (h : Rounds ends round c rs c') : ends c' := by
  induction h with
  | stop h => exact h
  | next _ _ _ _ _ ih => exact ih

theorem ahead (h : Rounds ends round c rs c') : c.ahead = rs.flatMap (·.1) ++ c'.ahead := by
  induction h with
  | stop _ => rfl
  | next _ _ htaken _ _ ih => rw [htaken, ih, List.flatMap_cons, List.append_assoc]

theorem length_le (h : Rounds ends round c rs c') : rs.length ≤ c.ahead.length := by
  induction h with
  | stop _ => exact Nat.zero_le _
  | next _ _ htaken hsome _ ih =>
    have hshorter := length_lt_of_taken htaken hsome
    rw [List.length_cons]
    omega

/-- A loop comes to its end if each round takes a token. -/
theorem exists_of_progress
    (hprogress : ∀ c : Cursor, ¬ends c → ∃ outcome c₁, c₁.ahead <:+ c.ahead.tail ∧ c.ahead ≠ [] ∧
      ∀ b, 10 * c.ahead.length + 6 ≤ b → (round b).run.run c.look = (some outcome, c₁))
    (c : Cursor) :
    ∃ rs c', Rounds ends round c rs c' := by
  by_cases hends : ends c
  · exact ⟨[], c, .stop hends⟩
  · obtain ⟨outcome, c₁, ⟨taken, htaken⟩, hne, hround⟩ := hprogress c hends
    obtain ⟨l, rest, hahead⟩ := List.exists_cons_of_ne_nil hne
    have hcut : c.ahead = l :: taken ++ c₁.ahead :=
      by rw [List.cons_append, htaken, hahead, List.tail_cons]
    have hshorter := length_lt_of_taken hcut (List.cons_ne_nil l taken)
    obtain ⟨rs, c', hrest⟩ := exists_of_progress hprogress c₁
    exact ⟨_, c', .next hends hround hcut (List.cons_ne_nil l taken) hrest⟩
termination_by c.ahead.length

end Rounds

/-! What the steps of a loop do. -/

theorem Cursor.look_look (c : Cursor) : c.look.look = c.look := by
  have hstream : c.toTokenStream.look.look = c.toTokenStream.look := by
    unfold TokenStream.look
    split <;> rfl
  exact congrArg (fun s => { c with toTokenStream := s }) hstream

theorem run_at_ (kind : Kind) (k : Bool → Reader α) (c : Cursor) :
    (at_ kind >>= k).run.run c = (k (c.token.kind == kind)).run.run c.look := by
  rw [run_bind, ← Cursor.token_look c]
  rfl

theorem run_atAny (kinds : List Kind) (k : Bool → Reader α) (c : Cursor) :
    (atAny kinds >>= k).run.run c = (k (kinds.contains c.token.kind)).run.run c.look := by
  rw [run_bind, ← Cursor.token_look c]
  rfl

theorem exists_run {round : Nat → Reader (Option α)} {c : Cursor} {b : Nat}
    (hloose : Loose (round b)) (hpasses : Passes (round b) c.view)
    (htotal : Ends (round b) c.view (fun _ _ => True) fun _ => False) (heof : c.token.kind ≠ .eof) :
    ∃ outcome c₁, c₁.ahead <:+ c.ahead.tail ∧ c.ahead ≠ [] ∧
      (round b).run.run c.look = (some outcome, c₁) := by
  have hne : c.ahead ≠ [] := by
    intro hnil
    refine heof ?_
    unfold TokenStream.token
    rw [hnil]
  have hsuffix := hloose.suffix c.look
  have hends := hpasses c.look (Cursor.view_look c)
  have hsome := htotal c.look (Cursor.view_look c)
  generalize hrun : (round b).run.run c.look = x at hsuffix hends hsome
  match x with
  | (some outcome, c₁) =>
    refine ⟨outcome, c₁, ?_, hne, rfl⟩
    have hlook : c.look.ahead = c.ahead := Cursor.ahead_look c
    have hlength : c₁.ahead.length ≤ c.ahead.tail.length := by
      have hle := hends.length_le
      simpa only [Cursor.view, List.length_map, List.length_tail] using hle
    exact List.suffix_of_suffix_length_le (hlook ▸ hsuffix) (List.tail_suffix _) hlength

/-! The two loops. -/

def ItemsEnd (c : Cursor) : Prop := c.token.kind = .eof ∨ c.enough = true

def StmtsEnd (c : Cursor) : Prop := c.token.kind ∈ [.rbrace, .eof] ∨ c.enough = true

theorem loose_itemRound (b : Nat) : Loose (itemRound b) :=
  .bind (.attempt (.item b)) fun _ => .ite (.bind (.skipUntil _) fun _ => .bind (.atAny _) fun _ =>
    .ite (.bind .take fun _ => .pure _) (.pure _)) (.pure _)

theorem loose_stmtRound (b : Nat) : Loose (stmtRound b) :=
  .bind (.attempt (Built.stmts_all b).stmt) fun _ =>
    .ite (.bind (.skipUntil _) fun _ => .bind (.at_ _) fun _ =>
    .ite (.bind .take fun _ => .pure _) (.pure _)) (.pure _)

theorem total_attempt {r : Reader α} {β : Type} {k : Option α → Reader β} {v : View}
    {R : β → View → Prop} (hk : ∀ o v', Ends (k o) v' R fun _ => False) :
    Ends (attempt r >>= k) v R fun _ => False := by
  have hany : Ends r v (fun _ _ => True) fun _ => True := by
    intro c _
    split <;> trivial
  exact Ends.attempt hany (fun a v' _ => hk (some a) v') fun v' _ => hk none v'

theorem total_at (kind : Kind) (v : View) : Ends (at_ kind) v (fun _ _ => True) fun _ => False :=
  Ends.at_ (k := pure) (fun _ => Ends.pure trivial) fun _ => Ends.pure trivial

theorem total_atAny (kinds : List Kind) (v : View) :
    Ends (atAny kinds) v (fun _ _ => True) fun _ => False :=
  Ends.atAny (k := pure) (fun _ => Ends.pure trivial) fun _ => Ends.pure trivial

theorem total_round (r : Reader α) (stops : List Kind) {closes : Reader Bool}
    (hcloses : ∀ v, Ends closes v (fun _ _ => True) fun _ => False) (v : View) : Ends (do
      let outcome ← attempt r
      if outcome.isNone then
        skipUntil stops
        if ← closes then
          let _ ← advance
      return outcome) v (fun _ _ => True) fun _ => False := by
  refine total_attempt fun o v₁ => ?_
  cases o with
  | some _ => exact Ends.pure trivial
  | none =>
    refine Ends.bind (ends_skipUntil _ v₁) fun _ v₂ _ => Ends.bind (hcloses v₂) fun b v₃ _ => ?_
    cases b with
    | true => exact Ends.advance (Ends.pure trivial)
    | false => exact Ends.pure trivial

theorem exists_itemRounds (c : Cursor) : ∃ rs c', Rounds ItemsEnd itemRound c rs c' := by
  refine Rounds.exists_of_progress (fun c hends => ?_) c
  obtain ⟨heof, -⟩ := not_or.mp hends
  have hview : c.view.token.kind ≠ .eof := (Cursor.token_view c).symm ▸ heof
  obtain ⟨outcome, c₁, hbehind, hne, hrun⟩ := exists_run (loose_itemRound (10 * c.ahead.length + 6))
    (passes_itemRound _ hview) (total_round _ _ (total_atAny _) _) heof
  refine ⟨outcome, c₁, hbehind, hne, fun b hb => ?_⟩
  have hlength : c.view.tokens.length = c.ahead.length := List.length_map _
  rw [← hrun]
  exact (alike_itemRound (v := c.view) (by omega)) c.look (Cursor.view_look c)

theorem exists_stmtRounds (c : Cursor) : ∃ rs c', Rounds StmtsEnd stmtRound c rs c' := by
  refine Rounds.exists_of_progress (fun c hends => ?_) c
  obtain ⟨hkind, -⟩ := not_or.mp hends
  obtain ⟨hbrace, heof⟩ : c.token.kind ≠ .rbrace ∧ c.token.kind ≠ .eof := by simpa using hkind
  have hview : c.view.token.kind ≠ .rbrace ∧ c.view.token.kind ≠ .eof :=
    (Cursor.token_view c).symm ▸ ⟨hbrace, heof⟩
  obtain ⟨outcome, c₁, hbehind, hne, hrun⟩ := exists_run (loose_stmtRound (10 * c.ahead.length + 6))
    (passes_stmtRound (by omega) hview.1 hview.2) (total_round _ _ (total_at _) _) heof
  refine ⟨outcome, c₁, hbehind, hne, fun b hb => ?_⟩
  have hlength : c.view.tokens.length = c.ahead.length := List.length_map _
  rw [← hrun]
  exact alike_stmtRound ((alikeStmts _ _).stmt c.view (by omega)) c.look (Cursor.view_look c)

/-- Reading items is going through the rounds of the loop over them. -/
theorem run_items {c c' : Cursor} {rs : List (List Lexeme × Option Item)}
    (h : Rounds ItemsEnd itemRound c rs c') {b : Nat} (hb : 10 * c.ahead.length + 7 ≤ b) :
    (items b).run.run c = (some (rs.filterMap (·.2)), c'.look) := by
  induction h generalizing b with
  | @stop c hends =>
    obtain ⟨b, rfl⟩ : ∃ b', b = b' + 1 := ⟨b - 1, by omega⟩
    rw [items_succ, run_at_]
    rcases hends with heof | henough
    · rw [heof]
      rfl
    · have hlook : c.look.enough = true := henough
      split
      · rfl
      · rw [run_enough, if_pos hlook]
        rfl
  | @next c c₁ c' taken outcome rs hends hround htaken hsome hrest ih =>
    obtain ⟨b, rfl⟩ : ∃ b', b = b' + 1 := ⟨b - 1, by omega⟩
    obtain ⟨heof, henough⟩ := not_or.mp hends
    have hlook : ¬c.look.enough = true := henough
    have hshorter := length_lt_of_taken htaken hsome
    rw [items_succ, run_at_, if_neg (by simpa using heof), run_enough, if_neg hlook, run_bind,
      hround b (by omega)]
    cases outcome with
    | none => exact ih (by omega)
    | some i =>
      dsimp only
      rw [run_bind, ih (by omega)]
      rfl

/-- Reading the statements of a block is going through the rounds of the loop over them. It fails if
there are enough errors. -/
theorem run_stmts {c c' : Cursor} {rs : List (List Lexeme × Option Stmt)}
    (h : Rounds StmtsEnd stmtRound c rs c') {b : Nat} (hb : 10 * c.ahead.length + 7 ≤ b) :
    (stmts b).run.run c =
      (if c'.token.kind ∈ [.rbrace, .eof] then some (rs.map (·.2)) else none, c'.look) := by
  induction h generalizing b with
  | @stop c hends =>
    obtain ⟨b, rfl⟩ : ∃ b', b = b' + 1 := ⟨b - 1, by omega⟩
    rw [stmts_succ, run_atAny]
    by_cases hkind : c.token.kind ∈ [.rbrace, .eof]
    · rw [if_pos hkind, List.contains_iff_mem.mpr hkind]
      rfl
    · have hlook : c.look.enough = true := hends.resolve_left hkind
      rw [if_neg hkind, Bool.eq_false_iff.mpr fun h => hkind (List.contains_iff_mem.mp h),
        if_neg Bool.false_ne_true,
        run_enough, if_pos hlook]
      rfl
  | @next c c₁ c' taken outcome rs hends hround htaken hsome hrest ih =>
    obtain ⟨b, rfl⟩ : ∃ b', b = b' + 1 := ⟨b - 1, by omega⟩
    obtain ⟨hkind, henough⟩ := not_or.mp hends
    have hlook : ¬c.look.enough = true := henough
    have hshorter := length_lt_of_taken htaken hsome
    rw [stmts_succ, run_atAny, Bool.eq_false_iff.mpr fun h => hkind (List.contains_iff_mem.mp h),
      if_neg Bool.false_ne_true,
      run_enough, if_neg hlook, run_bind, hround b (by omega)]
    dsimp only
    rw [run_bind, ih (by omega)]
    by_cases hend : c'.token.kind ∈ [.rbrace, .eof]
    · rw [if_pos hend, if_pos hend]
      rfl
    · rw [if_neg hend, if_neg hend]

/-! Whole files. -/

section Files
variable {file limit : Nat} {content : Bytes}

theorem Built.limit_eq {r : Reader α} (h : Loose r) (c : Cursor) :
    (r.run.run c).2.limit = c.limit := by
  refine h.keeps (I := fun c' => c'.limit = c.limit) (fun c' _ => c'.blames_any) (fun _ h => h)
    (fun _ h => h)
    (fun c' p span _ hc => ?_) c rfl
  unfold Cursor.complain
  dsimp only
  split <;> exact hc

theorem length_lexemes (file : Nat) (content : Bytes) :
    (lexemes file content).length = (sentence file content).length + 1 := by
  obtain ⟨last, -, htokens, -⟩ := tokens_lexemes file content
  have hlength := congrArg List.length htokens
  rwa [List.length_map, List.length_append] at hlength

theorem run_program {c c' : Cursor} {rs : List (List Lexeme × Option Item)}
    (h : Rounds ItemsEnd itemRound c.look rs c') {b : Nat} (hb : 10 * c.ahead.length + 7 ≤ b) :
    (program b).run.run c =
      (some ⟨if c'.token.kind = .eof then c.token.span.cover c'.token.span else {},
        rs.filterMap (·.2)⟩, c'.look) := by
  have hlook : c.look.ahead = c.ahead := Cursor.ahead_look c
  have hitems := run_items h (b := b) (by rw [hlook]; exact hb)
  have hpeek (c : Cursor) : peek.run.run c = (some c.token, c.look) := by
    rw [← Cursor.token_look c]
    rfl
  unfold program
  rw [run_bind, hpeek]
  dsimp only
  rw [run_bind, hitems]
  dsimp only
  rw [run_bind, hpeek, Cursor.look_look]
  have htoken : c'.look.token = c'.token := Cursor.token_look c'
  rw [htoken]
  rfl

theorem exists_fileRounds (file limit : Nat) (content : Bytes) : ∃ rs c',
    Rounds ItemsEnd itemRound (start file limit (lexemes file content)).look rs c' ∧
      ∀ b, depthBound (lexemes file content).length ≤ b →
      (program b).run.run (start file limit (lexemes file content)) =
        (some ⟨if c'.token.kind = .eof
          then (start file limit (lexemes file content)).token.span.cover c'.token.span else {},
          rs.filterMap (·.2)⟩, c'.look) := by
  obtain ⟨rs, c', hrounds⟩ := exists_itemRounds (start file limit (lexemes file content)).look
  refine ⟨rs, c', hrounds, fun b hb => run_program hrounds ?_⟩
  show 10 * (lexemes file content).length + 7 ≤ b
  unfold depthBound at hb
  omega

/-- The loops of the parser come to an end: each round takes tokens that no other round has taken.
The bound on the depth of the readers is never reached. -/
theorem recovery_progresses (file limit : Nat) (content : Bytes) :
    (∃ rs c', Rounds ItemsEnd itemRound (start file limit (lexemes file content)).look rs c' ∧
      lexemes file content = rs.flatMap (·.1) ++ c'.ahead ∧
      rs.length ≤ (sentence file content).length + 1 ∧
      (parse file limit (lexemes file content)).program.items = rs.filterMap (·.2) ∧
      stop file limit (lexemes file content) = c'.look) ∧
    (∀ (c : Cursor) (b : Nat), c.ahead <:+ lexemes file content → 10 * c.ahead.length + 7 ≤ b →
      ∃ rs c', Rounds StmtsEnd stmtRound c rs c' ∧ c.ahead = rs.flatMap (·.1) ++ c'.ahead ∧
        rs.length ≤ (sentence file content).length + 1 ∧
        (stmts b).run.run c =
          (if c'.token.kind ∈ [.rbrace, .eof] then some (rs.map (·.2)) else none, c'.look)) ∧
    (∀ b, depthBound (lexemes file content).length ≤ b →
      (program b).run.run (start file limit (lexemes file content)) =
        (program (depthBound (lexemes file content).length)).run.run
          (start file limit (lexemes file content))) ∧
    ((stop file limit (lexemes file content)).token.kind = .eof ∨
      0 < limit ∧ limit ≤ (parse file limit (lexemes file content)).errors) := by
  have hcount := length_lexemes file content
  have hahead : (start file limit (lexemes file content)).look.ahead = lexemes file content :=
    Cursor.ahead_look _
  obtain ⟨rs, c', hrounds, hrun⟩ := exists_fileRounds file limit content
  have hstop : stop file limit (lexemes file content) = c'.look := congrArg Prod.snd (hrun _ le_rfl)
  refine ⟨⟨rs, c', hrounds, ?_, ?_, ?_, hstop⟩, ?_, ?_, ?_⟩
  · rw [← hrounds.ahead, hahead]
  · have hle := hrounds.length_le
    rwa [hahead, hcount] at hle
  · have hparse : (parse file limit (lexemes file content)).program = _ :=
      congrArg (fun x => x.1.getD { span := {}, items := [] }) (hrun _ le_rfl)
    rw [hparse]
    rfl
  · intro c b hc hb
    obtain ⟨rs, c', hrounds⟩ := exists_stmtRounds c
    exact ⟨rs, c', hrounds, hrounds.ahead, hcount ▸ hrounds.length_le.trans hc.length_le,
      run_stmts hrounds hb⟩
  · intro b hb
    rw [hrun b hb, hrun _ le_rfl]
  · have hlimit : (stop file limit (lexemes file content)).limit = limit :=
      (Built.program _).limit_eq _
    rw [errors_parse, hstop]
    rw [hstop] at hlimit
    refine hrounds.ended.imp (fun heof => ?_) fun henough => ?_
    · rw [← heof]
      exact congrArg Token.kind (Cursor.token_look c')
    · have henough : c'.look.enough = true := henough
      unfold Cursor.enough at henough
      rw [hlimit] at henough
      simp only [Bool.and_eq_true, decide_eq_true_eq] at henough
      exact ⟨Nat.pos_of_ne_zero henough.1, henough.2⟩

end Files

end Sysy.Parser
