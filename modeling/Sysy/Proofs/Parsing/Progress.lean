import Sysy.Proofs.Parsing.Limits

/-!
Progress of error recovery. Whatever a reader does, it leaves the end of the tokens that were ahead.
Recovery stops at tokens that it does not read, so a loop goes on only because a reader that fails
has read its first token before, or stands at a token that recovery skips. `Passes` says that the
first token ahead is behind the parser wherever the reader ends.
-/

namespace Sysy.Parser
open Token Grammar

variable {α β : Type} {r : Reader α} {k : α → Reader β} {v v' : View} {R : β → View → Prop}
  {E : View → Prop}

theorem Cursor.ahead_advance (c : Cursor) :
    c.advance.ahead = if c.token.kind = .eof then c.ahead else c.ahead.tail := by
  unfold Cursor.advance TokenStream.advance
  simp only [Cursor.token_look]
  split
  · exact Cursor.ahead_look c
  · exact congrArg List.tail (Cursor.ahead_look c)

theorem Cursor.ahead_complain (c : Cursor) (p : Problem) (span : Span) :
    (c.complain p span).ahead = c.ahead := by
  unfold Cursor.complain
  dsimp only
  split <;> rfl

/-- What a reader leaves is the end of the tokens ahead. -/
theorem Built.suffix (h : Loose r) (c : Cursor) : (r.run.run c).2.ahead <:+ c.ahead := by
  refine h.keeps (I := fun c' => c'.ahead <:+ c.ahead) (fun c' _ => c'.blames_any) ?_ ?_ ?_ c
    (List.suffix_refl _)
  · intro c' hc
    exact (Cursor.ahead_look c').symm ▸ hc
  · intro c' hc
    rw [Cursor.ahead_advance]
    split
    · exact hc
    · exact (List.tail_suffix _).trans hc
  · intro c' p span _ hc
    rwa [Cursor.ahead_complain]

theorem Built.leaves (h : Loose r) (v : View) :
    Ends r v (fun _ v' => v'.tokens <:+ v.tokens) fun v' => v'.tokens <:+ v.tokens := by
  rintro c rfl
  have hsuffix : (r.run.run c).2.view.tokens <:+ c.view.tokens := (h.suffix c).map _
  generalize r.run.run c = x at hsuffix ⊢
  match x with
  | (some a, c') => exact hsuffix
  | (none, c') => exact hsuffix

/-- Wherever the reader ends, the first token ahead was read. -/
def Passes (r : Reader α) (v : View) : Prop :=
  Ends r v (fun _ v' => v'.tokens <:+ v.tokens.tail) fun v' => v'.tokens <:+ v.tokens.tail

theorem ends_behind {w : View} (h : Loose r) (hv : v.tokens <:+ w.tokens.tail) :
    Ends r v (fun _ v' => v'.tokens <:+ w.tokens.tail) fun v' => v'.tokens <:+ w.tokens.tail :=
  (h.leaves v).mono (fun _ _ h' => h'.trans hv) fun _ h' => h'.trans hv

theorem Passes.bind (hr : Passes r v) (hk : ∀ a, Loose (k a)) : Passes (r >>= k) v :=
  Ends.bind hr fun a _ h => ends_behind (hk a) h

theorem tokens_advance (heof : v.token.kind ≠ .eof) : v.advance.tokens = v.tokens.tail := by
  rw [View.advance, if_neg heof]

theorem passes_take {k : Token → Reader β} (heof : v.token.kind ≠ .eof) (hk : ∀ t, Loose (k t)) :
    Passes (advance >>= k) v :=
  Ends.advance (ends_behind (hk _) (tokens_advance heof ▸ List.suffix_refl _))

theorem passes_expect {kind : Kind} {place : String} {k : Token → Reader β}
    (h : v.token.kind = kind) (hkind : kind ≠ .eof ∧ kind ≠ .invalid) (hk : ∀ t, Loose (k t)) :
    Passes (expect kind place >>= k) v := by
  refine Ends.expect hkind.1 hkind.2 (fun _ v' h' => ?_) fun hne => absurd h hne
  refine ends_behind (hk _) ?_
  rw [h'.tokens]
  exact List.suffix_refl _

/-! Expressions read their first token. -/

theorem passes_primary {b : Nat} (h : v.token.kind ∈ [.ident, .intLit, .lparen]) :
    Passes (primary (b + 1)) v := by
  rw [primary]
  refine Ends.peek ?_
  split
  · rename_i hkind
    rw [literal]
    refine passes_take (by simp [hkind]) fun t => ?_
    split
    · exact .ite (.pure _) (.bind (.complain _ trivial) fun _ => .failure)
    · exact .bind (.complain _ trivial) fun _ => .failure
  · rename_i hkind
    have hclose (args : List Expr) : Loose (do
        let close ← expect .rparen " after call arguments"
        return Expr.call (v.token.span.cover close.span) (Bytes.toAscii v.token.text) args) :=
      .bind (.expect ..) fun _ => .pure _
    refine passes_take (by simp [hkind]) fun _ => .bind (.at_ _) fun _ => .ite ?_ ?_
    · refine .bind .take fun _ => .bind (.at_ _) fun _ =>
        .ite ?_ (.bind (Built.exprs_all b).exprs hclose)
      exact hclose []
    · exact .bind (Built.exprs_all b).dims fun _ => .bind .lastSpan fun _ => .pure _
  · rename_i hkind
    exact passes_take (by simp [hkind]) fun _ => .bind (Built.exprs_all b).expr fun _ =>
      .bind (.expect ..) fun _ => .pure _
  · rename_i hlit hident hparen
    simp only [List.mem_cons, List.not_mem_nil, or_false] at h
    rcases h with h | h | h
    · exact absurd h hident
    · exact absurd h hlit
    · exact absurd h hparen

theorem passes_unary {b : Nat} (h : v.token.kind ∈ exprStarts) : Passes (unary (b + 2)) v := by
  rw [unary]
  refine Ends.peek ?_
  split
  · rename_i op hop
    exact passes_take (ne_of_unaryOp? hop).1 fun _ =>
      .bind (Built.exprs_all _).unary fun _ => .pure _
  · rename_i hnone
    refine passes_primary ?_
    revert h hnone
    cases v.token.kind <;> decide

theorem passes_expr {b : Nat} (h : v.token.kind ∈ exprStarts) (hb : 4 ≤ b) : Passes (expr b) v := by
  obtain ⟨b, rfl⟩ : ∃ b', b = b' + 4 := ⟨b - 4, by omega⟩
  rw [expr]
  refine Ends.atAny (fun _ => ?_) fun hno => absurd h hno
  rw [binary]
  exact Passes.bind (passes_unary h) fun left => (Built.exprs_all _).climb 0 left

theorem ends_expr_reject {b : Nat} (h : v.token.kind ∉ exprStarts) :
    Ends (expr (b + 1)) v (fun _ _ => False) fun v' => v'.tokens = v.tokens := by
  rw [expr]
  refine Ends.atAny (fun hstart => absurd hstart h) fun _ => ?_
  rw [if_neg Bool.false_ne_true]
  exact Ends.peek (Ends.reject rfl)

/-! Statements and items read their first token too, or recovery skips it. -/

theorem passes_decl (b : Nat) (h : v.token.kind = .kwConst ∨ v.token.kind = .kwInt) :
    Passes (decl b) v := by
  have hrest (isConst : Bool) : Loose (do
      let name ← ident
      declRest b isConst name) :=
    .bind .ident fun _ => .declRest ..
  rw [decl]
  refine Ends.at_ (fun hconst => ?_) fun hconst => ?_
  · exact passes_take (by simp [hconst]) fun _ => .bind (.expect ..) fun _ => hrest true
  · exact passes_expect (h.resolve_left hconst) (by decide) fun _ => hrest false

theorem passes_block (b : Nat) (h : v.token.kind = .lbrace) : Passes (block (b + 1)) v := by
  rw [block]
  refine passes_expect h (by decide) fun _ => .bind (Built.stmts_all b).stmts fun outcomes =>
    .bind (.expect ..) fun _ => ?_
  split
  · exact .pure _
  · exact .failure

theorem passes_simpleStmt {b : Nat} (h : v.token.kind ∈ exprStarts) (hb : 4 ≤ b) :
    Passes (simpleStmt b) v := by
  rw [simpleStmt]
  refine (passes_expr h hb).bind fun e => .bind (.at_ _) fun _ => .ite (.bind .take fun t => ?_) ?_
  · split
    · exact .bind (Built.exprs_all b).expr fun _ => .bind (.expect ..) fun _ =>
        .bind .lastSpan fun _ => .pure _
    · exact .bind (.complain _ trivial) fun _ => .failure
  · exact .bind (.expect ..) fun _ => .bind .lastSpan fun _ => .pure _

def PassesOr (ks : List Kind) (r : Reader α) (v : View) : Prop :=
  Ends r v (fun _ v' => v'.tokens <:+ v.tokens.tail) fun v' =>
    v'.tokens <:+ v.tokens.tail ∨ v'.tokens = v.tokens ∧ v.token.kind ∉ ks

theorem Passes.or {ks : List Kind} (h : Passes r v) : PassesOr ks r v :=
  h.mono (fun _ _ h => h) fun _ h => .inl h

theorem passesOr_stmt {b : Nat} (hb : 5 ≤ b) (hbrace : v.token.kind ≠ .rbrace) :
    PassesOr [.semicolon, .rbrace, .lbrace] (stmt b) v := by
  obtain ⟨b, rfl⟩ : ∃ b', b = b' + 2 := ⟨b - 2, by omega⟩
  have hstmt : Loose (stmt (b + 1)) := (Built.stmts_all _).stmt
  rw [stmt]
  refine Ends.peek ?_
  split
  · rename_i hkind
    exact ((passes_block b hkind).bind fun _ => .pure _).or
  · rename_i hkind
    exact ((passes_decl _ (.inl hkind)).bind fun _ => .bind .lastSpan fun _ => .pure _).or
  · rename_i hkind
    exact ((passes_decl _ (.inr hkind)).bind fun _ => .bind .lastSpan fun _ => .pure _).or
  · rename_i hkind
    refine (passes_take (by simp [hkind]) fun _ => ?_).or
    refine .bind (.condition _) fun _ => .bind hstmt fun _ => .bind (.at_ _) fun _ =>
      .ite ?_ (.bind .lastSpan fun _ => .pure _)
    exact .bind .take fun _ => .bind hstmt fun _ => .bind .lastSpan fun _ => .pure _
  · rename_i hkind
    refine (passes_take (by simp [hkind]) fun _ => ?_).or
    exact .bind (.condition _) fun _ => .bind hstmt fun _ => .bind .lastSpan fun _ => .pure _
  · rename_i hkind
    exact (passes_take (by simp [hkind]) fun _ => .bind (.expect ..) fun _ =>
      .bind .lastSpan fun _ => .pure _).or
  · rename_i hkind
    exact (passes_take (by simp [hkind]) fun _ => .bind (.expect ..) fun _ =>
      .bind .lastSpan fun _ => .pure _).or
  · rename_i hkind
    have hvalue (value : Option Expr) : Loose (do
        let _ ← expect .semicolon " after return"
        return Stmt.ret (v.token.span.cover (← lastSpan)) value) :=
      .bind (.expect ..) fun _ => .bind .lastSpan fun _ => .pure _
    refine (passes_take (by simp [hkind]) fun _ => .bind (.at_ _) fun _ => .ite (hvalue none) ?_).or
    exact .bind (.map (Built.exprs_all _).expr) hvalue
  · rename_i hkind
    exact (passes_take (by simp [hkind]) fun _ => .pure _).or
  · -- anything else is an expression
    rename_i hlbrace _ _ _ _ _ _ _ hsemicolon
    by_cases hstart : v.token.kind ∈ exprStarts
    · exact (passes_simpleStmt hstart (by omega)).or
    · rw [simpleStmt]
      refine Ends.bind (Q := fun _ _ => False) ((ends_expr_reject hstart).mono (fun _ _ h => h) ?_)
        fun _ _ hfalse => hfalse.elim
      exact fun v' h => .inr ⟨h, by simpa [hbrace] using ⟨hsemicolon, hlbrace⟩⟩

theorem passes_typedItem (b : Nat) (type : Token) (hkind : v.token.kind ≠ .eof) :
    Passes (typedItem b type) v := by
  rw [typedItem]
  refine passes_take hkind fun _ => .bind .ident fun name => .bind (.at_ _) fun _ =>
    .ite (.func ..) (.ite ?_ ?_)
  · exact .bind (.complain _ trivial) fun _ => .failure
  · exact .bind (.declRest ..) fun _ => .bind .lastSpan fun _ => .pure _

theorem passesOr_item (b : Nat) : PassesOr [.kwConst, .kwInt, .kwVoid] (item b) v := by
  rw [item_eq]
  refine Ends.peek ?_
  split
  · rename_i hkind
    exact ((passes_decl b (.inl hkind)).bind fun _ => .bind .lastSpan fun _ => .pure _).or
  · rename_i hkind
    exact (passes_typedItem b _ (by simp [hkind])).or
  · rename_i hkind
    exact (passes_typedItem b _ (by simp [hkind])).or
  · rename_i hconst hint hvoid
    exact Ends.complain (Ends.failure (.inr ⟨rfl, by simpa using ⟨hconst, hint, hvoid⟩⟩))

/-! Rounds of the two loops. -/

theorem passes_skipUntil {ks : List Kind} (h : v.token.kind ∉ ks) (heof : v.token.kind ≠ .eof) :
    Passes (skipUntil ks) v := by
  refine Ends.get fun c hc => ?_
  have hlength : c.ahead.length = v.tokens.length := by rw [← hc, Cursor.view, List.length_map]
  obtain ⟨n, hn⟩ : ∃ n, c.ahead.length = n + 1 := by
    cases htokens : v.tokens with
    | nil =>
      have hkind : v.token.kind = .eof := by rw [View.kind_token, htokens]; rfl
      exact absurd hkind heof
    | cons t ts => exact ⟨ts.length, by rw [hlength, htokens, List.length_cons]⟩
  rw [hn, skipTo]
  refine Ends.atAny (fun hmem => ?_) fun _ => ?_
  · exact absurd hmem (by simp [heof, h])
  · exact passes_take heof fun _ => .skipTo ks n

theorem ends_skipUntil_at {ks : List Kind} (h : v.token.kind ∈ ks) :
    Ends (skipUntil ks) v (fun _ v' => v' = v) fun _ => False := by
  refine Ends.get fun c _ => ?_
  cases c.ahead.length with
  | zero => exact Ends.pure rfl
  | succ n =>
    rw [skipTo]
    exact Ends.atAny (fun _ => Ends.pure rfl) fun hno => absurd (List.mem_cons_of_mem _ h) hno

theorem View.token_eq_of_tokens (h : v'.tokens = v.tokens) : v'.token = v.token := by
  unfold View.token
  rw [h]

theorem passes_recovery {ks : List Kind} {recover : Reader β} (hloose : Loose recover)
    (hpasses : ∀ v' : View, v'.token.kind ∉ ks → v'.token.kind ≠ .eof → Passes recover v')
    (heof : v.token.kind ≠ .eof)
    (hv : v'.tokens <:+ v.tokens.tail ∨ v'.tokens = v.tokens ∧ v.token.kind ∉ ks) :
    Ends recover v' (fun _ w => w.tokens <:+ v.tokens.tail) fun w =>
      w.tokens <:+ v.tokens.tail := by
  rcases hv with hbehind | ⟨htokens, hks⟩
  · exact ends_behind hloose hbehind
  · have htoken := View.token_eq_of_tokens htokens
    have h := hpasses v' (htoken ▸ hks) (htoken ▸ heof)
    rwa [Passes, htokens] at h

/-- One round of the loop over the statements of a block: a statement that fails is skipped up to
the next place where one may begin. -/
def stmtRound (bound : Nat) : Reader (Option Stmt) := do
  let outcome ← attempt (stmt bound)
  if outcome.isNone then
    skipUntil [.semicolon, .rbrace, .lbrace]
    if ← at_ .semicolon then
      let _ ← advance
  return outcome

def itemRound (bound : Nat) : Reader (Option Item) := do
  let outcome ← attempt (item bound)
  if outcome.isNone then
    skipUntil [.semicolon, .rbrace, .kwConst, .kwInt, .kwVoid]
    if ← atAny [.semicolon, .rbrace] then
      let _ ← advance
  return outcome

theorem passes_stmtRound {b : Nat} (hb : 5 ≤ b) (hbrace : v.token.kind ≠ .rbrace)
    (heof : v.token.kind ≠ .eof) :
    Passes (stmtRound b) v := by
  have hrest : Loose (do
      if ← at_ .semicolon then
        let _ ← advance
      return (none : Option Stmt)) :=
    .bind (.at_ _) fun _ => .ite (.bind .take fun _ => .pure _) (.pure _)
  refine Ends.attempt (passesOr_stmt hb hbrace) (fun s v₁ h₁ => Ends.pure h₁) fun v₁ h₁ => ?_
  refine passes_recovery (.bind (.skipUntil _) fun _ => hrest) ?_ heof h₁
  exact fun v' hks heof' => (passes_skipUntil hks heof').bind fun _ => hrest

theorem passes_itemRound (b : Nat) (heof : v.token.kind ≠ .eof) : Passes (itemRound b) v := by
  have hrest : Loose (do
      if ← atAny [.semicolon, .rbrace] then
        let _ ← advance
      return (none : Option Item)) :=
    .bind (.atAny _) fun _ => .ite (.bind .take fun _ => .pure _) (.pure _)
  refine Ends.attempt (passesOr_item b) (fun i v₁ h₁ => Ends.pure h₁) fun v₁ h₁ => ?_
  refine passes_recovery (.bind (.skipUntil _) fun _ => hrest) (fun v' hks heof' => ?_) heof h₁
  by_cases hclose : v'.token.kind ∈ [.semicolon, .rbrace]
  · -- nothing is skipped, but the token that closes the item is read
    have hstop : v'.token.kind ∈ [.semicolon, .rbrace, .kwConst, .kwInt, .kwVoid] :=
      List.mem_append_left [_, _, _] hclose
    refine Ends.bind ((ends_skipUntil_at hstop).mono (fun _ _ h => h) fun _ h => h.elim) ?_
    rintro _ _ rfl
    refine Ends.atAny (fun _ => ?_) fun hno => absurd hclose hno
    exact passes_take heof' fun _ => .pure _
  · have hskip : v'.token.kind ∉ [.semicolon, .rbrace, .kwConst, .kwInt, .kwVoid] := by
      simp only [List.mem_cons, List.not_mem_nil, or_false, not_or] at hks hclose ⊢
      exact ⟨hclose.1, hclose.2, hks⟩
    exact (passes_skipUntil hskip heof').bind fun _ => hrest

end Sysy.Parser
