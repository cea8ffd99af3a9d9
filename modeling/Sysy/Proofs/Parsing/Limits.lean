import Sysy.Proofs.Parsing.Acceptance

/-!
What a limit on the number of errors changes, and what is reported whatever the limit is.

All readers are built of a few steps: looking at a token, reading one, complaining, trying a part,
and asking whether enough errors were found. `Built` says so, and a property that every step keeps
is one that every reader keeps. A limit matters only behind an error, and the first error is
reported under each limit.
-/

namespace Sysy.Parser
open Token Grammar

def Cursor.under (c : Cursor) (limit : Nat) : Cursor := { c with limit }

def Cursor.place (c : Cursor) : List Token × Span := (c.ahead.map (·.token), c.last)

structure Cursor.Blames (S : Span → Prop) (c : Cursor) : Prop where
  token : S c.token.span
  blame : S c.blame

/-- Readers that are built of the steps of the parser. A question about where the parser stands has
the same answer wherever the same text is ahead, unless it asks for the limit. The spans that an
error is blamed on come from such questions, so `S` holds for them if it does for the tokens. -/
inductive Built (S : Span → Prop) : {α : Type} → Reader α → Prop
  | pure {α : Type} (a : α) : Built S (pure a : Reader α)
  | failure {α : Type} : Built S (failure : Reader α)
  | bind {α β : Type} {r : Reader α} {k : α → Reader β} (hr : Built S r) (hk : ∀ a, Built S (k a)) :
      Built S (r >>= k)
  | look : Built S (modify Cursor.look)
  | advance : Built S (modify Cursor.advance)
  | complain (p : Problem) {span : Span} (h : S span) : Built S (Parser.complain p span)
  | ask {γ β : Type} {f : Cursor → γ} {k : γ → Reader β}
      (hf : ∀ c c', c.place = c'.place → f c = f c')
      (hk : ∀ c, c.Blames S → Built S (k (f c))) : Built S (get >>= fun c => k (f c))
  | enough {β : Type} {r r' : Reader β} (hr : Built S r) (hr' : Built S r') :
      Built S (get >>= fun c : Cursor => if c.enough = true then r else r')
  | attempt {α : Type} {r : Reader α} (hr : Built S r) : Built S (Parser.attempt r)

theorem Cursor.token_congr (c c' : Cursor) (h : c.place = c'.place) : c.token = c'.token := by
  have hahead : c.ahead.map (·.token) = c'.ahead.map (·.token) := congrArg Prod.fst h
  have hview : c.view.token = c'.view.token := by
    unfold View.token Cursor.view
    rw [hahead]
  rwa [Cursor.token_view, Cursor.token_view] at hview

theorem Cursor.last_congr (c c' : Cursor) (h : c.place = c'.place) : c.last = c'.last :=
  congrArg Prod.snd h

theorem Cursor.blame_congr (c c' : Cursor) (h : c.place = c'.place) : c.blame = c'.blame := by
  unfold Cursor.blame
  rw [Cursor.token_congr c c' h, Cursor.last_congr c c' h]

theorem Cursor.length_congr (c c' : Cursor) (h : c.place = c'.place) :
    c.ahead.length = c'.ahead.length := by
  have hlength := congrArg (fun p => p.1.length) h
  simpa only [Cursor.place, List.length_map] using hlength

namespace Built
variable {S : Span → Prop} {α β : Type}

theorem ite {p : Prop} [Decidable p] {r r' : Reader α} (hr : Built S r) (hr' : Built S r') :
    Built S (if p then r else r') := by
  split
  · exact hr
  · exact hr'

theorem map {f : α → β} {r : Reader α} (hr : Built S r) : Built S (f <$> r) := by
  rw [map_eq_pure_bind]
  exact .bind hr fun _ => .pure _

theorem peekToken {k : Token → Reader β} (hk : ∀ t : Token, S t.span → Built S (k t)) :
    Built S (Parser.peek >>= k) := by
  rw [Parser.peek, bind_assoc]
  refine .bind .look fun _ => ?_
  simp only [bind_assoc, pure_bind]
  exact .ask (f := fun c => c.token) Cursor.token_congr fun c hc => hk c.token hc.token

theorem peek : Built S Parser.peek := by
  rw [← bind_pure Parser.peek]
  exact peekToken fun t _ => .pure t

theorem at_ (k : Kind) : Built S (Parser.at_ k) := .bind peek fun _ => .pure _

theorem atAny (ks : List Kind) : Built S (Parser.atAny ks) := .bind peek fun _ => .pure _

theorem takeToken {k : Token → Reader β} (hk : ∀ t : Token, S t.span → Built S (k t)) :
    Built S (Parser.advance >>= k) := by
  rw [Parser.advance, bind_assoc]
  refine peekToken fun t ht => ?_
  rw [bind_assoc]
  refine .bind .advance fun _ => ?_
  rw [pure_bind]
  exact hk t ht

theorem take : Built S Parser.advance := by
  rw [← bind_pure Parser.advance]
  exact takeToken fun t _ => .pure t

theorem reject (p : Problem) : Built S (Parser.reject p : Reader α) :=
  .bind peek fun _ => .ask (f := Cursor.blame) (k :=
    fun span => Parser.complain p span >>= fun _ => Alternative.failure)
    Cursor.blame_congr fun _ hc => .bind (.complain p hc.blame) fun _ => .failure

theorem expect (k : Kind) (place : String) : Built S (Parser.expect k place) :=
  .bind (at_ k) fun _ => .ite take (reject _)

theorem ident : Built S Parser.ident := .bind peek fun _ => .ite take (reject _)

theorem lastSpan : Built S Parser.lastSpan :=
  .ask (f := fun c => c.last) (k := fun s => Pure.pure s) Cursor.last_congr fun _ _ => .pure _

theorem skipTo (ks : List Kind) (b : Nat) : Built S (Parser.skipTo ks b) := by
  induction b with
  | zero => exact .pure ()
  | succ b ih =>
    rw [Parser.skipTo]
    exact .bind (atAny _) fun _ => .ite (.pure ()) (.bind take fun _ => ih)

theorem skipUntil (ks : List Kind) : Built S (Parser.skipUntil ks) :=
  .ask (f := fun c => c.ahead.length) Cursor.length_congr fun _ _ => skipTo ks _

theorem literal : Built S Parser.literal := by
  rw [Parser.literal]
  refine takeToken fun t ht => ?_
  split
  · exact .ite (.pure _) (.bind (.complain _ ht) fun _ => .failure)
  · exact .bind (.complain _ ht) fun _ => .failure

structure Exprs (S : Span → Prop) (b : Nat) : Prop where
  expr : Built S (Parser.expr b)
  binary : ∀ least, Built S (Parser.binary b least)
  climb : ∀ least left, Built S (Parser.climb b least left)
  unary : Built S (Parser.unary b)
  primary : Built S (Parser.primary b)
  exprs : Built S (Parser.exprs b)
  dims : Built S (Parser.dims b)

theorem climb_succ {b : Nat} (ih : Exprs S b) (least : Nat) (left : Expr) :
    Built S (Parser.climb (b + 1) least left) := by
  rw [Parser.climb]
  refine .bind peek fun t => ?_
  split
  · exact .pure left
  · rename_i tightness op hop
    have hgo : Built S (do
        let right ← Parser.binary b (tightness + 1)
        Parser.climb b least (.binary (left.span.cover right.span) op left right)) :=
      .bind (ih.binary _) fun right => ih.climb ..
    refine .ite (.pure left) (.bind take fun _ => .bind (atAny _) fun starts => ?_)
    exact .ite (.bind (reject _) fun _ => hgo) hgo

theorem primary_succ {b : Nat} (ih : Exprs S b) : Built S (Parser.primary (b + 1)) := by
  rw [Parser.primary]
  refine .bind peek fun t => ?_
  split
  · exact literal
  · have hclose (args : List Expr) : Built S (do
        let close ← Parser.expect .rparen " after call arguments"
        return Expr.call (t.span.cover close.span) (Bytes.toAscii t.text) args) :=
      .bind (expect ..) fun _ => .pure _
    refine .bind take fun _ => .bind (at_ _) fun _ => .ite ?_ ?_
    · refine .bind take fun _ => .bind (at_ _) fun _ => .ite ?_ ?_
      · exact hclose []
      · exact .bind ih.exprs hclose
    · exact .bind ih.dims fun _ => .bind lastSpan fun _ => .pure _
  · exact .bind take fun _ => .bind ih.expr fun _ => .bind (expect ..) fun _ => .pure _
  · exact reject _

theorem exprs_all (b : Nat) : Exprs S b := by
  induction b with
  | zero =>
    exact ⟨.failure, fun _ => .failure, fun _ _ => .failure, .failure, .failure, .failure, .failure⟩
  | succ b ih =>
    constructor
    case expr =>
      rw [Parser.expr]
      exact .bind (atAny _) fun _ => .ite (ih.binary 0) (.bind peek fun _ => reject _)
    case binary =>
      intro least
      rw [Parser.binary]
      exact .bind ih.unary fun left => ih.climb least left
    case climb => exact climb_succ ih
    case unary =>
      rw [Parser.unary]
      refine .bind peek fun t => ?_
      split
      · exact .bind take fun _ => .bind ih.unary fun _ => .pure _
      · exact ih.primary
    case primary => exact primary_succ ih
    case exprs =>
      rw [Parser.exprs]
      exact .bind ih.expr fun _ => .bind (at_ _) fun _ =>
        .ite (.bind take fun _ => .bind ih.exprs fun _ => .pure _) (.pure _)
    case dims =>
      rw [Parser.dims]
      refine .bind (at_ _) fun _ => .ite ?_ (.pure _)
      exact .bind take fun _ => .bind ih.expr fun _ => .bind (expect ..) fun _ =>
        .bind ih.dims fun _ => .pure _

theorem init_all (b : Nat) : Built S (Parser.init b) ∧ Built S (Parser.inits b) := by
  induction b with
  | zero => exact ⟨.failure, .failure⟩
  | succ b ih =>
    obtain ⟨ihInit, ihInits⟩ := ih
    constructor
    · rw [Parser.init]
      have hclose (brace : Token) (elems : List Init) : Built S (do
          let close ← Parser.expect .rbrace " to close initializer list"
          return Init.list (brace.span.cover close.span) elems) :=
        .bind (expect ..) fun _ => .pure _
      refine .bind (at_ _) fun _ => .ite ?_ (.bind (exprs_all b).expr fun _ => .pure _)
      exact .bind take fun brace => .bind (at_ _) fun _ =>
        .ite (hclose brace []) (.bind ihInits (hclose brace))
    · rw [Parser.inits]
      exact .bind ihInit fun _ => .bind (at_ _) fun _ =>
        .ite (.bind take fun _ => .bind ihInits fun _ => .pure _) (.pure _)

theorem varDef (b : Nat) (isConst : Bool) (name : Token) :
    Built S (Parser.varDef b isConst name) := by
  rw [Parser.varDef]
  refine .bind (exprs_all b).dims fun _ => .bind (at_ _) fun _ =>
    .ite ?_ (.ite (reject _) (.pure _))
  exact .bind take fun _ => .bind (init_all b).1 fun _ => .pure _

theorem varDefs (isConst : Bool) (b : Nat) (first : Token) :
    Built S (Parser.varDefs isConst b first) := by
  induction b generalizing first with
  | zero => exact .failure
  | succ b ih =>
    rw [Parser.varDefs]
    refine .bind (varDef ..) fun _ => .bind (at_ _) fun _ => .ite ?_ (.pure _)
    exact .bind take fun _ => .bind ident fun name => .bind (ih name) fun _ => .pure _

theorem declRest (b : Nat) (isConst : Bool) (first : Token) :
    Built S (Parser.declRest b isConst first) :=
  .bind (varDefs ..) fun _ => .bind (expect ..) fun _ => .pure _

theorem decl (b : Nat) : Built S (Parser.decl b) := by
  have hrest (isConst : Bool) : Built S (do
      let _ ← Parser.expect .kwInt " in declaration"
      let name ← Parser.ident
      Parser.declRest b isConst name) :=
    .bind (expect ..) fun _ => .bind ident fun _ => declRest ..
  rw [Parser.decl]
  exact .bind (at_ _) fun isConst => .ite (.bind take fun _ => hrest isConst) (hrest isConst)

theorem condition (b : Nat) : Built S (Parser.condition b) :=
  .bind (expect ..) fun _ => .bind (exprs_all b).expr fun _ => .bind (expect ..) fun _ => .pure _

theorem simpleStmt (b : Nat) : Built S (Parser.simpleStmt b) := by
  rw [Parser.simpleStmt]
  refine .bind (exprs_all b).expr fun e => .bind (at_ _) fun _ => .ite ?_ ?_
  · refine takeToken fun t ht => ?_
    split
    · exact .bind (exprs_all b).expr fun _ => .bind (expect ..) fun _ =>
        .bind lastSpan fun _ => .pure _
    · exact .bind (.complain _ ht) fun _ => .failure
  · exact .bind (expect ..) fun _ => .bind lastSpan fun _ => .pure _

structure Stmts (S : Span → Prop) (b : Nat) : Prop where
  block : Built S (Parser.block b)
  stmts : Built S (Parser.stmts b)
  stmt : Built S (Parser.stmt b)

theorem stmts_succ {b : Nat} (ih : Stmts S b) : Built S (Parser.stmts (b + 1)) := by
  rw [Parser.stmts]
  have hmore (outcome : Option Stmt) : Built S (do return outcome :: (← Parser.stmts b)) :=
    .bind ih.stmts fun _ => .pure _
  refine .bind (atAny _) fun _ => .ite (.pure [])
    (.enough .failure (.bind (.attempt ih.stmt) fun outcome => .ite ?_ (hmore outcome)))
  exact .bind (skipUntil _) fun _ => .bind (at_ _) fun _ =>
    .ite (.bind take fun _ => hmore outcome) (hmore outcome)

theorem stmt_succ {b : Nat} (ih : Stmts S b) : Built S (Parser.stmt (b + 1)) := by
  rw [Parser.stmt]
  refine .bind peek fun t => ?_
  have hdecl : Built S (do
      let d ← Parser.decl b
      return Stmt.decl (t.span.cover (← Parser.lastSpan)) d) :=
    .bind (decl b) fun _ => .bind lastSpan fun _ => .pure _
  have hreturn (value : Option Expr) : Built S (do
      let _ ← Parser.expect .semicolon " after return"
      return Stmt.ret (t.span.cover (← Parser.lastSpan)) value) :=
    .bind (expect ..) fun _ => .bind lastSpan fun _ => .pure _
  split
  · exact .bind ih.block fun _ => .pure _
  · exact hdecl
  · exact hdecl
  · refine .bind take fun _ => .bind (condition b) fun _ => .bind ih.stmt fun _ =>
      .bind (at_ _) fun _ => .ite ?_ ?_
    · exact .bind take fun _ => .bind ih.stmt fun _ => .bind lastSpan fun _ => .pure _
    · exact .bind lastSpan fun _ => .pure _
  · exact .bind take fun _ => .bind (condition b) fun _ => .bind ih.stmt fun _ =>
      .bind lastSpan fun _ => .pure _
  · exact .bind take fun _ => .bind (expect ..) fun _ => .bind lastSpan fun _ => .pure _
  · exact .bind take fun _ => .bind (expect ..) fun _ => .bind lastSpan fun _ => .pure _
  · exact .bind take fun _ => .bind (at_ _) fun _ =>
      .ite (hreturn none) (.bind (.map (exprs_all b).expr) hreturn)
  · exact .bind take fun _ => .pure _
  · exact simpleStmt b

theorem stmts_all (b : Nat) : Stmts S b := by
  induction b with
  | zero => exact ⟨.failure, .failure, .failure⟩
  | succ b ih =>
    refine ⟨?_, stmts_succ ih, stmt_succ ih⟩
    rw [Parser.block]
    refine .bind (expect ..) fun _ => .bind ih.stmts fun outcomes => .bind (expect ..) fun _ => ?_
    split
    · exact .pure _
    · exact .failure

theorem param (b : Nat) : Built S (Parser.param b) := by
  rw [Parser.param]
  refine .bind (expect ..) fun _ => .bind ident fun _ => .bind (at_ _) fun _ => .ite ?_ (.pure _)
  exact .bind take fun _ => .bind (expect ..) fun _ => .bind (exprs_all b).dims fun _ =>
    .bind lastSpan fun _ => .pure _

theorem params (b : Nat) : Built S (Parser.params b) := by
  induction b with
  | zero => exact .failure
  | succ b ih =>
    rw [Parser.params]
    exact .bind (param b) fun _ => .bind (at_ _) fun _ =>
      .ite (.bind take fun _ => .bind ih fun _ => .pure _) (.pure _)

theorem funcRest (b : Nat) (type name : Token) (ps : List Param) :
    Built S (Parser.funcRest b type name ps) := by
  have hbody : Built S (do
      let body ← Parser.block b
      let f : FuncDef :=
        { name := Bytes.toAscii name.text, nameSpan := name.span, isVoid := type.kind == .kwVoid,
          params := ps, bodySpan := body.1, body := body.2 }
      return Item.func (type.span.cover (← Parser.lastSpan)) f) :=
    .bind (stmts_all b).block fun _ => .bind lastSpan fun _ => .pure _
  rw [Parser.funcRest]
  exact .bind (expect ..) fun _ => .bind (at_ _) fun _ =>
    .ite (.bind (reject _) fun _ => hbody) hbody

theorem func (b : Nat) (type name : Token) : Built S (Parser.func b type name) := by
  rw [func_eq]
  exact .bind take fun _ => .bind (at_ _) fun _ =>
    .ite (funcRest b type name []) (.bind (params b) (funcRest b type name))

theorem typedItem (b : Nat) {t : Token} (ht : S t.span) : Built S (Parser.typedItem b t) := by
  rw [Parser.typedItem]
  refine .bind take fun _ => .bind ident fun name => .bind (at_ _) fun _ =>
    .ite (func ..) (.ite ?_ ?_)
  · exact .bind (.complain _ ht) fun _ => .failure
  · exact .bind (declRest ..) fun _ => .bind lastSpan fun _ => .pure _

theorem item (b : Nat) : Built S (Parser.item b) := by
  rw [item_eq]
  refine peekToken fun t ht => ?_
  split
  · exact .bind (decl b) fun _ => .bind lastSpan fun _ => .pure _
  · exact typedItem b ht
  · exact typedItem b ht
  · exact .bind (.complain _ ht) fun _ => .failure

theorem items (b : Nat) : Built S (Parser.items b) := by
  induction b with
  | zero => exact .pure _
  | succ b ih =>
    rw [Parser.items]
    refine .bind (at_ _) fun _ =>
      .ite (.pure _) (.enough (.pure _) (.bind (.attempt (item b)) fun outcome => ?_))
    split
    · exact .bind ih fun _ => .pure _
    · exact .bind (skipUntil _) fun _ => .bind (atAny _) fun _ => .ite (.bind take fun _ => ih) ih

theorem program (b : Nat) : Built S (Parser.program b) :=
  .bind peek fun _ => .bind (items b) fun _ => .bind peek fun _ => .pure _

end Built

section Runs
variable {S : Span → Prop} {α β : Type} {r : Reader α} {k : α → Reader β}

theorem run_bind (r : Reader α) (k : α → Reader β) (c : Cursor) :
    (r >>= k).run.run c = match r.run.run c with
      | (some a, c') => (k a).run.run c'
      | (none, c') => (none, c') := by
  simp only [OptionT.run_bind, Option.elimM, StateT.run_bind]
  generalize StateT.run r.run c = x
  rcases x with ⟨_ | a, c'⟩ <;> rfl

theorem exists_of_run_bind {c c' : Cursor} {b : β} (h : (r >>= k).run.run c = (some b, c')) :
    ∃ a c₁, r.run.run c = (some a, c₁) ∧ (k a).run.run c₁ = (some b, c') := by
  rw [run_bind] at h
  split at h
  · rename_i a c₁ heq
    exact ⟨a, c₁, heq, h⟩
  · cases h

theorem run_attempt (r : Reader α) (c : Cursor) :
    (attempt r).run.run c = (some (r.run.run c).1, (r.run.run c).2) := rfl

theorem run_enough (r r' : Reader α) (c : Cursor) :
    (get >>= fun c : Cursor => if c.enough = true then r else r').run.run c =
      (if c.enough = true then r else r').run.run c := rfl

theorem Built.keeps {I : Cursor → Prop} (hblames : ∀ c, I c → c.Blames S)
    (hlook : ∀ c, I c → I c.look) (hadvance : ∀ c, I c → I c.advance)
    (hcomplain : ∀ c p span, S span → I c → I (c.complain p span)) (h : Built S r) (c : Cursor)
    (hc : I c) : I (r.run.run c).2 := by
  induction h generalizing c with
  | pure a => exact hc
  | failure => exact hc
  | bind hr hk ihr ihk =>
    rw [run_bind]
    have hmid := ihr c hc
    split
    · rename_i heq
      rw [heq] at hmid
      exact ihk _ _ hmid
    · rename_i heq
      rw [heq] at hmid
      exact hmid
  | look => exact hlook c hc
  | advance => exact hadvance c hc
  | complain p hspan => exact hcomplain c p _ hspan hc
  | ask hf hk ihk => exact ihk c (hblames c hc) c hc
  | enough hr hr' ihr ihr' =>
    rw [run_enough]
    split
    · exact ihr c hc
    · exact ihr' c hc
  | attempt hr ihr => exact ihr c hc

abbrev Loose {α : Type} (r : Reader α) : Prop := Built (fun _ => True) r

theorem Cursor.blames_any (c : Cursor) : c.Blames fun _ => True := ⟨trivial, trivial⟩

theorem Cursor.errors_complain (c : Cursor) (p : Problem) (span : Span) :
    (c.complain p span).errors = c.errors + 1 := by
  unfold Cursor.complain
  dsimp only
  split <;> rfl

theorem Built.errors_le (h : Loose r) (c : Cursor) : c.errors ≤ (r.run.run c).2.errors := by
  refine h.keeps (I := fun c' => c.errors ≤ c'.errors) (fun c' _ => c'.blames_any) (fun _ h => h)
    (fun _ h => h)
    (fun c' p span _ hle => ?_) c (Nat.le_refl _)
  rw [Cursor.errors_complain]
  exact Nat.le_succ_of_le hle

theorem Cursor.enough_eq_false {c : Cursor} (h : c.errors = 0) : c.enough = false := by
  rw [Cursor.enough, h]
  cases c.limit <;> rfl

/-- A reader that finds no error does the same under each limit. -/
theorem Built.agrees (h : Loose r) (limit : Nat) (c : Cursor) (hzero : (r.run.run c).2.errors = 0) :
    r.run.run (c.under limit) = ((r.run.run c).1, (r.run.run c).2.under limit) := by
  induction h generalizing c with
  | pure a => rfl
  | failure => rfl
  | bind hr hk ihr ihk =>
    rw [run_bind] at hzero ⊢
    rw [run_bind]
    split at hzero
    · rename_i a c' heq
      have hmid : c'.errors = 0 := Nat.eq_zero_of_le_zero (hzero ▸ (hk a).errors_le c')
      rw [ihr c (by rw [heq]; exact hmid), heq]
      exact ihk a c' hzero
    · rename_i c' heq
      rw [ihr c (by rw [heq]; exact hzero), heq]
  | look =>
    have hlook : (c.under limit).look = c.look.under limit := rfl
    exact congrArg (Prod.mk _) hlook
  | advance =>
    have hadvance : (c.under limit).advance = c.advance.under limit := rfl
    exact congrArg (Prod.mk _) hadvance
  | @complain p span _ =>
    have herrors : (c.complain p span).errors = 0 := hzero
    rw [Cursor.errors_complain] at herrors
    exact absurd herrors (Nat.succ_ne_zero _)
  | @ask _ _ f k hf hk ihk =>
    have hrun : (k (f (c.under limit))).run.run (c.under limit) = (k (f c)).run.run
      (c.under limit) := by
      rw [hf (c.under limit) c rfl]
    exact hrun.trans (ihk c c.blames_any c hzero)
  | @enough _ r r' hr hr' ihr ihr' =>
    have hstart : c.errors = 0 := Nat.eq_zero_of_le_zero (hzero ▸ (Built.enough hr hr').errors_le c)
    have hrun (c : Cursor) (h : c.errors = 0) :
        (get >>= fun c : Cursor => if c.enough = true then r else r').run.run c = r'.run.run c := by
      rw [run_enough, Cursor.enough_eq_false h]
      rfl
    rw [hrun c hstart] at hzero ⊢
    rw [hrun (c.under limit) hstart]
    exact ihr' c hzero
  | attempt hr ihr =>
    rw [run_attempt, run_attempt, ihr c hzero]

end Runs

section Reports
variable {α : Type} {r : Reader α} {ls : List Lexeme}

/-- What was reported when the parser stands somewhere in the lexemes `ls`: everything about the
tokens that were looked at, and nothing but that as long as there is no error. The first error is
reported. -/
structure Heard (ls : List Lexeme) (c : Cursor) : Prop where
  passed : ∃ done, ls = done ++ c.ahead ∧ ∀ l ∈ done, ∀ d ∈ l.problems, d ∈ c.reported.toList
  ahead : c.looked = true → ∀ l ∈ c.ahead.head?, ∀ d ∈ l.problems, d ∈ c.reported.toList
  first : c.errors = 0 ∨ c.reported.toList ≠ []
  sources : ∀ d ∈ c.reported.toList, (∃ p span, d = Problem.located p span) ∧
    (0 < c.errors ∨ ∃ l ∈ ls, d ∈ l.problems)

def Located (ls : List Lexeme) : Prop :=
  ∀ l ∈ ls, ∀ d ∈ l.problems, ∃ p span, d = Problem.located p span

theorem looked_look (s : TokenStream) : s.look.looked = true := by
  unfold TokenStream.look
  by_cases hlooked : s.looked = true
  · rwa [if_pos hlooked]
  · rw [if_neg hlooked]

theorem Heard.look (hlocated : Located ls) {c : Cursor} (h : Heard ls c) : Heard ls c.look := by
  by_cases hlooked : c.looked = true
  · have hlook : c.look = c := by
      rw [Cursor.look, TokenStream.look, if_pos hlooked]
    exact hlook.symm ▸ h
  · have hreported : c.look.reported.toList = c.reported.toList ++ (c.ahead.take 1).flatMap
      (·.problems) := by
      rw [Cursor.look, TokenStream.look, if_neg hlooked]
      exact Array.toList_append ..
    have hkept {d : Diagnostic} (hd : d ∈ c.reported.toList) : d ∈ c.look.reported.toList := by
      rw [hreported]
      exact List.mem_append_left _ hd
    obtain ⟨done, hls, hdone⟩ := h.passed
    constructor
    case passed =>
      refine ⟨done, ?_, fun l hl d hd => hkept (hdone l hl d hd)⟩
      rw [hls]
      exact congrArg _ (Cursor.ahead_look c).symm
    case ahead =>
      intro _ l hl d hd
      have hhead : c.ahead.head? = some l := (Cursor.ahead_look c) ▸ hl
      obtain ⟨rest, hahead⟩ := List.head?_eq_some_iff.mp hhead
      rw [hreported, hahead]
      exact List.mem_append_right _ (List.mem_flatMap.mpr ⟨l, List.mem_singleton_self l, hd⟩)
    case first =>
      refine h.first.imp_right fun hne => ?_
      rw [hreported]
      exact List.append_ne_nil_of_left_ne_nil hne _
    case sources =>
      intro d hd
      rw [hreported] at hd
      rcases List.mem_append.mp hd with hd | hd
      · exact h.sources d hd
      · obtain ⟨l, hl, hd⟩ := List.mem_flatMap.mp hd
        have hl : l ∈ ls := hls ▸ List.mem_append_right _ (List.mem_of_mem_take hl)
        exact ⟨hlocated l hl d hd, .inr ⟨l, hl, hd⟩⟩

/-- Only the tokens, the reports and the number of errors count. -/
theorem Heard.congr {c c' : Cursor} (h : Heard ls c) (hstream : c'.toTokenStream = c.toTokenStream)
    (herrors : c'.errors = c.errors) : Heard ls c' := by
  obtain ⟨passed, ahead, first, sources⟩ := h
  exact ⟨hstream ▸ passed, hstream ▸ ahead, herrors ▸ hstream ▸ first, herrors ▸ hstream ▸ sources⟩

theorem Heard.advance (hlocated : Located ls) {c : Cursor} (h : Heard ls c) :
    Heard ls c.advance := by
  have hlook := h.look hlocated
  have hlooked : c.look.looked = true := looked_look _
  by_cases heof : c.toTokenStream.look.token.kind = .eof
  · exact hlook.congr (if_pos heof) rfl
  · have hadvance : c.toTokenStream.advance =
        { c.toTokenStream.look with ahead := c.toTokenStream.look.ahead.tail, looked := false } :=
          if_neg heof
    obtain ⟨done, hls, hdone⟩ := hlook.passed
    cases hahead : c.look.ahead with
    | nil =>
      have htoken : c.toTokenStream.look.token.kind = .eof := by
        unfold TokenStream.token
        rw [show c.toTokenStream.look.ahead = [] from hahead]
      exact absurd htoken heof
    | cons l rest =>
      have hhead : ∀ d ∈ l.problems, d ∈ c.look.reported.toList :=
        hlook.ahead hlooked l (by rw [hahead]; rfl)
      have hstream : c.advance.toTokenStream =
        { c.look.toTokenStream with ahead := rest, looked := false } := by
        rw [show rest = c.look.ahead.tail by rw [hahead]; rfl]
        exact hadvance
      constructor
      case passed =>
        refine ⟨done ++ [l], ?_, ?_⟩
        · rw [hstream, List.append_assoc, hls, hahead]
          rfl
        · intro l' hl' d hd
          rw [hstream]
          rcases List.mem_append.mp hl' with hl' | hl'
          · exact hdone l' hl' d hd
          · obtain rfl := List.mem_singleton.mp hl'
            exact hhead d hd
      case ahead =>
        intro hlooked'
        rw [hstream] at hlooked'
        cases hlooked'
      case first =>
        rw [hstream]
        exact hlook.first
      case sources =>
        rw [hstream]
        exact hlook.sources

theorem Heard.complain {c : Cursor} (h : Heard ls c) (p : Problem) (span : Span) :
    Heard ls (c.complain p span) := by
  by_cases hfull : (c.limit ≠ 0 && c.limit < c.errors + 1) = true
  · have hcomplain : c.complain p span = { c with errors := c.errors + 1 } := if_pos hfull
    -- the limit is positive, so there was an error before
    have herrors : c.errors ≠ 0 := by
      simp only [ne_eq, decide_not, Bool.and_eq_true, Bool.not_eq_eq_eq_not, Bool.not_true,
        decide_eq_false_iff_not,
        decide_eq_true_eq] at hfull
      omega
    rw [hcomplain]
    exact ⟨h.passed, h.ahead, .inr (h.first.resolve_left herrors), fun d hd => ⟨(h.sources d hd).1,
      .inl (Nat.succ_pos _)⟩⟩
  · have hcomplain : c.complain p span =
        { c with errors := c.errors + 1, reported := c.reported.push (p.located span) } :=
          if_neg hfull
    rw [hcomplain]
    have hkept {d : Diagnostic} (hd : d ∈ c.reported.toList) :
      d ∈ (c.reported.push (p.located span)).toList := by
      rw [Array.toList_push]
      exact List.mem_append_left _ hd
    obtain ⟨done, hls, hdone⟩ := h.passed
    constructor
    case passed => exact ⟨done, hls, fun l hl d hd => hkept (hdone l hl d hd)⟩
    case ahead => exact fun hlooked l hl d hd => hkept (h.ahead hlooked l hl d hd)
    case first => exact .inr (by simp)
    case sources =>
      intro d hd
      refine ⟨?_, .inl (Nat.succ_pos _)⟩
      rcases Array.mem_push.mp (Array.mem_toList_iff.mp hd) with hd | rfl
      · exact (h.sources d (Array.mem_toList_iff.mpr hd)).1
      · exact ⟨p, span, rfl⟩

theorem Built.heard (hlocated : Located ls) (hr : Loose r) {c : Cursor} (h : Heard ls c) :
    Heard ls (r.run.run c).2 :=
  hr.keeps (fun c _ => c.blames_any) (fun _ h => h.look hlocated) (fun _ h => h.advance hlocated)
    (fun _ p span _ h => h.complain p span) c h

end Reports

end Sysy.Parser
