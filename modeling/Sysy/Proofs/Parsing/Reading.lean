import Sysy.Proofs.Parsing.Grammar

/-!
What readers of tokens do. `Ends r v Q E` says how the reader `r` ends when the parser stands as `v`
tells: if it does not fail, then as `Q` tells, and else as `E` does. Only the tokens ahead, the last
token that was read and the number of errors count, so `View` leaves out the rest of the parser's
state.
-/

namespace Sysy.Parser
open Token Grammar

variable {α β : Type}

/-- What is known of where the parser stands. -/
structure View where
  tokens : List Token
  last : Span
  limit : Nat
  errors : Nat

def kindOf : List Token → Kind
  | [] => .eof
  | t :: _ => t.kind

namespace View
variable {v v' v'' : View}

def token (v : View) : Token :=
  match v.tokens with
  | t :: _ => t
  | [] => { kind := .eof, span := {}, text := [] }

def advance (v : View) : View :=
  if v.token.kind = .eof then v
  else { v with tokens := v.tokens.tail,
                last := if v.token.kind = .invalid then v.last else v.token.span }

def complain (v : View) : View := { v with errors := v.errors + 1 }

theorem kind_token (v : View) : v.token.kind = kindOf v.tokens := by
  obtain ⟨tokens, _⟩ := v
  cases tokens <;> rfl

theorem token_begins {K : Kind → Prop} {ts rest : List Token} (h : Begins K ts)
    (hv : v.tokens = ts ++ rest) :
    K v.token.kind := by
  obtain ⟨t, ts', rfl, hk⟩ := h
  rwa [kind_token, hv]

theorem kindOf_ne {K : Kind → Prop} {ts rest : List Token} {kind : Kind} (h : Begins K ts)
    (hv : v.tokens = ts ++ rest) (hkind : ¬K kind) : kindOf v.tokens ≠ kind := by
  rintro rfl
  exact hkind (kind_token v ▸ token_begins h hv)

structure Took (v : View) (ts : List Token) (v' : View) : Prop where
  tokens : v.tokens = ts ++ v'.tokens
  last : v'.last = endSpan v.last ts
  limit : v'.limit = v.limit
  errors : v'.errors = v.errors
  inner : ∀ t ∈ ts, t.kind ≠ .eof

theorem Took.refl (v : View) : Took v [] v := ⟨rfl, rfl, rfl, rfl, by simp⟩

theorem endSpan_append (d : Span) (ts ts' : List Token) :
    endSpan d (ts ++ ts') = endSpan (endSpan d ts) ts' := by
  simp only [endSpan, List.getLast?_append]
  cases ts'.getLast? <;> simp

theorem Took.trans {ts ts' : List Token} (h : Took v ts v') (h' : Took v' ts' v'') :
    Took v (ts ++ ts') v'' where
  tokens := by rw [h.tokens, h'.tokens, List.append_assoc]
  last := by rw [h'.last, h.last, endSpan_append]
  limit := h'.limit.trans h.limit
  errors := h'.errors.trans h.errors
  inner := fun t ht => (List.mem_append.mp ht).elim (h.inner t) (h'.inner t)

theorem Took.length {ts : List Token} (h : Took v ts v') :
    v.tokens.length = ts.length + v'.tokens.length := by
  rw [h.tokens, List.length_append]

theorem Took.rest {ts rest : List Token} (h : Took v ts v') (hv : v.tokens = ts ++ rest) :
    v'.tokens = rest :=
  List.append_cancel_left (h.tokens.symm.trans hv)

theorem took_advance (h : v.token.kind ≠ .eof) (h' : v.token.kind ≠ .invalid) :
    Took v [v.token] v.advance := by
  rw [advance, if_neg h]
  obtain ⟨tokens, last, limit, errors⟩ := v
  cases tokens with
  | nil => exact absurd rfl h
  | cons t ts => exact ⟨rfl, if_neg h', rfl, rfl, by simpa using h⟩

theorem errors_advance : v.advance.errors = v.errors := by
  rw [advance]
  split <;> rfl

end View

def Cursor.view (c : Cursor) : View := ⟨c.ahead.map (·.token), c.last, c.limit, c.errors⟩

namespace Cursor
variable (c : Cursor)

theorem token_view : c.view.token = c.token := by
  rw [View.token, TokenStream.token, view]
  cases c.ahead <;> rfl

theorem ahead_look : c.toTokenStream.look.ahead = c.ahead := by
  rw [TokenStream.look]
  split <;> rfl

theorem view_look : c.look.view = c.view := by
  simp only [view, look, ahead_look]

theorem token_look : c.toTokenStream.look.token = c.token := by
  rw [TokenStream.token, ahead_look, TokenStream.token]

theorem view_advance : c.advance.view = c.view.advance := by
  have hahead : c.toTokenStream.advance.ahead = if c.token.kind = .eof then c.ahead
    else c.ahead.tail := by
    simp only [TokenStream.advance, token_look]
    split <;> simp only [ahead_look]
  rw [View.advance, token_view]
  simp only [view, advance, hahead]
  by_cases heof : c.token.kind = .eof
  · simp [heof]
  · simp [heof]

theorem view_complain (p : Problem) (span : Span) : (c.complain p span).view = c.view.complain := by
  simp only [complain]
  split <;> rfl

end Cursor

def Ends (r : Reader α) (v : View) (Q : α → View → Prop) (E : View → Prop) : Prop :=
  ∀ c : Cursor, c.view = v → match r.run.run c with
    | (some a, c') => Q a c'.view
    | (none, c') => E c'.view

namespace Ends
variable {r : Reader α} {k : α → Reader β} {v : View} {Q : α → View → Prop} {R : β → View → Prop}
  {E E' : View → Prop}

theorem pure {a : α} (h : Q a v) : Ends (pure a) v Q E := by
  rintro c rfl
  exact h

theorem failure (h : E v) : Ends (failure : Reader α) v Q E := by
  rintro c rfl
  exact h

theorem bind (hr : Ends r v Q E) (hk : ∀ a v', Q a v' → Ends (k a) v' R E) :
    Ends (r >>= k) v R E := by
  intro c hc
  have hrun : (r >>= k).run.run c = match r.run.run c with
      | (some a, c') => (k a).run.run c'
      | (none, c') => (none, c') := by
    simp only [OptionT.run_bind, Option.elimM, StateT.run_bind]
    generalize StateT.run r.run c = x
    rcases x with ⟨_ | a, c'⟩ <;> rfl
  rw [hrun]
  have h := hr c hc
  generalize StateT.run r.run c = x at h ⊢
  match x with
  | (some a, c') => exact hk a c'.view h c' rfl
  | (none, c') => exact h

theorem mono (h : Ends r v Q E) {Q' : α → View → Prop} (hQ : ∀ a v', Q a v' → Q' a v')
    (hE : ∀ v', E v' → E' v') :
    Ends r v Q' E' := by
  intro c hc
  have := h c hc
  generalize StateT.run r.run c = x at this ⊢
  match x with
  | (some a, c') => exact hQ a _ this
  | (none, c') => exact hE _ this

section
variable {k : Token → Reader β}

theorem peek (h : Ends (k v.token) v R E) : Ends (peek >>= k) v R E := by
  refine bind (Q := fun t v' => t = v.token ∧ v' = v) ?_ ?_
  · rintro c rfl
    exact ⟨(Cursor.token_look c).trans (Cursor.token_view c).symm, Cursor.view_look c⟩
  · rintro _ _ ⟨rfl, rfl⟩
    exact h

theorem advance (h : Ends (k v.token) v.advance R E) : Ends (advance >>= k) v R E := by
  rw [Parser.advance, bind_assoc]
  refine peek ?_
  rw [bind_assoc]
  refine bind (Q := fun _ v' => v' = v.advance) ?_ ?_
  · rintro c rfl
    exact Cursor.view_advance c
  · rintro _ _ rfl
    rw [pure_bind]
    exact h

theorem take (heof : v.token.kind ≠ .eof) (hinvalid : v.token.kind ≠ .invalid)
    (h : ∀ v', v.Took [v.token] v' → Ends (k v.token) v' R E) : Ends (Parser.advance >>= k) v R E :=
  advance (h _ (View.took_advance heof hinvalid))

end

theorem at_ {kind : Kind} {k : Bool → Reader β} (hyes : v.token.kind = kind → Ends (k true) v R E)
    (hno : v.token.kind ≠ kind → Ends (k false) v R E) : Ends (at_ kind >>= k) v R E := by
  rw [Parser.at_, bind_assoc]
  refine peek ?_
  rw [pure_bind]
  by_cases h : v.token.kind = kind
  · rw [beq_iff_eq.mpr h]
    exact hyes h
  · rw [beq_eq_false_iff_ne.mpr h]
    exact hno h

theorem atAny {kinds : List Kind} {k : Bool → Reader β}
    (hyes : v.token.kind ∈ kinds → Ends (k true) v R E)
    (hno : v.token.kind ∉ kinds → Ends (k false) v R E) : Ends (atAny kinds >>= k) v R E := by
  rw [Parser.atAny, bind_assoc]
  refine peek ?_
  rw [pure_bind]
  by_cases h : v.token.kind ∈ kinds
  · rw [List.contains_iff_mem.mpr h]
    exact hyes h
  · rw [Bool.eq_false_iff.mpr fun hc => h (List.contains_iff_mem.mp hc)]
    exact hno h

theorem complain {p : Problem} {span : Span} {k : Unit → Reader β}
    (h : Ends (k ()) v.complain R E) :
    Ends (complain p span >>= k) v R E := by
  refine bind (Q := fun _ v' => v' = v.complain) ?_ ?_
  · rintro c rfl
    exact Cursor.view_complain c p span
  · rintro _ _ rfl
    exact h

theorem reject {p : Problem} (h : E v.complain) : Ends (reject p) v Q E := by
  rw [Parser.reject]
  refine peek ?_
  refine bind (Q := fun _ v' => v' = v) ?_ ?_
  · rintro c rfl
    rfl
  · rintro c _ rfl
    exact complain (failure h)

theorem expect {kind : Kind} {place : String} {k : Token → Reader β} (heof : kind ≠ .eof)
    (hinvalid : kind ≠ .invalid)
    (hyes : v.token.kind = kind → ∀ v', v.Took [v.token] v' → Ends (k v.token) v' R E)
    (hno : v.token.kind ≠ kind → E v.complain) : Ends (expect kind place >>= k) v R E := by
  rw [Parser.expect, bind_assoc]
  refine at_ (fun h => ?_) fun h => ?_
  · rw [if_pos rfl]
    exact take (h ▸ heof) (h ▸ hinvalid) (hyes h)
  · rw [if_neg Bool.false_ne_true]
    exact bind (Q := fun _ _ => False) (reject (hno h)) fun _ _ hfalse => hfalse.elim

theorem ident {k : Token → Reader β}
    (hyes : v.token.kind = .ident → ∀ v', v.Took [v.token] v' → Ends (k v.token) v' R E)
    (hno : v.token.kind ≠ .ident → E v.complain) : Ends (ident >>= k) v R E := by
  rw [Parser.ident, bind_assoc]
  refine peek ?_
  by_cases h : v.token.kind = .ident
  · rw [if_pos h]
    exact take (by simp [h]) (by simp [h]) (hyes h)
  · rw [if_neg h]
    exact bind (Q := fun _ _ => False) (reject (hno h)) fun _ _ hfalse => hfalse.elim

theorem lastSpan {k : Span → Reader β} (h : Ends (k v.last) v R E) :
    Ends (lastSpan >>= k) v R E := by
  refine bind (Q := fun s v' => s = v.last ∧ v' = v) ?_ ?_
  · rintro c rfl
    exact ⟨rfl, rfl⟩
  · rintro _ _ ⟨rfl, rfl⟩
    exact h

theorem get {k : Cursor → Reader β} (h : ∀ c : Cursor, c.view = v → Ends (k c) v R E) :
    Ends (get >>= k) v R E := by
  refine bind (Q := fun c v' => c.view = v ∧ v' = v) ?_ ?_
  · rintro c rfl
    exact ⟨rfl, rfl⟩
  · rintro c _ ⟨hc, rfl⟩
    exact h c hc

theorem attempt {k : Option α → Reader β} (hr : Ends r v Q E')
    (hyes : ∀ a v', Q a v' → Ends (k (some a)) v' R E) (hno : ∀ v', E' v' → Ends (k none) v' R E) :
    Ends (attempt r >>= k) v R E := by
  refine bind (Q := fun o v' => o.elim (E' v') (Q · v')) ?_ ?_
  · intro c hc
    have h := hr c hc
    simp only [Parser.attempt, OptionT.run_lift, StateT.run_bind]
    generalize StateT.run r.run c = x at h ⊢
    obtain ⟨_ | a, c'⟩ := x
    · exact h
    · exact h
  · rintro (_ | a) v' h
    · exact hno v' h
    · exact hyes a v' h

end Ends

/-! The parts of an item. -/

/-- Reads a function from behind its parameters. -/
def funcRest (b : Nat) (type name : Token) (ps : List Param) : Reader Item := do
  let _ ← expect .rparen " after parameters"
  if !(← at_ .lbrace) then reject (.missing .lbrace " to start function body")
  let body ← block b
  let f : FuncDef :=
    { name := Bytes.toAscii name.text, nameSpan := name.span, isVoid := type.kind == .kwVoid,
      params := ps, bodySpan := body.1, body := body.2 }
  return .func (type.span.cover (← lastSpan)) f

theorem func_eq (b : Nat) (type name : Token) : func b type name = (do
    let _ ← advance
    let ps ← if ← at_ .rparen then pure [] else params b
    funcRest b type name ps) := rfl

/-- Reads an item that begins with a type. -/
def typedItem (b : Nat) (type : Token) : Reader Item := do
  let _ ← advance
  let name ← ident
  if ← at_ .lparen then func b type name
  else if type.kind = .kwVoid then
    complain .voidVariable type.span
    failure
  else
    let d ← declRest b false name
    return .decl (type.span.cover (← lastSpan)) d

theorem item_eq (b : Nat) : item b = (do
    let t ← peek
    match t.kind with
    | .kwConst =>
      let d ← decl b
      return .decl (t.span.cover (← lastSpan)) d
    | .kwInt | .kwVoid => typedItem b t
    | _ =>
      complain .unexpectedTopLevel t.span
      failure) := rfl

end Sysy.Parser
