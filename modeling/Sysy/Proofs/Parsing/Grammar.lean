import Sysy.Tree.Parser
import Mathlib.Tactic

/-!
The grammar of the language. Each rule says which tokens stand for a part of a program, and which
tree is made of them, spans included. It does not say how they are read.

The binary operators have six levels, the first of which binds least, and operators of one level are
grouped to the left. An `else` belongs to the nearest `if`: the statement in front of it does not
end in an `if` without one.
-/

namespace Sysy.Grammar
open Token
open Sysy.Parser (binaryOp? unaryOp? exprStarts)

def endSpan (d : Span) (ts : List Token) : Span := (ts.getLast?.map (·.span)).getD d

mutual

inductive IsPrimary : List Token → Expr → Prop
  | lit {t : Token} {n : Nat} (ht : t.kind = .intLit) (hn : Integer.read? t.text = some n)
      (hsmall : n < 2 ^ 32) :
      IsPrimary [t] (.lit t.span (BitVec.ofNat 32 n))
  | lval {t : Token} {ts : List Token} {es : List Expr} (ht : t.kind = .ident)
      (hes : IsIndices ts es) :
      IsPrimary (t :: ts) (.lval (t.span.cover (endSpan t.span ts)) (Bytes.toAscii t.text) es)
  | call {t lp rp : Token} {ts : List Token} {es : List Expr} (ht : t.kind = .ident)
      (hlp : lp.kind = .lparen)
      (hes : IsArgs ts es) (hrp : rp.kind = .rparen) :
      IsPrimary (t :: lp :: (ts ++ [rp])) (.call (t.span.cover rp.span) (Bytes.toAscii t.text) es)
  | paren {lp rp : Token} {ts : List Token} {e : Expr} (hlp : lp.kind = .lparen)
      (he : IsLevel 1 ts e)
      (hrp : rp.kind = .rparen) : IsPrimary (lp :: (ts ++ [rp])) e

inductive IsUnary : List Token → Expr → Prop
  | op {t : Token} {ts : List Token} {op : UnaryOp} {e : Expr} (ht : unaryOp? t.kind = some op)
      (he : IsUnary ts e) :
      IsUnary (t :: ts) (.unary (t.span.cover e.span) op e)
  | primary {ts : List Token} {e : Expr} (he : IsPrimary ts e) : IsUnary ts e

inductive IsLevel : Nat → List Token → Expr → Prop
  | unary {ts : List Token} {e : Expr} (he : IsUnary ts e) : IsLevel 7 ts e
  | up {k : Nat} {ts : List Token} {e : Expr} (he : IsLevel (k + 1) ts e) : IsLevel k ts e
  | binary {k : Nat} {t : Token} {ts ts' : List Token} {op : BinaryOp} {l r : Expr}
      (hl : IsLevel k ts l)
      (ht : binaryOp? t.kind = some (k, op)) (hr : IsLevel (k + 1) ts' r) :
      IsLevel k (ts ++ t :: ts') (.binary (l.span.cover r.span) op l r)

inductive IsArgs : List Token → List Expr → Prop
  | nil : IsArgs [] []
  | some {ts : List Token} {es : List Expr} (hes : IsExprs ts es) : IsArgs ts es

inductive IsExprs : List Token → List Expr → Prop
  | one {ts : List Token} {e : Expr} (he : IsLevel 1 ts e) : IsExprs ts [e]
  | cons {t : Token} {ts ts' : List Token} {e : Expr} {es : List Expr} (he : IsLevel 1 ts e)
      (ht : t.kind = .comma)
      (hes : IsExprs ts' es) : IsExprs (ts ++ t :: ts') (e :: es)

inductive IsIndices : List Token → List Expr → Prop
  | nil : IsIndices [] []
  | cons {lb rb : Token} {ts ts' : List Token} {e : Expr} {es : List Expr}
      (hlb : lb.kind = .lbracket)
      (he : IsLevel 1 ts e) (hrb : rb.kind = .rbracket) (hes : IsIndices ts' es) :
      IsIndices (lb :: (ts ++ rb :: ts')) (e :: es)

end

abbrev IsExpr : List Token → Expr → Prop := IsLevel 1

mutual

inductive IsInit : List Token → Init → Prop
  | expr {ts : List Token} {e : Expr} (he : IsExpr ts e) : IsInit ts (.expr e)
  | empty {lb rb : Token} (hlb : lb.kind = .lbrace) (hrb : rb.kind = .rbrace) :
      IsInit [lb, rb] (.list (lb.span.cover rb.span) [])
  | list {lb rb : Token} {ts : List Token} {is : List Init} (hlb : lb.kind = .lbrace)
      (his : IsInits ts is)
      (hrb : rb.kind = .rbrace) : IsInit (lb :: (ts ++ [rb])) (.list (lb.span.cover rb.span) is)

inductive IsInits : List Token → List Init → Prop
  | one {ts : List Token} {i : Init} (hi : IsInit ts i) : IsInits ts [i]
  | cons {t : Token} {ts ts' : List Token} {i : Init} {is : List Init} (hi : IsInit ts i)
      (ht : t.kind = .comma)
      (his : IsInits ts' is) : IsInits (ts ++ t :: ts') (i :: is)

end

inductive IsVarDef (isConst : Bool) : List Token → VarDef → Prop
  | plain {t : Token} {ts : List Token} {es : List Expr} (hconst : isConst = false)
      (ht : t.kind = .ident)
      (hes : IsIndices ts es) :
      IsVarDef isConst (t :: ts) { name := Bytes.toAscii t.text, nameSpan := t.span, dims := es,
                                   init := none }
  | init {t eq : Token} {ts ts' : List Token} {es : List Expr} {i : Init} (ht : t.kind = .ident)
      (hes : IsIndices ts es) (heq : eq.kind = .assign) (hi : IsInit ts' i) :
      IsVarDef isConst (t :: (ts ++ eq :: ts'))
        { name := Bytes.toAscii t.text, nameSpan := t.span, dims := es, init := some i }

inductive IsList {α : Type} (R : List Token → α → Prop) : List Token → List α → Prop
  | one {ts : List Token} {a : α} (ha : R ts a) : IsList R ts [a]
  | cons {t : Token} {ts ts' : List Token} {a : α} {as : List α} (ha : R ts a)
      (ht : t.kind = .comma)
      (has : IsList R ts' as) : IsList R (ts ++ t :: ts') (a :: as)

inductive IsDecl : List Token → Decl → Prop
  | var {int semi : Token} {ts : List Token} {ds : List VarDef} (hint : int.kind = .kwInt)
      (hds : IsList (IsVarDef false) ts ds) (hsemi : semi.kind = .semicolon) :
      IsDecl (int :: (ts ++ [semi])) { isConst := false, defs := ds }
  | const {const int semi : Token} {ts : List Token} {ds : List VarDef}
      (hconst : const.kind = .kwConst)
      (hint : int.kind = .kwInt) (hds : IsList (IsVarDef true) ts ds)
        (hsemi : semi.kind = .semicolon) :
      IsDecl (const :: int :: (ts ++ [semi])) { isConst := true, defs := ds }

/-- What stands in front of `=` in an assignment: a name with indices, in parentheses or not. -/
inductive IsTarget : List Token → Span → String → List Expr → Prop
  | name {t : Token} {ts : List Token} {es : List Expr} (ht : t.kind = .ident)
      (hes : IsIndices ts es) :
      IsTarget (t :: ts) (t.span.cover (endSpan t.span ts)) (Bytes.toAscii t.text) es
  | paren {lp rp : Token} {ts : List Token} {span : Span} {name : String} {es : List Expr}
      (hlp : lp.kind = .lparen)
      (h : IsTarget ts span name es) (hrp : rp.kind = .rparen) :
        IsTarget (lp :: (ts ++ [rp])) span name es

inductive IsCondition : List Token → Expr → Prop
  | intro {lp rp : Token} {ts : List Token} {e : Expr} (hlp : lp.kind = .lparen) (he : IsExpr ts e)
      (hrp : rp.kind = .rparen) : IsCondition (lp :: (ts ++ [rp])) e

mutual

inductive IsStmt : (isOpen : Bool) → List Token → Stmt → Prop
  | block {lb rb : Token} {ts : List Token} {ss : List Stmt} (hlb : lb.kind = .lbrace)
      (hss : IsStmts ts ss)
      (hrb : rb.kind = .rbrace) : IsStmt false (lb :: (ts ++ [rb]))
        (.block (lb.span.cover rb.span) ss)
  | decl {t : Token} {ts : List Token} {d : Decl} (hd : IsDecl (t :: ts) d) :
      IsStmt false (t :: ts) (.decl (t.span.cover (endSpan t.span ts)) d)
  | assign {eq semi : Token} {ts ts' : List Token} {target : Span} {name : String}
      {es : List Expr} {e : Expr}
      (htarget : IsTarget ts target name es) (heq : eq.kind = .assign) (he : IsExpr ts' e)
      (hsemi : semi.kind = .semicolon) :
      IsStmt false (ts ++ eq :: (ts' ++ [semi])) (.assign (target.cover semi.span) target name es e)
  | expr {semi : Token} {ts : List Token} {e : Expr} (he : IsExpr ts e)
      (hsemi : semi.kind = .semicolon) :
      IsStmt false (ts ++ [semi]) (.expr (e.span.cover semi.span) (some e))
  | skip {semi : Token} (hsemi : semi.kind = .semicolon) : IsStmt false [semi]
      (.expr semi.span none)
  | cond {isOpen : Bool} {t : Token} {ts ts' : List Token} {e : Expr} {s : Stmt}
      (ht : t.kind = .kwIf)
      (he : IsCondition ts e) (hs : IsStmt isOpen ts' s) :
      IsStmt true (t :: (ts ++ ts')) (.cond (t.span.cover (endSpan t.span ts')) e s none)
  | condElse {isOpen : Bool} {t el : Token} {ts ts₁ ts₂ : List Token} {e : Expr} {s₁ s₂ : Stmt}
      (ht : t.kind = .kwIf)
      (he : IsCondition ts e) (hs₁ : IsStmt false ts₁ s₁) (hel : el.kind = .kwElse)
        (hs₂ : IsStmt isOpen ts₂ s₂) :
      IsStmt isOpen (t :: (ts ++ (ts₁ ++ el :: ts₂))) (.cond (t.span.cover (endSpan t.span ts₂)) e
        s₁ (some s₂))
  | loop {isOpen : Bool} {t : Token} {ts ts' : List Token} {e : Expr} {s : Stmt}
      (ht : t.kind = .kwWhile)
      (he : IsCondition ts e) (hs : IsStmt isOpen ts' s) :
      IsStmt isOpen (t :: (ts ++ ts')) (.loop (t.span.cover (endSpan t.span ts')) e s)
  | leave {t semi : Token} (ht : t.kind = .kwBreak) (hsemi : semi.kind = .semicolon) :
      IsStmt false [t, semi] (.leave (t.span.cover semi.span))
  | next {t semi : Token} (ht : t.kind = .kwContinue) (hsemi : semi.kind = .semicolon) :
      IsStmt false [t, semi] (.next (t.span.cover semi.span))
  | ret {t semi : Token} (ht : t.kind = .kwReturn) (hsemi : semi.kind = .semicolon) :
      IsStmt false [t, semi] (.ret (t.span.cover semi.span) none)
  | retVal {t semi : Token} {ts : List Token} {e : Expr} (ht : t.kind = .kwReturn)
      (he : IsExpr ts e)
      (hsemi : semi.kind = .semicolon) :
      IsStmt false (t :: (ts ++ [semi])) (.ret (t.span.cover semi.span) (some e))

inductive IsStmts : List Token → List Stmt → Prop
  | nil : IsStmts [] []
  | cons {isOpen : Bool} {ts ts' : List Token} {s : Stmt} {ss : List Stmt} (hs : IsStmt isOpen ts s)
      (hss : IsStmts ts' ss) : IsStmts (ts ++ ts') (s :: ss)

end

inductive IsParam : List Token → Param → Prop
  | number {int t : Token} (hint : int.kind = .kwInt) (ht : t.kind = .ident) :
      IsParam [int, t] { name := Bytes.toAscii t.text, span := int.span.cover t.span, dims := none }
  | array {int t lb rb : Token} {ts : List Token} {es : List Expr} (hint : int.kind = .kwInt)
      (ht : t.kind = .ident)
      (hlb : lb.kind = .lbracket) (hrb : rb.kind = .rbracket) (hes : IsIndices ts es) :
      IsParam (int :: t :: lb :: rb :: ts)
        { name := Bytes.toAscii t.text, span := (int.span.cover t.span).cover (endSpan rb.span ts),
          dims := some es }

inductive IsParams : List Token → List Param → Prop
  | nil : IsParams [] []
  | some {ts : List Token} {ps : List Param} (hps : IsList IsParam ts ps) : IsParams ts ps

inductive IsItem : List Token → Item → Prop
  | decl {t : Token} {ts : List Token} {d : Decl} (hd : IsDecl (t :: ts) d) :
      IsItem (t :: ts) (.decl (t.span.cover (endSpan t.span ts)) d)
  | func {type t lp rp lb rb : Token} {ts ts' : List Token} {ps : List Param} {ss : List Stmt}
      (htype : type.kind = .kwInt ∨ type.kind = .kwVoid) (ht : t.kind = .ident)
        (hlp : lp.kind = .lparen)
      (hps : IsParams ts ps) (hrp : rp.kind = .rparen) (hlb : lb.kind = .lbrace)
        (hss : IsStmts ts' ss)
      (hrb : rb.kind = .rbrace) :
      IsItem (type :: t :: lp :: (ts ++ rp :: lb :: (ts' ++ [rb])))
        (.func (type.span.cover rb.span)
          { name := Bytes.toAscii t.text, nameSpan := t.span, isVoid := type.kind == .kwVoid,
            params := ps
            bodySpan := lb.span.cover rb.span, body := ss })

inductive IsItems : List Token → List Item → Prop
  | nil : IsItems [] []
  | cons {ts ts' : List Token} {i : Item} {is : List Item} (hi : IsItem ts i)
      (his : IsItems ts' is) :
      IsItems (ts ++ ts') (i :: is)

/-! Operators. -/

theorem tightness_of_binaryOp? {kind : Kind} {p : Nat} {op : BinaryOp}
    (h : binaryOp? kind = some (p, op)) :
    1 ≤ p ∧ p ≤ 6 := by
  revert h
  cases kind <;> simp [binaryOp?] <;> omega

theorem ne_of_binaryOp? {kind : Kind} {p : Nat × BinaryOp} (h : binaryOp? kind = some p) :
    kind ≠ .eof ∧ kind ≠ .invalid := by
  constructor <;> rintro rfl <;> cases h

theorem ne_of_unaryOp? {kind : Kind} {op : UnaryOp} (h : unaryOp? kind = some op) : kind ≠ .eof ∧
    kind ≠ .invalid := by
  constructor <;> rintro rfl <;> cases h

theorem IsLevel.of_le {j k : Nat} {ts : List Token} {e : Expr} (h : IsLevel k ts e) (hle : j ≤ k) :
    IsLevel j ts e := by
  induction hle with
  | refl => exact h
  | step _ ih => exact ih h.up

theorem IsLevel.one {ts : List Token} {e : Expr} (h : IsLevel 0 ts e) : IsLevel 1 ts e := by
  cases h with
  | up he => exact he
  | binary _ ht _ => exact absurd (tightness_of_binaryOp? ht).1 (by decide)

/-! An expression is a name with indices exactly if it can stand in front of `=`. -/

mutual

theorem IsPrimary.isTarget {span : Span} {name : String} {es : List Expr} :
    ∀ {ts : List Token} {e : Expr},
    IsPrimary ts e → e = .lval span name es → IsTarget ts span name es
  | _, _, .lit .., h => by cases h
  | _, _, .lval ht hes, h => by
    cases h
    exact .name ht hes
  | _, _, .call .., h => by cases h
  | _, _, .paren hlp he hrp, h => .paren hlp (he.isTarget h) hrp

theorem IsUnary.isTarget {span : Span} {name : String} {es : List Expr} :
    ∀ {ts : List Token} {e : Expr},
    IsUnary ts e → e = .lval span name es → IsTarget ts span name es
  | _, _, .op .., h => by cases h
  | _, _, .primary he, h => he.isTarget h

theorem IsLevel.isTarget {span : Span} {name : String} {es : List Expr} :
    ∀ {k : Nat} {ts : List Token} {e : Expr},
    IsLevel k ts e → e = .lval span name es → IsTarget ts span name es
  | _, _, _, .unary he, h => he.isTarget h
  | _, _, _, .up he, h => he.isTarget h
  | _, _, _, .binary .., h => by cases h

end

theorem IsPrimary.isExpr {ts : List Token} {e : Expr} (h : IsPrimary ts e) : IsExpr ts e :=
  (IsLevel.unary (.primary h)).of_le (by decide)

theorem IsTarget.isExpr {ts : List Token} {span : Span} {name : String} {es : List Expr}
    (h : IsTarget ts span name es) : IsExpr ts (.lval span name es) := by
  induction h with
  | name ht hes => exact (IsPrimary.lval ht hes).isExpr
  | paren hlp _ hrp ih => exact (IsPrimary.paren hlp ih hrp).isExpr

/-! The first token of a part. -/

def Begins (K : Kind → Prop) (ts : List Token) : Prop := ∃ t ts', ts = t :: ts' ∧ K t.kind

theorem Begins.append {K : Kind → Prop} {ts : List Token} (h : Begins K ts) (ts' : List Token) :
    Begins K (ts ++ ts') := by
  obtain ⟨t, rest, rfl, hk⟩ := h
  exact ⟨t, rest ++ ts', rfl, hk⟩

theorem Begins.imp {K K' : Kind → Prop} {ts : List Token} (h : Begins K ts) (hK : ∀ k, K k → K' k) :
    Begins K' ts := by
  obtain ⟨t, rest, rfl, hk⟩ := h
  exact ⟨t, rest, rfl, hK _ hk⟩

theorem Begins.length_pos {K : Kind → Prop} {ts : List Token} (h : Begins K ts) :
    0 < ts.length := by
  obtain ⟨t, rest, rfl, -⟩ := h
  simp

theorem IsPrimary.begins {ts : List Token} {e : Expr} (h : IsPrimary ts e) :
    Begins (· ∈ exprStarts) ts := by
  cases h with
  | lit ht | lval ht | call ht | paren ht => exact ⟨_, _, rfl, by rw [ht]; decide⟩

theorem IsUnary.begins {ts : List Token} {e : Expr} (h : IsUnary ts e) :
    Begins (· ∈ exprStarts) ts := by
  cases h with
  | primary h => exact h.begins
  | @op t _ _ _ ht _ =>
    refine ⟨t, _, rfl, ?_⟩
    revert ht
    cases t.kind <;> simp [unaryOp?, exprStarts]

theorem IsLevel.begins :
    ∀ {k : Nat} {ts : List Token} {e : Expr}, IsLevel k ts e → Begins (· ∈ exprStarts) ts
  | _, _, _, .unary he => he.begins
  | _, _, _, .up he => he.begins
  | _, _, _, .binary hl _ _ => hl.begins.append _

theorem IsExprs.begins {ts : List Token} {es : List Expr} (h : IsExprs ts es) :
    Begins (· ∈ exprStarts) ts := by
  cases h with
  | one he => exact he.begins
  | cons he => exact he.begins.append _

theorem IsInit.begins {ts : List Token} {i : Init} (h : IsInit ts i) : Begins (· ≠ .rbrace) ts := by
  cases h with
  | expr he =>
    refine he.begins.imp fun k hk => ?_
    rintro rfl
    exact absurd hk (by decide)
  | empty hlb | list hlb => exact ⟨_, _, rfl, by simp [hlb]⟩

theorem IsInits.begins {ts : List Token} {is : List Init} (h : IsInits ts is) :
    Begins (· ≠ .rbrace) ts := by
  cases h with
  | one hi => exact hi.begins
  | cons hi => exact hi.begins.append _

theorem IsVarDef.begins {isConst : Bool} {ts : List Token} {d : VarDef}
    (h : IsVarDef isConst ts d) :
    Begins (· = .ident) ts := by
  cases h with
  | plain _ ht | init ht => exact ⟨_, _, rfl, ht⟩

theorem IsParam.begins {ts : List Token} {p : Param} (h : IsParam ts p) :
    Begins (· = .kwInt) ts := by
  cases h with
  | number hint | array hint => exact ⟨_, _, rfl, hint⟩

theorem IsList.begins_of {α : Type} {R : List Token → α → Prop} {K : Kind → Prop} {ts : List Token}
    {as : List α} (h : IsList R ts as) (hR : ∀ {ts a}, R ts a → Begins K ts) : Begins K ts := by
  cases h with
  | one ha => exact hR ha
  | cons ha => exact (hR ha).append _

theorem IsList.second {isConst : Bool} {t : Token} {ts : List Token} {ds : List VarDef}
    (h : IsList (IsVarDef isConst) (t :: ts) ds) :
    ts = [] ∨ Begins (· ∈ [.lbracket, .assign, .comma]) ts := by
  have hdef {ts : List Token} {d : VarDef} (hd : IsVarDef isConst (t :: ts) d) :
      ts = [] ∨ Begins (· ∈ [.lbracket, .assign, .comma]) ts := by
    cases hd with
    | plain _ _ hes =>
      cases hes with
      | nil => exact .inl rfl
      | cons hlb => exact .inr ⟨_, _, rfl, by simp [hlb]⟩
    | init _ hes heq =>
      cases hes with
      | nil => exact .inr ⟨_, _, rfl, by simp [heq]⟩
      | cons hlb => exact .inr ⟨_, _, rfl, by simp [hlb]⟩
  generalize hts : t :: ts = ts₀ at h
  cases h with
  | one hd => exact hdef (hts ▸ hd)
  | cons hd hcomma =>
    obtain ⟨t', ts', rfl, -⟩ := hd.begins
    obtain ⟨rfl, rfl⟩ := List.cons.inj hts
    rcases hdef hd with rfl | hbegins
    · exact .inr ⟨_, _, rfl, by simp [hcomma]⟩
    · exact .inr (hbegins.append _)

theorem IsTarget.begins {ts : List Token} {span : Span} {name : String} {es : List Expr}
    (h : IsTarget ts span name es) : Begins (· ∈ exprStarts) ts := h.isExpr.begins

theorem IsDecl.begins {ts : List Token} {d : Decl} (h : IsDecl ts d) :
    Begins (fun k => k = .kwConst ∨ k = .kwInt) ts := by
  cases h with
  | var hint => exact ⟨_, _, rfl, .inr hint⟩
  | const hconst => exact ⟨_, _, rfl, .inl hconst⟩

def endsStmts : List Kind := [.rbrace, .eof, .kwElse]

theorem IsStmt.begins {isOpen : Bool} {ts : List Token} {s : Stmt} (h : IsStmt isOpen ts s) :
    Begins (· ∉ endsStmts) ts := by
  have hstarts (k : Kind) : k ∈ exprStarts → k ∉ endsStmts := by
    cases k <;> simp [exprStarts, endsStmts]
  cases h with
  | block ht | skip ht | cond ht | condElse ht | loop ht | leave ht | next ht | ret ht
  | retVal ht =>
    exact ⟨_, _, rfl, by rw [ht]; decide⟩
  | decl hd =>
    refine hd.begins.imp ?_
    rintro k (rfl | rfl) <;> decide
  | assign htarget => exact (htarget.begins.imp hstarts).append _
  | expr he => exact (he.begins.imp hstarts).append _

theorem IsStmts.begins {ts : List Token} {ss : List Stmt} (h : IsStmts ts ss) : ts = [] ∨
    Begins (· ∉ endsStmts) ts := by
  cases h with
  | nil => exact .inl rfl
  | cons hs => exact .inr (hs.begins.append _)

theorem IsItem.begins {ts : List Token} {i : Item} (h : IsItem ts i) :
    Begins (· ∈ [.kwConst, .kwInt, .kwVoid]) ts := by
  cases h with
  | decl hd =>
    refine hd.begins.imp ?_
    rintro k (rfl | rfl) <;> decide
  | func htype =>
    refine ⟨_, _, rfl, ?_⟩
    rcases htype with h | h <;> rw [h] <;> decide

end Sysy.Grammar
