import Sysy.Proofs.Parsing.Acceptance

/-!
Where the parts of a tree stand in the text. `Extent` leaves of a tree only the spans of its parts:
expressions, initialisers, statements, parameters, items and the names that have a span of their
own. The parts of whatever the grammar derives from tokens that stand in order are consistent: each
starts and ends where a token does, none sticks out of the part that it belongs to, and those that
belong to the same part stand in order too.
-/

namespace Sysy

/-- A part of a tree: its span, and the parts that directly belong to it, from left to right. -/
inductive Extent where
  | node (span : Span) (parts : List Extent)

namespace Extent

def span : Extent → Span
  | node s _ => s

/-- All spans are of the kind `D`; none sticks out of the one around it, and none starts before the
one in front of it ends. -/
inductive Consistent (D : Span → Prop) : Extent → Prop
  | node {s : Span} {parts : List Extent} (hs : D s) (hparts : ∀ p ∈ parts, p.Consistent D)
      (hwithin : ∀ p ∈ parts, s.start ≤ p.span.start ∧ p.span.stop ≤ s.stop)
      (horder : parts.Pairwise fun p q => p.span.stop ≤ q.span.start) : Consistent D (.node s parts)

theorem Consistent.holds {D : Span → Prop} {e : Extent} (h : e.Consistent D) : D e.span := by
  cases h with
  | node hs => exact hs

end Extent

/-! The parts of each kind of tree. -/

namespace Expr

mutual

def extent : Expr → Extent
  | .lit s _ => .node s []
  | .lval s _ es | .call s _ es => .node s (extents es)
  | .unary s _ e => .node s [e.extent]
  | .binary s _ l r => .node s [l.extent, r.extent]

def extents : List Expr → List Extent
  | [] => []
  | e :: es => e.extent :: extents es

end

theorem span_extent (e : Expr) : e.extent.span = e.span := by
  cases e <;> rfl

end Expr

namespace Init

mutual

def extent : Init → Extent
  | .expr e => .node e.span [e.extent]
  | .list s is => .node s (extents is)

def extents : List Init → List Extent
  | [] => []
  | i :: is => i.extent :: extents is

end

end Init

def VarDef.extents (d : VarDef) : List Extent :=
  .node d.nameSpan [] :: (Expr.extents d.dims ++ (d.init.map Init.extent).toList)

def Decl.extents (d : Decl) : List Extent := d.defs.flatMap VarDef.extents

namespace Stmt

mutual

def extent : Stmt → Extent
  | .block s ss => .node s (extents ss)
  | .decl s d => .node s d.extents
  | .assign s target _ es e => .node s [.node target (Expr.extents es), e.extent]
  | .expr s e | .ret s e => .node s (e.map Expr.extent).toList
  | .cond s test yes none => .node s [test.extent, yes.extent]
  | .cond s test yes (some no) => .node s [test.extent, yes.extent, no.extent]
  | .loop s test body => .node s [test.extent, body.extent]
  | .leave s | .next s => .node s []

def extents : List Stmt → List Extent
  | [] => []
  | s :: ss => s.extent :: extents ss

end

end Stmt

def Param.extent (p : Param) : Extent := .node p.span (Expr.extents (p.dims.getD []))

def Item.extent : Item → Extent
  | .decl s d => .node s d.extents
  | .func s f => .node s (.node f.nameSpan [] :: (f.params.map Param.extent ++
      [.node f.bodySpan (Stmt.extents f.body)]))

theorem Item.span_extent (i : Item) : i.extent.span = i.span := by
  cases i <;> rfl

end Sysy

namespace Sysy.Grammar
open Token Parser.View

/-! Order. -/

inductive InOrder {α : Type} (R : α → Prop) (span : α → Span) : Nat → List α → Nat → Prop
  | nil {lo hi : Nat} (h : lo ≤ hi) : InOrder R span lo [] hi
  | cons {lo hi : Nat} {a : α} {as : List α} (ha : R a) (hlo : lo ≤ (span a).start)
      (hspan : (span a).start ≤ (span a).stop) (has : InOrder R span (span a).stop as hi) :
        InOrder R span lo (a :: as) hi

namespace InOrder
variable {α : Type} {R R' : α → Prop} {span : α → Span} {lo lo' mid hi hi' : Nat} {a : α}
  {as bs : List α}

theorem mono (h : InOrder R span lo as hi) (hlo : lo' ≤ lo) (hhi : hi ≤ hi') :
    InOrder R span lo' as hi' := by
  induction h generalizing lo' with
  | nil h => exact .nil (by omega)
  | cons ha hle hspan _ ih => exact .cons ha (hlo.trans hle) hspan (ih le_rfl hhi)

theorem imp (h : InOrder R span lo as hi) (hR : ∀ a ∈ as, R a → R' a) :
    InOrder R' span lo as hi := by
  induction h with
  | nil h => exact .nil h
  | cons ha hlo hspan _ ih =>
    exact .cons (hR _ (List.mem_cons_self ..) ha) hlo hspan
      (ih fun a ha => hR a (List.mem_cons_of_mem _ ha))

theorem append (h : InOrder R span lo as mid) (h' : InOrder R span mid bs hi) :
    InOrder R span lo (as ++ bs) hi := by
  induction h with
  | nil hle => exact h'.mono hle le_rfl
  | cons ha hlo hspan _ ih => exact .cons ha hlo hspan (ih h')

theorem split (h : InOrder R span lo (as ++ bs) hi) : ∃ mid, InOrder R span lo as mid ∧
    InOrder R span mid bs hi := by
  induction as generalizing lo with
  | nil => exact ⟨lo, .nil le_rfl, h⟩
  | cons a as ih =>
    cases h with
    | cons ha hlo hspan has =>
      obtain ⟨mid, has, hbs⟩ := ih has
      exact ⟨mid, .cons ha hlo hspan has, hbs⟩

theorem le (h : InOrder R span lo as hi) : lo ≤ hi := by
  induction h with
  | nil h => exact h
  | cons _ hlo hspan _ ih => exact hlo.trans (hspan.trans ih)

theorem within (h : InOrder R span lo as hi) : ∀ a ∈ as, R a ∧ lo ≤ (span a).start ∧
    (span a).stop ≤ hi := by
  induction h with
  | nil => exact List.forall_mem_nil _
  | cons ha hlo hspan has ih =>
    refine List.forall_mem_cons.mpr ⟨⟨ha, hlo, has.le⟩, fun b hb => ?_⟩
    obtain ⟨hb, hstart, hstop⟩ := ih b hb
    exact ⟨hb, hlo.trans (hspan.trans hstart), hstop⟩

theorem tail (h : InOrder R span lo (a :: as) hi) : InOrder R span lo as hi := by
  cases h with
  | cons _ hlo hspan has => exact has.mono (hlo.trans hspan) le_rfl

theorem init (h : InOrder R span lo (as ++ [a]) hi) : InOrder R span lo as hi := by
  obtain ⟨mid, has, hrest⟩ := h.split
  exact has.mono le_rfl hrest.le

theorem around (h : InOrder R span lo (as ++ a :: bs) hi) : ∃ mid, InOrder R span lo as mid ∧
    InOrder R span mid bs hi := by
  obtain ⟨mid, has, hrest⟩ := h.split
  exact ⟨mid, has, hrest.tail⟩

theorem of_pairwise (hle : lo ≤ hi)
    (has : ∀ a ∈ as, R a ∧ lo ≤ (span a).start ∧ (span a).start ≤ (span a).stop ∧
      (span a).stop ≤ hi)
    (h : as.Pairwise fun a b => (span a).stop ≤ (span b).start) : InOrder R span lo as hi := by
  induction h generalizing lo with
  | nil => exact .nil hle
  | @cons a as hfirst _ ih =>
    obtain ⟨⟨ha, hstart, hspan, hstop⟩, has⟩ := List.forall_mem_cons.mp has
    refine .cons ha hstart hspan (ih hstop fun b hb => ?_)
    exact ⟨(has b hb).1, hfirst b hb, (has b hb).2.2⟩

theorem pairwise (h : InOrder R span lo as hi) : as.Pairwise fun a b =>
    (span a).stop ≤ (span b).start := by
  induction h with
  | nil => exact .nil
  | cons _ _ _ has ih => exact .cons (fun b hb => (has.within b hb).2.1) ih

end InOrder

/-! Spans that are made of the spans of tokens. -/

/-- A span of a file that is not empty, and starts and ends where tokens in front of the end of the
file do. -/
structure Delimited (file : Nat) (content : Bytes) (s : Span) : Prop where
  ofFile : s.file = file
  starts : ∃ t ∈ Parser.sentence file content, t.span.start = s.start
  stops : ∃ t ∈ Parser.sentence file content, t.span.stop = s.stop
  nonempty : s.start < s.stop
  inside : s.stop ≤ content.length

section Parts
variable {file : Nat} {content : Bytes} {lo mid hi : Nat}

theorem Delimited.cover {s s' : Span} (h : Delimited file content s)
    (h' : Delimited file content s') (hstart : s.start ≤ s'.start) (hstop : s.stop ≤ s'.stop) :
    Delimited file content (s.cover s') ∧ (s.cover s').start = s.start ∧
    (s.cover s').stop = s'.stop := by
  have hcover : s.cover s' = { s with stop := s'.stop } := by
    rw [Span.cover, if_pos (h.ofFile.trans h'.ofFile.symm), Nat.min_eq_left hstart,
      Nat.max_eq_right hstop]
  rw [hcover]
  exact ⟨⟨h.ofFile, h.starts, h'.stops, h.nonempty.trans_le hstop, h'.inside⟩, rfl, rfl⟩

abbrev Tokens (file : Nat) (content : Bytes) : Nat → List Token → Nat → Prop :=
  InOrder (fun t => Delimited file content t.span) (·.span)

abbrev Parts (file : Nat) (content : Bytes) : Nat → List Extent → Nat → Prop :=
  InOrder (·.Consistent (Delimited file content)) (·.span)

theorem Parts.node {s : Span} {parts : List Extent} (hs : Delimited file content s)
    (hlo : lo ≤ s.start) (hhi : s.stop ≤ hi) (hparts : Parts file content s.start parts s.stop) :
    Parts file content lo [.node s parts] hi := by
  refine .cons (.node hs (fun p hp => (hparts.within p hp).1) (fun p hp => (hparts.within p hp).2)
    hparts.pairwise) hlo
    hs.nonempty.le (.nil hhi)

/-- A part between two places takes no more room than its span. -/
theorem Parts.tight {e : Extent} {s : Span} (h : Parts file content lo [e] hi) (hs : e.span = s) :
    Delimited file content s ∧ lo ≤ s.start ∧ s.stop ≤ hi ∧ Parts file content s.start
      [e] s.stop := by
  subst hs
  cases h with
  | cons he hlo hspan hrest => exact ⟨he.holds, hlo, hrest.le, .cons he le_rfl hspan (.nil le_rfl)⟩

theorem Parts.name {t : Token} (ht : Delimited file content t.span) (hlo : lo ≤ t.span.start) :
    Parts file content lo [.node t.span []] t.span.stop :=
  .node ht hlo le_rfl (.nil ht.nonempty.le)

theorem Parts.cover {s s' : Span} {parts : List Extent} (h : Delimited file content s)
    (h' : Delimited file content s') (hlo : lo ≤ s.start) (hle : s.stop ≤ s'.start)
    (hhi : s'.stop ≤ hi) (hparts : Parts file content s.start parts s'.stop) :
    Parts file content lo [.node (s.cover s') parts] hi := by
  obtain ⟨hcover, hstart, hstop⟩ := h.cover h' (h.nonempty.le.trans hle) (hle.trans h'.nonempty.le)
  exact .node hcover (by rwa [hstart]) (by rwa [hstop]) (by rwa [hstart, hstop])

theorem Tokens.last {t : Token} {ts : List Token} (h : Tokens file content lo (t :: ts) hi) :
    Delimited file content (endSpan t.span ts) ∧ t.span.start ≤ (endSpan t.span ts).start ∧
      t.span.stop ≤ (endSpan t.span ts).stop ∧ (endSpan t.span ts).stop ≤ hi ∧
      Tokens file content t.span.stop ts (endSpan t.span ts).stop := by
  induction ts generalizing t lo with
  | nil =>
    cases h with
    | cons ht _ _ hrest => exact ⟨ht, le_rfl, le_rfl, hrest.le, .nil le_rfl⟩
  | cons u ts ih =>
    cases h with
    | cons ht _ hspan hrest =>
      have hend : endSpan t.span (u :: ts) = endSpan u.span ts := endSpan_append _ [u] ts
      obtain ⟨hlast, hstart, hstop, hle, hts⟩ := ih hrest
      cases hrest with
      | cons hu hlo hspan' hrest =>
        rw [hend]
        exact ⟨hlast, (hspan.trans hlo).trans hstart, (hlo.trans hspan').trans hstop, hle,
          .cons hu hlo hspan' hts⟩

theorem Parts.whole {t : Token} {ts : List Token} {parts : List Extent}
    (h : Tokens file content lo (t :: ts) hi)
    (hparts : ∀ {hi}, Tokens file content t.span.start (t :: ts) hi →
      Parts file content t.span.start parts hi) :
    Parts file content lo [.node (t.span.cover (endSpan t.span ts)) parts] hi := by
  obtain ⟨hlast, hstart, hstop, hle, hts⟩ := h.last
  cases h with
  | cons ht hlo hspan _ =>
    obtain ⟨hcover, hcoverStart, hcoverStop⟩ := ht.cover hlast hstart hstop
    refine .node hcover (by rwa [hcoverStart]) (by rwa [hcoverStop]) ?_
    rw [hcoverStart, hcoverStop]
    exact hparts (.cons ht le_rfl hspan hts)

theorem Begins.endSpan_append {K : Kind → Prop} {ts' : List Token} (h : Begins K ts') (d d' : Span)
    (ts : List Token) :
    endSpan d (ts ++ ts') = endSpan d' ts' := by
  obtain ⟨t, rest, rfl, -⟩ := h
  simp [endSpan, List.getLast?_cons]

theorem Parts.upTo {t : Token} {ts ts' : List Token} {K : Kind → Prop} {parts : List Extent}
    (hts' : Begins K ts') (h : Tokens file content lo (t :: (ts ++ ts')) hi)
    (hparts : ∀ {lo mid hi}, Tokens file content lo ts mid → Tokens file content mid ts' hi →
      Parts file content lo parts hi) :
    Parts file content lo [.node (t.span.cover (endSpan t.span ts')) parts] hi := by
  rw [← hts'.endSpan_append t.span t.span ts]
  refine .whole h fun h => ?_
  obtain ⟨mid, hts, hts'⟩ := h.tail.split
  exact hparts hts hts'

theorem Parts.between {t t' : Token} (ts : List Token) {parts : List Extent}
    (h : Tokens file content lo (t :: (ts ++ [t'])) hi)
    (hparts : ∀ {lo hi}, Tokens file content lo ts hi → Parts file content lo parts hi) :
    Parts file content lo [.node (t.span.cover t'.span) parts] hi := by
  cases h with
  | cons ht hlo hspan hrest =>
    obtain ⟨mid, hts, hrest⟩ := hrest.split
    cases hrest with
    | cons ht' hmid hspan' hnil =>
      exact .cover ht ht' hlo (hts.le.trans hmid) hnil.le
        ((hparts hts).mono hspan (hmid.trans hspan'))

/-! Expressions. -/

mutual

theorem IsPrimary.parts :
    ∀ {ts : List Token} {e : Expr} {lo hi : Nat}, IsPrimary ts e → Tokens file content lo ts hi →
    Parts file content lo [e.extent] hi
  | _, _, _, _, .lit .., .cons ht hlo _ hrest => (Parts.name ht hlo).mono le_rfl hrest.le
  | _, _, _, _, .lval _ hes, h => .whole h fun h => hes.parts h.tail
  | _, _, _, _, .call _ _ hes _, h => Parts.between (_ :: _) h fun h => hes.parts h.tail
  | _, _, _, _, .paren _ he _, h => he.parts h.tail.init

theorem IsUnary.parts :
    ∀ {ts : List Token} {e : Expr} {lo hi : Nat}, IsUnary ts e → Tokens file content lo ts hi →
    Parts file content lo [e.extent] hi
  | _, _, _, _, .op _ he, .cons ht hlo hspan hts => by
    obtain ⟨hdelim, hstart, hstop, hoperand⟩ := (he.parts hts).tight (Expr.span_extent _)
    exact .cover ht hdelim hlo hstart hstop (hoperand.mono (hspan.trans hstart) le_rfl)
  | _, _, _, _, .primary he, h => he.parts h

theorem IsLevel.parts :
    ∀ {k : Nat} {ts : List Token} {e : Expr} {lo hi : Nat}, IsLevel k ts e →
    Tokens file content lo ts hi → Parts file content lo [e.extent] hi
  | _, _, _, _, _, .unary he, h => he.parts h
  | _, _, _, _, _, .up he, h => he.parts h
  | _, _, _, _, _, .binary hl _ hr, h => by
    obtain ⟨mid, hts, hts'⟩ := h.around
    obtain ⟨hdelim, hstart, hstop, hleft⟩ := (hl.parts hts).tight (Expr.span_extent _)
    obtain ⟨hdelim', hstart', hstop', hright⟩ := (hr.parts hts').tight (Expr.span_extent _)
    have hbehind := hstop.trans hstart'
    exact .cover hdelim hdelim' hstart hbehind hstop' (hleft.append (hright.mono hbehind le_rfl))

theorem IsArgs.parts :
    ∀ {ts : List Token} {es : List Expr} {lo hi : Nat}, IsArgs ts es →
    Tokens file content lo ts hi → Parts file content lo (Expr.extents es) hi
  | _, _, _, _, .nil, h => .nil h.le
  | _, _, _, _, .some hes, h => hes.parts h

theorem IsExprs.parts :
    ∀ {ts : List Token} {es : List Expr} {lo hi : Nat}, IsExprs ts es →
    Tokens file content lo ts hi → Parts file content lo (Expr.extents es) hi
  | _, _, _, _, .one he, h => he.parts h
  | _, _, _, _, .cons he _ hes, h => by
    obtain ⟨mid, hts, hts'⟩ := h.around
    exact (he.parts hts).append (hes.parts hts')

theorem IsIndices.parts :
    ∀ {ts : List Token} {es : List Expr} {lo hi : Nat}, IsIndices ts es →
    Tokens file content lo ts hi → Parts file content lo (Expr.extents es) hi
  | _, _, _, _, .nil, h => .nil h.le
  | _, _, _, _, .cons _ he _ hes, h => by
    obtain ⟨mid, hts, hts'⟩ := h.tail.around
    exact (he.parts hts).append (hes.parts hts')

end

variable {ts : List Token}

/-! Declarations. -/

mutual

theorem IsInit.parts :
    ∀ {ts : List Token} {i : Init} {lo hi : Nat}, IsInit ts i → Tokens file content lo ts hi →
    Parts file content lo [i.extent] hi
  | _, _, _, _, .expr he, h => by
    obtain ⟨hdelim, hstart, hstop, hexpr⟩ := (he.parts h).tight (Expr.span_extent _)
    exact .node hdelim hstart hstop hexpr
  | _, _, _, _, .empty .., h => Parts.between [] h fun h => .nil h.le
  | _, _, _, _, .list _ his _, h => .between _ h his.parts

theorem IsInits.parts :
    ∀ {ts : List Token} {is : List Init} {lo hi : Nat}, IsInits ts is →
    Tokens file content lo ts hi → Parts file content lo (Init.extents is) hi
  | _, _, _, _, .one hi, h => hi.parts h
  | _, _, _, _, .cons hi _ his, h => by
    obtain ⟨mid, hts, hts'⟩ := h.around
    exact (hi.parts hts).append (his.parts hts')

end

theorem IsVarDef.parts {isConst : Bool} {d : VarDef} (hd : IsVarDef isConst ts d)
    (h : Tokens file content lo ts hi) :
    Parts file content lo d.extents hi := by
  cases hd with
  | plain _ _ hes =>
    cases h with
    | cons ht hlo _ hts =>
      have hdims := hes.parts hts
      exact (Parts.name ht hlo).append (hdims.append (.nil le_rfl))
  | init _ hes _ hi =>
    cases h with
    | cons ht hlo _ hts =>
      obtain ⟨mid, hts, hts'⟩ := hts.around
      exact (Parts.name ht hlo).append ((hes.parts hts).append (hi.parts hts'))

theorem IsList.parts {α : Type} {R : List Token → α → Prop} {f : α → List Extent} {as : List α}
    (hR : ∀ {ts a lo hi}, R ts a → Tokens file content lo ts hi → Parts file content lo (f a) hi)
    (has : IsList R ts as) (h : Tokens file content lo ts hi) :
    Parts file content lo (as.flatMap f) hi := by
  induction has generalizing lo with
  | one ha =>
    rw [List.flatMap_singleton]
    exact hR ha h
  | cons ha _ _ ih =>
    obtain ⟨mid, hts, hts'⟩ := h.around
    exact (hR ha hts).append (ih hts')

theorem IsDecl.parts {d : Decl} (hd : IsDecl ts d) (h : Tokens file content lo ts hi) :
    Parts file content lo d.extents hi := by
  cases hd with
  | var _ hds => exact hds.parts IsVarDef.parts h.tail.init
  | const _ _ hds => exact hds.parts IsVarDef.parts h.tail.tail.init

/-! Statements. -/

theorem IsTarget.parts {span : Span} {name : String} {es : List Expr}
    (htarget : IsTarget ts span name es) (h : Tokens file content lo ts hi) :
    Parts file content lo [.node span (Expr.extents es)] hi := by
  induction htarget generalizing lo hi with
  | name _ hes => exact .whole h fun h => hes.parts h.tail
  | paren _ _ _ ih => exact ih h.tail.init

theorem IsCondition.parts {e : Expr} (he : IsCondition ts e) (h : Tokens file content lo ts hi) :
    Parts file content lo [e.extent] hi := by
  cases he with
  | intro _ he => exact he.parts h.tail.init

mutual

theorem IsStmt.parts :
    ∀ {isOpen : Bool} {ts : List Token} {s : Stmt} {lo hi : Nat}, IsStmt isOpen ts s →
    Tokens file content lo ts hi → Parts file content lo [s.extent] hi
  | _, _, _, _, _, .block _ hss _, h => .between _ h hss.parts
  | _, _, _, _, _, .decl hd, h => .whole h hd.parts
  | _, _, _, _, _, .assign htarget _ he _, h => by
    obtain ⟨mid, hts, hrest⟩ := h.around
    obtain ⟨mid', hts', hsemi⟩ := hrest.split
    obtain ⟨hdelim, hstart, hstop, hleft⟩ := (htarget.parts hts).tight rfl
    cases hsemi with
    | cons hsemi hlo hspan hnil =>
      have hmid : mid ≤ _ := hts'.le.trans hlo
      exact .cover hdelim hsemi hstart (hstop.trans hmid) hnil.le
        (hleft.append ((he.parts hts').mono hstop (hlo.trans hspan)))
  | _, _, _, _, _, .expr he _, h => by
    obtain ⟨mid, hts, hsemi⟩ := h.split
    obtain ⟨hdelim, hstart, hstop, hexpr⟩ := (he.parts hts).tight (Expr.span_extent _)
    cases hsemi with
    | cons hsemi hlo hspan hnil =>
      have hbehind := hstop.trans hlo
      exact .cover hdelim hsemi hstart hbehind hnil.le (hexpr.mono le_rfl (hbehind.trans hspan))
  | _, _, _, _, _, .skip _, .cons ht hlo _ hrest => (Parts.name ht hlo).mono le_rfl hrest.le
  | _, _, _, _, _, .cond _ he hs, h => .upTo hs.begins h fun hts hts' =>
    (he.parts hts).append (hs.parts hts')
  | _, _, _, _, _, @IsStmt.condElse _ _ el ts ts₁ ts₂ _ _ _ _ he hs₁ _ hs₂, h => by
    have hshape : ts ++ (ts₁ ++ el :: ts₂) = (ts ++ (ts₁ ++ [el])) ++ ts₂ := by simp
    rw [hshape] at h
    refine .upTo hs₂.begins h fun hfront hts₂ => ?_
    obtain ⟨mid, hts, hyes⟩ := hfront.split
    exact (he.parts hts).append ((hs₁.parts hyes.init).append (hs₂.parts hts₂))
  | _, _, _, _, _, .loop _ he hs, h => .upTo hs.begins h fun hts hts' =>
    (he.parts hts).append (hs.parts hts')
  | _, _, _, _, _, .leave .., h | _, _, _, _, _, .next .., h | _, _, _, _, _, .ret .., h =>
    Parts.between [] h fun h => .nil h.le
  | _, _, _, _, _, .retVal _ he _, h => .between _ h he.parts

theorem IsStmts.parts :
    ∀ {ts : List Token} {ss : List Stmt} {lo hi : Nat}, IsStmts ts ss →
    Tokens file content lo ts hi → Parts file content lo (Stmt.extents ss) hi
  | _, _, _, _, .nil, h => .nil h.le
  | _, _, _, _, .cons hs hss, h => by
    obtain ⟨mid, hts, hts'⟩ := h.split
    exact (hs.parts hts).append (hss.parts hts')

end

/-! Items. -/

theorem IsParam.parts {p : Param} (hp : IsParam ts p) (h : Tokens file content lo ts hi) :
    Parts file content lo [p.extent] hi := by
  cases hp with
  | number => exact Parts.between [] h fun h => .nil h.le
  | array _ _ _ _ hes =>
    cases h with
    | cons hint hlo hspan hrest =>
      cases hrest with
      | cons ht hlo' hspan' hrest =>
        obtain ⟨hlast, hstart, -, hhi, hts⟩ := Tokens.last hrest.tail
        obtain ⟨hname, hnameStart, hnameStop⟩ :=
          hint.cover ht (hspan.trans hlo') (hlo'.trans hspan')
        cases hrest.tail with
        | cons _ hlo'' hspan'' _ =>
          have hbehind := (hnameStop.trans_le hlo'').trans hstart
          refine .cover hname hlast (hlo.trans_eq hnameStart.symm) hbehind hhi
            ((hes.parts hts).mono ?_ le_rfl)
          exact hname.nonempty.le.trans (hnameStop.trans_le (hlo''.trans hspan''))

theorem IsParams.parts {ps : List Param} (hps : IsParams ts ps) (h : Tokens file content lo ts hi) :
    Parts file content lo (ps.map Param.extent) hi := by
  cases hps with
  | nil => exact .nil h.le
  | some hps =>
    rw [List.map_eq_flatMap]
    exact hps.parts IsParam.parts h

theorem IsItem.parts {i : Item} (hitem : IsItem ts i) (h : Tokens file content lo ts hi) :
    Parts file content lo [i.extent] hi := by
  cases hitem with
  | decl hd => exact .whole h hd.parts
  | @func type t lp rp lb rb ts ts' ps ss _ _ _ hps _ _ hss _ =>
    have hend : endSpan type.span (t :: lp :: (ts ++ rp :: lb :: (ts' ++ [rb]))) = rb.span := by
      simp [endSpan, List.getLast?_append, List.getLast?_cons]
    have hparts {lo hi : Nat}
      (h : Tokens file content lo (type :: t :: lp :: (ts ++ rp :: lb :: (ts' ++ [rb]))) hi) :
        Parts file content lo
          (.node t.span [] :: (ps.map Param.extent ++
            [.node (lb.span.cover rb.span) (Stmt.extents ss)])) hi := by
      cases h.tail with
      | cons ht hlo _ hrest =>
        obtain ⟨mid, hparams, hbody⟩ := hrest.tail.around
        exact (Parts.name ht hlo).append
          ((hps.parts hparams).append (Parts.between _ hbody hss.parts))
    have hwhole := Parts.whole h hparts
    rwa [hend] at hwhole

end Parts

end Sysy.Grammar
