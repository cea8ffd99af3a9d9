import Sysy.Source.File
import Sysy.Tree.Basic

/-!
A check of the spans in a tree: the program lies within its file, and holds all of its items.
-/

namespace Sysy.Program

/-- The first fault among the spans of a program that was read from a file. -/
def spanFault? (p : Program) (f : SourceFile) : Option String :=
  if p.span.stop ≤ p.span.start ∧ f.content ≠ [] then some s!"program span is empty: {p.span.text}"
  else if p.span.file ≠ f.id then
    some s!"program span points to different file id: got={p.span.file} want={f.id}"
  else if f.content.length < p.span.stop then
    some s!"program span end beyond content: {p.span.stop} > {f.content.length}"
  else
    let spans := p.items.map Item.span
    match spans.findSome? itemFault? with
    | some fault => some fault
    | none =>
      match spans with
      | [] => none
      | s :: ss =>
        let union := ss.foldl Span.cover s
        if union.start < p.span.start ∨ p.span.stop < union.stop then
          some s!"program span {p.span.text} does not cover union of items {union.text}"
        else none
where
  itemFault? (s : Span) : Option String :=
    if s.stop ≤ s.start then some s!"empty item span: {s.text}"
    else if s.file ≠ f.id then some s!"item span file mismatch: got={s.file} want={f.id}"
    else if s.start < p.span.start ∨ p.span.stop < s.stop then
      some s!"item span {s.text} is outside program span {p.span.text}"
    else none

end Sysy.Program
