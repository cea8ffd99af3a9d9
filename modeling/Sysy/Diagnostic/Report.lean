import Sysy.Diagnostic.Basic
import Sysy.Json
import Sysy.Source.File
import Sysy.Text.Column
import Sysy.Text.Paint

/-!
Reports of diagnostics: for people, with the lines of the source that they are about, and as a
document. Both list a bag in its order. There is no report about a span whose places do not fit.
-/

namespace Sysy

namespace Severity

def paint (s : Severity) : Paint :=
  if s = error then .red else if s = warning then .yellow else .cyan

end Severity

/-- How a report for people looks. -/
structure ReportStyle where
  colour : Bool := false
  /-- How many lines are shown before and after the line that matters. -/
  context : Int := 0
  notes : Bool := false
  deriving DecidableEq, Repr

namespace ReportStyle
open Text

/-- The mark under a span: as long as the span if that ends on its line, and one character
otherwise. -/
def mark (start stop : LineCol) : String :=
  let width := if stop.line = start.line ∧ start.col < stop.col then stop.col - start.col else 1
  "^" ++ copies (width - 1) "~"

/-- One line of the source, with the mark below it if it is the line that matters. -/
def sourceLine (st : ReportStyle) (sev : Severity) (gutter : Nat) (start stop : LineCol)
    (number : Nat) (line : Bytes) : Bytes :=
  Bytes.ofString (padLeft gutter (toString number) ++ " | ") ++ Bytes.trimRight
    (· = 13) line ++ [10] ++
    if number = start.line then
      Bytes.ofString (padLeft gutter "" ++ " | " ++ copies (start.col - 1) " " ++
        sev.paint.apply st.colour (mark start stop) ++ "\n")
    else []

/-- The lines of a text around the line where a span starts. -/
def window (st : ReportStyle) (sev : Severity) (content : Bytes) (start stop : LineCol) : Bytes :=
  let lines := Bytes.lines content
  let first := max ((start.line : Int) - st.context) 1
  let last := min ((start.line : Int) + st.context) lines.length
  let gutter := (toString last).length
  (lines.zipIdx 1).flatMap fun (line, number) =>
    if first ≤ number ∧ (number : Int) ≤ last then st.sourceLine sev gutter start stop number line
    else []

/-- The lines of the source around a span. -/
def snippet (st : ReportStyle) (files : FileSet) (span : Span) (sev : Severity) : Option Bytes :=
  match files.get? span.file with
  | none => some []
  | some f => do
    let (start, stop) ← files.resolve span
    -- no mark can be put at column zero
    if start.col = 0 ∧ 0 ≤ st.context then none else some (st.window sev f.content start stop)

def note (st : ReportStyle) (files : FileSet) (n : Note) : Option Bytes := do
  let position ← files.position n.span
  let shown ← st.snippet files n.span .info
  return Bytes.ofString ("  " ++ position ++ ": " ++ Paint.cyan.apply st.colour "note" ++ ": ") ++
    n.message ++ [10] ++ shown

def diagnostic (st : ReportStyle) (files : FileSet) (d : Diagnostic) : Option Bytes := do
  let head := d.severity.paint.apply st.colour (d.severity.name ++ " " ++ d.code.id)
  let position ← files.position d.primary
  let shown ← st.snippet files d.primary d.severity
  let notes ← if st.notes then d.notes.mapM (st.note files) else some []
  return Bytes.ofString (position ++ ": " ++ head ++ ": ") ++ d.message ++ [10] ++ shown ++
    notes.flatten

end ReportStyle

/-- An error that ends a run, with its place as text. -/
structure Failure where
  code : Code
  /-- A path, with line and column if they are known; may be empty. -/
  position : String
  message : Bytes
  deriving DecidableEq, Repr

namespace Failure

/-- The failure for a diagnostic. Only the end of a file of 2^32 - 1 newlines has no place, and
nothing is wrong with such a file. -/
def ofDiagnostic (files : FileSet) (d : Diagnostic) : Failure :=
  { code := d.code, position := (files.position d.primary).getD "", message := d.message }

/-- Position and message. -/
def text (e : Failure) : Bytes :=
  if e.position = "" then e.message else Bytes.ofString (e.position ++ ": ") ++ e.message

/-- The line that tells people of a failure. -/
def report (e : Failure) (colour : Bool) : Bytes :=
  Bytes.ofString (Severity.error.paint.apply colour ("error[" ++ e.code.id ++ "]") ++ ": ") ++
    e.text ++ [10]

end Failure

namespace Bag

/-- The diagnostics of a bag for people. -/
def report (b : Bag) (st : ReportStyle) (files : FileSet) : Option Bytes :=
  (b.items.mapM (st.diagnostic files)).map List.flatten

/-- A span as a document, with lines and columns if they are asked for. Numbers that are zero are
left out, the offsets apart. -/
def location (files : FileSet) (positions : Bool) (span : Span) : Option Json := do
  let (start, stop) ← if positions then files.resolve span else some ({}, {})
  let number (key : String) (n : Nat) := Json.optional key (n ≠ 0) (.int n)
  return .obj ([("file", .text (((files.get? span.file).map (·.path)).getD "")),
      ("start_byte", .int span.start), ("end_byte", .int span.stop)] ++
    number "start_line" start.line ++ number "start_col" start.col ++
    number "end_line" stop.line ++ number "end_col" stop.col)

def noteDocument (files : FileSet) (positions : Bool) (n : Note) : Option Json := do
  return .obj [("message", .str n.message), ("location", ← location files positions n.span)]

def diagnosticDocument (files : FileSet) (positions : Bool) (d : Diagnostic) : Option Json := do
  let place ← location files positions d.primary
  let notes ← d.notes.mapM (noteDocument files positions)
  return .obj ([("severity", .text d.severity.name), ("code", .text d.code.id),
      ("message", .str d.message), ("location", place)] ++
    Json.optional "notes" (d.notes ≠ []) (.arr notes))

/-- The diagnostics of a bag as a document; a positive `limit` keeps only so many. -/
def document (b : Bag) (files : FileSet) (positions : Bool) (limit : Int) : Option String := do
  let shown := if 0 < limit then b.items.take limit.toNat else b.items
  let rows ← shown.mapM (diagnosticDocument files positions)
  return (Json.obj [("diagnostics", .arr rows), ("count", .int shown.length)]).pretty

end Bag

end Sysy
