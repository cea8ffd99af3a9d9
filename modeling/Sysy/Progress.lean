import Sysy.Build
import Sysy.Text.Width

/-!
The view of a running build: a title with a spinner, a row for each file, and a bar.
-/

namespace Sysy.Progress
open Text

/-- What is known of a file. -/
structure Row where
  path : String
  /-- None before the first news. -/
  stage : Option Stage := none
  status : Status := .queued
  /-- Nanoseconds of the stages that were done. -/
  elapsed : Int := 0
  error : Option String := none
  deriving DecidableEq, Repr

namespace Row

/-- How much of the work on a file is done, from zero to one. -/
def share (r : Row) : Binary64 :=
  if r.error.isSome ∨ (r.stage = some .write ∧ r.status = .done) then .ofInt 1
  else match r.stage with
    | some .parse => if r.status = .queued then .ofInt 0 else .ofRatio 1 10
    | some .lower => .ofRatio 4 10
    | some .codegen => .ofRatio 7 10
    | some .write => .ofRatio 9 10
    | _ => .ofInt 0

def label (r : Row) : String :=
  match r.status, r.stage with
  | .working, some .parse => "parsing"
  | .working, some .lower => "lowering"
  | .working, some .codegen => "emitting"
  | .working, some .write => "writing"
  | s, _ => s.name

/-- Takes account of news. An error is kept, and the times of stages that are done add up. -/
def update (r : Row) (e : ProgressEvent) : Row :=
  { r with
    stage := some e.stage
    status := e.status
    error := match e.error with
      | some err => some (Bytes.toText err.text)
      | none => r.error
    elapsed := if e.status = .done then r.elapsed + e.elapsed else r.elapsed }

/-- The lines of a row on a terminal of a width. -/
def view (r : Row) (width : Int) : String :=
  "  " ++ block (padLeft 12 r.label) ++ " " ++ truncate r.path (max (width - 26) 20) ++
    (if 0 < r.elapsed ∧ r.status = .done then
      " (" ++ Time.durationText (Time.roundMicros r.elapsed.toNat) ++ ")"
    else "") ++ "\n" ++
    match r.error with
    | some e => "      " ++ block (truncate e (width - 6)) ++ "\n"
    | none => ""

end Row

structure View where
  title : String
  rows : List Row
  /-- The columns of the terminal. -/
  width : Int := 80
  /-- How often the spinner was turned. -/
  turns : Nat := 0
  isDone : Bool := false
  deriving Repr

namespace View

def ofFiles (title : String) (files : List String) : View :=
  { title, rows := files.map fun f => { path := f } }

/-- Takes account of news of a file. If the file has several rows, it is the last one. -/
def update (v : View) (e : ProgressEvent) : View :=
  match (v.rows.zipIdx.filter (·.1.path = e.file)).getLast? with
  | none => v
  | some (_, i) => { v with rows := v.rows.modify i (·.update e) }

def resize (v : View) (width : Int) : View := if 0 < width then { v with width } else v

/-- Turns the spinner, unless all is done. -/
def turn (v : View) : View := if v.isDone then v else { v with turns := v.turns + 1 }

def finish (v : View) : View := { v with isDone := true }

/-- How much of all work is done, from zero to one. -/
def share (v : View) : Binary64 :=
  if v.rows.isEmpty then .ofInt 0
  else (v.rows.foldl (fun sum r => Binary64.add sum r.share) (Binary64.ofInt 0)).divNat
    v.rows.length

def spinner : List String := ["⣾ ", "⣽ ", "⣻ ", "⢿ ", "⡿ ", "⣟ ", "⣯ ", "⣷ "]

/-- The bar moves only when all is done. -/
def bar (v : View) : String :=
  let cells := (max (v.width - 4) 10 - 5).toNat
  if v.isDone then copies cells "█" ++ " 100%" else copies cells "░" ++ "   0%"

def header (v : View) : String :=
  if v.isDone then "done: " ++ v.title else spinner.getD (v.turns % 8) "" ++ " " ++ v.title

/-- The text on the terminal. -/
def text (v : View) : String :=
  if v.rows.isEmpty then ""
  else block v.header ++ "\n\n" ++ String.join (v.rows.map (·.view v.width)) ++ "\n" ++
    v.bar ++ "\n"

end View

end Sysy.Progress
