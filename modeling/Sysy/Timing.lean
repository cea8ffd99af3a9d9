import Sysy.Json
import Sysy.Time

/-!
How long things took: the phases of one compilation, and the stages of a build summed over its
files.
-/

namespace Sysy
open Text

/-- A phase that was timed. -/
structure PhaseTime where
  name : String
  ms : Binary64
  /-- A remark, such as that the phase failed. -/
  note : String := ""
  deriving DecidableEq, Repr

/-- The times of one compilation. There are no phases at all if nothing was timed. -/
structure TimeReport where
  total : Binary64 := .ofInt 0
  phases : Option (List PhaseTime) := none
  deriving DecidableEq, Repr

namespace TimeReport

/-- One line: the name in a column of `width`, the time, and the remark. -/
def line (width : Nat) (name : String) (ms : Binary64) (note : String) : String :=
  "  " ++ padRight width name ++ " " ++ padLeft 8 (ms.fixed 2) ++ " ms" ++
    (if note = "" then "" else "  // " ++ note) ++ "\n"

/-- The times for people. -/
def text (r : TimeReport) (path : String) : String :=
  "timings (" ++ path ++ "): total " ++ r.total.fixed 2 ++ " ms\n" ++
    String.join ((r.phases.getD []).map fun p => line 10 p.name p.ms p.note)

def phaseDocument (p : PhaseTime) : Json :=
  .obj ([("name", .text p.name), ("duration_ms", .number p.ms.shortest)] ++
    Json.optional "note" (p.note ≠ "") (.text p.note))

/-- The times as a document on one line. -/
def document (r : TimeReport) (path : String) : String :=
  (Json.obj ([("kind", .text "compile")] ++ Json.optional "path" (path ≠ "") (.text path) ++
    [("total_ms", .number r.total.shortest),
     ("phases", match r.phases with
      | none => .null
      | some ps => .arr (ps.map phaseDocument))])).render ++ "\n"

end TimeReport

/-- A phase that is being timed, or was: all times are in nanoseconds. -/
structure Timer.Phase where
  name : String
  start : Int
  duration : Int := 0
  note : String := ""
  deriving DecidableEq, Repr

/-- Phases by number, from zero. -/
structure Timer where
  phases : Array Timer.Phase := #[]
  deriving Repr

namespace Timer

/-- Starts a phase and gives its number. -/
def start (t : Timer) (name : String) (now : Int) : Nat × Timer :=
  (t.phases.size, { phases := t.phases.push { name, start := now } })

/-- Ends the phase with a number; a number of no phase is ignored. -/
def stop (t : Timer) (number : Nat) (note : String) (now : Int) : Timer :=
  { phases := t.phases.modify number fun p => { p with duration := now - p.start, note } }

/-- The note of a phase that did not succeed. -/
def failed : String := "failed"

def report (t : Timer) : TimeReport :=
  if t.phases.isEmpty then {}
  else
    { total := Time.millis (t.phases.foldl (fun sum p => sum + p.duration) 0)
      phases := some (t.phases.toList.map fun p => { name := p.name, ms := Time.millis p.duration,
                                                     note := p.note }) }

/-- The phases and their sum for people. -/
def summary (t : Timer) : String :=
  let r := t.report
  "timings:\n" ++ String.join ((r.phases.getD []).map fun p =>
    TimeReport.line 28 p.name p.ms p.note) ++
    TimeReport.line 28 "total" r.total ""

end Timer

/-- A stage of a build. -/
inductive Stage where
  | parse | lower | codegen | write
  /-- A stage that no build has. -/
  | other (name : String)
  deriving DecidableEq, Repr

namespace Stage

def name : Stage → String
  | parse => "parse"
  | lower => "lower"
  | codegen => "codegen"
  | write => "write"
  | other n => n

/-- The stages of a build in their order. -/
def all : List Stage := [parse, lower, codegen, write]

def ofName (s : String) : Stage := (all.find? (·.name == s)).getD (other s)

end Stage

/-- The time of each stage that was recorded, in nanoseconds of 64 bits. -/
structure StageTimes where
  times : List (Stage × Int) := []
  deriving DecidableEq, Repr

namespace StageTimes

def has (t : StageTimes) (s : Stage) : Bool := (t.times.lookup s).isSome

def duration (t : StageTimes) (s : Stage) : Int := (t.times.lookup s).getD 0

def add (t : StageTimes) (s : Stage) (ns : Int) : StageTimes :=
  { times := (s, Int.bmod (t.duration s + ns) 0x10000000000000000) :: t.times.filter (·.1 ≠ s) }

/-- The sum over some stages. -/
def sum (t : StageTimes) (ss : List Stage) : Int :=
  Int.bmod (ss.foldl (fun sum s => sum + t.duration s) 0) 0x10000000000000000

/-- The recorded stages in the order of a build. -/
def recorded (t : StageTimes) : List Stage := Stage.all.filter t.has

/-- The recorded stages for people. -/
def text (t : StageTimes) : String :=
  String.join (t.recorded.map fun s =>
    s.name ++ " " ++ (Time.millis (t.duration s)).fixed 1 ++ " ms\n")

end StageTimes

end Sysy
