import Sysy.Host.Action
import Sysy.Trace.Event

/-!
The recorder of a trace. Spans and events are numbered from one, and an event is written when it
happens. A span that the level does not show is passed over, and the spans inside it belong to the
span around it.
-/

namespace Sysy.Trace
open Host

/-- Where a trace goes. -/
inductive Output where
  | errors
  | file (path : String)
  deriving DecidableEq, Repr

/-- A trace that is being recorded. -/
structure Recorder where
  level : Level := .off
  format : Format := .lines
  output : Output := .errors
  /-- When the trace was opened. -/
  opened : Int := 0
  /-- How many spans were begun. -/
  spans : Nat := 0
  /-- How many events were written. -/
  events : Nat := 0
  deriving Repr

namespace Recorder

def isOn (r : Recorder) : Bool := r.level ≠ .off

end Recorder

/-- Programs that record what they do. -/
abbrev Traced := StateT Recorder Action

/-- A span that is open. One that is not shown has the number zero. -/
structure Span where
  id : Nat := 0
  parent : Nat := 0
  grain : Grain := ⟨0⟩
  name : String := ""
  extra : List (String × String) := []
  deriving DecidableEq, Repr

namespace Span

def isShown (s : Span) : Bool := s.id ≠ 0

/-- Adds a fact, which is told when the span ends. -/
def withFact (s : Span) (key value : String) : Span :=
  if s.isShown then { s with extra := insertFact key value s.extra } else s

/-- The span that spans inside `s` belong to, where `s` itself was begun inside `around`. -/
def inner (s : Span) (around : Nat) : Nat := if s.isShown then s.id else around

end Span

/-- Writes an event. -/
def emit (e : Event) : Traced Unit := fun r => do
  let now ← Action.now
  let r := { r with events := r.events + 1 }
  let text := Bytes.ofString (e.text r.format r.events r.opened now)
  match r.output with
  | .errors => Action.print .errors text
  | .file path =>
    let _ ← Action.request (.append path text)
  return ((), r)

/-- Begins a span inside the span with number `parent`. -/
def start (grain : Grain) (name : String) (parent : Nat) : Traced Span := do
  let r ← get
  if r.level.shows grain then
    let id := r.spans + 1
    set { r with spans := id }
    emit { kind := .start, grain, span := id, parent, name }
    return { id, parent, grain, name }
  else return {}

/-- Ends a span. -/
def stop (s : Span) (detail : String) : Traced Unit := do
  if s.isShown then
    emit { kind := .stop, grain := s.grain, span := s.id, parent := s.parent, name := s.name,
           detail,
           extra := s.extra }

/-- Records a single point. -/
def point (grain : Grain) (name detail : String) : Traced Unit := do
  if (← get).level.shows grain then
    emit { kind := .point, grain, span := 0, parent := 0, name, detail }

end Sysy.Trace
