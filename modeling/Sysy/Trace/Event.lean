import Sysy.Json
import Sysy.Text.Case
import Sysy.Time

/-!
Events of a trace: the start and the end of a span of work, and single points. The level of a trace
says how fine the work is that it tells of, and its format how an event is written.
-/

namespace Sysy.Trace

inductive Kind where
  | start | stop | point
  | unknown
  deriving DecidableEq, Repr, Inhabited

namespace Kind

def name : Kind → String
  | start => "begin"
  | stop => "end"
  | point => "point"
  | unknown => "unknown"

/-- The kind with a given number; they are numbered from one. -/
def ofNumber (n : Nat) : Kind := [unknown, start, stop, point].getD n unknown

/-- What stands in front of an event's name. -/
def mark : Kind → String
  | start => "→ "
  | stop => "← "
  | point => "• "
  | unknown => ""

end Kind

/-- How fine the work is that an event tells of: the larger the depth, the finer. -/
structure Grain where
  depth : Nat
  deriving DecidableEq, Repr, Inhabited

namespace Grain

/-- The work on one file. -/
def driver : Grain := ⟨1⟩

/-- One pass over a file. -/
def pass : Grain := ⟨2⟩

/-- The work on one function. -/
def func : Grain := ⟨3⟩

def name (g : Grain) : String :=
  match g.depth with
  | 1 => "driver"
  | 2 => "pass"
  | 3 => "func"
  | 4 => "node"
  | _ => "unknown"

end Grain

inductive Level where
  | off | error | phase | detail | debug
  | unknown
  deriving DecidableEq, Repr, Inhabited

namespace Level

def all : List Level := [off, error, phase, detail, debug]

def name : Level → String
  | off => "off"
  | error => "error"
  | phase => "phase"
  | detail => "detail"
  | debug => "debug"
  | unknown => "unknown"

def ofNumber (n : Nat) : Level := all.getD n unknown

/-- Reads a level in letters of any case; nothing means off. -/
def read (s : String) : Except String Level :=
  let t := Text.lower s
  if t = "" then .ok off
  else match all.find? (·.name == t) with
    | some l => .ok l
    | none => .error ("invalid trace level: " ++ Quoted.encodeText s ++
        " (expected: off|error|phase|detail|debug)")

/-- Whether events of a grain are recorded. -/
def shows (l : Level) (g : Grain) : Bool :=
  match l with
  | phase => g.depth ≤ 2
  | detail => g.depth ≤ 3
  | debug => true
  | _ => false

end Level

inductive Format where
  | auto | lines | documents
  deriving DecidableEq, Repr, Inhabited

namespace Format

def number : Format → Nat
  | auto => 0
  | lines => 1
  | documents => 2

def read (s : String) : Except String Format :=
  match Text.lower s with
  | "" | "auto" => .ok auto
  | "text" => .ok lines
  | "ndjson" | "json" => .ok documents
  | _ => .error ("invalid trace format: " ++ Quoted.encodeText s ++ " (expected: auto|text|ndjson)")

/-- The format for a trace that goes to `path`, where `auto` leaves it to the path's ending. -/
def forPath (f : Format) (path : String) : Format :=
  match f with
  | auto => if path.endsWith ".ndjson" || path.endsWith ".jsonl" then documents else lines
  | f => f

end Format

structure Event where
  kind : Kind
  grain : Grain
  /-- The span's number; zero for points. -/
  span : Nat
  /-- The number of the span around it; zero if there is none. -/
  parent : Nat
  name : String
  detail : String := ""
  /-- Further facts by their keys. -/
  extra : List (String × String) := []
  deriving DecidableEq, Repr

/-- A list of facts in the order of their keys, each with its latest value. -/
def insertFact (key value : String) : List (String × String) → List (String × String)
  | [] => [(key, value)]
  | (k, v) :: r =>
    if key = k then (k, value) :: r
    else if key < k then (key, value) :: (k, v) :: r
    else (k, v) :: insertFact key value r

namespace Event

/-- The event as one line; `elapsed` counts nanoseconds since the trace was opened. -/
def line (e : Event) (elapsed : Int) : String :=
  let ms := (Binary64.ofInt (elapsed.tdiv 1000)).divNat 1000
  "[" ++ Text.padLeft 9 (ms.fixed 3) ++ "ms] " ++ (if e.parent = 0 then "" else "  ") ++
    e.kind.mark ++ e.name ++
    (if e.detail = "" then "" else " (" ++ e.detail ++ ")") ++
    (if e.extra = [] then ""
      else " \x7b" ++ String.intercalate ", " (e.extra.map fun (k, v) => k ++ "=" ++ v) ++
        "\x7d") ++ "\n"

/-- The event as a document, with its place in the trace and its instant. -/
def document (e : Event) (seq : Nat) (now : Int) : Json :=
  .obj ([("time", .text (Time.stamp now)), ("seq", .int seq), ("kind", .text e.kind.name),
      ("scope", .text e.grain.name), ("span_id", .int e.span)] ++
    Json.optional "parent_id" (e.parent ≠ 0) (.int e.parent) ++
    [("name", .text e.name)] ++
    Json.optional "detail" (e.detail ≠ "") (.text e.detail) ++
    Json.optional "extra" (e.extra ≠ []) (.obj (e.extra.map fun (k, v) => (k, .text v))))

/-- The written form of an event in a trace that was opened at `start`. -/
def text (e : Event) (f : Format) (seq : Nat) (start now : Int) : String :=
  match f with
  | .documents => (e.document seq now).render ++ "\n"
  | _ => e.line (Time.since start now)

end Event

end Sysy.Trace
