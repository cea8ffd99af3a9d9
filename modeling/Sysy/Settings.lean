import Sysy.Emit
import Sysy.Host.Action
import Sysy.Path
import Sysy.Progress.Mode
import Sysy.Toml.Parser
import Sysy.Trace.Event

/-!
The settings of a project, kept in a file next to its sources or above them. The names of settings
may be written in letters of any case; a value is checked only where the name is in small letters.
-/

namespace Sysy
open Host

structure BuildSettings where
  emit : String := ""
  outDir : String := ""
  jobs : Int := 0
  /-- Whether progress is shown. -/
  ui : String := ""
  cache : Bool := false
  deriving DecidableEq, Repr

structure TraceSettings where
  level : String := ""
  output : String := ""
  format : String := ""
  deriving DecidableEq, Repr

structure Settings where
  /-- The file that the settings come from; empty if there is none. -/
  path : String := ""
  build : BuildSettings := {}
  trace : TraceSettings := {}
  deriving DecidableEq, Repr

/-- What is wrong with the content of a settings file. -/
inductive SettingsFault where
  | unreadable (e : FileError)
  | malformed (e : Toml.Error)
  /-- A value of another type than the setting. -/
  | mismatch (found : Toml.Value) (wanted : String)
  | unknownKeys (keys : List Toml.Key)
  /-- A value that the setting cannot have. -/
  | refused (setting reason : String)
  | negativeJobs
  deriving Repr

inductive SettingsError where
  | inFile (path : String) (fault : SettingsFault)
  /-- The search for a file could not go on. -/
  | search (e : FileError)
  deriving Repr

namespace SettingsFault

def message : SettingsFault → String
  | unreadable e => "failed to parse TOML: " ++ e.message
  | malformed e => "failed to parse TOML: " ++ e.message
  | mismatch v wanted =>
    "failed to parse TOML: toml: incompatible types: TOML value has type " ++ v.typeName ++
      "; destination has type " ++ wanted
  | unknownKeys keys => "unknown keys: " ++ String.intercalate ", " (keys.map Toml.Key.text)
  | refused setting reason => setting ++ ": " ++ reason
  | negativeJobs => "[build].jobs must not be negative"

end SettingsFault

namespace SettingsError

def message : SettingsError → String
  | inFile path fault => path ++ ": " ++ fault.message
  | search e => "failed to stat " ++ Quoted.encodeText e.path ++ ": " ++ e.message

end SettingsError

namespace Settings
open Text

def asText : Toml.Value → Except SettingsFault String
  | .text s => .ok s
  | v => .error (.mismatch v "string")

def asInteger : Toml.Value → Except SettingsFault Int
  | .integer n => .ok n
  | v => .error (.mismatch v "integer")

def asBoolean : Toml.Value → Except SettingsFault Bool
  | .boolean b => .ok b
  | v => .error (.mismatch v "boolean")

/-- The settings with one more value; nothing if there is no setting of that name. -/
def setBuild (s : BuildSettings) (name : String) (v : Toml.Value) :
    Option (Except SettingsFault BuildSettings) :=
  if sameLetters "emit" name then some do return { s with emit := ← asText v }
  else if sameLetters "out_dir" name then some do return { s with outDir := ← asText v }
  else if sameLetters "jobs" name then some do return { s with jobs := ← asInteger v }
  else if sameLetters "ui" name then some do return { s with ui := ← asText v }
  else if sameLetters "cache" name then some do return { s with cache := ← asBoolean v }
  else none

/-- The settings with one more value; nothing if there is no setting of that name. -/
def setTrace (s : TraceSettings) (name : String) (v : Toml.Value) :
    Option (Except SettingsFault TraceSettings) :=
  if sameLetters "level" name then some do return { s with level := ← asText v }
  else if sameLetters "output" name then some do return { s with output := ← asText v }
  else if sameLetters "format" name then some do return { s with format := ← asText v }
  else none

/-- Takes over a binding; nothing if its key is none of a setting. -/
def set (s : Settings) (b : Toml.Binding) : Option (Except SettingsFault Settings) :=
  match b.key with
  | [table] =>
    if sameLetters "build" table ∨ sameLetters "trace" table then
      some (if b.value.isTable ∧ b.role = .plain then .ok s else .error (.mismatch b.value "table"))
    else none
  | table :: name :: inner =>
    -- A table in the place of a single value does not fit, however deep it goes.
    let v := if inner = [] then b.value else .table
    if sameLetters "build" table then
      (setBuild s.build name v).map fun x => x.map fun build => { s with build }
    else if sameLetters "trace" table then
      (setTrace s.trace name v).map fun x => x.map fun trace => { s with trace }
    else none
  | [] => none

/-- Takes over bindings one by one. Keys of no setting are collected. -/
def setAll (s : Settings) :
    (unknown : List Toml.Key) → Toml.Document → Except SettingsFault (Settings × List Toml.Key)
  | unknown, [] => .ok (s, unknown.reverse)
  | unknown, b :: d =>
    match s.set b with
    | none => s.setAll (b.key :: unknown) d
    | some (.ok s) => s.setAll unknown d
    | some (.error e) => .error e

/-- Checks a setting that can be refused, if it is given. -/
def check {α : Type} (d : Toml.Document) (table name : String) (x : Except String α) :
    Except SettingsFault Unit :=
  match x with
  | .error reason =>
    if Toml.Document.defines d [table, name] then .error
      (.refused ("[" ++ table ++ "]." ++ name) reason) else .ok ()
  | .ok _ => .ok ()

/-- The settings that a document gives. -/
def ofDocument (d : Toml.Document) : Except SettingsFault Settings := do
  let (s, unknown) ← setAll {} [] d
  if unknown ≠ [] then throw (.unknownKeys unknown)
  check d "build" "emit" (Emit.read s.build.emit)
  if Toml.Document.defines d ["build", "jobs"] ∧ s.build.jobs < 0 then throw .negativeJobs
  check d "build" "ui" (Progress.Mode.read s.build.ui)
  check d "trace" "level" (Trace.Level.read s.trace.level)
  check d "trace" "format" (Trace.Format.read s.trace.format)
  return s

/-- The settings as the file at `path` means them: the directory for outputs is relative to the
file. -/
def locate (s : Settings) (path : String) : Settings :=
  let dir := s.build.outDir
  let outDir := if dir = "" ∨ Path.isAbsolute dir then dir else Path.join [Path.dir path, dir]
  { s with path, build := { s.build with outDir } }

/-- The settings in the bytes of the file at `path`. -/
def ofBytes (path : String) (content : Bytes) : Except SettingsError Settings :=
  match Toml.parse content with
  | .error e => .error (.inFile path (.malformed e))
  | .ok d =>
    match ofDocument d with
    | .error e => .error (.inFile path e)
    | .ok s => .ok (s.locate path)

/-- Reads the settings of a file. -/
def load (path : String) : Action (Except SettingsError Settings) := do
  match ← Action.readFile path with
  | .error e => return .error (.inFile path (.unreadable e))
  | .ok content => return ofBytes path content

/-- The name of a settings file. -/
def fileName : String := "kira.toml"

/-- The names of a directory, from the last one back, with all directories above it. -/
def above : List (List Char) → List (List (List Char))
  | [] => [[]]
  | name :: names => (name :: names) :: above names

/-- The places of a settings file for work in a directory, given by a clean path from the root: in
the directory itself, then in the ones above. -/
def candidates (dir : String) : List String :=
  (above (((Path.split dir.toList).filter (· ≠ [])).reverse)).map fun names =>
    String.ofList ('/' :: Path.joinSlash (names.reverse ++ [fileName.toList]))

/-- The first of some paths that can be reached. -/
def firstReachable : List String → Action (Except SettingsError (Option String))
  | [] => return .ok none
  | path :: paths => do
    match ← Action.request (.stat path) with
    | .ok () => return .ok (some path)
    | .error e => if e.fault = .missing then firstReachable paths else return .error (.search e)

/-- Looks for a settings file in a directory and those above it. -/
def find (dir : String) : Action (Except SettingsError (Option String)) := do
  if Path.isAbsolute dir then firstReachable (candidates (Path.clean dir))
  else
    let base ← Action.request .workDir
    firstReachable (candidates (Path.join [base, dir]))

/-- The settings of a file that is named, or of the nearest one. Without any, all settings are left
open. -/
def resolve (path : String) : Action (Except SettingsError Settings) := do
  if path ≠ "" then load path
  else match ← find "." with
    | .error e => return .error e
    | .ok none => return .ok {}
    | .ok (some path) => load path

end Settings

end Sysy
