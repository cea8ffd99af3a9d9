import Sysy.Build
import Sysy.Command.Line
import Sysy.Settings

/-!
What stands around the work of a command: the settings of the project, the files for profiles, and
the trace.
-/

namespace Sysy.Command
open Host

/-- Why a run of the program fails. -/
inductive CommandError where
  | usage (e : UsageError)
  | settings (e : SettingsError)
  /-- The file of a profile cannot be made. -/
  | profile (what : String) (e : FileError)
  | trace (e : FileError)
  | cache (reason : String)
  /-- An option has a value that it cannot have. -/
  | option (reason : String)
  | outputForMany (count : Nat)
  | build (e : BuildError)
  | failed (f : Failure)
  /-- The source was parsed, and errors were reported. -/
  | parsing (path : String)
  deriving Repr

namespace CommandError

def text : CommandError → Bytes
  | usage e => Bytes.ofString e.message
  | settings e => Bytes.ofString e.message
  | profile what e => Bytes.ofString (what ++ ": " ++ e.message)
  | trace e =>
    Bytes.ofString ("failed to create tracer: failed to open trace output: " ++ e.message)
  | cache reason => Bytes.ofString ("failed to open cache: " ++ reason)
  | option reason => Bytes.ofString reason
  | outputForMany n => Bytes.ofString s!"-o cannot be used with {n} input files"
  | build e => e.text
  | failed f => f.text
  | parsing path => Bytes.ofString (path ++ ": parsing failed")

/-- The line that tells of an error. Errors of the compiler show their code. -/
def report (e : CommandError) (colour : Bool) : Bytes :=
  match e with
  | failed f | build (.compile (.failed f)) => f.report colour
  | e => Bytes.ofString "error: " ++ e.text ++ [10]

end CommandError

/-- Whether a stream gets colours. -/
def colours (o : Options) (s : Stream) : Action Bool :=
  match o.colour with
  | "on" => return true
  | "off" => return false
  | _ => Action.request (.isTerminal s)

/-- Writes the profile that is taken at the end of a run. -/
def writeMemProfile (o : Options) : Action (Except CommandError Unit) := do
  if o.memProfile = "" then return .ok ()
  else match ← Action.writeFile o.memProfile [] with
    | .error e => return .error (.profile "heap profile" e)
    | .ok () => return .ok ()

/-- Makes the files of the profiles that are taken during a run. The files hold no samples. -/
def startProfiles (o : Options) : Action (Except CommandError Unit) := do
  let cpu ← if o.cpuProfile = "" then pure (.ok ()) else Action.writeFile o.cpuProfile []
  match cpu with
  | .error e => return .error (.profile "cpu profile" e)
  | .ok () =>
    let runtime ← if o.runtimeTrace = "" then pure (.ok ()) else Action.writeFile o.runtimeTrace []
    match runtime with
    | .error e =>
      let _ ← writeMemProfile o
      return .error (.profile "runtime trace" e)
    | .ok () => return .ok ()

/-- Ends the profiles. A failure is told, and changes nothing else. -/
def stopProfiles (o : Options) : Action Unit := do
  match ← writeMemProfile o with
  | .error e => Action.print .errors (Bytes.ofString "profile: " ++ e.text ++ [10])
  | .ok () => return

/-- The trace that options and settings ask for; options come first. A place to write to without a
level asks for the phases. -/
def tracePlan (o : Options) (s : TraceSettings) :
    Except String (Trace.Level × Trace.Format × String) := do
  let output := o.trace.getD s.output
  let level ← Trace.Level.read (o.traceLevel.getD s.level)
  let level := if level = .off ∧ output ≠ "" then .phase else level
  if level = .off then return (.off, .lines, output)
  else return (level, (← Trace.Format.read (o.traceFormat.getD s.format)).forPath output, output)

/-- Opens the trace. -/
def openTrace (o : Options) (s : TraceSettings) : Action (Except CommandError Trace.Recorder) := do
  match tracePlan o s with
  | .error reason => return .error (.option reason)
  | .ok (level, format, output) =>
    let opened ← Action.now
    if level = .off ∨ output = "" ∨ output = "-" then return .ok { level, format, opened }
    else match ← Action.writeFile output [] with
      | .error e => return .error (.trace e)
      | .ok () => return .ok { level, format, opened, output := .file output }

end Sysy.Command
