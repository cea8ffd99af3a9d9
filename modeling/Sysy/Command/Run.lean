import Sysy.Command.Session
import Sysy.Progress
import Sysy.Token.Listing
import Sysy.Tree.Outline

/-!
The commands at work, and the whole program as a function of its command line.
-/

namespace Sysy.Command
open Host

/-- The name under which the program keeps its files. -/
def programName : String := "kira"

/-- The cache of the user, which is made if there is none. -/
def openCache : Action (Except CommandError String) := do
  let base ← Action.request (.env "XDG_CACHE_HOME")
  let home ← Action.request (.env "HOME")
  if base = "" ∧ home = "" then return .error (.cache "$HOME is not defined")
  else
    let dir := Path.join [if base = "" then Path.join [home, ".cache"] else base, programName]
    match ← Action.request (.makeDirs dir) with
    | .error e => return .error (.cache e.message)
    | .ok () => return .ok dir

/-- The mode of the progress view, as it is written. -/
def uiText (o : Options) (s : BuildSettings) : String :=
  o.ui.getD (if s.ui = "" then "auto" else s.ui)

/-- The build that options and settings ask for. An option that is given wins over the setting. -/
def buildRequest (o : Options) (s : BuildSettings) (args : List String) :
    Action (Except CommandError BuildRequest) := do
  match Emit.read (Text.trim (o.emit.getD s.emit)) with
  | .error reason => return .error (.option reason)
  | .ok emit =>
    let opened ← if o.cache.getD s.cache then (·.map some) <$> openCache else pure (.ok none)
    match opened with
    | .error e => return .error e
    | .ok cacheDir =>
      if o.output ≠ "" ∧ 1 < args.length then return .error (.outputForMany args.length)
      else return .ok {
        files := args
        emit
        output := o.output
        outDir := o.outDir.getD s.outDir
        jobs := o.jobs.getD (max s.jobs 0)
        maxDiagnostics := o.maxDiagnostics
        cacheDir }

/-- Tells how long a build took, if that is asked for. -/
def printTimes (o : Options) (b : Built) : Action Unit := do
  if o.timings then
    let asDocument := o.timingsFormat = "json"
    let reports := b.files.filterMap fun (path, c) =>
      c.map fun c => if asDocument then c.times.document path else c.times.text path
    Action.printText .errors (String.join reports ++ if asDocument then "" else b.times.text)

/-- What a build prints when it is done: the view of its progress, or the outputs that were
written. -/
def summary (q : BuildRequest) (showsView quiet : Bool) (b : Built) : String :=
  if showsView
    then ((b.events.foldl (·.update ·) (Progress.View.ofFiles "kira build" q.files)).finish).text
  else if quiet ∨ b.error.isSome then ""
  else String.join (b.outputs.map fun out => "wrote " ++ out ++ "\n")

def runBuild (o : Options) (s : BuildSettings) (args : List String) :
    Trace.Traced (Except CommandError Unit) := do
  match ← StateT.lift (buildRequest o s args) with
  | .error e => return .error e
  | .ok q =>
    match Progress.Mode.read (uiText o s) with
    | .error reason => return .error (.option reason)
    | .ok mode =>
      let showsView := mode.shows o.quiet (← StateT.lift (Action.request (.isTerminal .output)))
      let b ← Sysy.build q
      StateT.lift (Action.printText .output (summary q showsView o.quiet b))
      match b.error with
      | some e => return .error (.build e)
      | none =>
        StateT.lift (printTimes o b)
        return .ok ()

/-- Reads a source file into a set of its own. -/
def loadSource (path : String) : Action (Except CommandError SourceFile) := do
  match ← Action.readFile path with
  | .error _ =>
    return .error (.failed { code := .loadFailed, position := path,
                             message := Bytes.ofString Code.loadFailed.title })
  | .ok raw => return .ok (.ofDisk 0 path raw)

/-- Prints diagnostics with the lines around them. All of them have a place: see
`Failure.ofDiagnostic`. -/
def printDiagnostics (o : Options) (files : FileSet) (bag : Bag) (notes : Bool) : Action Unit := do
  let colour ← colours o .errors
  Action.print .errors ((bag.sort.report { colour, context := 1, notes } files).getD [])

def runTokenize (o : Options) (path : String) : Action (Except CommandError Unit) := do
  match ← loadSource path with
  | .error e => return .error e
  | .ok f =>
    let files := FileSet.ofFile f
    let ls := lexemes f.id f.content
    printDiagnostics o files (Bag.ofList o.maxDiagnostics (ls.flatMap (·.problems))) false
    let tokens := ls.map (·.token)
    match o.format with
    | "pretty" => Action.printText .output ((Token.listing files tokens).getD ""); return .ok ()
    | "json" => Action.printText .output (Token.document tokens); return .ok ()
    | other => return .error (.option ("unknown format: " ++ other))

def runParse (o : Options) (path : String) : Action (Except CommandError Unit) := do
  match ← loadSource path with
  | .error e => return .error e
  | .ok f =>
    if o.maxDiagnostics < 0 then return .error (.option "out of range")
    else
      let files := FileSet.ofFile f
      let p := f.parsed o.maxDiagnostics.toNat
      let bag := Bag.ofList o.maxDiagnostics p.reported
      if bag.items ≠ [] then
        if o.diagnostics = "json" then
          Action.printText .errors ((bag.sort.document files true 0).getD "")
        else printDiagnostics o files bag true
      if bag.hasErrors then return .error (.parsing path)
      else
        Action.printText .output p.program.outline
        return .ok ()

def runVersion (o : Options) : Action (Except CommandError Unit) := do
  match Text.lower o.format with
  | "json" => Action.printText .output (Version.current.document o.full); return .ok ()
  | "pretty" =>
    let colour ← colours o .output
    Action.printText .output (Version.current.report o.full colour)
    return .ok ()
  | _ => return .error (.option ("unsupported format " ++ Quoted.encodeText o.format ++
      " (must be pretty or json)"))

/-- The work of a command. -/
def perform (c : Call) (s : Settings) : Trace.Traced (Except CommandError Unit) :=
  match c.command with
  | .build => runBuild c.options s.build c.args
  | .tokenize => StateT.lift (runTokenize c.options (c.args.headD ""))
  | .parse => StateT.lift (runParse c.options (c.args.headD ""))
  | .version => StateT.lift (runVersion c.options)

/-- The work of a command with its trace. -/
def performTraced (c : Call) (s : Settings) : Action (Except CommandError Unit) := do
  match ← openTrace c.options s.trace with
  | .error e => return .error e
  | .ok recorder =>
    let (result, _) ← (perform c s).run recorder
    return result

/-- A command with all that stands around it. -/
def runCall (c : Call) : Action (Except CommandError Unit) := do
  match ← Settings.resolve c.options.config with
  | .error e => return .error (.settings e)
  | .ok s =>
    match ← startProfiles c.options with
    | .error e => return .error e
    | .ok () =>
      let result ← performTraced c s
      stopProfiles c.options
      return result

/-- What the program says about how it is used. -/
def usage : String :=
  "Kira compiles SysY source files to RISC-V 32 assembly or to textual IR\n\n" ++
    "Usage:\n  kira [command]\n\nCommands:\n" ++
    String.join (all.map fun c => "  " ++ c.name ++ "\n")

/-- Tells of an error, and gives the exit code for it. -/
def complain (e : CommandError) (colour : Bool) : Action Nat := do
  Action.print .errors (e.report colour)
  return 1

/-- Runs the program on the words of its command line, and gives its exit code. -/
def run (words : List String) : Action Nat := do
  match readLine words with
  | .error e => complain (.usage e) false
  | .ok .help => Action.printText .output usage; return 0
  | .ok .version =>
    Action.printText .output ("kira version " ++ Version.current.version ++ "\n"); return 0
  | .ok (.call c) =>
    match ← runCall c with
    | .ok () => return 0
    | .error e => complain e (← colours c.options .errors)

end Sysy.Command
