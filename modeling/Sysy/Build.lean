import Sysy.Compilation

/-!
Builds: every input is compiled on its own, and when all of them are, one output is written for
each. Two inputs with the same output are refused before anything is done, and a failure leaves all
outputs unwritten.
-/

namespace Sysy
open Host

/-- How far the work on a file got within a stage. -/
inductive Status where
  | queued | working | done | failed
  /-- A status that no build gives. -/
  | other (name : String)
  deriving DecidableEq, Repr

namespace Status

def name : Status → String
  | queued => "queued"
  | working => "working"
  | done => "done"
  | failed => "error"
  | other n => n

def all : List Status := [queued, working, done, failed]

def ofName (s : String) : Status := (all.find? (·.name == s)).getD (other s)

end Status

/-- News of the work on a file. -/
structure ProgressEvent where
  file : String
  stage : Stage
  status : Status
  error : Option CompileError := none
  /-- Nanoseconds. -/
  elapsed : Int := 0
  deriving DecidableEq, Repr

structure BuildRequest where
  files : List String
  emit : Emit := .riscv
  /-- The path of the output, for a single input. -/
  output : String := ""
  /-- The directory of the outputs; each stands next to its input if there is none. -/
  outDir : String := ""
  /-- How many files may be compiled at a time. -/
  jobs : Int := 0
  maxDiagnostics : Int := 0
  cacheDir : Option String := none
  deriving DecidableEq, Repr

inductive BuildError where
  | noInputs
  | outputForMany (count : Nat)
  | collision (first second output : String)
  | noOutDir (e : FileError)
  | compile (e : CompileError)
  deriving DecidableEq, Repr

namespace BuildError

def text : BuildError → Bytes
  | noInputs => Bytes.ofString "no input files"
  | outputForMany n => Bytes.ofString s!"-o cannot be used with {n} input files"
  | collision a b out => Bytes.ofString (a ++ " and " ++ b ++ " both write " ++ out)
  | noOutDir e => Bytes.ofString ("failed to create output dir: " ++ e.message)
  | compile e => e.text

end BuildError

/-- What a build did. -/
structure Built where
  /-- The outputs that were written, in the order of the inputs. -/
  outputs : List String := []
  times : StageTimes := {}
  /-- The inputs, each with what was made of it. -/
  files : List (String × Option Compiled) := []
  events : List ProgressEvent := []
  error : Option BuildError := none

namespace BuildRequest

/-- A text without an ending, if it has that ending. -/
def dropEnding (s ending : List Char) : List Char :=
  if ending.isSuffixOf s then s.take (s.length - ending.length) else s

/-- Where the output for an input goes. -/
def outputPath (input explicit outDir : String) (emit : Emit) : String :=
  if explicit ≠ "" then explicit
  else
    let stem :=
      String.ofList (dropEnding (Path.baseChars input.toList) (Path.extensionChars input.toList))
    let base := stem ++ emit.orDefault.extension
    Path.join [if outDir ≠ "" then outDir else Path.dir input, base]

def outputFor (q : BuildRequest) (input : String) : String :=
  outputPath input q.output q.outDir q.emit

/-- The first input whose output is that of an earlier one; `owners` are outputs with their
inputs. -/
def collision? (q : BuildRequest) :
    (owners : List (String × String)) → List String → Option BuildError
  | _, [] => none
  | owners, input :: inputs =>
    let out := Path.clean (q.outputFor input)
    match owners.lookup out with
    | some owner => some (.collision owner input out)
    | none => q.collision? ((out, input) :: owners) inputs

/-- What is wrong with a request by itself. -/
def fault? (q : BuildRequest) : Option BuildError :=
  if q.files.isEmpty then some .noInputs
  else if q.output ≠ "" ∧ 1 < q.files.length then some (.outputForMany q.files.length)
  else q.collision? [] q.files

def options (q : BuildRequest) : CompileOptions :=
  { emit := q.emit, maxDiagnostics := q.maxDiagnostics, cacheDir := q.cacheDir }

/-- A build of which nothing is done: the news is that all inputs wait. -/
def queued (q : BuildRequest) : Built :=
  { events := q.files.map fun f => { file := f, stage := .parse, status := .queued } }

end BuildRequest

namespace Build

/-- The news that a phase is for a build. -/
def progress? (e : Compilation.PhaseEvent) : Option ProgressEvent :=
  match e.step with
  | .started => some { file := e.file, stage := e.phase.stage, status := .working }
  | .ended _ => none
  | .failed err elapsed =>
    some { file := e.file, stage := e.phase.stage, status := .failed, error := some err, elapsed }

/-- The time of a phase that ended well. -/
def addTime (t : StageTimes) (e : Compilation.PhaseEvent) : StageTimes :=
  match e.step with
  | .ended elapsed => t.add e.phase.stage elapsed
  | _ => t

/-- Compiles files one after the other. After a failure the rest is not compiled. -/
def compileAll (o : CompileOptions) : List String → Built → Trace.Traced Built
  | [], b => return b
  | path :: paths, b => do
    if b.error.isSome then compileAll o paths { b with files := b.files ++ [(path, none)] }
    else
      let c ← compilePath o path
      let b := { b with
        events := b.events ++ c.events.filterMap progress?
        times := c.events.foldl addTime b.times }
      match c.outcome with
      | .ok r => compileAll o paths { b with files := b.files ++ [(path, some r)] }
      | .error e =>
        compileAll o paths { b with files := b.files ++ [(path, none)], error := some (.compile e) }

/-- Writes the outputs one after the other, up to the first that cannot be written. -/
def writeAll (q : BuildRequest) : List (String × Option Compiled) → Built → Action Built
  | [], b => return b
  | (_, none) :: rest, b => writeAll q rest b
  | (path, some c) :: rest, b => do
    let t0 ← Action.now
    let out := q.outputFor path
    let news (status : Status) : ProgressEvent := { file := path, stage := .write, status }
    match ← Action.writeFile out c.output with
    | .error _ =>
      let e := CompileError.writeFailed out
      return { b with
        events := b.events ++ [news .working, { news .failed with error := some e }]
        error := some (.compile e) }
    | .ok () =>
      let elapsed := (← Action.now) - t0
      writeAll q rest { b with
        events := b.events ++ [news .working, { news .done with elapsed }]
        times := b.times.add .write elapsed
        outputs := b.outputs ++ [out] }

/-- Goes on when the files are compiled: if there was an error, nothing is written. -/
def settle (q : BuildRequest) (b : Built) : Action Built :=
  if b.error.isSome then return b else writeAll q b.files b

end Build

open Build in
/-- Compiles every input and writes the outputs. -/
def build (q : BuildRequest) : Trace.Traced Built := do
  match q.fault? with
  | some e => return { error := some e }
  | none =>
    let made ← if q.outDir = "" then pure (Except.ok ())
      else StateT.lift (Action.request (.makeDirs q.outDir))
    match made with
    | .error e => return { error := some (.noOutDir e) }
    | .ok () =>
      let b ← compileAll q.options q.files q.queued
      StateT.lift (settle q b)

end Sysy
