import Sysy.Command.Flag

/-!
The commands of the program and their options. An option that the settings of a project can give too
is `none` unless its flag is on the command line.
-/

namespace Sysy.Command

structure Options where
  colour : String := "auto"
  quiet : Bool := false
  timings : Bool := false
  timingsFormat : String := "text"
  maxDiagnostics : Int := 100
  /-- The settings file; empty to look for one. -/
  config : String := ""
  trace : Option String := none
  traceLevel : Option String := none
  traceFormat : Option String := none
  cpuProfile : String := ""
  memProfile : String := ""
  runtimeTrace : String := ""
  emit : Option String := none
  output : String := ""
  outDir : Option String := none
  jobs : Option Int := none
  ui : Option String := none
  cache : Option Bool := none
  /-- The format of what is printed. -/
  format : String := "pretty"
  diagnostics : String := "pretty"
  full : Bool := false
  help : Bool := false
  version : Bool := false
  deriving DecidableEq, Repr

namespace Options

def limitFlag : Flag Options :=
  { name := "max-diagnostics", effect := .number fun n o => { o with maxDiagnostics := n } }

/-- The flags of every command. -/
def globalFlags : List (Flag Options) := [
  { name := "color", effect := .text fun s o => { o with colour := s } },
  { name := "quiet", effect := .switch fun b o => { o with quiet := b } },
  { name := "timings", effect := .switch fun b o => { o with timings := b } },
  { name := "timings-format", effect := .text fun s o => { o with timingsFormat := s } },
  limitFlag,
  { name := "config", effect := .text fun s o => { o with config := s } },
  { name := "trace", effect := .text fun s o => { o with trace := some s } },
  { name := "trace-level", effect := .text fun s o => { o with traceLevel := some s } },
  { name := "trace-format", effect := .text fun s o => { o with traceFormat := some s } },
  { name := "cpu-profile", effect := .text fun s o => { o with cpuProfile := s } },
  { name := "mem-profile", effect := .text fun s o => { o with memProfile := s } },
  { name := "runtime-trace", effect := .text fun s o => { o with runtimeTrace := s } }]

def buildFlags : List (Flag Options) := [
  { name := "emit", effect := .text fun s o => { o with emit := some s } },
  { name := "output", letter := some 'o', effect := .text fun s o => { o with output := s } },
  { name := "out-dir", effect := .text fun s o => { o with outDir := some s } },
  { name := "jobs", effect := .number fun n o => { o with jobs := some n } },
  { name := "ui", effect := .text fun s o => { o with ui := some s } },
  { name := "cache", effect := .switch fun b o => { o with cache := some b } }]

def formatFlag : Flag Options :=
  { name := "format", effect := .text fun s o => { o with format := s } }

def helpFlag : Flag Options :=
  { name := "help", letter := some 'h', effect := .switch fun b o => { o with help := b } }

def versionFlag : Flag Options :=
  { name := "version", letter := some 'v', effect := .switch fun b o => { o with version := b } }

end Options

end Sysy.Command

namespace Sysy

inductive Command where
  | build | tokenize | parse | version
  deriving DecidableEq, Repr

namespace Command

def name : Command → String
  | build => "build"
  | tokenize => "tokenize"
  | parse => "parse"
  | version => "version"

def all : List Command := [build, tokenize, parse, version]

def ofName? (s : String) : Option Command := all.find? (·.name == s)

/-- The flags of one command. -/
def ownFlags : Command → List (Flag Options)
  | build => Options.buildFlags
  | tokenize => [Options.formatFlag]
  | parse => [{ name := "diagnostics", effect := .text fun s o => { o with diagnostics := s } }]
  | version =>
    [Options.formatFlag, { name := "full", effect := .switch fun b o => { o with full := b } }]

def flags (c : Command) : List (Flag Options) :=
  Options.globalFlags ++ c.ownFlags ++ [Options.helpFlag]

/-- What is wrong with the number of words that a command is given. -/
def countFault? (c : Command) (count : Nat) : Option String :=
  match c with
  | build => if count = 0 then some "requires at least 1 arg(s), only received 0" else none
  | tokenize | parse => if count = 1 then none else some s!"accepts 1 arg(s), received {count}"
  | version => none

end Command

end Sysy
