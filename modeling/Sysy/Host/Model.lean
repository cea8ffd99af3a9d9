import Sysy.Host.Action
import Sysy.Path

/-!
A model of a machine: a tree of files, an environment, a clock that stands still, and the text
printed so far. Programs run on it without side effects.
-/

namespace Sysy.Host

inductive Entry where
  | file (content : Bytes)
  | dir
  deriving DecidableEq, Repr

/-- A place in the tree: the names from the last one back to the root. -/
abbrev Place := List String

structure Model where
  /-- What is at each place; the root is always a directory. -/
  entries : List (Place × Entry) := []
  workDir : String := "/"
  env : List (String × String) := []
  clock : Int := 0
  output : List Bytes := []
  errors : List Bytes := []

namespace Model

def entry? (m : Model) (p : Place) : Option Entry :=
  if p = [] then some .dir else m.entries.lookup p

/-- Follows the names of a path from a place on. Every place on the way must be a directory. -/
def walk (m : Model) : Place → List String → Except Fault Place
  | p, [] => .ok p
  | p, c :: cs =>
    match m.entry? p with
    | none => .error .missing
    | some (.file _) => .error .notDirectory
    | some .dir =>
      if c = "" ∨ c = "." then m.walk p cs
      else if c = ".." then m.walk p.tail cs
      else m.walk (c :: p) cs

def names (path : String) : List String := (Path.split path.toList).map String.ofList

/-- The place that a path leads to, whether there is something or not. -/
def place (m : Model) (path : String) : Except Fault Place :=
  if Path.isAbsolute path then m.walk [] (names path)
  else match m.walk [] (names m.workDir) with
    | .ok p => m.walk p (names path)
    | .error f => .error f

/-- What a path leads to. -/
def find (m : Model) (path : String) : Except Fault Entry := do
  let p ← m.place path
  match m.entry? p with
  | some e => return e
  | none => throw .missing

def put (m : Model) (p : Place) (e : Entry) : Model :=
  { m with entries := (p, e) :: m.entries.filter (·.1 ≠ p) }

/-- Whether `p` is `top` or inside it. -/
def isWithin (top p : Place) : Bool := top.isSuffixOf p

def remove (m : Model) (top : Place) : Model :=
  { m with entries := m.entries.filter fun e => !isWithin top e.1 }

def read (m : Model) (path : String) : Except FileError Bytes :=
  match m.find path with
  | .ok (.file b) => .ok b
  | .ok .dir => .error ⟨"read", path, .isDirectory⟩
  | .error f => .error ⟨"open", path, f⟩

/-- Puts a file where a directory is ready for it. -/
def writeWith (m : Model) (path : String) (change : Bytes → Bytes) :
    Except FileError Unit × Model :=
  match m.place path with
  | .error f => (.error ⟨"open", path, f⟩, m)
  | .ok p =>
    match m.entry? p, m.entry? p.tail with
    | some .dir, _ => (.error ⟨"open", path, .isDirectory⟩, m)
    | some (.file b), _ => (.ok (), m.put p (.file (change b)))
    | none, some .dir => (.ok (), m.put p (.file (change [])))
    | none, some (.file _) => (.error ⟨"open", path, .notDirectory⟩, m)
    | none, none => (.error ⟨"open", path, .missing⟩, m)

/-- The beginnings of a path that end with one of its names and the slashes behind it. -/
def beginnings : (read : List Char) → (inSlashes : Bool) → List Char → List (List Char)
  | read, _, [] => if read = [] then [] else [read]
  | read, inSlashes, c :: r =>
    if inSlashes ∧ c ≠ '/' then read :: beginnings (read ++ [c]) false r
    else beginnings (read ++ [c]) (c = '/') r

/-- Makes the directories along a path one after the other. -/
def makeAll (m : Model) : List String → Except FileError Unit × Model
  | [] => (.ok (), m)
  | path :: more =>
    match m.find path with
    | .ok .dir => m.makeAll more
    | .ok (.file _) => (.error ⟨"mkdir", path, .notDirectory⟩, m)
    | .error _ =>
      match m.place (String.ofList (path.toList.reverse.dropWhile (· = '/')).reverse) with
      | .error f => (.error ⟨"mkdir", path, f⟩, m)
      | .ok p =>
        if (m.entry? p).isSome then (.error ⟨"mkdir", path, .occupied⟩, m)
        else (m.put p .dir).makeAll more

def makeDirs (m : Model) (path : String) : Except FileError Unit × Model :=
  m.makeAll ((beginnings [] false path.toList).map String.ofList)

def removeTree (m : Model) (path : String) : Except FileError Unit × Model :=
  match m.place path with
  | .error f => (.error ⟨"unlinkat", path, f⟩, m)
  | .ok p => (.ok (), m.remove p)

def stat (m : Model) (path : String) : Except FileError Unit :=
  match m.find path with
  | .ok _ => .ok ()
  | .error f => .error ⟨"stat", path, f⟩

/-- Meets a request. -/
def reply (m : Model) : (q : Request) → q.Reply × Model
  | .read path => (m.read path, m)
  | .write path content => m.writeWith path fun _ => content
  | .append path content => m.writeWith path (· ++ content)
  | .makeDirs path => m.makeDirs path
  | .removeTree path => m.removeTree path
  | .stat path => (m.stat path, m)
  | .print .output b => ((), { m with output := b :: m.output })
  | .print .errors b => ((), { m with errors := b :: m.errors })
  | .now => (m.clock, m)
  | .env name => ((m.env.lookup name).getD "", m)
  | .workDir => (m.workDir, m)
  | .isTerminal _ => (false, m)

end Model

/-- Runs a program on a model. -/
def Action.run {α : Type} : Action α → Model → α × Model
  | .done a, m => (a, m)
  | .ask q next, m => (next (m.reply q).1).run (m.reply q).2

namespace Action

theorem run_andThen {α β : Type} (x : Action α) (f : α → Action β) (m : Model) :
    (x.andThen f).run m = (f (x.run m).1).run (x.run m).2 := by
  induction x generalizing m with
  | done a => rfl
  | ask q next ih => simp only [andThen, run, ih]

end Action

end Sysy.Host
