import Sysy.Text.Bytes

/-!
What the program asks of the machine it runs on. A step of the program is a request, and the reply
decides how it goes on. Nothing here says how requests are met: that can be done for real, or by a
model.
-/

namespace Sysy.Host

/-- Why an operation on files fails. -/
inductive Fault where
  | missing
  | isDirectory
  | notDirectory
  | occupied
  | other (text : String)
  deriving DecidableEq, Repr

namespace Fault

def text : Fault → String
  | missing => "no such file or directory"
  | isDirectory => "is a directory"
  | notDirectory => "not a directory"
  | occupied => "file exists"
  | other t => t

end Fault

/-- A failed operation and the path that it failed at. -/
structure FileError where
  operation : String
  path : String
  fault : Fault
  deriving DecidableEq, Repr

namespace FileError

def message (e : FileError) : String := e.operation ++ " " ++ e.path ++ ": " ++ e.fault.text

end FileError

/-- Where text is printed. -/
inductive Stream where
  | output | errors
  deriving DecidableEq, Repr

inductive Request where
  /-- The content of a file. -/
  | read (path : String)
  /-- Makes a file with this content, whether there was one or not. -/
  | write (path : String) (content : Bytes)
  /-- Adds to the end of a file. -/
  | append (path : String) (content : Bytes)
  /-- Makes a directory and those that it stands in. -/
  | makeDirs (path : String)
  /-- Removes a directory with all that is in it. -/
  | removeTree (path : String)
  /-- Whether a path can be reached. -/
  | stat (path : String)
  | print (stream : Stream) (content : Bytes)
  /-- Nanoseconds since the start of 1970. -/
  | now
  /-- A variable of the environment; nothing if it is not set. -/
  | env (name : String)
  /-- The directory that relative paths start from. -/
  | workDir
  | isTerminal (stream : Stream)
  deriving DecidableEq, Repr

/-- What a request is answered with. -/
abbrev Request.Reply : Request → Type
  | .read _ => Except FileError Bytes
  | .write _ _ | .append _ _ | .makeDirs _ | .removeTree _ | .stat _ => Except FileError Unit
  | .print _ _ => Unit
  | .now => Int
  | .env _ | .workDir => String
  | .isTerminal _ => Bool

/-- A program that ends with an `α`. -/
inductive Action (α : Type) : Type where
  | done (a : α)
  | ask (q : Request) (next : q.Reply → Action α)

namespace Action

/-- Goes on after the end of a program. -/
def andThen {α β : Type} : Action α → (α → Action β) → Action β
  | done a, k => k a
  | ask q next, k => ask q fun r => (next r).andThen k

instance : Monad Action where
  pure := done
  bind := andThen

/-- The program that is one request. -/
def request (q : Request) : Action q.Reply := ask q done

def readFile (path : String) : Action (Except FileError Bytes) := request (.read path)

def writeFile (path : String) (content : Bytes) : Action (Except FileError Unit) :=
  request (.write path content)

def print (s : Stream) (content : Bytes) : Action Unit := request (.print s content)

def printText (s : Stream) (text : String) : Action Unit := print s (Bytes.ofString text)

def now : Action Int := request .now

@[simp] theorem andThen_done {α : Type} (x : Action α) : x.andThen done = x := by
  induction x with
  | done a => rfl
  | ask q next ih => simp only [andThen, ih]

theorem andThen_assoc {α β γ : Type} (x : Action α) (f : α → Action β) (g : β → Action γ) :
    (x.andThen f).andThen g = x.andThen fun a => (f a).andThen g := by
  induction x with
  | done a => rfl
  | ask q next ih => simp only [andThen, ih]

end Action

end Sysy.Host
