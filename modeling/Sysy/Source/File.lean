import Sysy.Path
import Sysy.Source.Span
import Sysy.Text.Canonical

/-!
Source files and the numbered set of them that spans refer to.
-/

namespace Sysy

/-- How the content of a file came about. -/
structure FileFlags where
  /-- The content was given in memory. -/
  isVirtual : Bool := false
  /-- A byte order mark was dropped. -/
  hadMark : Bool := false
  /-- Line ends of two bytes were replaced by newlines. -/
  hadReturns : Bool := false
  /-- The text was brought into composed normal form. -/
  wasNormalized : Bool := false
  deriving DecidableEq, Repr, Inhabited

namespace FileFlags

def bits (f : FileFlags) : Nat :=
  f.isVirtual.toNat + 2 * f.hadMark.toNat + 4 * f.hadReturns.toNat + 8 * f.wasNormalized.toNat

end FileFlags

structure SourceFile where
  id : Nat
  path : String
  content : Bytes
  flags : FileFlags
  deriving DecidableEq, Repr

namespace SourceFile

/-- The offsets of the newlines in a text that starts at `off`. -/
def newlinesFrom : (off : Nat) → Bytes → List Nat
  | _, [] => []
  | off, b :: r => if b = 10 then off :: newlinesFrom (off + 1) r else newlinesFrom (off + 1) r

def newlines (f : SourceFile) : List Nat := newlinesFrom 0 f.content

/-- Drops a byte order mark at the start. -/
def dropMark : Bytes → Bytes × Bool
  | 0xEF :: 0xBB :: 0xBF :: r => (r, true)
  | b => (b, false)

/-- Replaces each line end of two bytes by a newline. -/
def dropReturns : Bytes → Bytes
  | 13 :: 10 :: r => 10 :: dropReturns r
  | b :: r => b :: dropReturns r
  | [] => []

/-- The content of a file as it is kept, for the bytes found on disk. -/
def clean (raw : Bytes) : Bytes × FileFlags :=
  let (unmarked, hadMark) := dropMark raw
  let unified := dropReturns unmarked
  let normal := Canonical.normalize unified
  (normal, { hadMark, hadReturns := unified ≠ unmarked, wasNormalized := normal ≠ unified })

/-- A text that is not on disk. It is kept as it is. -/
def ofText (id : Nat) (name : String) (content : Bytes) : SourceFile :=
  { id, path := Path.clean name, content, flags := { isVirtual := true } }

/-- A file with the bytes found on disk. -/
def ofDisk (id : Nat) (path : String) (raw : Bytes) : SourceFile :=
  { id, path := Path.clean path, content := (clean raw).1, flags := (clean raw).2 }

end SourceFile

/-- Files by number, from zero. -/
structure FileSet where
  files : Array SourceFile := #[]

namespace FileSet

/-- The set of one file. -/
def ofFile (f : SourceFile) : FileSet := { files := #[f] }

/-- Adds a text that is not on disk. -/
def addText (s : FileSet) (name : String) (content : Bytes) : FileSet :=
  { files := s.files.push (.ofText s.files.size name content) }

/-- Adds a file with the bytes found on disk. -/
def addDisk (s : FileSet) (path : String) (raw : Bytes) : FileSet :=
  { files := s.files.push (.ofDisk s.files.size path raw) }

def get? (s : FileSet) (id : Nat) : Option SourceFile := s.files[id]?

/-- The places where a span starts and ends; both are zero if there is no such file. -/
def resolve (s : FileSet) (span : Span) : Option (LineCol × LineCol) :=
  match s.get? span.file with
  | none => some ({}, {})
  | some f => do
    let start ← LineCol.ofOffset f.newlines span.start
    let stop ← LineCol.ofOffset f.newlines span.stop
    return (start, stop)

/-- The start of a span as path, line and column. -/
def position (s : FileSet) (span : Span) : Option String :=
  match s.get? span.file with
  | none => some span.text
  | some f => (s.resolve span).map fun (start, _) => s!"{f.path}:{start.line}:{start.col}"

end FileSet

end Sysy
