import Sysy.Cache.Packed
import Sysy.Emit
import Sysy.Frame
import Sysy.Host.Action
import Sysy.Path
import Sysy.Version

/-!
The cache of outputs. An entry is found by a key that is the digest of all that the output depends
on: the version of the program, what is produced, the machine, and the source.
-/

namespace Sysy.Cache
open Host

/-- The layout of entries that this program reads and writes. -/
def schemaNumber : Nat := 1

structure Entry where
  schema : Nat := 0
  version : Bytes := []
  emit : Bytes := []
  triple : Bytes := []
  path : Bytes := []
  output : Bytes := []
  /-- When the entry was made, in nanoseconds since the start of 1970. -/
  created : Int := 0
  deriving DecidableEq, Repr

namespace Entry

/-- An entry as it is kept. -/
def encode (e : Entry) : Bytes :=
  let name (s : String) := Packed.text (Bytes.ofString s)
  0x87 :: name "Schema" ++ Packed.word16 e.schema ++ name "Version" ++ Packed.text e.version ++
    name "Emit" ++ Packed.text e.emit ++ name "Triple" ++ Packed.text e.triple ++
    name "Path" ++ Packed.text e.path ++ name "Output" ++ Packed.text e.output ++
    name "Created" ++ Packed.int64 e.created

open Packed Packed.Reader

/-- Reads the value of one field; of a field that is not known, it reads past the value. -/
def readField (e : Entry) (name : String) : Reader Entry := do
  match name with
  | "Schema" => return { e with schema := ((← integer "uint64").emod 65536).toNat }
  | "Version" => return { e with version := ← text }
  | "Emit" => return { e with emit := ← text }
  | "Triple" => return { e with triple := ← text }
  | "Path" => return { e with path := ← text }
  | "Output" => return { e with output := ← text }
  | "Created" => return { e with created := Int.bmod (← integer "int64") 0x10000000000000000 }
  | _ =>
    skipNext
    return e

def fieldNames : List String := ["Schema", "Version", "Emit", "Triple", "Path", "Output", "Created"]

def readFields : (count : Nat) → Entry → Reader Entry
  | 0, e => return e
  | count + 1, e => do
    let name ← text
    readFields count (← e.readField ((Bytes.toString? name).getD ""))

def read : Reader Entry := do
  match ← form with
  | .nothing | .values 0 => return {}
  | .fields n => readFields n {}
  | .values n => if n = fieldNames.length then fieldNames.foldlM readField {} else throw .badCount

/-- The entry at the front of some bytes. -/
def decode (b : Bytes) : Except Packed.Error Entry :=
  match read b with
  | .ok (e, _) => .ok e
  | .error e => .error e

end Entry

/-- The key for an output. -/
def key (content : Bytes) (emit : Emit) (triple : String) : Bytes :=
  let part (s : String) := Bytes.ofString s ++ [0]
  Digest.digest (part Version.current.version ++ part emit.name ++ part triple ++ content)

/-- The directory of the entries of a cache. -/
def entryDir (dir : String) : String := Path.join [dir, "out"]

def entryPath (dir : String) (key : Bytes) : String :=
  Path.join [entryDir dir, Bytes.toHex key ++ ".mp"]

/-- The result of looking for an entry. -/
inductive Lookup where
  | missing
  | unreadable (reason : String)
  /-- There is an entry, perhaps one of another layout. -/
  | found (e : Entry)

namespace Lookup

/-- The entry, if it can be used. -/
def hit? : Lookup → Option Entry
  | found e => if e.schema = schemaNumber then some e else none
  | _ => none

end Lookup

/-- Looks for an entry. -/
def lookUp (dir : String) (key : Bytes) : Action Lookup := do
  match ← Action.readFile (entryPath dir key) with
  | .error e => return if e.fault = .missing then .missing else .unreadable e.message
  | .ok b =>
    match Entry.decode b with
    | .ok e => return .found e
    | .error e =>
      return .unreadable ("cache entry " ++ Bytes.toHex (key.take 4) ++ ": " ++ e.message)

/-- Keeps an entry in this program's layout. -/
def store (dir : String) (key : Bytes) (e : Entry) : Action (Except FileError Unit) := do
  match ← Action.request (.makeDirs (entryDir dir)) with
  | .error e => return .error e
  | .ok () => Action.writeFile (entryPath dir key) { e with schema := schemaNumber }.encode

/-- Removes all entries. -/
def dropAll (dir : String) : Action (Except FileError Unit) := do
  match ← Action.request (.removeTree dir) with
  | .error e => return if e.fault = .missing then .ok () else .error e
  | .ok () => return .ok ()

end Sysy.Cache
