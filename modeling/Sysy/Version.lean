import Sysy.Json
import Sysy.Text.Paint
import Sysy.Text.Case

/-!
The version of the program, and what it tells about itself.
-/

namespace Sysy

structure Version where
  version : String := "0.1.0-dev"
  /-- Where the program was built from, and when; may be empty. -/
  commit : String := ""
  date : String := ""
  deriving DecidableEq, Repr

namespace Version

/-- The version of this program. -/
def current : Version := {}

def target : String := "riscv32-unknown-elf"

/-- The parts of a text between dots: at most `count` of them, so that the last one may hold
dots. -/
def dotParts : (count : Nat) → List Char → List (List Char)
  | 0, _ => []
  | 1, s => [s]
  | count + 2, s =>
    match s.dropWhile (· ≠ '.') with
    | [] => [s]
    | _ :: r => s.takeWhile (· ≠ '.') :: dotParts (count + 1) r

/-- The version with each of its three numbers in a colour of its own. What follows a dash is left
as it is. -/
def painted (v : Version) (colour : Bool) : String :=
  let core := v.version.toList.takeWhile (· ≠ '-')
  let suffix := v.version.toList.dropWhile (· ≠ '-')
  let parts := (dotParts 3 core).zip [Paint.yellow, Paint.green, Paint.blue]
  String.intercalate "." (parts.map fun (s, p) => p.apply colour (String.ofList s)) ++
    String.ofList suffix

def orUnknown (s : String) : String := if Text.trim s = "" then "unknown" else s

/-- The version for people. -/
def report (v : Version) (full colour : Bool) : String :=
  "kira " ++ v.painted colour ++ " (" ++ target ++ ")\n" ++
    if full then "commit: " ++ orUnknown v.commit ++ "\nbuilt:  " ++ orUnknown v.date ++
      "\n" else ""

/-- The version as a document. -/
def document (v : Version) (full : Bool) : String :=
  (Json.obj ([("tool", .text "kira"), ("version", .text v.version), ("target", .text target)] ++
    if full then [("git_commit", .text (orUnknown v.commit)),
      ("build_date", .text (orUnknown v.date))]
    else [])).pretty

end Version

end Sysy
