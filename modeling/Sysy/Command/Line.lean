import Sysy.Command.Options
import Sysy.Text.Case

/-!
Command lines: which command is meant, with which options and words.
-/

namespace Sysy.Command

inductive UsageError where
  | flag (e : FlagError)
  | count (reason : String)
  /-- A word that is no command, with commands that may be meant. -/
  | unknownCommand (word : String) (similar : List String)
  deriving DecidableEq, Repr

namespace UsageError

def message : UsageError → String
  | flag e => e.message
  | count reason => reason
  | unknownCommand word similar =>
    "unknown command " ++ Quoted.encodeText word ++ " for \"kira\"" ++
      if similar = [] then ""
      else "\n\nDid you mean this?\n" ++ String.join (similar.map fun s => "\t" ++ s ++ "\n")

end UsageError

/-- One row of the table of edit distances: `above` is the row above it, `diagonal` its first entry,
and `left` the last entry of the new row. -/
def distanceRow (x : UInt8) :
    (t : Bytes) → (diagonal : Nat) → (above : List Nat) → (left : Nat) → List Nat
  | y :: t, diagonal, up :: above, left =>
    let d := if x = y then diagonal else min (min up left) diagonal + 1
    d :: distanceRow x t up above d
  | _, _, _, _ => []

/-- The rows of the table, one for each byte of the first text. -/
def distanceRows (t : Bytes) : Bytes → List Nat → List Nat
  | [], row => row
  | x :: s, row =>
    let first := row.headD 0
    distanceRows t s ((first + 1) :: distanceRow x t first row.tail (first + 1))

/-- How many bytes have to be added, dropped or changed to get from one text to another. -/
def editDistance (s t : Bytes) : Nat := (distanceRows t s (List.range (t.length + 1))).getLastD 0

/-- The words that are close to a word, or go on from it. -/
def similarTo (word : String) (names : List String) : List String :=
  let w := Text.lower word
  names.filter fun n =>
    editDistance (Bytes.ofString w) (Bytes.ofString n) ≤ 2 || w.toList.isPrefixOf n.toList

/-- A command with its options and words. -/
structure Call where
  command : Command
  options : Options
  args : List String
  deriving DecidableEq, Repr

/-- What a command line asks for. -/
inductive Demand where
  | call (c : Call)
  /-- The version of the program, in short. -/
  | version
  | help
  deriving DecidableEq, Repr

/-- Words that ask for help in place of a command. -/
def helpWords : List String := ["help", "completion"]

/-- Reads the words for a command. -/
def readCall (c : Command) (words : List String) : Except UsageError Demand :=
  match Flag.readWords c.flags words {} with
  | .error .help => .ok .help
  | .error e => .error (.flag e)
  | .ok (o, args) =>
    if o.help then .ok .help
    else match c.countFault? args.length with
      | some reason => .error (.count reason)
      | none => .ok (.call { command := c, options := o, args })

/-- Reads words without a command. -/
def readBare (words : List String) : Except UsageError Demand :=
  match Flag.readWords (Options.globalFlags ++ [Options.helpFlag, Options.versionFlag])
    words {} with
  | .error .help => .ok .help
  | .error e => .error (.flag e)
  | .ok (o, _) => .ok (if o.version ∧ ¬o.help then .version else .help)

/-- Reads a command line. The first word that is neither a flag nor the value of one is the
command. -/
def readLine (words : List String) : Except UsageError Demand :=
  match Flag.firstPlain? Options.globalFlags words with
  | none => readBare words
  | some (word, rest) =>
    match ofName? word with
    | some c => readCall c rest
    | none =>
      if word ∈ helpWords then .ok .help
      else .error (.unknownCommand word (similarTo word (all.map name ++ ["completion"])))

end Sysy.Command
