import Sysy.Text.Case
import Sysy.Text.Quoted

/-!
Whether a build shows its progress.
-/

namespace Sysy.Progress

inductive Mode where
  /-- On a terminal only. -/
  | auto
  | on | off
  deriving DecidableEq, Repr

namespace Mode

def name : Mode → String
  | auto => "auto"
  | on => "on"
  | off => "off"

def all : List Mode := [auto, on, off]

/-- Reads a mode; nothing means `auto`. -/
def read (s : String) : Except String Mode :=
  let t := Text.trim (Text.lower s)
  if t = "" then .ok auto
  else match all.find? (·.name == t) with
    | some m => .ok m
    | none => .error ("invalid --ui value " ++ Quoted.encodeText s ++ " (expected auto|on|off)")

/-- Whether the view is shown. A quiet build never shows it. -/
def shows (m : Mode) (quiet isTerminal : Bool) : Bool :=
  !quiet && match m with
    | auto => isTerminal
    | on => true
    | off => false

end Mode

end Sysy.Progress
