/-!
Colours on a terminal. A painted text stands between an escape sequence that turns a colour on and
one that turns it off again.
-/

namespace Sysy

/-- A colour, and whether letters are bold. -/
structure Paint where
  colour : Nat
  isBold : Bool
  deriving DecidableEq, Repr

namespace Paint

def red : Paint := ⟨31, true⟩
def green : Paint := ⟨32, true⟩
def yellow : Paint := ⟨33, true⟩
def blue : Paint := ⟨34, true⟩
def cyan : Paint := ⟨36, false⟩

def escape (codes : String) : String := "\x1b[" ++ codes ++ "m"

/-- Paints a text if painting is `on`. -/
def apply (p : Paint) (on : Bool) (s : String) : String :=
  if on then
    if p.isBold then escape s!"{p.colour};1" ++ s ++ escape "0;22"
    else escape (toString p.colour) ++ s ++ escape "0"
  else s

end Paint

end Sysy
