/-!
Texts that fill a column, and texts repeated.
-/

namespace Sysy.Text

/-- A text written `n` times. -/
def copies (n : Nat) (s : String) : String := String.join (List.replicate n s)

/-- Blanks in front of a text, so that it has at least `width` characters. -/
def padLeft (width : Nat) (s : String) : String := copies (width - s.length) " " ++ s

/-- Blanks behind a text, so that it has at least `width` characters. -/
def padRight (width : Nat) (s : String) : String := s ++ copies (width - s.length) " "

end Sysy.Text
