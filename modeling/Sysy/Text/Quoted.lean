import Sysy.Text.Bytes
import Sysy.Text.Printable

/-!
Quoted text: a byte string between double quotes, on one line and printable. Characters that cannot
be printed are written as escapes, and bytes that belong to no character as two hexadecimal digits.
-/

namespace Sysy.Quoted
open Bytes

/-- The lowest `width` hexadecimal digits of `n`. -/
def hex : (width n : Nat) → List Char
  | 0, _ => []
  | width + 1, n => hex width (n / 16) ++ [hexDigit (n % 16)]

def escapeChar (c : Char) : List Char :=
  if c = '"' then ['\\', '"']
  else if c = '\\' then ['\\', '\\']
  else if isPrintable c then [c]
  else match c.toNat with
    | 7 => ['\\', 'a']
    | 8 => ['\\', 'b']
    | 9 => ['\\', 't']
    | 10 => ['\\', 'n']
    | 11 => ['\\', 'v']
    | 12 => ['\\', 'f']
    | 13 => ['\\', 'r']
    | n =>
      if n < 0x80 then '\\' :: 'x' :: hex 2 n
      else if n < 0x10000 then '\\' :: 'u' :: hex 4 n
      else '\\' :: 'U' :: hex 8 n

def escapeRune : Rune → List Char
  | .char c => escapeChar c
  | .stray b => '\\' :: 'x' :: hex 2 b.toNat

/-- The quoted form of a byte string. -/
def encode (b : Bytes) : String :=
  String.ofList ('"' :: (runes b).flatMap escapeRune ++ ['"'])

/-- The quoted form of a text. -/
def encodeText (s : String) : String := encode (ofString s)

/-- A character between single quotes. -/
def encodeChar (c : Char) : String :=
  String.ofList ('\'' :: (if c = '\'' then ['\\', '\''] else if c = '"' then ['"'] else escapeChar
    c) ++ ['\''])

end Sysy.Quoted
