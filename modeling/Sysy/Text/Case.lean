/-!
Words that are compared without regard to blanks around them or to the case of their letters. The
words themselves are ASCII, so only characters with an ASCII counterpart matter.
-/

namespace Sysy.Text

/-- The characters that count as white space. -/
def isBlank (c : Char) : Bool :=
  let n := c.toNat
  (9 ≤ n && n ≤ 13) || n = 0x20 || n = 0x85 || n = 0xA0 || n =
    0x1680 || (0x2000 ≤ n && n ≤ 0x200A) ||
    n = 0x2028 || n = 0x2029 || n = 0x202F || n = 0x205F || n = 0x3000

/-- A text without the white space at its ends. -/
def trim (s : String) : String :=
  String.ofList ((s.toList.dropWhile isBlank).reverse.dropWhile isBlank).reverse

/-- The small form of a letter if that is ASCII, and the character itself otherwise. Beyond ASCII
these are the dotted capital I and the Kelvin sign. -/
def lowerChar (c : Char) : Char :=
  if c.toNat = 0x130 then 'i' else if c.toNat = 0x212A then 'k' else c.toLower

def lower (s : String) : String := String.ofList (s.toList.map lowerChar)

/-- Two spellings of a character that differ in case fold to one. Beyond ASCII the Kelvin sign is a
`k` and the long s an `s`. -/
def foldChar (c : Char) : Char :=
  if c.toNat = 0x17F then 's' else if c.toNat = 0x212A then 'k' else c.toLower

/-- Whether two texts differ in the case of letters only, where `word` is ASCII. -/
def sameLetters (word s : String) : Bool := word.toList.map foldChar == s.toList.map foldChar

end Sysy.Text
