/-!
Byte strings. Source files need not be UTF-8, so their text, and every text that may quote a piece
of it, is a list of bytes; `runes` reads such a list as UTF-8 and keeps the bytes that belong to no
character.
-/

namespace Sysy

abbrev Bytes := List UInt8

namespace Bytes

/-- The UTF-8 bytes of a text. -/
def ofString (s : String) : Bytes := s.toUTF8.data.toList

/-- One byte, one character: the text of a byte string that is known to be ASCII. -/
def toAscii (b : Bytes) : String := String.ofList (b.map fun x => Char.ofNat x.toNat)

/-- The text of a byte string, when it is UTF-8. -/
def toString? (b : Bytes) : Option String := String.fromUTF8? ⟨b.toArray⟩

/-- The lines of a byte string, that is the parts between newlines; there is always at least one. -/
def lines : Bytes → List Bytes
  | [] => [[]]
  | b :: r =>
    if b = 10 then [] :: lines r
    else match lines r with
      | [] => [[b]]
      | l :: ls => (b :: l) :: ls

/-- Drops every trailing byte that satisfies `p`. -/
def trimRight (p : UInt8 → Bool) (b : Bytes) : Bytes := (b.reverse.dropWhile p).reverse

def hexDigit (n : Nat) : Char := "0123456789abcdef".toList.getD n '0'

/-- Lower-case hexadecimal, two digits a byte. -/
def toHex (b : Bytes) : String :=
  String.ofList (b.flatMap fun x => [hexDigit (x.toNat / 16), hexDigit (x.toNat % 16)])

def hexValue? (c : Char) : Option Nat :=
  if '0' ≤ c ∧ c ≤ '9' then some (c.toNat - 48)
  else if 'a' ≤ c ∧ c ≤ 'f' then some (c.toNat - 87)
  else if 'A' ≤ c ∧ c ≤ 'F' then some (c.toNat - 55)
  else none

def ofHexDigits? : List Char → Option Bytes
  | [] => some []
  | [_] => none
  | a :: b :: r => do
    let x ← hexValue? a
    let y ← hexValue? b
    let rest ← ofHexDigits? r
    return UInt8.ofNat (16 * x + y) :: rest

def ofHex? (s : String) : Option Bytes := ofHexDigits? s.toList

/-- One step of reading UTF-8: a character, or a byte that starts none. -/
inductive Rune where
  | char (c : Char)
  | stray (b : UInt8)
  deriving DecidableEq, Repr

def isContinuation (b : UInt8) : Bool := 0x80 ≤ b && b ≤ 0xBF

/-- A well-formed two-byte sequence. -/
def isPair (b0 b1 : UInt8) : Bool := 0xC2 ≤ b0 && b0 ≤ 0xDF && isContinuation b1

/-- A well-formed three-byte sequence: neither overlong nor a surrogate. -/
def isTriple (b0 b1 b2 : UInt8) : Bool :=
  0xE0 ≤ b0 && b0 ≤ 0xEF && isContinuation b1 && isContinuation b2 &&
    !(b0 == 0xE0 && b1 < 0xA0) && !(b0 == 0xED && 0x9F < b1)

/-- A well-formed four-byte sequence: neither overlong nor beyond U+10FFFF. -/
def isQuad (b0 b1 b2 b3 : UInt8) : Bool :=
  0xF0 ≤ b0 && b0 ≤ 0xF4 && isContinuation b1 && isContinuation b2 && isContinuation b3 &&
    !(b0 == 0xF0 && b1 < 0x90) && !(b0 == 0xF4 && 0x8F < b1)

def low6 (b : UInt8) : Nat := b.toNat % 64

/-- Reads the rune that starts with the byte `b0`, and counts the further bytes it takes. A byte
that is missing reads as zero, which continues nothing. -/
def rune (b0 : UInt8) (r : Bytes) : Rune × Nat :=
  let b1 := r.getD 0 0
  let b2 := r.getD 1 0
  let b3 := r.getD 2 0
  if b0 < 0x80 then (.char (Char.ofNat b0.toNat), 0)
  else if isPair b0 b1 then (.char (Char.ofNat (b0.toNat % 32 * 64 + low6 b1)), 1)
  else if isTriple b0 b1 b2 then
    (.char (Char.ofNat (b0.toNat % 16 * 4096 + low6 b1 * 64 + low6 b2)), 2)
  else if isQuad b0 b1 b2 b3 then
    (.char (Char.ofNat (b0.toNat % 8 * 262144 + low6 b1 * 4096 + low6 b2 * 64 + low6 b3)), 3)
  else (.stray b0, 0)

/-- The runes after `skip` bytes. -/
def runesFrom : (skip : Nat) → Bytes → List Rune
  | _, [] => []
  | skip + 1, _ :: r => runesFrom skip r
  | 0, b :: r => (rune b r).1 :: runesFrom (rune b r).2 r

/-- A byte string read as UTF-8, one rune after the other. -/
def runes (b : Bytes) : List Rune := runesFrom 0 b

/-- The bytes of one character. -/
def ofChar (c : Char) : Bytes := ofString (String.singleton c)

/-- Writes runes back: characters as UTF-8, stray bytes as themselves. -/
def ofRunes (rs : List Rune) : Bytes :=
  rs.flatMap fun
    | .char c => ofChar c
    | .stray b => [b]

/-- A byte string as text, where the replacement character stands for each stray byte. -/
def toText (b : Bytes) : String :=
  String.ofList ((runes b).map fun
    | .char c => c
    | .stray _ => Char.ofNat 0xFFFD)

end Bytes

/-- The bytes of a text literal. -/
instance : Coe String Bytes := ⟨Bytes.ofString⟩

end Sysy
