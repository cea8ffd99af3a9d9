import Sysy.Text.Cluster
import Sysy.Text.Column

/-!
The width of texts on a terminal, in columns: wide characters take two, characters that are drawn
onto the one before them none, and all others one. A cluster is as wide as one of its characters.
-/

namespace Sysy.Text

/-- Characters that take no column. -/
def zeroWidth : Array (Nat × Nat) := #[
  (0x0, 0x1F), (0x7F, 0x9F), (0xAD, 0xAD), (0x300, 0x36F), (0x483, 0x489), (0x70F, 0x70F),
  (0x7EB, 0x7F3), (0xC00, 0xC00), (0xC04, 0xC04), (0xCF3, 0xCF3), (0xD00, 0xD01), (0x135D, 0x135F),
  (0x180B, 0x180F), (0x1A7F, 0x1A7F), (0x1AB0, 0x1ACE), (0x1B6B, 0x1B73), (0x1DC0, 0x1DFF),
  (0x200B, 0x200F), (0x2028, 0x202E), (0x206A, 0x206F), (0x20D0, 0x20F0), (0x2CEF, 0x2CF1),
  (0x2DE0, 0x2DFF), (0x3099, 0x309A), (0xA66F, 0xA672), (0xA674, 0xA67D), (0xA69E, 0xA69F),
  (0xA6F0, 0xA6F1), (0xA8E0, 0xA8F1), (0xFE00, 0xFE0F), (0xFE20, 0xFE2F), (0xFEFF, 0xFEFF),
  (0xFFF9, 0xFFFB), (0xFFFE, 0xFFFF), (0x101FD, 0x101FD), (0x10376, 0x1037A), (0x10EAB, 0x10EAC),
  (0x10F46, 0x10F50), (0x10F82, 0x10F85), (0x11300, 0x11301), (0x1133B, 0x1133C),
  (0x11366, 0x1136C), (0x11370, 0x11374), (0x16AF0, 0x16AF4), (0x1CF00, 0x1CF2D),
  (0x1CF30, 0x1CF46), (0x1D165, 0x1D169), (0x1D16D, 0x1D172), (0x1D17B, 0x1D182),
  (0x1D185, 0x1D18B), (0x1D1AA, 0x1D1AD), (0x1D242, 0x1D244), (0x1E000, 0x1E006),
  (0x1E008, 0x1E018), (0x1E01B, 0x1E021), (0x1E023, 0x1E024), (0x1E026, 0x1E02A),
  (0x1E08F, 0x1E08F), (0x1E8D0, 0x1E8D6), (0xE0100, 0xE01EF)]

/-- Characters that take two columns. -/
def wide : Array (Nat × Nat) := #[
  (0x1100, 0x115F), (0x231A, 0x231B), (0x2329, 0x232A), (0x23E9, 0x23EC), (0x23F0, 0x23F0),
  (0x23F3, 0x23F3), (0x25FD, 0x25FE), (0x2614, 0x2615), (0x2648, 0x2653), (0x267F, 0x267F),
  (0x2693, 0x2693), (0x26A1, 0x26A1), (0x26AA, 0x26AB), (0x26BD, 0x26BE), (0x26C4, 0x26C5),
  (0x26CE, 0x26CE), (0x26D4, 0x26D4), (0x26EA, 0x26EA), (0x26F2, 0x26F3), (0x26F5, 0x26F5),
  (0x26FA, 0x26FA), (0x26FD, 0x26FD), (0x2705, 0x2705), (0x270A, 0x270B), (0x2728, 0x2728),
  (0x274C, 0x274C), (0x274E, 0x274E), (0x2753, 0x2755), (0x2757, 0x2757), (0x2795, 0x2797),
  (0x27B0, 0x27B0), (0x27BF, 0x27BF), (0x2B1B, 0x2B1C), (0x2B50, 0x2B50), (0x2B55, 0x2B55),
  (0x2E80, 0x2E99), (0x2E9B, 0x2EF3), (0x2F00, 0x2FD5), (0x2FF0, 0x303E), (0x3041, 0x3096),
  (0x3099, 0x30FF), (0x3105, 0x312F), (0x3131, 0x318E), (0x3190, 0x31E3), (0x31EF, 0x321E),
  (0x3220, 0x3247), (0x3250, 0x4DBF), (0x4E00, 0xA48C), (0xA490, 0xA4C6), (0xA960, 0xA97C),
  (0xAC00, 0xD7A3), (0xF900, 0xFAFF), (0xFE10, 0xFE19), (0xFE30, 0xFE52), (0xFE54, 0xFE66),
  (0xFE68, 0xFE6B), (0xFF01, 0xFF60), (0xFFE0, 0xFFE6), (0x16FE0, 0x16FE4), (0x16FF0, 0x16FF1),
  (0x17000, 0x187F7), (0x18800, 0x18CD5), (0x18D00, 0x18D08), (0x1AFF0, 0x1AFF3),
  (0x1AFF5, 0x1AFFB), (0x1AFFD, 0x1AFFE), (0x1B000, 0x1B122), (0x1B132, 0x1B132),
  (0x1B150, 0x1B152), (0x1B155, 0x1B155), (0x1B164, 0x1B167), (0x1B170, 0x1B2FB),
  (0x1F004, 0x1F004), (0x1F0CF, 0x1F0CF), (0x1F18E, 0x1F18E), (0x1F191, 0x1F19A),
  (0x1F200, 0x1F202), (0x1F210, 0x1F23B), (0x1F240, 0x1F248), (0x1F250, 0x1F251),
  (0x1F260, 0x1F265), (0x1F300, 0x1F320), (0x1F32D, 0x1F335), (0x1F337, 0x1F37C),
  (0x1F37E, 0x1F393), (0x1F3A0, 0x1F3CA), (0x1F3CF, 0x1F3D3), (0x1F3E0, 0x1F3F0),
  (0x1F3F4, 0x1F3F4), (0x1F3F8, 0x1F43E), (0x1F440, 0x1F440), (0x1F442, 0x1F4FC),
  (0x1F4FF, 0x1F53D), (0x1F54B, 0x1F54E), (0x1F550, 0x1F567), (0x1F57A, 0x1F57A),
  (0x1F595, 0x1F596), (0x1F5A4, 0x1F5A4), (0x1F5FB, 0x1F64F), (0x1F680, 0x1F6C5),
  (0x1F6CC, 0x1F6CC), (0x1F6D0, 0x1F6D2), (0x1F6D5, 0x1F6D7), (0x1F6DC, 0x1F6DF),
  (0x1F6EB, 0x1F6EC), (0x1F6F4, 0x1F6FC), (0x1F7E0, 0x1F7EB), (0x1F7F0, 0x1F7F0),
  (0x1F90C, 0x1F93A), (0x1F93C, 0x1F945), (0x1F947, 0x1F9FF), (0x1FA70, 0x1FA7C),
  (0x1FA80, 0x1FA88), (0x1FA90, 0x1FABD), (0x1FABF, 0x1FAC5), (0x1FACE, 0x1FADB),
  (0x1FAE0, 0x1FAE8), (0x1FAF0, 0x1FAF8), (0x20000, 0x2FFFD), (0x30000, 0x3FFFD)]

def charWidth (c : Char) : Nat :=
  if Ranges.mem zeroWidth c.toNat then 0 else if Ranges.mem wide c.toNat then 2 else 1

/-- The columns of a cluster: those of the first of its characters that takes any. -/
def clusterWidth (cluster : List Char) : Nat := ((cluster.map charWidth).find? (0 < ·)).getD 0

/-- The columns that a text takes. -/
def width (s : List Char) : Nat :=
  (clusters s).foldl (fun sum cluster => sum + clusterWidth cluster) 0

/-- As many clusters as fit into a number of columns. -/
def fitting : (columns : Nat) → List (List Char) → List Char
  | _, [] => []
  | columns, cluster :: r =>
    if clusterWidth cluster ≤ columns then cluster ++ fitting
      (columns - clusterWidth cluster) r else []

/-- A text cut to a number of columns, with three dots at its end if there is room for them. A
number that is not positive cuts nothing. -/
def truncate (s : String) (columns : Int) : String :=
  if columns ≤ 0 ∨ (width s.toList : Int) ≤ columns then s
  else if columns ≤ 3 then String.ofList (fitting columns.toNat (clusters s.toList))
  else String.ofList (fitting (columns - 3).toNat (clusters s.toList)) ++ "..."

/-- Wide pictures that are drawn as text, in one column of an aligned line. -/
def textPictures : Array (Nat × Nat) := #[
  (0x3030, 0x3030), (0x303D, 0x303D), (0x3297, 0x3297), (0x3299, 0x3299), (0x1F202, 0x1F202),
  (0x1F237, 0x1F237), (0x1F260, 0x1F265)]

/-- The columns of a character in a line that is aligned with others. -/
def alignedCharWidth (c : Char) : Nat :=
  let n := c.toNat
  match Edge.ofChar c with
  | .carriageReturn | .lineFeed | .control | .mark | .joiner => 0
  | .regional => 2
  | .picture => if Ranges.mem wide n && !Ranges.mem textPictures n then 2 else 1
  | _ => if n = 0x2E3A then 3 else if n = 0x2E3B then 4 else if Ranges.mem wide n then 2 else 1

/-- The columns of a cluster in such a line. A picture may be asked to be drawn as text or as a
picture, flags and syllables are as wide as their first letter, and all others as wide as their
characters together. -/
def alignedClusterWidth : List Char → Nat
  | [] => 0
  | c :: r =>
    match Edge.ofChar c with
    | .picture =>
      r.foldl (fun w x => if x.toNat = 0xFE0E then 1 else if x.toNat = 0xFE0F then 2 else w)
        (alignedCharWidth c)
    | .regional | .leadingConsonant => alignedCharWidth c
    | _ => r.foldl (fun w x => w + alignedCharWidth x) (alignedCharWidth c)

def alignedWidth (s : List Char) : Nat :=
  (clusters s).foldl (fun sum cluster => sum + alignedClusterWidth cluster) 0

/-- The lines of a text as a block: tabs are four blanks, and if there are several lines they are
made equally wide. -/
def block (s : String) : String :=
  let lines := ((s.replace "\t" "    ").replace "\r\n" "\n").splitOn "\n"
  match lines with
  | [line] => line
  | lines =>
    let widest := (lines.map fun l => alignedWidth l.toList).foldl max 0
    String.intercalate "\n" (lines.map fun l => l ++ copies (widest - alignedWidth l.toList) " ")

end Sysy.Text
