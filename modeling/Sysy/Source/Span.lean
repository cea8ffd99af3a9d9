/-!
Spans of bytes in numbered files, and the line and column of a place. Offsets are 32-bit numbers:
lengths and columns are taken modulo 2^32, and a line whose number does not fit has no place.
-/

namespace Sysy

/-- The bytes `start ≤ i < stop` of one file. -/
structure Span where
  file : Nat := 0
  start : Nat := 0
  stop : Nat := 0
  deriving DecidableEq, Repr, Inhabited

namespace Span

def isEmpty (s : Span) : Bool := s.start == s.stop

/-- The length of a span. A span that ends before it starts wraps around. -/
def length (s : Span) : Nat := (s.stop + 0x100000000 - s.start) % 0x100000000

def text (s : Span) : String := s!"{s.file}:{s.start}-{s.stop}"

/-- The least span that holds both. A span of another file is ignored. -/
def cover (s t : Span) : Span :=
  if s.file = t.file then { s with start := min s.start t.start, stop := max s.stop t.stop } else s

/-- The empty span just behind `s`. -/
def behind (s : Span) : Span := { s with start := s.stop }

end Span

/-- A place in a file for people: both numbers count from one, columns count bytes. -/
structure LineCol where
  line : Nat := 0
  col : Nat := 0
  deriving DecidableEq, Repr, Inhabited

namespace LineCol

/-- The place at offset `off`, given the increasing offsets of all newlines. -/
def ofOffset (newlines : List Nat) (off : Nat) : Option LineCol :=
  let before := newlines.takeWhile (· < off)
  let lineStart := match before.getLast? with
    | some n => n + 1
    | none => 0
  if before.length + 1 < 0x100000000 then
    some { line := before.length + 1, col := (off - lineStart + 1) % 0x100000000 }
  else none

end LineCol

end Sysy
