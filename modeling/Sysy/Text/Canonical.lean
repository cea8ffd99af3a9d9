import Sysy.Text.Bytes
import Sysy.Text.CanonicalData
import Sysy.Text.Ranges

/-!
The composed normal form of text. A text falls into segments, each a rune and the marks that
continue it. Segments that are in composed form at first sight stay; the others are decomposed,
their marks are put in order of their classes, and pairs are composed again. Bytes that belong to no
character stay, and no mark combines with them. Runs of more than thirty marks are broken by a
grapheme joiner.
-/

namespace Sysy.Canonical
open Bytes

/-- The combining class of a character: zero for those that do not attach to another. -/
def combiningClass (n : Nat) : Nat := (Ranges.get? classRanges n).getD 0

/-- Whether a character may compose with one before it. -/
def composesBackward (n : Nat) : Bool := Ranges.mem attaching n

/-- Characters that count in a run of marks. -/
def isMark (n : Nat) : Bool := combiningClass n ≠ 0 || composesBackward n

/-- The one other character that a character stands for. -/
def singleton? (n : Nat) : Option Nat :=
  match Ranges.search singletons fun (start, targets) =>
    Ranges.sideOf n start (start + targets.size - 1) with
  | some (start, targets) => targets[n - start]?
  | none => none

/-- Whether a character never stays: its decomposition is not composed to it again. -/
def isOneWay (n : Nat) : Bool := (singleton? n).isSome || neverComposed.contains n

/-- The full decomposition of a character; no chain is longer than `depth`. -/
def decompose : (depth n : Nat) → List Nat
  | 0, n => [n]
  | depth + 1, n =>
    if 0xAC00 ≤ n ∧ n < 0xAC00 + 11172 then
      let s := n - 0xAC00
      let syllable := [0x1100 + s / 588, 0x1161 + s % 588 / 28]
      if s % 28 = 0 then syllable else syllable ++ [0x11A7 + s % 28]
    else match Ranges.search composites fun (c, _, _) => compare c n with
      | some (_, first, second) => decompose depth first ++ [second]
      | none =>
        match singleton? n with
        | some target => decompose depth target
        | none => [n]

/-- What decides how a rune joins the text before it. -/
structure Traits where
  cls : Nat := 0
  /-- How many marks it adds to the run before it; a rune that adds none starts a segment. -/
  leading : Nat := 0
  /-- With how many marks it ends. -/
  trailing : Nat := 0
  /-- Whether it stays as it is after any text in which the classes do not fall. -/
  isSettled : Bool := true
  deriving DecidableEq, Repr

namespace Traits

/-- The traits of a character. Marks are counted as in compatible text, so that the places where
runs are broken are the same in every normal form. -/
def ofNat (n : Nat) : Traits :=
  if n < 0xA8 then {}
  else if Ranges.mem compatibleMarks n then { leading := 1, trailing := 1 }
  else
    let parts := decompose 4 n
    { cls := combiningClass n
      leading := (parts.takeWhile isMark).length
      trailing := (Ranges.get? compatibleTails n).getD (parts.reverse.takeWhile isMark).length
      isSettled := !isOneWay n && !composesBackward n }

def ofRune : Rune → Traits
  | .char c => ofNat c.toNat
  | .stray _ => {}

/-- The length of the run of marks after a rune, where the run before it has length `run`. -/
def runAfter (t : Traits) (run : Nat) : Nat := if t.leading = 0 then t.trailing else run + t.leading

end Traits

def longestRun : Nat := 30

/-- How many runes at the front stay as they are: all, or those before the first segment that is in
doubt. `seen` runes have been read; the last segment among them starts at `start`, ends with a run
of `run` marks, and the last of these has the class `cls`. -/
def settledLength : (seen start run cls : Nat) → List Rune → Nat
  | seen, _, _, _, [] => seen
  | seen, start, run, cls, r :: rest =>
    let t := Traits.ofRune r
    let start' := if t.leading = 0 then seen else start
    if longestRun < run + t.leading then start
    else if t.leading ≠ 0 ∧ t.cls < cls then start
    else if t.isSettled then settledLength (seen + 1) start' (t.runAfter run) t.cls rest
    else start'

/-- How many runes at the front continue a segment that ends with a run of `run` marks. -/
def continuation : (run : Nat) → List Rune → Nat
  | _, [] => 0
  | run, r :: rest =>
    let t := Traits.ofRune r
    if t.leading = 0 ∨ longestRun < run + t.leading then 0 else continuation
      (t.runAfter run) rest + 1

def ofNumber (n : Nat) : Rune := .char (Char.ofNat n)

/-- What is put between a segment that has run full and the rest of its marks. -/
def joint : List Rune → List Rune
  | [] => []
  | r :: _ => if (Traits.ofRune r).leading = 0 then [] else [ofNumber 0x34F]

def runeClass : Rune → Nat
  | .char c => combiningClass c.toNat
  | .stray _ => 0

/-- Puts a mark behind the last rune of a class that is not higher. The list is in reverse. -/
def insertMark (u : Rune) : List Rune → List Rune
  | [] => [u]
  | v :: r => if runeClass u < runeClass v then v :: insertMark u r else u :: v :: r

/-- The listed character that two others compose to. Pairs are told apart by the low sixteen bits of
their characters. -/
def listedPair? (a b : Nat) : Option Nat :=
  composites.findSome? fun (c, first, second) =>
    if first % 0x10000 = a % 0x10000 ∧ second % 0x10000 = b % 0x10000 ∧
      !neverComposed.contains c then some c
    else none

/-- The syllable that a syllable, or the first consonant of one, and its next sound compose to. -/
def hangulPair? (a b : Nat) : Option Nat :=
  if 0x1100 ≤ a ∧ a < 0x1113 ∧ 0x1161 ≤ b ∧ b < 0x1176 then
    some (0xAC00 + (a - 0x1100) * 588 + (b - 0x1161) * 28)
  else if 0xAC00 ≤ a ∧ a < 0xAC00 + 11172 ∧ (a - 0xAC00) % 28 = 0 ∧ 0x11A7 < b ∧ b < 0x11C3 then
    some (a + (b - 0x11A7))
  else none

/-- A segment of which a part has been composed. -/
structure Composer where
  /-- Runes that nothing can change any more, in reverse. -/
  before : List Rune := []
  /-- The rune that others may attach to. -/
  base : Rune
  /-- The runes after it that did not attach, in reverse. -/
  after : List Rune := []
  /-- Whether the sound of a syllable has been met: from there on only syllables compose. -/
  inHangul : Bool := false

namespace Composer

/-- Takes the last rune as base if it has class zero. -/
def rebase (c : Composer) : Composer :=
  match c.after with
  | [] => c
  | u :: r => if runeClass u = 0 then { c with before := r ++ c.base :: c.before, base := u,
                                               after := [] } else c

/-- Whether a rune after the base keeps `u` from it. -/
def blocks (c : Composer) (u : Rune) : Bool :=
  match c.after with
  | [] => false
  | v :: _ => runeClass u ≤ runeClass v

/-- Composes the base and a character, or keeps the character after it. -/
def attach (pair? : Nat → Nat → Option Nat) (c : Composer) (u : Char) : Composer :=
  let c := c.rebase
  match c.base with
  | .stray _ => { c with after := .char u :: c.after }
  | .char base =>
    match if c.blocks (.char u) then none else pair? base.toNat u.toNat with
    | some composed => { c with base := ofNumber composed }
    | none => { c with after := .char u :: c.after }

/-- Takes the next rune of a segment. One that can compose with nothing before it is kept and leaves
the base where it is. -/
def push (c : Composer) : Rune → Composer
  | .stray b => { c with after := .stray b :: c.after }
  | .char u =>
    if c.inHangul || (0x1100 ≤ u.toNat && u.toNat < 0x1200) then
      { c with inHangul := true }.attach hangulPair? u
    else if composesBackward u.toNat then c.attach listedPair? u
    else { c with after := .char u :: c.after }

/-- All runes, in reverse. -/
def runes (c : Composer) : List Rune := c.after ++ c.base :: c.before

end Composer

/-- Composes what can be composed in a segment whose marks are in order. -/
def compose : List Rune → List Rune
  | [] => []
  | r :: rest => (rest.foldl Composer.push { base := r }).runes.reverse

/-- A segment that is being decomposed. -/
structure Segment where
  /-- Composed runes. -/
  done : List Rune := []
  /-- Decomposed runes with their marks in order, in reverse. -/
  parts : List Rune := []

namespace Segment

def flush (s : Segment) : Segment := { done := s.done ++ compose s.parts.reverse }

/-- Adds one part and keeps the marks in order. -/
def insert (s : Segment) (u : Rune) : Segment :=
  { s with parts := if runeClass u = 0 then u :: s.parts else insertMark u s.parts }

/-- Adds a rune. A part of it, other than the first, that is no mark starts anew. -/
def add (s : Segment) : Rune → Segment
  | .stray b => s.insert (.stray b)
  | .char c =>
    match decompose 4 c.toNat with
    | [] => s
    | first :: rest =>
      rest.foldl (fun s n => (if isMark n then s else s.flush).insert (ofNumber n))
        (s.insert (ofNumber first))

/-- The composed form of the runes of one segment. -/
def composed (rs : List Rune) : List Rune := (rs.foldl add {}).flush.done

end Segment

theorem length_drop_lt {rs rest : List Rune} {r : Rune} {n : Nat} (h : rs.drop n = r :: rest)
    (size : Nat) :
    (rest.drop size).length < rs.length := by
  have := congrArg List.length h
  rw [List.length_drop, List.length_cons] at this
  rw [List.length_drop]
  omega

/-- The composed form of a text, written behind `done`. -/
def composeFrom (done : Array Rune) (rs : List Rune) : Array Rune :=
  let settled := settledLength 0 0 0 0 rs
  match _split : rs.drop settled with
  | [] => done ++ rs
  | r :: rest =>
    let size := continuation ((Traits.ofRune r).runAfter 0) rest
    let segment := r :: rest.take size ++ joint (rest.drop size)
    composeFrom (done ++ rs.take settled ++ Segment.composed segment) (rest.drop size)
termination_by rs.length
decreasing_by exact length_drop_lt _split _

/-- How many bytes a character with this first byte has; one for a byte that starts none. -/
def announcedSize (b : UInt8) : Nat :=
  if b < 0xC2 then 1 else if b < 0xE0 then 2 else if b < 0xF0 then 3 else if b < 0xF8 then 4 else 1

/-- The length of the end of a text from the first byte on that announces more than is left. -/
def cutLength : Bytes → Nat
  | [] => 0
  | b :: r => if r.length + 1 < announcedSize b then r.length + 1 else cutLength r

/-- The composed normal form of a byte string. A character that is cut short stays as it is, with
all bytes after it; such an end has at most three bytes. -/
def normalize (b : Bytes) : Bytes :=
  if b.all (· < 0x80) then b
  else
    let size := b.length - cutLength (b.drop (b.length - 3))
    ofRunes (composeFrom #[] (runes (b.take size))).toList ++ b.drop size

end Sysy.Canonical
