import Sysy.Text.ClusterData
import Sysy.Text.Ranges

/-!
Clusters: the pieces of a text that a reader takes for one character each, such as a letter with its
marks, a syllable, a flag of two letters, or pictures put together by joiners. Main statement: the
clusters of a text make up the text.
-/

namespace Sysy.Text

/-- What a character does at the edges of a cluster. -/
inductive Edge where
  | plain
  | carriageReturn
  | lineFeed
  | control
  | mark
  | joiner
  | spacingMark
  | opening
  | regional
  | picture
  | leadingConsonant
  | vowel
  | trailingConsonant
  | openSyllable
  | closedSyllable
  deriving DecidableEq, Repr

namespace Edge

def ofChar (c : Char) : Edge :=
  let n := c.toNat
  if n = 0xD then .carriageReturn
  else if n = 0xA then .lineFeed
  else if n = 0x200D then .joiner
  else if Ranges.mem controls n then .control
  else if n < 0x7F then .plain
  else if Ranges.mem clusterMarks n then .mark
  else if Ranges.mem spacingMarks n then .spacingMark
  else if Ranges.mem openings n then .opening
  else if Ranges.mem pictures n then .picture
  else if 0x1F1E6 ≤ n ∧ n ≤ 0x1F1FF then .regional
  else if (0x1100 ≤ n ∧ n ≤ 0x115F) ∨ (0xA960 ≤ n ∧ n ≤ 0xA97C) then .leadingConsonant
  else if (0x1160 ≤ n ∧ n ≤ 0x11A7) ∨ (0xD7B0 ≤ n ∧ n ≤ 0xD7C6) then .vowel
  else if (0x11A8 ≤ n ∧ n ≤ 0x11FF) ∨ (0xD7CB ≤ n ∧ n ≤ 0xD7FB) then .trailingConsonant
  else if 0xAC00 ≤ n ∧ n ≤ 0xD7A3 then if (n - 0xAC00) % 28 = 0 then .openSyllable
    else .closedSyllable
  else .plain

end Edge

/-- The end of a cluster that may go on. -/
structure OpenCluster where
  last : Edge
  /-- Whether it ends with a picture, marks on it, and perhaps a joiner. -/
  isPicture : Bool
  /-- Whether it ends with a flag that is complete. -/
  isFlag : Bool := false

namespace OpenCluster

def start (e : Edge) : OpenCluster := { last := e, isPicture := e = .picture }

/-- Whether a character with the edge `e` belongs to the cluster. -/
def joins (o : OpenCluster) (e : Edge) : Bool :=
  match o.last, e with
  | .carriageReturn, .lineFeed => true
  | .carriageReturn, _ | .lineFeed, _ | .control, _ => false
  | _, .carriageReturn | _, .lineFeed | _, .control => false
  | _, .mark | _, .joiner | _, .spacingMark => true
  | .opening, _ => true
  | .leadingConsonant, .leadingConsonant | .leadingConsonant, .vowel => true
  | .leadingConsonant, .openSyllable | .leadingConsonant, .closedSyllable => true
  | .openSyllable, .vowel | .openSyllable, .trailingConsonant => true
  | .vowel, .vowel | .vowel, .trailingConsonant => true
  | .closedSyllable, .trailingConsonant | .trailingConsonant, .trailingConsonant => true
  | .joiner, .picture => o.isPicture
  | .regional, .regional => !o.isFlag
  | _, _ => false

def push (o : OpenCluster) (e : Edge) : OpenCluster :=
  { last := e
    isPicture := e = .picture || (o.isPicture && o.last ≠ .joiner && (e = .mark || e = .joiner))
    isFlag := o.last = .regional && e = .regional }

end OpenCluster

/-- Puts a character in front of the first of some pieces. -/
def consFirst (c : Char) : List (List Char) → List (List Char)
  | [] => [[c]]
  | piece :: rest => (c :: piece) :: rest

/-- The pieces of a text that follows an open cluster. The first one goes on with that cluster and
may be empty. -/
def clustersAfter (o : OpenCluster) : List Char → List (List Char)
  | [] => [[]]
  | c :: r =>
    let e := Edge.ofChar c
    if o.joins e then consFirst c (clustersAfter (o.push e) r)
    else [] :: consFirst c (clustersAfter (.start e) r)

def clusters : List Char → List (List Char)
  | [] => []
  | c :: r => consFirst c (clustersAfter (.start (.ofChar c)) r)

theorem flatten_consFirst (c : Char) (pieces : List (List Char)) :
    (consFirst c pieces).flatten = c :: pieces.flatten := by
  cases pieces <;> rfl

theorem flatten_clustersAfter (o : OpenCluster) (s : List Char) :
    (clustersAfter o s).flatten = s := by
  induction s generalizing o with
  | nil => rfl
  | cons c r ih =>
    rw [clustersAfter]
    split
    · rw [flatten_consFirst, ih]
    · rw [List.flatten_cons, flatten_consFirst, ih, List.nil_append]

/-- The clusters of a text make up the text. -/
theorem flatten_clusters (s : List Char) : (clusters s).flatten = s := by
  cases s with
  | nil => rfl
  | cons c r => rw [clusters, flatten_consFirst, flatten_clustersAfter]

end Sysy.Text
