import Sysy.Text.Bytes

/-!
Integers in text. A base mark `0x`, `0o` or `0b` stands in front of the digits, a bare zero in
front means octal, and an underscore may stand between two digits or after the mark.
-/

namespace Sysy.Integer

/-- The value of a digit of any base up to 36. -/
def digit? (b : UInt8) : Option Nat :=
  if 48 ≤ b ∧ b ≤ 57 then some (b.toNat - 48)
  else if 97 ≤ b ∧ b ≤ 122 then some (b.toNat - 87)
  else if 65 ≤ b ∧ b ≤ 90 then some (b.toNat - 55)
  else none

/-- Reads digits of a base onto the value `acc` of the digits before them; underscores are passed
over. -/
def digits? (base : Nat) : (acc : Nat) → Bytes → Option Nat
  | acc, [] => some acc
  | acc, b :: r =>
    if b = 95 then digits? base acc r
    else match digit? b with
      | some d => if d < base then digits? base (base * acc + d) r else none
      | none => none

/-- The base that a text is written in, its digits, and whether a mark stood in front of them. -/
def mark : Bytes → Nat × Bytes × Bool
  | 48 :: m :: d :: r =>
    if m = 120 ∨ m = 88 then (16, d :: r, true)
    else if m = 111 ∨ m = 79 then (8, d :: r, true)
    else if m = 98 ∨ m = 66 then (2, d :: r, true)
    else (8, m :: d :: r, true)
  | 48 :: r => (8, r, true)
  | s => (10, s, false)

/-- Whether every underscore follows a digit and is followed by one; `after` tells if a digit was
last. -/
def underscoresFit : (after : Bool) → Bytes → Bool
  | _, [] => true
  | after, 95 :: r => after && r.head?.any (· != 95) && underscoresFit false r
  | _, _ :: r => underscoresFit true r

/-- The value of an integer in text. -/
def read? (s : Bytes) : Option Nat :=
  match s with
  | [] => none
  | _ :: _ =>
    let (base, ds, marked) := mark s
    if underscoresFit marked ds then digits? base 0 ds else none

/-- Why a text is no integer of 64 bits. -/
inductive Fault where
  | malformed
  | outOfRange
  deriving DecidableEq, Repr

/-- Whether a byte is a digit of a base, or an underscore. -/
def belongs (base : Nat) (b : UInt8) : Bool := b = 95 || (digit? b).any (· < base)

/-- The value of an integer of 64 bits without a sign. Digits that are too many for it count before
what stands behind them. -/
def read64 (s : Bytes) : Except Fault Nat :=
  match s with
  | [] => .error .malformed
  | _ :: _ =>
    let (base, ds, marked) := mark s
    let n := (digits? base 0 (ds.takeWhile (belongs base))).getD 0
    if 0x10000000000000000 ≤ n then .error .outOfRange
    else if ds.all (belongs base) && underscoresFit marked ds then .ok n
    else .error .malformed

/-- The value of an integer of 64 bits with a sign. -/
def readSigned64 (s : Bytes) : Except Fault Int := do
  let (negative, ds) := match s with
    | 45 :: r => (true, r)
    | 43 :: r => (false, r)
    | r => (false, r)
  let n ← read64 ds
  let v : Int := if negative then -n else n
  if -0x8000000000000000 ≤ v ∧ v < 0x8000000000000000 then return v else throw .outOfRange

end Sysy.Integer
