import Sysy.Text.Column

/-!
Binary fractions of 53 bits, as measured times are kept in, and their two written forms: with a
fixed number of places, and with the fewest digits that read back. All of it is exact arithmetic on
whole numbers.
-/

namespace Sysy

/-- The number `± mantissa · 2 ^ exponent`. -/
structure Binary64 where
  isNegative : Bool
  mantissa : Nat
  exponent : Int
  deriving DecidableEq, Repr, Inhabited

namespace Binary64

/-- The quotient of two numbers rounded to the nearest whole number, and from a tie to the even
one. -/
def roundDiv (num den : Nat) : Nat :=
  let q := num / den
  let twice := 2 * (num % den)
  if den < twice ∨ (twice = den ∧ q % 2 = 1) then q + 1 else q

/-- The least exponent, that of the numbers closest to zero. -/
def minExponent : Int := -1074

/-- A fraction times a power of two, as a fraction. -/
def scale (num den : Nat) (e : Int) : Nat × Nat :=
  if 0 ≤ e then (num * Nat.pow 2 e.toNat, den) else (num, den * Nat.pow 2 (-e).toNat)

/-- The binary fraction nearest to `num / den`; of two that are as near, the even one. -/
def ofFraction (isNegative : Bool) (num den : Nat) : Binary64 :=
  if num = 0 ∨ den = 0 then ⟨isNegative, 0, minExponent⟩
  else
    let guess : Int := (Nat.log2 num : Int) - Nat.log2 den - 52
    let fits (e : Int) : Bool :=
      let (n, d) := scale num den (-e)
      n < d * 0x20000000000000
    let e := max minExponent (if fits (guess - 1) then guess - 1 else guess)
    let (n, d) := scale num den (-e)
    let m := roundDiv n d
    if m = 0x20000000000000 then ⟨isNegative, 0x10000000000000, e + 1⟩ else ⟨isNegative, m, e⟩

def ofRatio (num : Int) (den : Nat) : Binary64 := ofFraction (num < 0) num.natAbs den

def ofInt (n : Int) : Binary64 := ofRatio n 1

/-- The size of a number as an exact fraction. -/
def fraction (x : Binary64) : Nat × Nat := scale x.mantissa 1 x.exponent

def add (x y : Binary64) : Binary64 :=
  let (a, b) := x.fraction
  let (c, d) := y.fraction
  let signed (s : Bool) (n : Nat) : Int := if s then -n else n
  ofRatio (signed x.isNegative (a * d) + signed y.isNegative (c * b)) (b * d)

/-- The quotient by a positive whole number. -/
def divNat (x : Binary64) (n : Nat) : Binary64 :=
  let (a, b) := x.fraction
  ofFraction x.isNegative a (b * n)

def sign (x : Binary64) : String := if x.isNegative then "-" else ""

/-- The number with `places` digits behind the point; a tie goes to the even digit. -/
def fixed (places : Nat) (x : Binary64) : String :=
  let (n, d) := x.fraction
  let scaled := roundDiv (n * Nat.pow 10 places) d
  let whole := toString (scaled / Nat.pow 10 places)
  let rest := toString (scaled % Nat.pow 10 places)
  x.sign ++ whole ++ if places = 0 then "" else "." ++ Text.copies
    (places - rest.length) "0" ++ rest

/-- Whether `c · 10 ^ grid` rounds to the positive number `x`: it lies between the middles to the
neighbours of `x`, which belong to `x` if its mantissa is even. -/
def roundsTo (x : Binary64) (grid : Int) (c : Nat) : Bool :=
  let below := if x.mantissa = 0x10000000000000 ∧ minExponent < x.exponent then 1 else 2
  let (low, den) := scale (4 * x.mantissa - below) 1 (x.exponent - 2)
  let (high, _) := scale (4 * x.mantissa + 2) 1 (x.exponent - 2)
  let (n, d) := if 0 ≤ grid then (c * Nat.pow 10 grid.toNat, 1) else (c, Nat.pow 10 (-grid).toNat)
  if x.mantissa % 2 = 0 then low * d ≤ n * den && n * den ≤ high * d
  else low * d < n * den && n * den < high * d

/-- The digits of the shortest decimal `digits · 10 ^ grid` that rounds to `x`, at most `tries` more
digits than the grid gives; of two with as many digits, the nearer one. -/
def shortestFrom (x : Binary64) : (tries : Nat) → (grid : Int) → Nat × Int
  | 0, grid =>
    let (n, d) := x.fraction
    let (n, d) :=
      if 0 ≤ grid then (n, d * Nat.pow 10 grid.toNat) else (n * Nat.pow 10 (-grid).toNat, d)
    (roundDiv n d, grid)
  | tries + 1, grid =>
    let (n, d) := x.fraction
    let (n, d) :=
      if 0 ≤ grid then (n, d * Nat.pow 10 grid.toNat) else (n * Nat.pow 10 (-grid).toNat, d)
    let near := roundDiv n d
    let other := if near = n / d then near + 1 else near - 1
    if x.roundsTo grid near then (near, grid)
    else if x.roundsTo grid other then (other, grid)
    else shortestFrom x tries (grid - 1)

/-- The number of decimal digits in front of the point; zero or less counts zeros behind it. -/
def magnitude (x : Binary64) : Int :=
  let (n, d) := x.fraction
  if d ≤ n then (toString (n / d)).length
  else 1 - (toString (d / n)).length + (if d % n = 0 ∧
    d / n = Nat.pow 10 ((toString (d / n)).length - 1) then 1 else 0)

/-- Digits without zeros at their end, and the grid that they then stand on. -/
def trimZeros : (fuel : Nat) → Nat × Int → Nat × Int
  | 0, r => r
  | fuel + 1, (c, grid) =>
    if c % 10 = 0 ∧ c ≠ 0 then trimZeros fuel (c / 10, grid + 1) else (c, grid)

/-- The fewest digits that read back as the number. Numbers below a millionth and from `10 ^ 21` on
are written with an exponent. -/
def shortest (x : Binary64) : String :=
  if x.mantissa = 0 then x.sign ++ "0"
  else
    let (c, grid) := trimZeros 400 (x.shortestFrom 17 (x.magnitude - 1))
    let ds := toString c
    let point := (ds.length : Int) + grid
    if point ≤ -6 ∨ 21 < point then
      let rest := ds.toList.drop 1
      let e := point - 1
      x.sign ++ String.ofList (ds.toList.take 1) ++ (if rest = [] then "" else "." ++
        String.ofList rest) ++
        "e" ++ (if e < 0 then "-" else "+") ++ toString e.natAbs
    else if point ≤ 0 then x.sign ++ "0." ++ Text.copies (-point).toNat "0" ++ ds
    else if 0 ≤ grid then x.sign ++ ds ++ Text.copies grid.toNat "0"
    else x.sign ++ String.ofList (ds.toList.take point.toNat) ++ "." ++ String.ofList
      (ds.toList.drop point.toNat)

end Binary64

end Sysy
