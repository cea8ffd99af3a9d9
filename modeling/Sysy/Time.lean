import Sysy.Number.Binary64

/-!
Instants and durations, both as whole nanoseconds. An instant counts from the start of 1970 and is
written as a date and a time of day; a duration is written in the largest units that it fills.
-/

namespace Sysy.Time
open Text

/-- A number with zeros in front, so that it has at least `width` digits. -/
def padZeros (width n : Nat) : String :=
  let s := toString n
  copies (width - s.length) "0" ++ s

/-- A day as year, month and day of the month, for the number of days since the start of 1970. Years
are counted from March, so that a leap day ends a year. -/
def civil (days : Int) : Int × Nat × Nat :=
  let z := days + 719468
  let era := z.fdiv 146097
  let doe := (z - era * 146097).toNat
  let yoe := (doe - doe / 1460 + doe / 36524 - doe / 146096) / 365
  let doy := doe - (365 * yoe + yoe / 4 - yoe / 100)
  let mp := (5 * doy + 2) / 153
  let day := doy - (153 * mp + 2) / 5 + 1
  let month := if mp < 10 then mp + 3 else mp - 9
  let year := (yoe : Int) + era * 400 + (if month ≤ 2 then 1 else 0)
  (year, month, day)

/-- An instant with six places of a second, as in `1970-01-01T00:00:00.000000Z`. -/
def stamp (ns : Int) : String :=
  let micros := ns.fdiv 1000
  let days := micros.fdiv 86400000000
  let rest := (micros - days * 86400000000).toNat
  let (year, month, day) := civil days
  let seconds := rest / 1000000
  (if year < 0 then "-" else "") ++ padZeros 4 year.natAbs ++ "-" ++ padZeros 2 month ++ "-" ++
    padZeros 2 day ++
    "T" ++ padZeros 2 (seconds / 3600) ++ ":" ++ padZeros 2 (seconds / 60 % 60) ++ ":" ++
    padZeros 2 (seconds % 60) ++ "." ++ padZeros 6 (rest % 1000000) ++ "Z"

/-- The longest duration. -/
def maxDuration : Int := 0x7FFFFFFFFFFFFFFF

/-- The time from one instant to another, as far as durations reach. -/
def since (start stop : Int) : Int := max (-0x8000000000000000) (min maxDuration (stop - start))

/-- A duration in milliseconds. -/
def millis (ns : Int) : Binary64 := (Binary64.ofInt ns).divNat 1000000

/-- `n` units of a duration, where a unit has `places` decimal places: zeros at the end are left
out. -/
def withPlaces (places n : Nat) : String :=
  let rest := (padZeros places (n % Nat.pow 10 places)).toList
  let kept := (rest.reverse.dropWhile (· = '0')).reverse
  toString (n / Nat.pow 10 places) ++ if places = 0 ∨ kept = [] then "" else "." ++
    String.ofList kept

/-- A duration for people, as in `1h2m3.5s` or `250µs`. -/
def durationText (ns : Int) : String :=
  let n := ns.natAbs
  let size :=
    if n = 0 then "0s"
    else if n < 1000 then toString n ++ "ns"
    else if n < 1000000 then withPlaces 3 n ++ "µs"
    else if n < 1000000000 then withPlaces 6 n ++ "ms"
    else
      let minutes := n / 60000000000
      (if minutes < 60 then "" else toString (minutes / 60) ++ "h") ++
        (if minutes = 0 then "" else toString (minutes % 60) ++ "m") ++
        withPlaces 9 (n % 60000000000) ++ "s"
  (if ns < 0 then "-" else "") ++ size

/-- A positive duration rounded to microseconds; half a microsecond is rounded up. -/
def roundMicros (ns : Nat) : Nat := (ns + 500) / 1000 * 1000

end Sysy.Time
