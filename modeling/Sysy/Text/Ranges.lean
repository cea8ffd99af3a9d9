/-!
Tables in ascending order, searched by halving. Most of them list closed ranges of character
numbers.
-/

namespace Sysy.Ranges

/-- Looks for the entry that `side` calls equal, in a table where it calls the entries before that
one less and those after it greater. -/
def searchWithin {α : Type} (table : Array α) (side : α → Ordering) : (fuel lo hi : Nat) → Option α
  | 0, _, _ => none
  | fuel + 1, lo, hi =>
    if lo < hi then
      match table[(lo + hi) / 2]? with
      | none => none
      | some entry =>
        match side entry with
        | .lt => searchWithin table side fuel ((lo + hi) / 2 + 1) hi
        | .eq => some entry
        | .gt => searchWithin table side fuel lo ((lo + hi) / 2)
    else none

def search {α : Type} (table : Array α) (side : α → Ordering) : Option α :=
  searchWithin table side table.size 0 table.size

/-- On which side of a number a range lies. -/
def sideOf (n first last : Nat) : Ordering :=
  if last < n then .lt else if n < first then .gt else .eq

/-- Whether a number lies in one of the ranges. -/
def mem (table : Array (Nat × Nat)) (n : Nat) : Bool :=
  (search table fun (first, last) => sideOf n first last).isSome

/-- What belongs to the range in which a number lies. -/
def get? {α : Type} (table : Array (Nat × Nat × α)) (n : Nat) : Option α :=
  (search table fun (first, last, _) => sideOf n first last).map (·.2.2)

end Sysy.Ranges
