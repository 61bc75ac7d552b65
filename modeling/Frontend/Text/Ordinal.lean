/-!
English ordinals.
-/
namespace Frontend

/-- The ending of an English ordinal. Eleven to thirteen take `th` in every hundred; otherwise the
last digit decides. -/
def ordinalEnding (n : Nat) : String :=
  if 11 ≤ n % 100 ∧ n % 100 ≤ 13 then "th"
  else match n % 10 with
    | 1 => "st"
    | 2 => "nd"
    | 3 => "rd"
    | _ => "th"

/-- `1st`, `2nd`, `3rd`, `4th`, … -/
def ordinal (n : Nat) : String := s!"{n}{ordinalEnding n}"

end Frontend
