/-!
Membership in a set of characters that is written as ranges of code points.
-/
namespace Frontend.Unicode

/-- Whether one of the closed ranges holds the code point. -/
def inRanges (ranges : List (Nat × Nat)) (n : Nat) : Bool :=
  ranges.any fun (low, high) => low ≤ n && n ≤ high

theorem inRanges_iff {ranges : List (Nat × Nat)} {n : Nat} :
    inRanges ranges n = true ↔ ∃ r ∈ ranges, r.1 ≤ n ∧ n ≤ r.2 := by
  simp [inRanges]

/-- Sets whose ranges lie apart have nothing in common. -/
theorem inRanges_of_apart {a b : List (Nat × Nat)} {n : Nat}
    (apart : ∀ r ∈ a, ∀ q ∈ b, r.2 < q.1 ∨ q.2 < r.1) (h : inRanges a n = true) :
    inRanges b n = false := by
  apply Bool.eq_false_iff.mpr
  intro both
  obtain ⟨r, r_mem, _, _⟩ := inRanges_iff.mp h
  obtain ⟨q, q_mem, _, _⟩ := inRanges_iff.mp both
  have := apart r r_mem q q_mem
  omega

end Frontend.Unicode
