import Mathlib.Data.List.Sort
import MuduoProtorpc.Foundation.OrderStatistics

/-!
# Bounds that are reached

Among bounds in ascending order, the first up to which there are as many values as asked for
(`FirstReaching`). More values are reached no earlier (`FirstReaching.mono`), and two numbers of
values are first reached at different bounds if and only if the values up to some bound are at least
the one and fewer than the other (`FirstReaching.lt_iff`).
-/

set_option autoImplicit false
set_option relaxedAutoImplicit false

namespace Foundation

variable {Value : Type*} [LinearOrder Value]

/-- The first of the bounds up to which there are so many values. -/
structure FirstReaching (bounds values : List Value) (number : ℕ) (bound : Value) : Prop where
  mem : bound ∈ bounds
  reached : number ≤ countUpTo values bound
  first : ∀ earlier ∈ bounds, earlier < bound → countUpTo values earlier < number

section Reaching

variable {bounds values : List Value} {number more : ℕ} {bound later : Value}

/-- A search through ascending bounds finds the first that is reached. -/
theorem firstReaching_of_find? (hbounds : bounds.Pairwise (· < ·))
    (hfound : bounds.find? (fun bound ↦ decide (number ≤ countUpTo values bound)) = some bound) :
    FirstReaching bounds values number bound := by
  obtain ⟨hreached, before, after, hsplit, hbefore⟩ := List.find?_eq_some_iff_append.mp hfound
  have hmem := List.mem_of_find?_eq_some hfound
  refine ⟨hmem, of_decide_eq_true hreached, fun earlier hearlier hless ↦ ?_⟩
  rw [hsplit, List.pairwise_append, List.pairwise_cons] at hbounds
  obtain ⟨-, ⟨hafter, -⟩, -⟩ := hbounds
  rw [hsplit, List.mem_append, List.mem_cons] at hearlier
  rcases hearlier with hbefore' | rfl | hafter'
  · simpa using hbefore earlier hbefore'
  · exact absurd hless (lt_irrefl earlier)
  · exact absurd hless (hafter earlier hafter').not_gt

/-- More values are reached no earlier. -/
theorem FirstReaching.mono (hbound : FirstReaching bounds values number bound)
    (hlater : FirstReaching bounds values more later) (hle : number ≤ more) : bound ≤ later := by
  by_contra hless
  have hfewer := hbound.first later hlater.mem (not_le.mp hless)
  have hreached := hlater.reached
  omega

/-- More values are first reached at a later bound if and only if some bound is between them. -/
theorem FirstReaching.lt_iff (hbound : FirstReaching bounds values number bound)
    (hlater : FirstReaching bounds values more later) : bound < later ↔
      ∃ between ∈ bounds, number ≤ countUpTo values between ∧
        countUpTo values between < more := by
  constructor
  · intro hless
    exact ⟨bound, hbound.mem, hbound.reached, hlater.first bound hbound.mem hless⟩
  · rintro ⟨between, hbetween, hreached, hfewer⟩
    have hle : bound ≤ between := by
      by_contra hless
      have hnot := hbound.first between hbetween (not_le.mp hless)
      omega
    by_contra hnot
    have hmono := countUpTo_mono values ((not_lt.mp hnot).trans hle)
    have hmany := hlater.reached
    omega

end Reaching

end Foundation
