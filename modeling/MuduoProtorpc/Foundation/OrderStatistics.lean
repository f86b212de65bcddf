import Mathlib.Data.List.Sort
import Mathlib.Order.Basic

/-!
# Order statistics of a list

The smallest value of a list at a given rank (`kthSmallest`, ranks count from one) is the one value
that has fewer values below it than the rank, and as many up to it (`kthSmallest_eq_some_iff`). On a
sorted list the values that satisfy a downward closed predicate come first, so that their number is
the first position where it fails (`countP_eq_findIdx`).
-/

set_option autoImplicit false
set_option relaxedAutoImplicit false

namespace Foundation

variable {Value : Type*} [LinearOrder Value]

/-- The number of values below a bound. -/
def countBelow (values : List Value) (bound : Value) : ℕ :=
  values.countP fun value ↦ decide (value < bound)

/-- The number of values up to a bound. -/
def countUpTo (values : List Value) (bound : Value) : ℕ :=
  values.countP fun value ↦ decide (value ≤ bound)

/-- The smallest value of a rank, the smallest of all having the rank one. -/
def kthSmallest (values : List Value) (rank : ℕ) : Option Value :=
  (values.mergeSort fun first second ↦ decide (first ≤ second))[rank - 1]?

section Counts

variable {values others : List Value} {bound : Value}

theorem countBelow_append (values others : List Value) (bound : Value) :
    countBelow (values ++ others) bound = countBelow values bound + countBelow others bound :=
  List.countP_append

theorem countUpTo_append (values others : List Value) (bound : Value) :
    countUpTo (values ++ others) bound = countUpTo values bound + countUpTo others bound :=
  List.countP_append

theorem countBelow_perm (hperm : values.Perm others) (bound : Value) :
    countBelow values bound = countBelow others bound :=
  hperm.countP_eq _

theorem countUpTo_perm (hperm : values.Perm others) (bound : Value) :
    countUpTo values bound = countUpTo others bound :=
  hperm.countP_eq _

theorem countBelow_le_countUpTo (values : List Value) (bound : Value) :
    countBelow values bound ≤ countUpTo values bound :=
  List.countP_mono_left fun _ _ hvalue ↦
    decide_eq_true (le_of_lt (of_decide_eq_true hvalue))

theorem countBelow_mono (values : List Value) {lower upper : Value} (hle : lower ≤ upper) :
    countBelow values lower ≤ countBelow values upper :=
  List.countP_mono_left fun _ _ hvalue ↦
    decide_eq_true ((of_decide_eq_true hvalue).trans_le hle)

theorem countUpTo_mono (values : List Value) {lower upper : Value} (hle : lower ≤ upper) :
    countUpTo values lower ≤ countUpTo values upper :=
  List.countP_mono_left fun _ _ hvalue ↦
    decide_eq_true ((of_decide_eq_true hvalue).trans hle)

theorem countUpTo_le_length (values : List Value) (bound : Value) :
    countUpTo values bound ≤ values.length :=
  List.countP_le_length

/-- Nothing is below a lower bound. -/
theorem countBelow_eq_zero (hbound : ∀ value ∈ values, bound ≤ value) :
    countBelow values bound = 0 := by
  refine List.countP_eq_zero.mpr fun value hvalue ↦ ?_
  simpa using hbound value hvalue

/-- All values are up to an upper bound. -/
theorem countUpTo_eq_length (hbound : ∀ value ∈ values, value ≤ bound) :
    countUpTo values bound = values.length := by
  refine List.countP_eq_length.mpr fun value hvalue ↦ ?_
  simpa using hbound value hvalue

end Counts

/-! ### Sorted lists -/

section Sorted

variable {values : List Value} {chosen : Value → Bool}

/-- On a sorted list, the values that satisfy a downward closed predicate come first. -/
theorem countP_eq_findIdx (hsorted : values.Pairwise (· ≤ ·))
    (hdown : ∀ first second, first ≤ second → chosen second = true → chosen first = true) :
    values.countP chosen = values.findIdx fun value ↦ !chosen value := by
  induction values with
  | nil => rfl
  | cons first rest ih =>
    obtain ⟨hfirst, hrest⟩ := List.pairwise_cons.mp hsorted
    by_cases hchosen : chosen first = true
    · rw [List.countP_cons_of_pos hchosen, List.findIdx_cons, ih hrest, hchosen]
      rfl
    · have hnone : rest.countP chosen = 0 := by
        refine List.countP_eq_zero.mpr fun value hvalue hlater ↦ ?_
        exact hchosen (hdown first value (hfirst value hvalue) hlater)
      rw [List.countP_cons_of_neg hchosen, hnone, List.findIdx_cons]
      simp [hchosen]

theorem countBelow_eq_findIdx (hsorted : values.Pairwise (· ≤ ·)) (bound : Value) :
    countBelow values bound = values.findIdx fun value ↦ !decide (value < bound) :=
  countP_eq_findIdx hsorted fun _ _ hle hless ↦
    decide_eq_true (hle.trans_lt (of_decide_eq_true hless))

theorem countUpTo_eq_findIdx (hsorted : values.Pairwise (· ≤ ·)) (bound : Value) :
    countUpTo values bound = values.findIdx fun value ↦ !decide (value ≤ bound) :=
  countP_eq_findIdx hsorted fun _ _ hle hupTo ↦
    decide_eq_true (hle.trans (of_decide_eq_true hupTo))

/-- The value at a position of a sorted list is the bound that has no more values below it than come
before this position, and more up to it. -/
theorem getElem_eq_iff (hsorted : values.Pairwise (· ≤ ·)) {position : ℕ}
    (hposition : position < values.length) (bound : Value) :
    values[position] = bound ↔
      countBelow values bound ≤ position ∧ position < countUpTo values bound := by
  rw [countBelow_eq_findIdx hsorted, countUpTo_eq_findIdx hsorted]
  have hmono : ∀ (earlier : ℕ) (hearlier : earlier < values.length), earlier ≤ position →
      values[earlier] ≤ values[position] := by
    intro earlier hearlier hle
    rcases Nat.eq_or_lt_of_le hle with rfl | hless
    · exact le_refl _
    · exact List.pairwise_iff_getElem.mp hsorted earlier position _ hposition hless
  constructor
  · rintro rfl
    constructor
    · by_contra hgreater
      have hnot := List.not_of_lt_findIdx (Nat.lt_of_not_le hgreater)
      simp at hnot
    · by_contra hle
      have hfound := Nat.le_of_not_lt hle
      have hthere := List.findIdx_getElem (w := hfound.trans_lt hposition)
      have hupTo := hmono _ (hfound.trans_lt hposition) hfound
      simp only [Bool.not_eq_true', decide_eq_false_iff_not] at hthere
      exact hthere hupTo
  · rintro ⟨hbelow, hupTo⟩
    apply le_antisymm
    · have hnot := List.not_of_lt_findIdx hupTo
      simpa using hnot
    · have hthere := List.findIdx_getElem (w := hbelow.trans_lt hposition)
      simp only [Bool.not_eq_true', decide_eq_false_iff_not, not_lt] at hthere
      exact hthere.trans (hmono _ (hbelow.trans_lt hposition) hbelow)

end Sorted

/-! ### Ranks -/

section Ranks

variable {values others : List Value} {rank : ℕ} {value : Value}

theorem pairwise_mergeSort (values : List Value) :
    (values.mergeSort fun first second ↦ decide (first ≤ second)).Pairwise (· ≤ ·) := by
  have hpairwise : (values.mergeSort fun first second ↦ decide (first ≤ second)).Pairwise
      fun first second ↦ decide (first ≤ second) = true :=
    List.pairwise_mergeSort (fun _ _ _ ↦ by simpa using le_trans)
      (fun _ _ ↦ by simpa using le_total _ _) values
  simpa only [decide_eq_true_eq] using hpairwise

/-- The value of a rank has fewer values below it, and as many up to it. -/
theorem kthSmallest_eq_some_iff (hrank : 0 < rank) : kthSmallest values rank = some value ↔
    countBelow values value < rank ∧ rank ≤ countUpTo values value := by
  have hsorted := pairwise_mergeSort values
  have hperm : (values.mergeSort fun first second ↦ decide (first ≤ second)).Perm values :=
    List.mergeSort_perm _ _
  rw [← countBelow_perm hperm, ← countUpTo_perm hperm]
  unfold kthSmallest
  constructor
  · intro hvalue
    obtain ⟨hposition, hvalue⟩ := List.getElem?_eq_some_iff.mp hvalue
    obtain ⟨hbelow, hupTo⟩ := (getElem_eq_iff hsorted hposition value).mp hvalue
    omega
  · rintro ⟨hbelow, hupTo⟩
    have hlength := countUpTo_le_length
      (values.mergeSort fun first second ↦ decide (first ≤ second)) value
    have hposition :
        rank - 1 < (values.mergeSort fun first second ↦ decide (first ≤ second)).length := by
      omega
    refine List.getElem?_eq_some_iff.mpr ⟨hposition, ?_⟩
    exact (getElem_eq_iff hsorted hposition value).mpr (by omega)

/-- The value of a rank does not depend on the order of the list. -/
theorem kthSmallest_perm (hrank : 0 < rank) (hperm : values.Perm others) :
    kthSmallest values rank = kthSmallest others rank := by
  refine Option.ext fun value ↦ ?_
  rw [kthSmallest_eq_some_iff hrank, kthSmallest_eq_some_iff hrank, countBelow_perm hperm,
    countUpTo_perm hperm]

end Ranks

end Foundation
