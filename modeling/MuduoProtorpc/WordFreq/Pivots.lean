import Mathlib.Algebra.Order.Ring.Int
import Mathlib.Tactic.SplitIfs
import MuduoProtorpc.WordFreq.Shuffle

/-!
# Parts and pivots

Pivots that are strictly increasing cut the keys into parts: the part of a key is the position of
the first pivot that is not below it (`lowerBound_eq_iff`).
-/

set_option autoImplicit false
set_option relaxedAutoImplicit false

namespace MuduoProtorpc.WordFreq

/-- The key is at most the pivot of the part, and greater than the pivot before it. -/
def InPart (pivots : List ℤ) (part : ℕ) (key : ℤ) : Prop :=
  (∃ pivot ∈ pivots[part]?, key ≤ pivot) ∧
    (part = 0 ∨ ∃ pivot ∈ pivots[part - 1]?, pivot < key)

section Parts

variable {pivots : List ℤ} {part : ℕ} {key : ℤ}

theorem lowerBound_le (pivots : List ℤ) (key : ℤ) : lowerBound pivots key ≤ pivots.length :=
  List.findIdx_le_length

/-- Pivots that are accepted are strictly increasing. -/
theorem pairwise_of_isSorted : ∀ {pivots : List ℤ}, isSorted pivots = true →
    pivots.Pairwise (· < ·)
  | [], _ => .nil
  | [_], _ => List.pairwise_singleton _ _
  | first :: second :: rest, hsorted => by
    simp only [isSorted, Bool.and_eq_true, decide_eq_true_eq] at hsorted
    obtain ⟨hless, hrest⟩ := hsorted
    have hpairwise := pairwise_of_isSorted hrest
    refine List.pairwise_cons.mpr ⟨fun pivot hpivot ↦ ?_, hpairwise⟩
    rcases List.mem_cons.mp hpivot with rfl | hlater
    · exact hless
    · exact hless.trans (List.rel_of_pairwise_cons hpairwise hlater)

theorem pairwise_of_accepted {peers : ℕ} {keys : List ℤ}
    (haccepted : acceptsPivots peers keys pivots = some true) : pivots.Pairwise (· < ·) := by
  unfold acceptsPivots at haccepted
  split_ifs at haccepted
  · simp at haccepted
  · split at haccepted
    · cases haccepted
    · simp only [Option.some.injEq, Bool.and_eq_true] at haccepted
      exact pairwise_of_isSorted haccepted.2

/-- The part of a key is that between whose pivots it is. -/
theorem lowerBound_eq_iff (hpivots : pivots.Pairwise (· < ·)) (hpart : part < pivots.length) :
    lowerBound pivots key = part ↔ InPart pivots part key := by
  have hlower : (∀ (earlier : ℕ) (hearlier : earlier < part),
      ¬ key ≤ pivots.get ⟨earlier, hearlier.trans hpart⟩) ↔
        part = 0 ∨ ∃ pivot ∈ pivots[part - 1]?, pivot < key := by
    cases part with
    | zero => simp
    | succ before =>
      have hbefore : before < pivots.length := Nat.lt_of_succ_lt hpart
      simp only [Nat.add_sub_cancel, List.getElem?_eq_getElem hbefore, Option.mem_def,
        Option.some.injEq, exists_eq_left', Nat.succ_ne_zero, false_or, not_le]
      constructor
      · intro hall
        exact hall before (Nat.lt_succ_self before)
      · intro hless earlier hearlier
        rcases Nat.lt_succ_iff_lt_or_eq.mp hearlier with hlt | rfl
        · exact (List.pairwise_iff_getElem.mp hpivots earlier before _ hbefore hlt).trans hless
        · exact hless
  unfold lowerBound InPart
  rw [List.findIdx_eq hpart, ← hlower]
  simp [List.getElem?_eq_getElem hpart]

/-- The pivots before the position found are below the key. -/
theorem lt_of_lt_lowerBound (hpart : part < pivots.length)
    (hless : part < lowerBound pivots key) : pivots[part] < key := by
  have hnot := List.not_of_lt_findIdx hless
  simpa using hnot

/-- The position found is not behind a pivot that is not below the key. -/
theorem lowerBound_le_of_le (hpart : part < pivots.length) (hle : key ≤ pivots[part]) :
    lowerBound pivots key ≤ part := by
  by_contra hgreater
  have hless := lt_of_lt_lowerBound hpart (Nat.lt_of_not_le hgreater)
  omega

/-- The pivot that is found is not below the key. -/
theorem le_getElem_lowerBound (hfound : lowerBound pivots key < pivots.length) :
    key ≤ pivots[lowerBound pivots key] := by
  have hthere := List.findIdx_getElem (w := hfound)
  exact of_decide_eq_true hthere

/-- The position found is not that of a pivot below the key. -/
theorem lowerBound_ne_of_lt (hpart : part < pivots.length) (hless : pivots[part] < key) :
    lowerBound pivots key ≠ part := by
  rintro rfl
  exact absurd (le_getElem_lowerBound hpart) (not_le.mpr hless)

/-- The keys of the parts up to a pivot are those up to this pivot. -/
theorem lowerBound_le_iff (hpivots : pivots.Pairwise (· ≤ ·)) (hpart : part < pivots.length) :
    lowerBound pivots key ≤ part ↔ key ≤ pivots[part] := by
  constructor
  · intro hle
    have hfound := le_getElem_lowerBound (hle.trans_lt hpart)
    rcases Nat.lt_or_eq_of_le hle with hless | rfl
    · exact hfound.trans (List.pairwise_iff_getElem.mp hpivots _ part _ hpart hless)
    · exact hfound
  · exact lowerBound_le_of_le hpart

/-- A key that is not greater belongs to no later part. -/
theorem lowerBound_mono (pivots : List ℤ) {first second : ℤ} (hle : first ≤ second) :
    lowerBound pivots first ≤ lowerBound pivots second := by
  by_contra hgreater
  have hfound := (Nat.lt_of_not_le hgreater).trans_le (lowerBound_le pivots first)
  exact hgreater (lowerBound_le_of_le hfound (hle.trans (le_getElem_lowerBound hfound)))

end Parts

end MuduoProtorpc.WordFreq
