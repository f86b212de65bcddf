import MuduoProtorpc.Foundation.OrderStatistics
import MuduoProtorpc.Foundation.Tally
import MuduoProtorpc.WordFreq.Pivots

/-!
# Histograms of keys

`GetHistogram` of `examples/wordfreq/wordfreq.cc` searches the slot of each key among the pivots,
and `getHistogramFromKey` of `examples/wordfreq/partition_unittest.cc` goes through sorted keys and
pivots together. Both count the keys between the pivots (`InSlot`, `histogramCorrect`).
-/

set_option autoImplicit false
set_option relaxedAutoImplicit false

namespace MuduoProtorpc.WordFreq

open Foundation

/-! ### The two functions -/

/-- The loop of `GetHistogram` over the keys. -/
def countKeys (pivots : List ℤ) : List ℤ → List ℕ → Except String (List ℕ)
  | [], counts => .ok counts
  | key :: rest, counts =>
    let idx := lowerBound pivots key
    if idx < counts.length then countKeys pivots rest (counts.modify idx (· + 1))
    else .error "idx < response.counts().size()"

/-- `GetHistogram`, of a worker with these keys: the counts of its response, or the assertion that
fails. -/
def getHistogram (keys pivots : List ℤ) : Except String (List ℕ) :=
  if isSorted pivots then countKeys pivots keys (List.replicate (pivots.length + 1) 0)
  else .error "isSorted(pivots.begin(), pivots.end())"

/-- The inner loop of `getHistogramFromKey`: the position of the first pivot from `j` on that is not
below the key, or none if the loop ends with `goto end`. -/
def skipPivots (pivots : List ℤ) (key : ℤ) (j : Fin pivots.length) : Option (Fin pivots.length) :=
  if key > pivots[j] then
    if hnext : j + 1 < pivots.length then skipPivots pivots key ⟨j + 1, hnext⟩ else none
  else some j
termination_by pivots.length - j

/-- The outer loop of `getHistogramFromKey`. -/
def mergeKeys (pivots : List ℤ) : List ℤ → Fin pivots.length → List ℕ → List ℕ
  | [], _, result => result
  | key :: rest, j, result =>
    match skipPivots pivots key j with
    | none => result
    | some j => mergeKeys pivots rest j (result.modify j (· + 1))

/-- `getHistogramFromKey`, of pivots that are not empty. -/
def getHistogramFromKey (keys pivots : List ℤ) (hpivots : 0 < pivots.length) : List ℕ :=
  mergeKeys pivots keys ⟨0, hpivots⟩ (List.replicate pivots.length 0)

/-! ### Slots -/

/-- The key is greater than the pivot before the slot, and at most the pivot of the slot; the slot
behind the last pivot has none. -/
def InSlot (pivots : List ℤ) (j : ℕ) (key : ℤ) : Prop :=
  (j = 0 ∨ ∃ pivot ∈ pivots[j - 1]?, pivot < key) ∧ ∀ pivot ∈ pivots[j]?, key ≤ pivot

instance (pivots : List ℤ) (j : ℕ) (key : ℤ) : Decidable (InSlot pivots j key) := by
  unfold InSlot
  infer_instance

/-- The keys in a slot. -/
def slotCount (pivots keys : List ℤ) (j : ℕ) : ℕ :=
  keys.countP fun key ↦ decide (InSlot pivots j key)

section Slots

variable {pivots keys : List ℤ} {j : ℕ} {key : ℤ}

theorem isSorted_of_pairwise : ∀ {pivots : List ℤ}, pivots.Pairwise (· < ·) →
    isSorted pivots = true
  | [], _ => rfl
  | [_], _ => rfl
  | first :: second :: rest, hpivots => by
    have hless := List.rel_of_pairwise_cons hpivots List.mem_cons_self
    simp only [isSorted, Bool.and_eq_true, decide_eq_true_eq]
    exact ⟨hless, isSorted_of_pairwise (List.Pairwise.of_cons hpivots)⟩

/-- The slot of a key is where its search among the pivots ends. -/
theorem lowerBound_eq_iff_inSlot (hpivots : pivots.Pairwise (· < ·)) (hj : j ≤ pivots.length) :
    lowerBound pivots key = j ↔ InSlot pivots j key := by
  rcases Nat.lt_or_eq_of_le hj with hless | rfl
  · rw [lowerBound_eq_iff hpivots hless, InPart, InSlot, and_comm]
    simp [List.getElem?_eq_getElem hless]
  · have hend : lowerBound pivots key = pivots.length ↔ ∀ pivot ∈ pivots, pivot < key := by
      simp [lowerBound, List.findIdx_eq_length]
    have hslot : InSlot pivots pivots.length key ↔
        pivots.length = 0 ∨ ∃ pivot ∈ pivots[pivots.length - 1]?, pivot < key := by
      simp [InSlot]
    rw [hend, hslot]
    constructor
    · intro hall
      rcases Nat.eq_zero_or_pos pivots.length with hzero | hpositive
      · exact Or.inl hzero
      · have hlast : pivots.length - 1 < pivots.length := Nat.sub_lt hpositive Nat.one_pos
        exact Or.inr ⟨_, List.getElem?_eq_getElem hlast, hall _ (List.getElem_mem hlast)⟩
    · rintro (hzero | ⟨last, hlast, hless⟩) pivot hpivot
      · rw [List.eq_nil_of_length_eq_zero hzero] at hpivot
        exact absurd hpivot List.not_mem_nil
      · obtain ⟨position, hposition, rfl⟩ := List.getElem_of_mem hpivot
        obtain ⟨hend, rfl⟩ := List.getElem?_eq_some_iff.mp hlast
        rcases Nat.lt_or_eq_of_le (Nat.le_sub_one_of_lt hposition) with hearlier | rfl
        · exact (List.pairwise_iff_getElem.mp hpivots _ _ hposition hend hearlier).trans hless
        · exact hless

/-- The slot counts are what is counted by the search of each key. -/
theorem placed_lowerBound (hpivots : pivots.Pairwise (· < ·)) (hj : j ≤ pivots.length)
    (keys : List ℤ) : placed (lowerBound pivots) keys j = slotCount pivots keys j := by
  refine List.countP_congr fun key _ ↦ ?_
  simp only [decide_eq_true_eq]
  exact lowerBound_eq_iff_inSlot hpivots hj

/-- The keys found up to a pivot are those up to this pivot. -/
theorem countP_lowerBound (hpivots : pivots.Pairwise (· ≤ ·)) (keys : List ℤ)
    (hj : j < pivots.length) : keys.countP (fun key ↦ decide (lowerBound pivots key < j + 1)) =
      countUpTo keys pivots[j] := by
  refine List.countP_congr fun key _ ↦ ?_
  simp only [decide_eq_true_eq, Nat.lt_succ_iff]
  exact lowerBound_le_iff hpivots hj

end Slots

/-! ### What is counted -/

section Counts

variable {pivots keys : List ℤ}

/-- No key is found behind the counts. -/
theorem countKeys_eq (keys : List ℤ) {counts : List ℕ} (hlength : pivots.length < counts.length) :
    countKeys pivots keys counts = .ok (tally (lowerBound pivots) keys counts) := by
  induction keys generalizing counts with
  | nil => rfl
  | cons key rest ih =>
    have hidx := (lowerBound_le pivots key).trans_lt hlength
    rw [countKeys, if_pos hidx, ih (by rwa [List.length_modify]), tally_cons]

theorem getHistogram_eq (hpivots : pivots.Pairwise (· < ·)) (keys : List ℤ) :
    getHistogram keys pivots =
      .ok (tally (lowerBound pivots) keys (List.replicate (pivots.length + 1) 0)) := by
  rw [getHistogram, if_pos (isSorted_of_pairwise hpivots)]
  exact countKeys_eq keys (by simp)

/-- The inner loop ends at the slot of the key, if it starts no later. -/
theorem skipPivots_eq (key : ℤ) (j : Fin pivots.length) (hj : j ≤ lowerBound pivots key) :
    skipPivots pivots key j =
      if hslot : lowerBound pivots key < pivots.length then some ⟨lowerBound pivots key, hslot⟩
      else none := by
  have hle := lowerBound_le pivots key
  fun_induction skipPivots pivots key j with
  | case1 j hgreater hnext ih =>
    have hne := lowerBound_ne_of_lt j.isLt hgreater
    refine ih ?_
    show (j : ℕ) + 1 ≤ lowerBound pivots key
    omega
  | case2 j hgreater hlast =>
    have hne := lowerBound_ne_of_lt j.isLt hgreater
    rw [dif_neg (by omega)]
  | case3 j hnot =>
    have hfound : lowerBound pivots key ≤ j := lowerBound_le_of_le j.isLt (not_lt.mp hnot)
    have hsame : lowerBound pivots key = j := by omega
    rw [dif_pos (hsame ▸ j.isLt)]
    exact congrArg some (Fin.ext hsame.symm)

/-- On sorted keys the loops put each key in its slot. The invariant is that no key that is left has
its slot before the position in the pivots. -/
theorem mergeKeys_eq {j : Fin pivots.length} {result : List ℕ} (hsorted : keys.Pairwise (· ≤ ·))
    (hj : ∀ key ∈ keys, j ≤ lowerBound pivots key) (hlength : result.length = pivots.length) :
    mergeKeys pivots keys j result = tally (lowerBound pivots) keys result := by
  induction keys generalizing j result with
  | nil => rfl
  | cons key rest ih =>
    have hlater : ∀ later ∈ rest, lowerBound pivots key ≤ lowerBound pivots later :=
      fun later hlater ↦ lowerBound_mono pivots (List.rel_of_pairwise_cons hsorted hlater)
    rw [mergeKeys, skipPivots_eq key j (hj key List.mem_cons_self)]
    by_cases hslot : lowerBound pivots key < pivots.length
    · rw [dif_pos hslot]
      exact ih (List.Pairwise.of_cons hsorted) hlater (by rwa [List.length_modify])
    · rw [dif_neg hslot, tally_of_beyond]
      intro later hlater'
      rcases List.mem_cons.mp hlater' with rfl | hrest
      · omega
      · have hle := hlater later hrest
        omega

end Counts

/-- What `GetHistogram` is for: it counts the keys of the slots, as many as there are keys, in
whatever order they are, and with more workers the sums of their counts; on sorted keys
`getHistogramFromKey` counts the same, but for the keys above the last pivot. -/
structure HistogramOf (keys pivots : List ℤ) (hpivots : 0 < pivots.length) (counts : List ℕ) :
    Prop where
  length : counts.length = pivots.length + 1
  slots : ∀ j ≤ pivots.length, counts[j]? = some (slotCount pivots keys j)
  sum : counts.sum = keys.length
  order : ∀ others : List ℤ, others.Perm keys → getHistogram others pivots = .ok counts
  split : ∀ shards : List (List ℤ), shards.flatten.Perm keys → ∃ parts : List (List ℕ),
    List.Forall₂ (fun shard part ↦ getHistogram shard pivots = .ok part) shards parts ∧
      ∀ j ≤ pivots.length, counts[j]? = some (parts.map fun part ↦ part.getD j 0).sum
  merge : ∀ sorted : List ℤ, sorted.Perm keys → sorted.Pairwise (· ≤ ·) →
    getHistogramFromKey sorted pivots hpivots = counts.take pivots.length

/-- On strictly increasing pivots `GetHistogram` does this. -/
theorem getHistogram_correct (keys : List ℤ) {pivots : List ℤ} (hpositive : 0 < pivots.length)
    (hpivots : pivots.Pairwise (· < ·)) :
    ∃ counts, getHistogram keys pivots = .ok counts ∧
      HistogramOf keys pivots hpositive counts := by
  have hcounted (keys : List ℤ) (j : ℕ) (hj : j ≤ pivots.length) :
      (tally (lowerBound pivots) keys (List.replicate (pivots.length + 1) 0))[j]? =
        some (slotCount pivots keys j) := by
    rw [getElem?_tally, List.getElem?_replicate_of_lt (by omega), placed_lowerBound hpivots hj,
      Option.map_some, Nat.zero_add]
  refine ⟨_, getHistogram_eq hpivots keys, ?_⟩
  constructor
  · simp
  · exact hcounted keys
  · have hall := sum_take_tally (lowerBound pivots) keys (Nat.le_refl (pivots.length + 1))
    rw [List.take_of_length_le (by simp), List.countP_eq_length.mpr] at hall
    · exact hall
    · intro key _
      exact decide_eq_true (Nat.lt_succ_of_le (lowerBound_le pivots key))
  · intro others hperm
    rw [getHistogram_eq hpivots, tally_perm hperm]
  · intro shards hperm
    refine ⟨shards.map fun shard ↦
      tally (lowerBound pivots) shard (List.replicate (pivots.length + 1) 0), ?_, ?_⟩
    · rw [List.forall₂_map_right_iff, List.forall₂_same]
      exact fun shard _ ↦ getHistogram_eq hpivots shard
    · intro j hj
      have hparts : (shards.map fun shard ↦ (tally (lowerBound pivots) shard
          (List.replicate (pivots.length + 1) 0)).getD j 0) =
            shards.map fun shard ↦ slotCount pivots shard j := by
        refine List.map_congr_left fun shard _ ↦ ?_
        rw [List.getD_eq_getElem?_getD, hcounted shard j hj, Option.getD_some]
      rw [hcounted keys j hj, List.map_map, Function.comp_def, hparts, slotCount,
        ← hperm.countP_eq, List.countP_flatten]
      rfl
  · intro sorted hperm hsorted
    rw [getHistogramFromKey, mergeKeys_eq hsorted (fun _ _ ↦ Nat.zero_le _) (by simp)]
    refine List.ext_getElem? fun j ↦ ?_
    rw [List.getElem?_take]
    by_cases hj : j < pivots.length
    · rw [if_pos hj, hcounted keys j hj.le, getElem?_tally, List.getElem?_replicate_of_lt hj,
        placed_lowerBound hpivots hj.le, Option.map_some, Nat.zero_add, slotCount, slotCount,
        hperm.countP_eq]
    · rw [if_neg hj]
      exact List.getElem?_eq_none (by simpa using hj)

/-- Keys that are equal to pivots, between them and above all of them, with repeats. -/
theorem getHistogram_sevens :
    ∃ counts, getHistogram [7, 1, 4, 3, 1, 5, 2, 7] [1, 3, 5] = .ok counts ∧
      HistogramOf [7, 1, 4, 3, 1, 5, 2, 7] [1, 3, 5] (by decide) counts :=
  getHistogram_correct _ (by decide) (by decide)

end MuduoProtorpc.WordFreq
