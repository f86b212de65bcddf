import MuduoProtorpc.WordFreq.Batches
import MuduoProtorpc.WordFreq.Partition

/-!
# The shares of the workers

When the first histogram is accepted, the pivots of `partition` give every worker an equal share of
the keys, up to the number of keys in one slot (`partition_balanced`). Two cuts may fall in one
slot, though, and then the pivots are not strictly increasing, as `ShuffleKey` wants them
(`partition_usable_iff`).
-/

set_option autoImplicit false
set_option relaxedAutoImplicit false

namespace MuduoProtorpc.WordFreq

open Foundation

/-! ### Balance -/

/-- Up to the pivot of each worker but the last there are as many keys as the shares up to it, and
not too many more; so each worker receives its share, and the last one what is left over. -/
structure Balanced (keys : List ℤ) (nWorkers : ℕ) (threshold : ℤ) (result : List ℤ) : Prop where
  upTo : ∀ i, 1 ≤ i → i < nWorkers → ∃ pivot ∈ result[i - 1]?,
    i * (keys.length / nWorkers) ≤ countUpTo keys pivot ∧
      countUpTo keys pivot ≤ (i * (keys.length / nWorkers) : ℕ) + threshold
  share : ∀ part, part + 1 < nWorkers →
    (keys.length / nWorkers : ℕ) - threshold ≤ (keysOfPart result part keys).length ∧
      (keysOfPart result part keys).length ≤ (keys.length / nWorkers : ℕ) + threshold
  last : 2 ≤ nWorkers →
    (keys.length / nWorkers + keys.length % nWorkers : ℕ) - threshold ≤
        (keysOfPart result (nWorkers - 1) keys).length ∧
      (keysOfPart result (nWorkers - 1) keys).length ≤
        keys.length / nWorkers + keys.length % nWorkers

section Balance

variable {maxKey threshold : ℤ} {pivots keys cuts result : List ℤ} {nWorkers number : ℕ}

/-- Up to the first pivot that is reached, there are more keys than asked for by no more than what
is in its slot. -/
theorem countUpTo_le_of_firstReaching (hpivots : pivots.Pairwise (· < ·)) {pivot : ℤ}
    (hfirst : FirstReaching pivots keys number pivot)
    (hslots : ∀ j < pivots.length, (slotCount pivots keys j : ℤ) ≤ threshold) :
    (countUpTo keys pivot : ℤ) ≤ number + threshold := by
  obtain ⟨j, hj, rfl⟩ := List.getElem_of_mem hfirst.mem
  have hslot := hslots j hj
  have hupTo := countP_lowerBound (hpivots.imp le_of_lt) keys hj
  rw [countP_lt_succ, placed_lowerBound hpivots hj.le] at hupTo
  have hbefore : keys.countP (fun key ↦ decide (lowerBound pivots key < j)) ≤ number := by
    by_cases hzero : j = 0
    · simp [hzero]
    · obtain ⟨before, rfl⟩ := Nat.exists_eq_succ_of_ne_zero hzero
      have hless : before < pivots.length := by omega
      rw [countP_lowerBound (hpivots.imp le_of_lt) keys hless]
      refine (hfirst.first _ (List.getElem_mem hless) ?_).le
      exact List.pairwise_iff_getElem.mp hpivots before (before + 1) hless hj (Nat.lt_succ_self _)
  omega

/-- What a worker receives are the keys up to its pivot, but for those up to the one before it. -/
theorem length_keysOfPart (keys : List ℤ) (hresult : result.Pairwise (· ≤ ·)) {part : ℕ}
    (hpart : part < result.length) : (keysOfPart result part keys).length +
      keys.countP (fun key ↦ decide (lowerBound result key < part)) =
        countUpTo keys result[part] := by
  rw [← countP_lowerBound hresult keys hpart, countP_lt_succ, keysOfPart,
    ← List.countP_eq_length_filter, Nat.add_comm]
  rfl

theorem CutsOf.length_result (hcuts : CutsOf pivots keys nWorkers cuts) (hworkers : 1 ≤ nWorkers)
    (maxKey : ℤ) : (cuts ++ [maxKey]).length = nWorkers := by
  rw [List.length_append, hcuts.length, List.length_singleton]
  omega

/-- The pivots of a result, by the cuts they are. -/
theorem CutsOf.getElem? (hcuts : CutsOf pivots keys nWorkers cuts) (maxKey : ℤ) {part : ℕ}
    (hpart : part + 1 < nWorkers) : ∃ pivot, (cuts ++ [maxKey])[part]? = some pivot ∧
      FirstReaching pivots keys ((part + 1) * (keys.length / nWorkers)) pivot := by
  have hlength : part < cuts.length := by
    rw [hcuts.length]
    omega
  refine ⟨cuts[part], ?_, hcuts.first part hlength⟩
  rw [List.getElem?_append_left hlength, List.getElem?_eq_getElem hlength]

/-- The keys up to a pivot of a result are those of the parts up to its own, and at most `threshold`
more. -/
theorem CutsOf.upTo (hcuts : CutsOf pivots keys nWorkers cuts)
    (hpivots : pivots.Pairwise (· < ·))
    (hslots : ∀ j < pivots.length, (slotCount pivots keys j : ℤ) ≤ threshold) (maxKey : ℤ)
    {part : ℕ} (hpart : part + 1 < nWorkers) : ∃ pivot, (cuts ++ [maxKey])[part]? = some pivot ∧
      (part + 1) * (keys.length / nWorkers) ≤ countUpTo keys pivot ∧
        (countUpTo keys pivot : ℤ) ≤
          ((part + 1) * (keys.length / nWorkers) : ℕ) + threshold := by
  obtain ⟨pivot, hpivot, hfirst⟩ := hcuts.getElem? maxKey hpart
  exact ⟨pivot, hpivot, hfirst.reached, countUpTo_le_of_firstReaching hpivots hfirst hslots⟩

/-- The keys before a part, counted by the parts before it. -/
theorem CutsOf.before (hcuts : CutsOf pivots keys nWorkers cuts)
    (hpivots : pivots.Pairwise (· < ·)) (hlast : ∀ pivot ∈ pivots, pivot ≤ maxKey)
    (hnonneg : 0 ≤ threshold)
    (hslots : ∀ j < pivots.length, (slotCount pivots keys j : ℤ) ≤ threshold) {part : ℕ}
    (hpart : part < nWorkers) : part * (keys.length / nWorkers) ≤
      keys.countP (fun key ↦ decide (lowerBound (cuts ++ [maxKey]) key < part)) ∧
        (keys.countP (fun key ↦ decide (lowerBound (cuts ++ [maxKey]) key < part)) : ℤ) ≤
          (part * (keys.length / nWorkers) : ℕ) + threshold := by
  cases part with
  | zero => simpa using hnonneg
  | succ part =>
    obtain ⟨pivot, hpivot, hlow, hhigh⟩ := hcuts.upTo hpivots hslots maxKey hpart
    obtain ⟨hthere, rfl⟩ := List.getElem?_eq_some_iff.mp hpivot
    rw [countP_lowerBound (hcuts.pairwise hlast) keys hthere]
    exact ⟨hlow, hhigh⟩

/-- The cuts of an accepted histogram give equal shares. -/
theorem CutsOf.balanced (hcuts : CutsOf pivots keys nWorkers cuts)
    (hpivots : pivots.Pairwise (· < ·)) (hlast : ∀ pivot ∈ pivots, pivot ≤ maxKey)
    (hkeys : ∀ key ∈ keys, key ≤ maxKey) (hworkers : 1 ≤ nWorkers) (hnonneg : 0 ≤ threshold)
    (hslots : ∀ j < pivots.length, (slotCount pivots keys j : ℤ) ≤ threshold) :
    Balanced keys nWorkers threshold (cuts ++ [maxKey]) := by
  have hsorted := hcuts.pairwise hlast
  have hlength := hcuts.length_result hworkers maxKey
  have hupTo (part : ℕ) (hpart : part + 1 < nWorkers) :=
    hcuts.upTo hpivots hslots maxKey hpart
  have hbefore (part : ℕ) (hpart : part < nWorkers) :=
    hcuts.before hpivots hlast hnonneg hslots hpart
  generalize hshare : keys.length / nWorkers = share at hupTo hbefore
  constructor
  · intro i hpositive hi
    obtain ⟨part, rfl⟩ := Nat.exists_eq_succ_of_ne_zero (Nat.pos_iff_ne_zero.mp hpositive)
    obtain ⟨pivot, hpivot, hbounds⟩ := hupTo part hi
    rw [hshare]
    exact ⟨pivot, hpivot, hbounds⟩
  · intro part hpart
    obtain ⟨pivot, hpivot, hlow, hhigh⟩ := hupTo part hpart
    obtain ⟨hlowBefore, hhighBefore⟩ := hbefore part (by omega)
    obtain ⟨hthere, rfl⟩ := List.getElem?_eq_some_iff.mp hpivot
    have hreceived := length_keysOfPart keys hsorted hthere
    rw [Nat.succ_mul] at hlow hhigh
    rw [hshare]
    omega
  · intro htwo
    obtain ⟨hlow, hhigh⟩ := hbefore (nWorkers - 1) (by omega)
    have hthere : nWorkers - 1 < (cuts ++ [maxKey]).length := by omega
    have hend : (cuts ++ [maxKey])[nWorkers - 1] = maxKey := by
      rw [List.getElem_append_right (by rw [hcuts.length])]
      simp
    have hreceived := length_keysOfPart keys hsorted hthere
    rw [hend, countUpTo_eq_length hkeys, ← Nat.div_add_mod keys.length nWorkers, hshare]
      at hreceived
    obtain ⟨before, rfl⟩ := Nat.exists_eq_succ_of_ne_zero (Nat.pos_iff_ne_zero.mp hworkers)
    rw [Nat.succ_mul] at hreceived
    rw [hshare]
    simp only [Nat.succ_sub_one] at hlow hhigh hreceived ⊢
    omega

theorem threshold_nonneg {keyCount : ℤ} {nWorkers : ℤ} (hmax : 0 < maxKey)
    (hworkers : 0 < nWorkers) (hcount : 0 ≤ keyCount) :
    0 ≤ WordFreq.threshold maxKey keyCount nWorkers :=
  Int.tdiv_nonneg (by omega) (firstGrid_fits hmax hworkers).nPivots.le

end Balance

/-- When the first histogram is accepted, `partition` returns pivots that give equal shares, up to
the number of keys that a slot may hold. -/
theorem partition_balanced {maxKey : ℤ} {nWorkers : ℕ} {keys : List ℤ}
    {getHist : List ℤ → List ℤ} (hworkers : 1 ≤ nWorkers) (hmax : 0 < maxKey)
    (hmem : maxKey ∈ keys) (hkeys : ∀ key ∈ keys, key ≤ maxKey)
    (hhist : ExactHistogram keys getHist) (haccepted : FirstAccepted maxKey nWorkers keys) :
    ∃ result, (partition maxKey keys.length nWorkers getHist).result = .ok result ∧
      result.length = nWorkers ∧
        Balanced keys nWorkers (threshold maxKey keys.length nWorkers) result := by
  have hnumber : (0 : ℤ) < nWorkers := by exact_mod_cast hworkers
  have hpivots := pairwise_firstPivots hmax hnumber
  have hlast := le_of_getLast? hpivots (getLast?_newPivots maxKey (firstGrid maxKey nWorkers))
  obtain ⟨cuts, hcuts, hrun⟩ := partition_of_accepted hmax hworkers hkeys hmem hhist haccepted
  refine ⟨cuts ++ [maxKey], by rw [hrun], ?_, ?_⟩
  · rw [List.length_append, hcuts.length, List.length_singleton]
    omega
  · exact hcuts.balanced hpivots hlast hkeys hworkers
      (threshold_nonneg hmax hnumber (Int.natCast_nonneg _)) haccepted

/-- Twelve keys, some of them repeated. -/
def twelveKeys : List ℤ :=
  [-2, 1, 2, 2, 3, 3, 4, 5, 5, 6, 7, 7]

theorem partition_balanced_twelve : ∃ result,
    (partition 7 twelveKeys.length (3 : ℕ) (histogramFromKey twelveKeys)).result = .ok result ∧
      result.length = 3 ∧ Balanced twelveKeys 3 (threshold 7 twelveKeys.length (3 : ℕ)) result :=
  partition_balanced (by decide) (by decide) (by decide) (by decide)
    (exactHistogram_fromKey (by decide)) (by decide)

/-! ### What `ShuffleKey` accepts -/

/-- Some pivot below the greatest key lies between the shares of each worker but the last and those
of the next: up to it there are as many keys as the shares of the workers so far, and fewer than
with one share more. -/
def Spread (maxKey : ℤ) (nWorkers : ℕ) (keys : List ℤ) : Prop :=
  ∀ i, 1 ≤ i → i < nWorkers → ∃ pivot ∈ firstPivots maxKey nWorkers, pivot < maxKey ∧
    i * (keys.length / nWorkers) ≤ countUpTo keys pivot ∧
      (i + 1 < nWorkers → countUpTo keys pivot < (i + 1) * (keys.length / nWorkers))

/-- Every worker that has some of the keys accepts the pivots. -/
def Usable (nWorkers : ℕ) (keys : List ℤ) (run : PartitionRun (List ℤ)) : Prop :=
  ∃ result, run.result = .ok result ∧ ∀ workerKeys : List ℤ, workerKeys.Subperm keys →
    acceptsPivots nWorkers workerKeys result = some true

section Usable

variable {maxKey : ℤ} {keys cuts result : List ℤ} {nWorkers : ℕ}

/-- The greatest key of a worker is not above a bound of its keys. -/
theorem maxKey_le {bound : ℤ} (hnonneg : 0 ≤ bound) (hkeys : ∀ key ∈ keys, key ≤ bound) :
    WordFreq.maxKey keys ≤ bound := by
  unfold WordFreq.maxKey
  generalize (0 : ℤ) = largest at hnonneg
  induction keys generalizing largest with
  | nil => exact hnonneg
  | cons key rest ih =>
    refine ih (fun later hlater ↦ hkeys later (List.mem_cons_of_mem key hlater)) _ ?_
    show (if key > largest then key else largest) ≤ bound
    split_ifs
    · exact hkeys key List.mem_cons_self
    · exact hnonneg

/-- Of what `ShuffleKey` checks, only the order can fail. -/
theorem accepts_iff (hmax : 0 < maxKey) (hkeys : ∀ key ∈ keys, key ≤ maxKey)
    (hlength : result.length = nWorkers) (hlast : result.getLast? = some maxKey)
    {workerKeys : List ℤ} (hsome : workerKeys.Subperm keys) :
    acceptsPivots nWorkers workerKeys result = some true ↔ result.Pairwise (· < ·) := by
  have hbound : WordFreq.maxKey workerKeys ≤ maxKey :=
    maxKey_le hmax.le fun key hkey ↦ hkeys key (hsome.subset hkey)
  have hsorted : isSorted result = true ↔ result.Pairwise (· < ·) :=
    ⟨pairwise_of_isSorted, isSorted_of_pairwise⟩
  rw [acceptsPivots, if_neg (not_not.mpr hlength), hlast]
  simp only [hbound, decide_true, Bool.true_and, Option.some.injEq, hsorted]

/-- The cuts are strictly increasing if and only if they are spread. -/
theorem CutsOf.pairwise_lt_iff (hcuts : CutsOf (firstPivots maxKey nWorkers) keys nWorkers cuts) :
    (cuts ++ [maxKey]).Pairwise (· < ·) ↔ Spread maxKey nWorkers keys := by
  have hlength := hcuts.length
  rw [List.pairwise_append]
  constructor
  · rintro ⟨hincreasing, -, hbelow⟩ i hpositive hi
    obtain ⟨part, rfl⟩ := Nat.exists_eq_succ_of_ne_zero (Nat.pos_iff_ne_zero.mp hpositive)
    have hpart : part < cuts.length := by omega
    have hfirst := hcuts.first part hpart
    refine ⟨cuts[part], hfirst.mem, ?_, hfirst.reached, fun hnext ↦ ?_⟩
    · exact hbelow _ (List.getElem_mem hpart) maxKey List.mem_cons_self
    · have hlater : part + 1 < cuts.length := by omega
      refine (hcuts.first (part + 1) hlater).first _ hfirst.mem ?_
      exact List.pairwise_iff_getElem.mp hincreasing part (part + 1) hpart hlater (by omega)
  · intro hspread
    refine ⟨?_, List.pairwise_singleton _ _, fun pivot hpivot last hlast ↦ ?_⟩
    · refine List.pairwise_iff_getElem.mpr fun i j hi hj hless ↦ ?_
      obtain ⟨between, hmem, -, hmany, hfew⟩ := hspread (i + 1) (by omega) (by omega)
      rw [(hcuts.first i hi).lt_iff (hcuts.first j hj)]
      refine ⟨between, hmem, hmany, (hfew (by omega)).trans_le ?_⟩
      exact Nat.mul_le_mul_right _ (by omega)
    · obtain ⟨i, hi, rfl⟩ := List.getElem_of_mem hpivot
      obtain ⟨between, hmem, hless, hmany, -⟩ := hspread (i + 1) (by omega) (by omega)
      rw [List.mem_singleton.mp hlast]
      refine lt_of_le_of_lt ?_ hless
      by_contra hnot
      have hfew := (hcuts.first i hi).first between hmem (not_le.mp hnot)
      omega

/-- The workers accept the pivots if and only if these are strictly increasing. -/
theorem usable_iff_pairwise {getHist : List ℤ → List ℤ} (hworkers : 1 ≤ nWorkers)
    (hmax : 0 < maxKey) (hmem : maxKey ∈ keys) (hkeys : ∀ key ∈ keys, key ≤ maxKey)
    (hhist : ExactHistogram keys getHist) (haccepted : FirstAccepted maxKey nWorkers keys) :
    ∃ cuts, CutsOf (firstPivots maxKey nWorkers) keys nWorkers cuts ∧
      (Usable nWorkers keys (partition maxKey keys.length nWorkers getHist) ↔
        (cuts ++ [maxKey]).Pairwise (· < ·)) := by
  obtain ⟨cuts, hcuts, hrun⟩ := partition_of_accepted hmax hworkers hkeys hmem hhist haccepted
  have hlength := hcuts.length_result hworkers maxKey
  have haccepts {workerKeys : List ℤ} (hsome : workerKeys.Subperm keys) :
      acceptsPivots nWorkers workerKeys (cuts ++ [maxKey]) = some true ↔
        (cuts ++ [maxKey]).Pairwise (· < ·) :=
    accepts_iff hmax hkeys hlength (by simp) hsome
  refine ⟨cuts, hcuts, ?_⟩
  rw [Usable, hrun]
  constructor
  · rintro ⟨result, hresult, hall⟩
    obtain rfl : cuts ++ [maxKey] = result := Except.ok.inj hresult
    exact (haccepts List.nil_subperm).mp (hall [] List.nil_subperm)
  · intro hincreasing
    exact ⟨_, rfl, fun workerKeys hsome ↦ (haccepts hsome).mpr hincreasing⟩

end Usable

/-- When the first histogram is accepted, the workers accept the pivots of `partition` if and only
if these are spread. -/
theorem partition_usable_iff {maxKey : ℤ} {nWorkers : ℕ} {keys : List ℤ}
    {getHist : List ℤ → List ℤ} (hworkers : 1 ≤ nWorkers) (hmax : 0 < maxKey)
    (hmem : maxKey ∈ keys) (hkeys : ∀ key ∈ keys, key ≤ maxKey)
    (hhist : ExactHistogram keys getHist) (haccepted : FirstAccepted maxKey nWorkers keys) :
    Usable nWorkers keys (partition maxKey keys.length nWorkers getHist) ↔
      Spread maxKey nWorkers keys := by
  obtain ⟨cuts, hcuts, hiff⟩ :=
    usable_iff_pairwise hworkers hmax hmem hkeys hhist haccepted
  rw [hiff, hcuts.pairwise_lt_iff]

theorem partition_usable_twelve :
    Usable 3 twelveKeys (partition 7 twelveKeys.length (3 : ℕ) (histogramFromKey twelveKeys)) ↔
      Spread 7 3 twelveKeys :=
  partition_usable_iff (by decide) (by decide) (by decide) (by decide)
    (exactHistogram_fromKey (by decide)) (by decide)

/-- Two workers and two keys that are the same: both workers get the same pivot. -/
theorem not_partition_usable :
    ¬ ∀ (maxKey : ℤ) (nWorkers : ℕ) (keys : List ℤ) (getHist : List ℤ → List ℤ), 1 ≤ nWorkers →
      0 < maxKey → maxKey ∈ keys → (∀ key ∈ keys, key ≤ maxKey) → ExactHistogram keys getHist →
        FirstAccepted maxKey nWorkers keys →
          Usable nWorkers keys (partition maxKey keys.length nWorkers getHist) := by
  intro hall
  have hsorted : [2, (2 : ℤ)].Pairwise (· ≤ ·) := by decide
  have hhist := exactHistogram_fromKey hsorted
  have haccepted : FirstAccepted 2 (2 : ℕ) [2, 2] := by decide
  have husable := hall 2 2 [2, 2] _ (by decide) (by decide) (by decide) (by decide) hhist haccepted
  obtain ⟨cuts, hcuts, hiff⟩ := usable_iff_pairwise (by decide) (by decide) (by decide) (by decide)
    hhist haccepted
  obtain ⟨pivot, hmem, hless, hmany, -⟩ :=
    hcuts.pairwise_lt_iff.mp (hiff.mp husable) 1 (by decide) (by decide)
  have hpivots : firstPivots 2 (2 : ℕ) = [1, 2] := by decide
  have hcount : countUpTo [2, (2 : ℤ)] 1 = 0 := by decide
  obtain rfl : pivot = 1 := by
    rw [hpivots] at hmem
    simp only [List.mem_cons, List.not_mem_nil, or_false] at hmem
    omega
  rw [hcount] at hmany
  exact absurd hmany (by decide)

end MuduoProtorpc.WordFreq
