import Mathlib.Algebra.BigOperators.Ring.Finset
import MuduoProtorpc.Foundation.Quantile
import MuduoProtorpc.WordFreq.Histogram

/-!
# The pivots of a distributed sort

`partition` of `examples/wordfreq/partition.h`: it asks for histograms over equally spaced pivots
until no slot has too many keys, and then cuts the cumulated histogram into equal shares.

The vector `pivots` is filled in every round of the loop and never cleared. The assertion after
that, on its size, holds in the first round and in no other.
-/

set_option autoImplicit false
set_option relaxedAutoImplicit false

namespace MuduoProtorpc.WordFreq

open Foundation

/-! ### The function -/

/-- What can go wrong in `partition`: an assertion fails, or a vector is accessed at an index that
it does not have. -/
inductive PartitionError
  | assertion (text : String)
  | outOfRange (vector : String)
  deriving DecidableEq

/-- What `partition`, or a part of it, does: its calls of `getHist`, and how it ends. -/
structure PartitionRun (Result : Type) where
  calls : List (List ℤ)
  result : Except PartitionError Result

/-- The number of pivots of a round, and the distance between them. -/
structure Grid where
  nPivots : ℤ
  increment : ℤ

/-- `nPivots` and `increment`, as a round computes them. -/
def grid (maxKey nWorkers slotsPerWorker : ℤ) : Grid :=
  let nPivots := slotsPerWorker * nWorkers
  let increment := maxKey.tdiv nPivots
  if increment = 0 then { nPivots := maxKey, increment := 1 }
  else { nPivots := nPivots, increment := increment }

/-- The pivots that a round pushes back. -/
def newPivots (maxKey : ℤ) (grid : Grid) : List ℤ :=
  ((List.range (grid.nPivots.toNat - 1)).map fun i : ℕ ↦ ((i : ℤ) + 1) * grid.increment) ++
    [maxKey]

/-- What the loop of `partition` leaves for the rest of it. -/
structure LoopResult where
  nPivots : ℤ
  pivots : List ℤ
  histogram : List ℤ

/-- The loop of `partition`, with the slots for each worker and the pivots that a round starts
with. -/
def histogramLoop (maxKey keyCount nWorkers : ℤ) (getHist : List ℤ → List ℤ)
    (slotsPerWorker : { slots : ℕ // 0 < slots }) (pivots : List ℤ) : PartitionRun LoopResult :=
  let grid := grid maxKey nWorkers slotsPerWorker
  let pivots := pivots ++ newPivots maxKey grid
  if (pivots.length : ℤ) ≠ grid.nPivots then {
    calls := []
    result := .error (.assertion "pivots.size() == static_cast<size_t>(nPivots)") }
  else
    let histogram := getHist pivots
    let retry := histogram.any fun count ↦ decide (count > (2 * keyCount).tdiv grid.nPivots)
    if retry = true ∧ (slotsPerWorker : ℕ) ≤ 1024 then
      let later := histogramLoop maxKey keyCount nWorkers getHist
        ⟨slotsPerWorker * 2, Nat.mul_pos slotsPerWorker.2 Nat.two_pos⟩ pivots
      { later with calls := pivots :: later.calls }
    else {
      calls := [pivots]
      result := .ok { nPivots := grid.nPivots, pivots := pivots, histogram := histogram } }
termination_by 2049 - (slotsPerWorker : ℕ)
decreasing_by omega

/-- `std::partial_sum`, from a sum on. -/
def partialSums (sum : ℤ) : List ℤ → List ℤ
  | [] => []
  | count :: rest => (sum + count) :: partialSums (sum + count) rest

/-- The pivot where the cumulated counts first reach a value: `std::lower_bound` of the cumulated
counts, which are in ascending order. -/
def cut (pivots cum : List ℤ) (value : ℤ) : Except PartitionError ℤ :=
  let it := cum.findIdx fun sum ↦ decide (value ≤ sum)
  if it = cum.length then .error (.assertion "it != cum.end()")
  else
    match pivots[it]? with
    | none => .error (.outOfRange "pivots")
    | some pivot => .ok pivot

/-- What `partition` does behind its loop. -/
def cutAll (maxKey keyCount nWorkers : ℤ) (loop : LoopResult) :
    Except PartitionError (List ℤ) :=
  if (loop.histogram.length : ℤ) > loop.nPivots then .error (.outOfRange "cum")
  else
    let cum := partialSums 0 loop.histogram ++
      List.replicate (loop.nPivots.toNat - loop.histogram.length) 0
    match cum.getLast? with
    | none => .error (.outOfRange "cum")
    | some back =>
      if back ≠ keyCount then .error (.assertion "cum.back() == keyCount")
      else
        let perWorker := keyCount.tdiv nWorkers
        let cuts := (List.range (nWorkers.toNat - 1)).mapM fun i : ℕ ↦
          cut loop.pivots cum (((i : ℤ) + 1) * perWorker)
        match cuts with
        | .error failure => .error failure
        | .ok cuts =>
          let result := cuts ++ [maxKey]
          if (result.length : ℤ) ≠ nWorkers then
            .error (.assertion "result.size() == static_cast<size_t>(nWorkers)")
          else .ok result

/-- `partition`. Its last assertion is on the element that was just pushed back. -/
def partition (maxKey keyCount nWorkers : ℤ) (getHist : List ℤ → List ℤ) :
    PartitionRun (List ℤ) :=
  if ¬ maxKey > 0 then { calls := [], result := .error (.assertion "maxKey > 0") }
  else if ¬ keyCount > 0 then { calls := [], result := .error (.assertion "keyCount > 0") }
  else if ¬ nWorkers > 0 then { calls := [], result := .error (.assertion "nWorkers > 0") }
  else
    let loop := histogramLoop maxKey keyCount nWorkers getHist ⟨32, by decide⟩ []
    { calls := loop.calls, result := loop.result.bind (cutAll maxKey keyCount nWorkers) }

/-! ### The pivots of a round -/

section Grid

variable {maxKey nWorkers slotsPerWorker : ℤ}

/-- A round has pivots, and they are in the range of the keys. -/
structure Grid.Fits (grid : Grid) (maxKey : ℤ) : Prop where
  nPivots : 0 < grid.nPivots
  increment : 0 < grid.increment
  range : grid.nPivots * grid.increment ≤ maxKey

theorem grid_fits (hmax : 0 < maxKey) (hworkers : 0 < nWorkers) (hslots : 0 < slotsPerWorker) :
    (grid maxKey nWorkers slotsPerWorker).Fits maxKey := by
  have hnPivots := mul_pos hslots hworkers
  unfold grid
  dsimp only
  by_cases hzero : maxKey.tdiv (slotsPerWorker * nWorkers) = 0
  · rw [if_pos hzero]
    exact ⟨hmax, Int.one_pos, (mul_one maxKey).le⟩
  · rw [if_neg hzero]
    have hnonneg := Int.tdiv_nonneg hmax.le hnPivots.le
    refine ⟨hnPivots, lt_of_le_of_ne hnonneg (Ne.symm hzero), ?_⟩
    rw [Int.tdiv_eq_ediv_of_nonneg hmax.le]
    exact Int.mul_ediv_self_le hnPivots.ne'

variable {grid : Grid}

theorem length_newPivots (hfits : grid.Fits maxKey) :
    ((newPivots maxKey grid).length : ℤ) = grid.nPivots := by
  have hpositive := hfits.nPivots
  simp only [newPivots, List.length_append, List.length_map, List.length_range,
    List.length_singleton]
  omega

theorem getLast?_newPivots (maxKey : ℤ) (grid : Grid) :
    (newPivots maxKey grid).getLast? = some maxKey := by
  simp [newPivots]

/-- The pivots of a round are strictly increasing. -/
theorem pairwise_newPivots (hfits : grid.Fits maxKey) :
    (newPivots maxKey grid).Pairwise (· < ·) := by
  obtain ⟨hpositive, hincrement, hrange⟩ := hfits
  rw [newPivots, List.pairwise_append]
  refine ⟨?_, List.pairwise_singleton _ _, fun pivot hpivot last hlast ↦ ?_⟩
  · rw [List.pairwise_map]
    refine List.pairwise_lt_range.imp fun hless ↦ ?_
    exact Int.mul_lt_mul_of_pos_right (by omega) hincrement
  · obtain ⟨i, hi, rfl⟩ := List.mem_map.mp hpivot
    rw [List.mem_range] at hi
    rw [List.mem_singleton.mp hlast]
    calc ((i : ℤ) + 1) * grid.increment < grid.nPivots * grid.increment :=
          Int.mul_lt_mul_of_pos_right (by omega) hincrement
      _ ≤ maxKey := hrange

end Grid

/-! ### The rounds of the loop -/

/-- `getHist` returns the number of keys in each slot, when its pivots are strictly increasing. -/
def ExactHistogram (keys : List ℤ) (getHist : List ℤ → List ℤ) : Prop :=
  ∀ pivots : List ℤ, pivots ≠ [] → pivots.Pairwise (· < ·) →
    getHist pivots = (List.range pivots.length).map fun j : ℕ ↦ (slotCount pivots keys j : ℤ)

/-- The grid of the first round. -/
def firstGrid (maxKey nWorkers : ℤ) : Grid :=
  grid maxKey nWorkers 32

/-- The pivots of the first round. -/
def firstPivots (maxKey nWorkers : ℤ) : List ℤ :=
  newPivots maxKey (firstGrid maxKey nWorkers)

/-- The greatest count in the first round that does not make `partition` retry. -/
def threshold (maxKey keyCount nWorkers : ℤ) : ℤ :=
  (2 * keyCount).tdiv (firstGrid maxKey nWorkers).nPivots

/-- The first histogram is accepted: no slot has too many keys. -/
def FirstAccepted (maxKey nWorkers : ℤ) (keys : List ℤ) : Prop :=
  ∀ j < (firstPivots maxKey nWorkers).length,
    (slotCount (firstPivots maxKey nWorkers) keys j : ℤ) ≤ threshold maxKey keys.length nWorkers

instance (maxKey nWorkers : ℤ) (keys : List ℤ) :
    Decidable (FirstAccepted maxKey nWorkers keys) := by
  unfold FirstAccepted
  infer_instance

section Rounds

variable {maxKey nWorkers : ℤ} {keys : List ℤ} {getHist : List ℤ → List ℤ}

theorem firstGrid_fits (hmax : 0 < maxKey) (hworkers : 0 < nWorkers) :
    (firstGrid maxKey nWorkers).Fits maxKey :=
  grid_fits hmax hworkers (by decide)

theorem length_firstPivots (hmax : 0 < maxKey) (hworkers : 0 < nWorkers) :
    ((firstPivots maxKey nWorkers).length : ℤ) = (firstGrid maxKey nWorkers).nPivots :=
  length_newPivots (firstGrid_fits hmax hworkers)

theorem firstPivots_ne_nil (maxKey nWorkers : ℤ) : firstPivots maxKey nWorkers ≠ [] := by
  simp [firstPivots, newPivots]

theorem pairwise_firstPivots (hmax : 0 < maxKey) (hworkers : 0 < nWorkers) :
    (firstPivots maxKey nWorkers).Pairwise (· < ·) :=
  pairwise_newPivots (firstGrid_fits hmax hworkers)

/-- A round that starts with pivots does not end: the assertion on their number fails. -/
theorem histogramLoop_again {pivots : List ℤ} (hpivots : pivots ≠ []) (hmax : 0 < maxKey)
    (hworkers : 0 < nWorkers) (keyCount : ℤ) (slotsPerWorker : { slots : ℕ // 0 < slots }) :
    histogramLoop maxKey keyCount nWorkers getHist slotsPerWorker pivots = {
      calls := []
      result := .error (.assertion "pivots.size() == static_cast<size_t>(nPivots)") } := by
  have hslots : (0 : ℤ) < (slotsPerWorker : ℕ) := by exact_mod_cast slotsPerWorker.2
  have hlength := length_newPivots (grid_fits hmax hworkers hslots)
  have hpositive := List.length_pos_iff.mpr hpivots
  rw [histogramLoop, if_pos]
  rw [List.length_append, Nat.cast_add, hlength]
  omega

/-- The first round is the last if its histogram is accepted; else the next round fails. -/
theorem histogramLoop_first (hmax : 0 < maxKey) (hworkers : 0 < nWorkers)
    (hhist : ExactHistogram keys getHist) :
    histogramLoop maxKey keys.length nWorkers getHist ⟨32, by decide⟩ [] = {
      calls := [firstPivots maxKey nWorkers]
      result := if FirstAccepted maxKey nWorkers keys then .ok {
          nPivots := (firstGrid maxKey nWorkers).nPivots
          pivots := firstPivots maxKey nWorkers
          histogram := (List.range (firstPivots maxKey nWorkers).length).map fun j : ℕ ↦
            (slotCount (firstPivots maxKey nWorkers) keys j : ℤ) }
        else .error (.assertion "pivots.size() == static_cast<size_t>(nPivots)") } := by
  have hlength := length_firstPivots hmax hworkers
  have hcounts := hhist _ (firstPivots_ne_nil maxKey nWorkers) (pairwise_firstPivots hmax hworkers)
  have hretry : ((getHist (firstPivots maxKey nWorkers)).any fun count ↦
      decide (count > threshold maxKey keys.length nWorkers)) = true ↔
        ¬ FirstAccepted maxKey nWorkers keys := by
    rw [hcounts]
    simp [FirstAccepted]
  have hround : histogramLoop maxKey keys.length nWorkers getHist ⟨32, by decide⟩ [] =
      if ((firstPivots maxKey nWorkers).length : ℤ) ≠ (firstGrid maxKey nWorkers).nPivots then {
        calls := []
        result := .error (.assertion "pivots.size() == static_cast<size_t>(nPivots)") }
      else if ((getHist (firstPivots maxKey nWorkers)).any fun count ↦
          decide (count > threshold maxKey keys.length nWorkers)) = true ∧ 32 ≤ 1024 then
        let later := histogramLoop maxKey keys.length nWorkers getHist ⟨32 * 2, by decide⟩
          (firstPivots maxKey nWorkers)
        { later with calls := firstPivots maxKey nWorkers :: later.calls }
      else {
        calls := [firstPivots maxKey nWorkers]
        result := .ok {
          nPivots := (firstGrid maxKey nWorkers).nPivots
          pivots := firstPivots maxKey nWorkers
          histogram := getHist (firstPivots maxKey nWorkers) } } := by
    rw [histogramLoop]
    rfl
  rw [hround, if_neg (not_not.mpr hlength)]
  by_cases haccepted : FirstAccepted maxKey nWorkers keys
  · rw [if_neg, if_pos haccepted, ← hcounts]
    rintro ⟨hany, -⟩
    exact hretry.mp hany haccepted
  · rw [if_pos ⟨hretry.mpr haccepted, by decide⟩, if_neg haccepted,
      histogramLoop_again (firstPivots_ne_nil maxKey nWorkers) hmax hworkers]

end Rounds

/-! ### The cumulated counts -/

section Cuts

variable {maxKey : ℤ} {pivots keys : List ℤ} {nWorkers : ℕ}

theorem getElem?_partialSums (sum : ℤ) (counts : List ℤ) (i : ℕ) : (partialSums sum counts)[i]? =
    if i < counts.length then some (sum + (counts.take (i + 1)).sum) else none := by
  induction counts generalizing sum i with
  | nil => simp [partialSums]
  | cons count rest ih =>
    cases i with
    | zero => simp [partialSums]
    | succ i =>
      rw [partialSums, List.getElem?_cons_succ, ih, List.take_succ_cons, List.sum_cons,
        List.length_cons, Int.add_assoc]
      simp

/-- The slot counts are those of a table to which each key is added. -/
theorem slotCounts_eq (hpivots : pivots.Pairwise (· < ·)) (keys : List ℤ) :
    ((List.range pivots.length).map fun j : ℕ ↦ (slotCount pivots keys j : ℤ)) =
      (tally (lowerBound pivots) keys (List.replicate pivots.length 0)).map Nat.cast := by
  refine List.ext_getElem? fun j ↦ ?_
  rw [List.getElem?_map, List.getElem?_map, getElem?_tally]
  by_cases hj : j < pivots.length
  · rw [List.getElem?_range hj, List.getElem?_replicate_of_lt hj, placed_lowerBound hpivots hj.le]
    simp
  · rw [List.getElem?_eq_none (by simpa using hj), List.getElem?_eq_none (by simpa using hj)]
    rfl

/-- The cumulated counts are the numbers of keys up to each pivot. -/
theorem partialSums_eq (hpivots : pivots.Pairwise (· < ·)) (keys : List ℤ) :
    partialSums 0 ((List.range pivots.length).map fun j : ℕ ↦ (slotCount pivots keys j : ℤ)) =
      pivots.map fun pivot ↦ (countUpTo keys pivot : ℤ) := by
  refine List.ext_getElem? fun i ↦ ?_
  rw [getElem?_partialSums, List.getElem?_map, List.length_map, List.length_range]
  by_cases hi : i < pivots.length
  · have hsum := sum_take_tally (lowerBound pivots) keys (Nat.succ_le_of_lt hi)
    rw [countP_lowerBound (hpivots.imp le_of_lt) keys hi] at hsum
    rw [if_pos hi, List.getElem?_eq_getElem hi, slotCounts_eq hpivots, ← List.map_take,
      ← Nat.cast_list_sum, hsum, Int.zero_add]
    rfl
  · rw [if_neg hi, List.getElem?_eq_none (Nat.le_of_not_lt hi)]
    rfl

/-- A cut is at the first pivot that is reached. -/
theorem exists_cut (hpivots : pivots.Pairwise (· < ·)) {number : ℕ}
    (hreached : ∃ pivot ∈ pivots, number ≤ countUpTo keys pivot) :
    ∃ pivot, cut pivots (pivots.map fun pivot ↦ (countUpTo keys pivot : ℤ)) number = .ok pivot ∧
      FirstReaching pivots keys number pivot := by
  obtain ⟨last, hlast, hmany⟩ := hreached
  have hsome : (pivots.find? fun pivot ↦ decide (number ≤ countUpTo keys pivot)).isSome := by
    rw [List.find?_isSome]
    exact ⟨last, hlast, decide_eq_true hmany⟩
  obtain ⟨pivot, hfound⟩ := Option.isSome_iff_exists.mp hsome
  refine ⟨pivot, ?_, firstReaching_of_find? hpivots hfound⟩
  have hindex : (pivots.map fun pivot ↦ (countUpTo keys pivot : ℤ)).findIdx
      (fun sum ↦ decide ((number : ℤ) ≤ sum)) =
        pivots.findIdx fun pivot ↦ decide (number ≤ countUpTo keys pivot) := by
    rw [List.findIdx_map]
    congr 1
    funext pivot
    simp
  have hless : pivots.findIdx (fun pivot ↦ decide (number ≤ countUpTo keys pivot)) <
      pivots.length :=
    List.findIdx_lt_length.mpr ⟨last, hlast, decide_eq_true hmany⟩
  rw [List.find?_eq_getElem?_findIdx] at hfound
  rw [cut, hindex, List.length_map, if_neg hless.ne, hfound]

theorem mapM_ok {Input Output Failure : Type*} {step : Input → Except Failure Output}
    {output : Input → Output} {inputs : List Input}
    (hsteps : ∀ input ∈ inputs, step input = .ok (output input)) :
    inputs.mapM step = .ok (inputs.map output) := by
  induction inputs with
  | nil => rfl
  | cons input rest ih =>
    rw [List.mapM_cons, hsteps input List.mem_cons_self,
      ih fun later hlater ↦ hsteps later (List.mem_cons_of_mem input hlater)]
    rfl

/-- The cuts are at the first pivots where each worker but the last has its share. -/
structure CutsOf (pivots keys : List ℤ) (nWorkers : ℕ) (cuts : List ℤ) : Prop where
  length : cuts.length = nWorkers - 1
  first : ∀ i (hi : i < cuts.length),
    FirstReaching pivots keys ((i + 1) * (keys.length / nWorkers)) cuts[i]

/-- Behind the loop nothing fails, if the keys are up to the last pivot. -/
theorem cutAll_eq (hpivots : pivots.Pairwise (· < ·)) (hlast : pivots.getLast? = some maxKey)
    (hkeys : ∀ key ∈ keys, key ≤ maxKey) (hworkers : 0 < nWorkers) :
    ∃ cuts, CutsOf pivots keys nWorkers cuts ∧
      cutAll maxKey keys.length nWorkers {
        nPivots := pivots.length
        pivots := pivots
        histogram := (List.range pivots.length).map fun j : ℕ ↦ (slotCount pivots keys j : ℤ) } =
          .ok (cuts ++ [maxKey]) := by
  have hall : countUpTo keys maxKey = keys.length := countUpTo_eq_length hkeys
  have hcut : ∀ i, i < nWorkers - 1 → ∃ pivot,
      cut pivots (pivots.map fun pivot ↦ (countUpTo keys pivot : ℤ))
        (((i + 1) * (keys.length / nWorkers) : ℕ) : ℤ) = .ok pivot ∧
          FirstReaching pivots keys ((i + 1) * (keys.length / nWorkers)) pivot := by
    intro i hi
    refine exists_cut hpivots ⟨maxKey, List.mem_of_getLast? hlast, ?_⟩
    calc (i + 1) * (keys.length / nWorkers) ≤ nWorkers * (keys.length / nWorkers) :=
          Nat.mul_le_mul_right _ (by omega)
      _ ≤ keys.length := Nat.mul_div_le _ _
      _ = countUpTo keys maxKey := hall.symm
  choose! cutOf hcutOf hfirst using hcut
  refine ⟨(List.range (nWorkers - 1)).map cutOf, ⟨by simp, fun i hi ↦ ?_⟩, ?_⟩
  · rw [List.length_map, List.length_range] at hi
    simpa using hfirst i hi
  · have hcuts : (List.range (nWorkers - 1)).mapM (fun i : ℕ ↦
        cut pivots (pivots.map fun pivot ↦ (countUpTo keys pivot : ℤ))
          (((i : ℤ) + 1) * (keys.length : ℤ).tdiv nWorkers)) =
            .ok ((List.range (nWorkers - 1)).map cutOf) := by
      refine mapM_ok fun i hi ↦ ?_
      rw [← hcutOf i (List.mem_range.mp hi)]
      congr 1
    have hback : (pivots.map fun pivot ↦ (countUpTo keys pivot : ℤ)).getLast? =
        some (keys.length : ℤ) := by
      rw [List.getLast?_map, hlast, Option.map_some, hall]
    have hlength : ((((List.range (nWorkers - 1)).map cutOf ++ [maxKey]).length : ℕ) : ℤ) =
        nWorkers := by
      simp only [List.length_append, List.length_map, List.length_range, List.length_singleton]
      omega
    rw [cutAll]
    simp only [List.length_map, List.length_range, gt_iff_lt, lt_irrefl, if_false,
      Int.toNat_natCast, Nat.sub_self, List.replicate_zero, List.append_nil, partialSums_eq hpivots,
      hback, hcuts, hlength, ne_eq, not_true_eq_false]

/-- When the first histogram is accepted, `partition` calls `getHist` once and returns the cuts. -/
theorem partition_of_accepted {getHist : List ℤ → List ℤ} (hmax : 0 < maxKey)
    (hworkers : 0 < nWorkers) (hkeys : ∀ key ∈ keys, key ≤ maxKey) (hmem : maxKey ∈ keys)
    (hhist : ExactHistogram keys getHist) (haccepted : FirstAccepted maxKey nWorkers keys) :
    ∃ cuts, CutsOf (firstPivots maxKey nWorkers) keys nWorkers cuts ∧
      partition maxKey keys.length nWorkers getHist = {
        calls := [firstPivots maxKey nWorkers]
        result := .ok (cuts ++ [maxKey]) } := by
  have hcount : (0 : ℤ) < keys.length := by exact_mod_cast List.length_pos_of_mem hmem
  have hnumber : (0 : ℤ) < nWorkers := by exact_mod_cast hworkers
  obtain ⟨cuts, hcuts, hresult⟩ := cutAll_eq (pairwise_firstPivots hmax hnumber)
    (getLast?_newPivots maxKey (firstGrid maxKey nWorkers)) hkeys hworkers
  refine ⟨cuts, hcuts, ?_⟩
  rw [partition, if_neg (not_not.mpr hmax), if_neg (not_not.mpr hcount),
    if_neg (not_not.mpr hnumber)]
  dsimp only
  rw [histogramLoop_first hmax hnumber hhist, if_pos haccepted, Except.bind, ← hresult,
    length_firstPivots hmax hnumber]

/-- When it is not, an assertion fails in the second round. -/
theorem partition_of_rejected {getHist : List ℤ → List ℤ} (hmax : 0 < maxKey)
    (hworkers : 0 < nWorkers) (hmem : maxKey ∈ keys) (hhist : ExactHistogram keys getHist)
    (hrejected : ¬ FirstAccepted maxKey nWorkers keys) :
    (partition maxKey keys.length nWorkers getHist).result =
      .error (.assertion "pivots.size() == static_cast<size_t>(nPivots)") := by
  have hcount : (0 : ℤ) < keys.length := by exact_mod_cast List.length_pos_of_mem hmem
  have hnumber : (0 : ℤ) < nWorkers := by exact_mod_cast hworkers
  rw [partition, if_neg (not_not.mpr hmax), if_neg (not_not.mpr hcount),
    if_neg (not_not.mpr hnumber)]
  dsimp only
  rw [histogramLoop_first hmax hnumber hhist, if_neg hrejected]
  rfl

end Cuts

/-! ### When `partition` is right -/

/-- What `partition` is for: it calls `getHist` with strictly increasing pivots that end in the
greatest key, nothing fails, and it returns one pivot for each worker, in ascending order, the last
being the greatest key. -/
structure PartitionCorrect (maxKey : ℤ) (nWorkers : ℕ) (run : PartitionRun (List ℤ)) : Prop where
  calls : ∀ pivots ∈ run.calls, pivots.Pairwise (· < ·) ∧ pivots.getLast? = some maxKey
  result : ∃ result, run.result = .ok result ∧ result.length = nWorkers ∧
    result.Pairwise (· ≤ ·) ∧ result.getLast? = some maxKey

section Correct

variable {maxKey : ℤ} {pivots keys cuts : List ℤ} {nWorkers : ℕ}

/-- The cuts are in ascending order, and none is above the last pivot. -/
theorem CutsOf.pairwise (hcuts : CutsOf pivots keys nWorkers cuts)
    (hlast : ∀ pivot ∈ pivots, pivot ≤ maxKey) : (cuts ++ [maxKey]).Pairwise (· ≤ ·) := by
  rw [List.pairwise_append]
  refine ⟨?_, List.pairwise_singleton _ _, fun pivot hpivot last hend ↦ ?_⟩
  · refine List.pairwise_iff_getElem.mpr fun i j hi hj hless ↦ ?_
    exact (hcuts.first i hi).mono (hcuts.first j hj) (Nat.mul_le_mul_right _ (by omega))
  · obtain ⟨i, hi, rfl⟩ := List.getElem_of_mem hpivot
    rw [List.mem_singleton.mp hend]
    exact hlast _ (hcuts.first i hi).mem

/-- The last of ascending pivots is the greatest. -/
theorem le_of_getLast? (hpivots : pivots.Pairwise (· < ·)) (hlast : pivots.getLast? = some maxKey) :
    ∀ pivot ∈ pivots, pivot ≤ maxKey := by
  intro pivot hpivot
  obtain ⟨before, rfl⟩ := List.getLast?_eq_some_iff.mp hlast
  rw [List.pairwise_append] at hpivots
  rcases List.mem_append.mp hpivot with hbefore | hend
  · exact (hpivots.2.2 pivot hbefore maxKey List.mem_cons_self).le
  · exact (List.mem_singleton.mp hend).le

end Correct

/-- `partition` is right if and only if its first histogram is accepted. -/
theorem partition_correct_iff {maxKey : ℤ} {nWorkers : ℕ} {keys : List ℤ}
    {getHist : List ℤ → List ℤ} (hworkers : 1 ≤ nWorkers)
    (hkeys : ∀ key ∈ keys, 1 ≤ key ∧ key ≤ maxKey) (hmem : maxKey ∈ keys)
    (hhist : ExactHistogram keys getHist) :
    PartitionCorrect maxKey nWorkers (partition maxKey keys.length nWorkers getHist) ↔
      FirstAccepted maxKey nWorkers keys := by
  have hmax : 0 < maxKey := (hkeys maxKey hmem).1
  constructor
  · intro hcorrect
    by_contra hrejected
    obtain ⟨result, hresult, -⟩ := hcorrect.result
    rw [partition_of_rejected hmax hworkers hmem hhist hrejected] at hresult
    cases hresult
  · intro haccepted
    have hpivots := pairwise_firstPivots hmax (show (0 : ℤ) < nWorkers by exact_mod_cast hworkers)
    have hlast := getLast?_newPivots maxKey (firstGrid maxKey nWorkers)
    obtain ⟨cuts, hcuts, hrun⟩ := partition_of_accepted hmax hworkers (fun key hkey ↦
      (hkeys key hkey).2) hmem hhist haccepted
    rw [hrun]
    constructor
    · intro pivots hcall
      rw [List.mem_singleton.mp hcall]
      exact ⟨hpivots, hlast⟩
    · refine ⟨_, rfl, ?_, hcuts.pairwise (le_of_getLast? hpivots hlast), by simp⟩
      rw [List.length_append, hcuts.length, List.length_singleton]
      omega

/-- What the tests pass as `getHist`: `getHistogramFromKey`, bound to sorted keys. -/
def histogramFromKey (keys pivots : List ℤ) : List ℤ :=
  if hpivots : 0 < pivots.length then
    (getHistogramFromKey keys pivots hpivots).map fun count : ℕ ↦ (count : ℤ)
  else []

theorem exactHistogram_fromKey {keys : List ℤ} (hsorted : keys.Pairwise (· ≤ ·)) :
    ExactHistogram keys (histogramFromKey keys) := by
  intro pivots hne hpivots
  rw [histogramFromKey, dif_pos (List.length_pos_iff.mpr hne), slotCounts_eq hpivots,
    getHistogramFromKey, mergeKeys_eq hsorted (fun _ _ ↦ Nat.zero_le _) (by simp)]

/-- The keys of the first test. -/
def fiveKeys : List ℤ :=
  [1, 2, 3, 4, 5]

theorem partition_correct_five : PartitionCorrect 5 2
    (partition 5 fiveKeys.length (2 : ℕ) (histogramFromKey fiveKeys)) :=
  (partition_correct_iff (by decide) (by decide) (by decide)
    (exactHistogram_fromKey (by decide))).mpr (by decide)

/-- Four of five keys are the same, and a second round is needed. -/
theorem not_partition_correct :
    ¬ ∀ (maxKey : ℤ) (nWorkers : ℕ) (keys : List ℤ) (getHist : List ℤ → List ℤ), 1 ≤ nWorkers →
      (∀ key ∈ keys, 1 ≤ key ∧ key ≤ maxKey) → maxKey ∈ keys → ExactHistogram keys getHist →
        PartitionCorrect maxKey nWorkers (partition maxKey keys.length nWorkers getHist) := by
  intro hall
  have hsorted : [1, 1, 1, 1, (5 : ℤ)].Pairwise (· ≤ ·) := by decide
  have hhist := exactHistogram_fromKey hsorted
  obtain ⟨result, hresult, -⟩ := (hall 5 1 [1, 1, 1, 1, 5] _ (by decide) (by decide) (by decide)
    hhist).result
  rw [partition_of_rejected (by decide) (by decide) (by decide) hhist (by decide)] at hresult
  cases hresult

end MuduoProtorpc.WordFreq
