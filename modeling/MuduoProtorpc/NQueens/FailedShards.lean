import MuduoProtorpc.NQueens.SubProblems
import MuduoProtorpc.NQueens.Totals

/-!
# Shards that failed

In the Go client `solve` returns -1 for a call that failed, and `mapper` and `reducer` take this for
a count. A failed call is so subtracted from the total as often as the client counts its row, and
its placements are missing.

What is printed is then wrong, and cannot be told from a number of placements, unless the failed
calls outweigh the counts that arrive and the total is negative (`neverWrong_iff`). The sums of
`reducer` are `int64` here; the number of rows is sent as an `int32`.
-/

set_option autoImplicit false
set_option relaxedAutoImplicit false

namespace MuduoProtorpc.NQueens

open Foundation

/-! ### The client, with calls that fail -/

/-- The shard of a call, whose reply is a count unless it failed. -/
def replyShard (replies : ℕ × Option ℕ → Option (BitVec 64)) (call : ℕ × Option ℕ) : Shard where
  first_row := call.1
  second_row := call.2.elim (-1) fun row ↦ row
  count := (replies call).elim (-1) BitVec.toInt

/-- `mapper`, with these replies. -/
def failingSystem (N : ℕ) (replies : ℕ × Option ℕ → Option (BitVec 64)) :
    TransitionSystem (FanOut (ℕ × Option ℕ) (List Shard)) ℕ :=
  fanOutSystem (calls N) [] fun result call ↦ some (result ++ [replyShard replies call])

/-- The map `results` of `reducer`, in `int64`. -/
def resultsInt64 (shards : List Shard) : ℕ → BitVec 64 :=
  shards.foldl (fun results shard ↦ Function.update results shard.first_row
    (results shard.first_row + BitVec.ofInt 64 shard.count)) fun _ ↦ 0

/-- `reducer`, in `int64`. -/
def reducerInt64 (N : ℕ) (shards : List Shard) : BitVec 64 :=
  (List.range ((N + 1) / 2)).foldl (fun total i ↦
    if N % 2 = 1 ∧ i = N / 2 then total + resultsInt64 shards i
    else total + 2 * resultsInt64 shards i) 0

/-! ### What the calls are for -/

/-- The queens that a call gives. -/
def queensOf : ℕ × Option ℕ → List (ℕ × ℕ)
  | (first_row, none) => [(0, first_row)]
  | (first_row, some second_row) => [(0, first_row), (1, second_row)]

/-- The count that a call should return. -/
def rightCount (N : ℕ) (call : ℕ × Option ℕ) : ℕ :=
  (placementsThrough N (queensOf call)).card

/-- The calls that do not fail return the right counts. -/
def RightReplies (N : ℕ) (replies : ℕ × Option ℕ → Option (BitVec 64)) : Prop :=
  ∀ call ∈ calls N, ∀ count, replies call = some count → count.toInt = rightCount N call

/-- The counts that arrive, each as often as the client counts its row. -/
def answeredSum (N : ℕ) (replies : ℕ × Option ℕ → Option (BitVec 64)) : ℕ :=
  ((calls N).map fun call ↦
    (replies call).elim 0 fun _ ↦ weight N call.1 * rightCount N call).sum

/-- The calls that fail, each as often as the client counts its row. -/
def failedSum (N : ℕ) (replies : ℕ × Option ℕ → Option (BitVec 64)) : ℕ :=
  ((calls N).map fun call ↦ (replies call).elim (weight N call.1) fun _ ↦ 0).sum

/-- The placements of the calls that fail, likewise. -/
def missingSum (N : ℕ) (replies : ℕ × Option ℕ → Option (BitVec 64)) : ℕ :=
  ((calls N).map fun call ↦
    (replies call).elim (weight N call.1 * rightCount N call) fun _ ↦ 0).sum

/-- The failed calls outweigh the counts that arrive, as an `int64`. -/
def Outweighed (N : ℕ) (replies : ℕ × Option ℕ → Option (BitVec 64)) : Prop :=
  ((answeredSum N replies : ℤ) - failedSum N replies).bmod (2 ^ 64) < 0

/-- When all shards have arrived and a call has failed, what is printed is negative, or right. -/
def NeverWrong (N : ℕ) (replies : ℕ × Option ℕ → Option (BitVec 64)) : Prop :=
  ∀ actions state, (failingSystem N replies).Run actions state → state.pending = [] →
    (∃ call ∈ calls N, replies call = none) →
      ¬ (0 ≤ (reducerInt64 N state.result).toInt ∧
        (reducerInt64 N state.result).toInt ≠ (placements N).card)

section FailedShards

variable {N : ℕ} {replies : ℕ × Option ℕ → Option (BitVec 64)}

/-! ### The total -/

theorem resultsInt64_eq (shards : List Shard) (i : ℕ) :
    resultsInt64 shards i = BitVec.ofInt 64 (results shards i) := by
  rw [resultsInt64, results]
  induction shards using List.reverseRecOn with
  | nil => rfl
  | append_singleton shards shard ih =>
    rw [List.foldl_append, List.foldl_append, List.foldl_cons, List.foldl_cons, List.foldl_nil,
      List.foldl_nil]
    by_cases hrow : i = shard.first_row
    · rw [← hrow, Function.update_self, Function.update_self, ih, BitVec.ofInt_add]
    · rw [Function.update_of_ne hrow, Function.update_of_ne hrow, ih]

/-- The `int64` total is the total modulo `2 ^ 64`. -/
theorem reducerInt64_eq (N : ℕ) (shards : List Shard) :
    reducerInt64 N shards = BitVec.ofInt 64 (reducer N shards) := by
  rw [reducerInt64, reducer]
  induction List.range ((N + 1) / 2) using List.reverseRecOn with
  | nil => rfl
  | append_singleton rows row ih =>
    rw [List.foldl_append, List.foldl_append, List.foldl_cons, List.foldl_cons, List.foldl_nil,
      List.foldl_nil, ih, resultsInt64_eq]
    by_cases hmiddle : N % 2 = 1 ∧ row = N / 2
    · rw [if_pos hmiddle, if_pos hmiddle, BitVec.ofInt_add]
    · rw [if_neg hmiddle, if_neg hmiddle, BitVec.ofInt_add, BitVec.ofInt_mul]
      rfl

/-- The total is the sum of the shards, each as often as the client counts its row. -/
theorem reducer_eq_sum {shards : List Shard}
    (hrows : ∀ shard ∈ shards, shard.first_row < (N + 1) / 2) :
    reducer N shards =
      (shards.map fun shard ↦ (weight N shard.first_row : ℤ) * shard.count).sum := by
  rw [reducer_eq]
  induction shards with
  | nil =>
    apply Finset.sum_eq_zero
    intro i _
    rw [results_eq]
    exact Int.mul_zero _
  | cons shard rest ih =>
    have hrest := ih fun later hlater ↦ hrows later (List.mem_cons_of_mem shard hlater)
    have hrow := hrows shard List.mem_cons_self
    rw [List.map_cons, List.sum_cons, ← hrest]
    simp only [results_eq, List.map_cons, List.sum_cons, Int.mul_add, Finset.sum_add_distrib,
      mul_ite, Int.mul_zero]
    rw [Finset.sum_ite_eq, if_pos (Finset.mem_range.mpr hrow)]

/-- The first row of a call is one of those that are requested. -/
theorem first_row_lt {call : ℕ × Option ℕ} (hcall : call ∈ calls N) : call.1 < (N + 1) / 2 := by
  obtain ⟨i, hi, hshard⟩ := List.mem_flatMap.mp hcall
  have hfirst : call.1 = i := by
    split_ifs at hshard
    · rw [List.mem_singleton.mp hshard]
    · obtain ⟨j, -, rfl⟩ := List.mem_map.mp hshard
      rfl
  rw [hfirst]
  exact List.mem_range.mp hi

/-- What a list of calls adds to the total. -/
theorem sum_replyShard (hright : RightReplies N replies) (part : List (ℕ × Option ℕ))
    (hcalls : ∀ call ∈ part, call ∈ calls N) :
    (part.map fun call ↦
      (weight N call.1 : ℤ) * (replyShard replies call).count).sum =
        ((part.map fun call ↦
          (replies call).elim 0 fun _ ↦ weight N call.1 * rightCount N call).sum : ℕ) -
          ((part.map fun call ↦
            (replies call).elim (weight N call.1) fun _ ↦ 0).sum : ℕ) := by
  induction part with
  | nil => rfl
  | cons call rest ih =>
    have hrest := ih fun later hlater ↦ hcalls later (List.mem_cons_of_mem call hlater)
    simp only [List.map_cons, List.sum_cons, Nat.cast_add, hrest]
    cases hreply : replies call with
    | none =>
      simp only [replyShard, hreply, Option.elim_none, Nat.cast_zero]
      omega
    | some count =>
      have hcount := hright call (hcalls call List.mem_cons_self) count hreply
      simp only [replyShard, hreply, Option.elim_some, hcount, Nat.cast_zero, Nat.cast_mul]
      omega

/-- When all shards have arrived, the total is what arrived less what failed. -/
theorem failingSystem_total (hright : RightReplies N replies) {actions : List ℕ}
    {state : FanOut (ℕ × Option ℕ) (List Shard)}
    (hrun : (failingSystem N replies).Run actions state) (hnone : state.pending = []) :
    reducer N state.result = (answeredSum N replies : ℤ) - failedSum N replies := by
  obtain ⟨order, hperm, hresult⟩ := FanOut.exists_order (fun _ _ _ ↦ rfl) hrun hnone
  have hrows : ∀ shard ∈ order.map (replyShard replies), shard.first_row < (N + 1) / 2 := by
    intro shard hshard
    obtain ⟨call, hcall, rfl⟩ := List.mem_map.mp hshard
    exact first_row_lt (hperm.mem_iff.mp hcall)
  rw [hresult, foldl_shards, reducer_eq_sum hrows, ((hperm.map _).map _).sum_eq, List.map_map]
  exact sum_replyShard hright (calls N) fun _ hcall ↦ hcall

/-! ### The sums -/

/-- The right counts of all calls are the placements. -/
theorem sum_rightCount (hN : 2 ≤ N) :
    ((calls N).map fun call ↦ weight N call.1 * rightCount N call).sum = (placements N).card := by
  rw [sum_calls, card_placements_eq_sum (by omega)]
  refine Finset.sum_congr rfl fun row _ ↦ ?_
  by_cases hfew : N ≤ threshold
  · rw [if_pos hfew]
    exact congrArg (weight N row * ·) (card_through_first (by omega) row)
  · rw [if_neg hfew, completions_eq_sum_range (by omega), Finset.mul_sum]
    refine Finset.sum_congr rfl fun j _ ↦ ?_
    exact congrArg (weight N row * ·) (card_through_second hN row j)

/-- What arrives and what is missing. -/
theorem answeredSum_add_missingSum (hN : 2 ≤ N) :
    answeredSum N replies + missingSum N replies = (placements N).card := by
  rw [answeredSum, missingSum, ← List.sum_map_add, ← sum_rightCount hN]
  refine congrArg List.sum (List.map_congr_left fun call _ ↦ ?_)
  cases replies call with
  | none => exact Nat.zero_add _
  | some count => exact Nat.add_zero _

theorem weight_pos (N column : ℕ) : 0 < weight N column := by
  unfold weight
  split_ifs
  · decide
  · decide

theorem weight_le_two (N column : ℕ) : weight N column ≤ 2 := by
  unfold weight
  split_ifs
  · decide
  · decide

/-- There are so few calls that those that fail do not wrap an `int64`. -/
theorem failedSum_lt (hN : 2 ≤ N) (hint32 : N < 2 ^ 31) : failedSum N replies < 2 ^ 63 := by
  have hcall : ∀ call, (replies call).elim (weight N call.1) (fun _ ↦ 0) ≤ 2 := by
    intro call
    cases replies call with
    | none => exact weight_le_two N call.1
    | some count => exact Nat.zero_le 2
  have hrow : ∀ row, (if N ≤ threshold then (replies (row, none)).elim (weight N row) fun _ ↦ 0
      else ∑ j ∈ Finset.range N, (replies (row, some j)).elim (weight N row) fun _ ↦ 0) ≤
        N * 2 := by
    intro row
    split_ifs
    · exact (hcall (row, none)).trans (by omega)
    · have hsum := Finset.sum_le_card_nsmul (Finset.range N) _ 2 fun j _ ↦ hcall (row, some j)
      rwa [Finset.card_range, nsmul_eq_mul, Nat.cast_id] at hsum
  calc failedSum N replies ≤ (Finset.range ((N + 1) / 2)).card • (N * 2) := by
        rw [failedSum, sum_calls]
        exact Finset.sum_le_card_nsmul _ _ _ fun row _ ↦ hrow row
    _ = (N + 1) / 2 * (N * 2) := by
        rw [Finset.card_range, nsmul_eq_mul, Nat.cast_id]
    _ ≤ 2 ^ 30 * (2 ^ 31 * 2) :=
        Nat.mul_le_mul (by omega) (Nat.mul_le_mul_right 2 hint32.le)
    _ < 2 ^ 63 := by norm_num

theorem failedSum_pos (hfailed : ∃ call ∈ calls N, replies call = none) :
    0 < failedSum N replies := by
  obtain ⟨call, hcall, hnone⟩ := hfailed
  have hterm : (replies call).elim (weight N call.1) (fun _ ↦ 0) = weight N call.1 := by
    rw [hnone, Option.elim_none]
  calc 0 < weight N call.1 := weight_pos N call.1
    _ ≤ failedSum N replies := by
        rw [← hterm]
        exact List.single_le_sum (fun _ _ ↦ Nat.zero_le _) _ (List.mem_map_of_mem hcall)

/-! ### What is printed -/

/-- What is printed, when all shards have arrived. -/
theorem printed_eq (hright : RightReplies N replies) {actions : List ℕ}
    {state : FanOut (ℕ × Option ℕ) (List Shard)}
    (hrun : (failingSystem N replies).Run actions state) (hnone : state.pending = []) :
    (reducerInt64 N state.result).toInt =
      ((answeredSum N replies : ℤ) - failedSum N replies).bmod (2 ^ 64) := by
  rw [reducerInt64_eq, BitVec.toInt_ofInt, failingSystem_total hright hrun hnone]

theorem neverWrong_of_outweighed (hright : RightReplies N replies)
    (houtweighed : Outweighed N replies) : NeverWrong N replies := by
  intro actions state hrun hnone _ hprinted
  rw [printed_eq hright hrun hnone] at hprinted
  exact absurd houtweighed (Int.not_lt.mpr hprinted.1)

/-- What is missing and what was subtracted cannot be a multiple of `2 ^ 64`, so that a number that
is printed in spite of a failed call is not the number of placements. -/
theorem printed_ne (hN : 2 ≤ N) (hint32 : N < 2 ^ 31)
    (hfailed : ∃ call ∈ calls N, replies call = none) :
    ((answeredSum N replies : ℤ) - failedSum N replies).bmod (2 ^ 64) ≠ (placements N).card := by
  intro hprinted
  have hsum : answeredSum N replies + missingSum N replies = (placements N).card :=
    answeredSum_add_missingSum hN
  have hless : failedSum N replies < 2 ^ 63 := failedSum_lt hN hint32
  have hpositive := failedSum_pos hfailed
  have hsmall := Int.bmod_lt (x := (answeredSum N replies : ℤ) - failedSum N replies)
    (show 0 < 2 ^ 64 by decide)
  have hmod := Int.bmod_emod (x := (answeredSum N replies : ℤ) - failedSum N replies) (m := 2 ^ 64)
  rw [hprinted] at hsmall hmod
  norm_num at hsmall hmod
  omega

theorem outweighed_of_neverWrong (hN : 2 ≤ N) (hint32 : N < 2 ^ 31)
    (hright : RightReplies N replies) (hnever : NeverWrong N replies)
    (hfailed : ∃ call ∈ calls N, replies call = none) : Outweighed N replies := by
  have hexists : ∃ actions, arrivals (calls N) actions = calls N ∧
      (failingSystem N replies).Run actions
        { pending := []
          result := (calls N).foldl (fun result call ↦ result ++ [replyShard replies call]) [] } :=
    FanOut.exists_run (fun _ _ _ ↦ rfl) (List.Perm.refl _)
  obtain ⟨actions, -, hrun⟩ := hexists
  have hprinted := hnever actions _ hrun rfl hfailed
  rw [printed_eq hright hrun rfl] at hprinted
  by_contra hpositive
  exact hprinted ⟨Int.not_lt.mp hpositive, printed_ne hN hint32 hfailed⟩

/-- While the placements are fewer than `2 ^ 63` nothing wraps. -/
theorem outweighed_iff (hN : 2 ≤ N) (hint32 : N < 2 ^ 31) (hfew : (placements N).card < 2 ^ 63) :
    Outweighed N replies ↔ answeredSum N replies < failedSum N replies := by
  have hsum : answeredSum N replies + missingSum N replies = (placements N).card :=
    answeredSum_add_missingSum hN
  have hless : failedSum N replies < 2 ^ 63 := failedSum_lt hN hint32
  rw [Outweighed, Int.bmod_eq_of_le (by omega) (by omega)]
  omega

end FailedShards

/-- With a failed call the Go client prints a negative total or the right one, exactly if the failed
calls outweigh the counts that arrive; which on a board with fewer than `2 ^ 63` placements is to
say that these counts add up to less than the failed calls. -/
theorem neverWrong_iff {N : ℕ} (hN : 2 ≤ N) (hint32 : N < 2 ^ 31)
    {replies : ℕ × Option ℕ → Option (BitVec 64)} (hright : RightReplies N replies) :
    (NeverWrong N replies ↔ (∀ call ∈ calls N, replies call ≠ none) ∨ Outweighed N replies) ∧
      ((placements N).card < 2 ^ 63 →
        (Outweighed N replies ↔ answeredSum N replies < failedSum N replies)) := by
  constructor
  · constructor
    · intro hnever
      by_cases hfailed : ∃ call ∈ calls N, replies call = none
      · right
        exact outweighed_of_neverWrong hN hint32 hright hnever hfailed
      · left
        intro call hcall hnone
        exact hfailed ⟨call, hcall, hnone⟩
    · rintro (hall | houtweighed)
      · intro _ _ _ _ hfailed
        obtain ⟨call, hcall, hnone⟩ := hfailed
        exact absurd hnone (hall call hcall)
      · exact neverWrong_of_outweighed hright houtweighed
  · intro hfew
    exact outweighed_iff hN hint32 hfew

/-! ### The replies of the server -/

/-- The server replies to the calls that do not fail. -/
def serverReplies (N : ℕ) (failed : ℕ × Option ℕ → Bool) (call : ℕ × Option ℕ) :
    Option (BitVec 64) :=
  if failed call then none
  else (backtrackingsub N call.1 (call.2.elim (-1) fun row ↦ row)).map (BitVec.ofNat 64)

/-- The reply of the server to a call. -/
theorem backtrackingsub_call {N : ℕ} (hN : 2 ≤ N) (hbound : N ≤ kMaxQueens)
    {call : ℕ × Option ℕ} (hcall : call ∈ calls N) :
    backtrackingsub N call.1 (call.2.elim (-1) fun row ↦ row) = some (rightCount N call) := by
  obtain ⟨i, hi, hshard⟩ := List.mem_flatMap.mp hcall
  have hi := List.mem_range.mp hi
  split_ifs at hshard
  · rw [List.mem_singleton.mp hshard, rightCount, queensOf, card_through_first (by omega)]
    exact backtrackingsub_first hN hbound (by omega)
  · obtain ⟨j, hj, rfl⟩ := List.mem_map.mp hshard
    rw [rightCount, queensOf, card_through_second hN]
    exact backtrackingsub_second hN hbound (by omega) (List.mem_range.mp hj)

/-- On a board that it admits, the server replies with the right counts. -/
theorem rightReplies_server {N : ℕ} (hN : 2 ≤ N) (hbound : N ≤ kMaxQueens)
    (failed : ℕ × Option ℕ → Bool) : RightReplies N (serverReplies N failed) := by
  intro call hcall count hcount
  have hfits : rightCount N call < 2 ^ 63 := by
    calc rightCount N call ≤ (placements N).card := Finset.card_filter_le _ _
      _ < 2 ^ 63 := card_placements_lt hbound
  rw [serverReplies, backtrackingsub_call hN hbound hcall] at hcount
  split_ifs at hcount
  rw [← Option.some.inj hcount, BitVec.toInt_ofNat', Int.bmod_eq_of_le (by omega) (by omega)]

theorem rightCount_four : rightCount 4 (0, none) = 0 ∧ rightCount 4 (1, none) = 1 := by
  rw [rightCount, rightCount, queensOf, queensOf, card_through_first (by decide),
    card_through_first (by decide)]
  constructor
  · decide +kernel
  · decide +kernel

/-- A single call of the board with four rows fails. -/
def failedFour (first_row : ℕ) : ℕ × Option ℕ → Option (BitVec 64) :=
  serverReplies 4 fun call ↦ call.1 = first_row

theorem failedFour_eq {first_row i : ℕ} (hcall : (i, none) ∈ calls 4) :
    failedFour first_row (i, none) =
      if i = first_row then none else some (BitVec.ofNat 64 (rightCount 4 (i, none))) := by
  rw [failedFour, serverReplies, backtrackingsub_call (by decide) (by decide) hcall]
  by_cases hrow : i = first_row
  · rw [if_pos hrow, if_pos (decide_eq_true hrow)]
  · rw [if_neg hrow, if_neg (by simpa using hrow), Option.map_some]

theorem calls_four : calls 4 = [(0, none), (1, none)] := by
  decide

theorem weight_four (first_row : ℕ) : weight 4 first_row = 2 :=
  if_neg fun hmiddle ↦ absurd hmiddle.1 (by decide)

theorem answeredSum_four (replies : ℕ × Option ℕ → Option (BitVec 64)) :
    answeredSum 4 replies =
      ((replies (0, none)).elim 0 fun _ ↦ 0) + (replies (1, none)).elim 0 fun _ ↦ 2 := by
  rw [answeredSum, calls_four, List.map_cons, List.map_singleton, List.sum_cons,
    List.sum_singleton, weight_four, weight_four, rightCount_four.1, rightCount_four.2]

theorem failedSum_four (replies : ℕ × Option ℕ → Option (BitVec 64)) :
    failedSum 4 replies =
      ((replies (0, none)).elim 2 fun _ ↦ 0) + (replies (1, none)).elim 2 fun _ ↦ 0 := by
  rw [failedSum, calls_four, List.map_cons, List.map_singleton, List.sum_cons, List.sum_singleton,
    weight_four, weight_four]

/-- What arrives and what fails, when the call for the corner fails or the one next to it. -/
theorem sums_failedFour :
    (answeredSum 4 (failedFour 0) = 2 ∧ failedSum 4 (failedFour 0) = 2) ∧
      answeredSum 4 (failedFour 1) = 0 ∧ failedSum 4 (failedFour 1) = 2 := by
  have hcorner : ∀ first_row, failedFour first_row (0, none) =
      if 0 = first_row then none else some (BitVec.ofNat 64 0) := by
    intro first_row
    rw [failedFour_eq (by decide), rightCount_four.1]
  have hnext : ∀ first_row, failedFour first_row (1, none) =
      if 1 = first_row then none else some (BitVec.ofNat 64 1) := by
    intro first_row
    rw [failedFour_eq (by decide), rightCount_four.2]
  simp only [answeredSum_four, failedSum_four, hcorner, hnext]
  decide

/-- The call next to the corner fails, and what is printed is negative. -/
theorem neverWrong_four : NeverWrong 4 (failedFour 1) :=
  (neverWrong_iff (by decide) (by decide)
    (rightReplies_server (by decide) (by decide) fun call ↦ call.1 = 1)).1.mpr
    (Or.inr ((outweighed_iff (by decide) (by decide) (card_placements_lt (by decide))).mpr
      (sums_failedFour.2.1.trans_lt (sums_failedFour.2.2 ▸ Nat.two_pos))))

/-- The call for the corner fails, and two placements are printed as none. -/
theorem not_neverWrong_four :
    RightReplies 4 (failedFour 0) ∧ (∃ call ∈ calls 4, failedFour 0 call = none) ∧
      ¬ NeverWrong 4 (failedFour 0) := by
  have hright : RightReplies 4 (failedFour 0) :=
    rightReplies_server (by decide) (by decide) fun call ↦ call.1 = 0
  have hfailed : ∃ call ∈ calls 4, failedFour 0 call = none :=
    ⟨(0, none), by decide, rfl⟩
  refine ⟨hright, hfailed, ?_⟩
  intro hnever
  have houtweighed := outweighed_of_neverWrong (by decide) (by decide) hright hnever hfailed
  rw [outweighed_iff (by decide) (by decide) (card_placements_lt (by decide)),
    sums_failedFour.1.1, sums_failedFour.1.2] at houtweighed
  exact absurd houtweighed (Nat.lt_irrefl 2)

end MuduoProtorpc.NQueens
