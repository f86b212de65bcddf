import Mathlib.Algebra.BigOperators.Intervals
import Mathlib.Algebra.BigOperators.Ring.Finset
import Mathlib.Algebra.Order.BigOperators.Group.Finset
import Mathlib.Tactic.NormNum
import MuduoProtorpc.NQueens.Clients
import MuduoProtorpc.NQueens.Masks

/-!
# The totals of the clients

A column of the first row and its mirror image have as many placements, so that half of the columns
are enough, the column in the middle of an odd board counting once (`card_placements_eq_sum`). Both
clients compute this sum, whatever the order of the responses (`totalsCorrect`).
-/

set_option autoImplicit false
set_option relaxedAutoImplicit false

namespace MuduoProtorpc.NQueens

open Foundation

/-! ### Half of the columns -/

/-- How often the clients count the placements of a column. -/
def weight (N column : ℕ) : ℕ :=
  if N % 2 = 1 ∧ column = N / 2 then 1 else 2

section Mirror

variable {N : ℕ}

/-- A column of the first row, or its mirror image, is among the columns that are requested, and it
is the only one. -/
theorem requests_unique {column : ℕ} (hcolumn : column < N) :
    ∃! request, request ∈ requests N ∧ (column = request ∨ column = N - 1 - request) := by
  by_cases hleft : column < (N + 1) / 2
  · refine ⟨column, ⟨List.mem_range.mpr hleft, Or.inl rfl⟩, ?_⟩
    rintro request ⟨hrequest, hsame | hmirrored⟩
    · exact hsame.symm
    · have hbound := List.mem_range.mp hrequest
      omega
  · refine ⟨N - 1 - column, ⟨List.mem_range.mpr (by omega), Or.inr (by omega)⟩, ?_⟩
    rintro request ⟨hrequest, hsame | hmirrored⟩
    · have hbound := List.mem_range.mp hrequest
      omega
    · have hbound := List.mem_range.mp hrequest
      omega

/-- A column is counted once for itself, and once for its mirror image if this is another. -/
theorem weight_eq_card {request : ℕ} (hrequest : request ∈ requests N) :
    weight N request = ({request, N - 1 - request} : Finset ℕ).card := by
  have hbound := List.mem_range.mp hrequest
  unfold weight
  by_cases hmiddle : N % 2 = 1 ∧ request = N / 2
  · have hsame : N - 1 - request = request := by omega
    rw [if_pos hmiddle, hsame]
    simp
  · have hother : request ≠ N - 1 - request := by omega
    rw [if_neg hmiddle, Finset.card_pair hother]

/-- The right half of a range that reads the same backwards sums up to what the left half does. -/
theorem sum_right_half (half middle : ℕ) (hmiddle : N = middle + half) {value : ℕ → ℕ}
    (hmirror : ∀ column < N, value (N - 1 - column) = value column) :
    ∑ column ∈ Finset.range half, value (middle + column) =
      ∑ column ∈ Finset.range half, value column := by
  rw [← Finset.sum_range_reflect]
  refine Finset.sum_congr rfl fun column hcolumn ↦ ?_
  rw [Finset.mem_range] at hcolumn
  rw [← hmirror column (by omega)]
  congr 1
  omega

/-- The sum over a range that reads the same backwards. -/
theorem sum_range_mirror {value : ℕ → ℕ}
    (hmirror : ∀ column < N, value (N - 1 - column) = value column) :
    ∑ column ∈ Finset.range N, value column =
      ∑ column ∈ Finset.range ((N + 1) / 2), weight N column * value column := by
  rcases Nat.even_or_odd' N with ⟨half, rfl | rfl⟩
  · have hhalf : (2 * half + 1) / 2 = half := by omega
    have hright := sum_right_half half half (by omega) hmirror
    rw [hhalf, Nat.two_mul, Finset.sum_range_add, hright, ← Finset.sum_add_distrib]
    refine Finset.sum_congr rfl fun column _ ↦ ?_
    rw [weight, if_neg (by omega)]
    omega
  · have hhalf : (2 * half + 1 + 1) / 2 = half + 1 := by omega
    have hright := sum_right_half half (half + 1) (by omega) hmirror
    have hsplit : 2 * half + 1 = half + 1 + half := by omega
    have hleft : ∑ column ∈ Finset.range half, weight (2 * half + 1) column * value column =
        ∑ column ∈ Finset.range half, 2 * value column := by
      refine Finset.sum_congr rfl fun column hcolumn ↦ ?_
      rw [Finset.mem_range] at hcolumn
      rw [weight, if_neg (by omega)]
    rw [hhalf, Finset.sum_range_succ (fun column ↦ weight (2 * half + 1) column * value column),
      hleft, ← Finset.mul_sum, weight, if_pos (by omega), hsplit, Finset.sum_range_add, hright,
      Finset.sum_range_succ]
    omega

/-- The placements, counted by half of the columns of the first row. -/
theorem card_placements_eq_sum (hN : 0 < N) : (placements N).card =
    ∑ column ∈ Finset.range ((N + 1) / 2), weight N column * completions N 1 fun _ ↦ column := by
  rw [card_placements N fun _ ↦ 0, completions_eq_sum_range hN, ← sum_range_mirror]
  · refine Finset.sum_congr rfl fun column _ ↦ completions_congr fun earlier hearlier ↦ ?_
    rw [Nat.lt_one_iff.mp hearlier, Function.update_self]
  · intro column hcolumn
    exact (completions_mirror fun _ _ ↦ hcolumn).symm

end Mirror

/-! ### The C++ client -/

section Cpp

variable {N : ℕ}

/-- The callback for a response, when the server replies. -/
def addResponse (N : ℕ) (client : Client) (col : ℕ) : Client where
  g_got := client.g_got + 1
  g_total := client.g_total + weight N col * completions N 1 fun _ ↦ col
  logged := if client.g_got + 1 = (N + 1) / 2 then
      client.logged ++ [client.g_total + weight N col * completions N 1 fun _ ↦ col]
    else client.logged

theorem onResponse_eq (hN : 2 ≤ N) (hbound : N ≤ kMaxQueens) (client : Client) {col : ℕ}
    (hcol : col ∈ requests N) : onResponse N client col = some (addResponse N client col) := by
  have hcol := List.mem_range.mp hcol
  unfold onResponse addResponse weight
  rw [backtrackingsub_first hN hbound (by omega)]
  by_cases hmiddle : N % 2 = 1 ∧ col = N / 2
  · simp only [if_pos hmiddle, Nat.one_mul]
  · simp only [if_neg hmiddle]

/-- What the client knows after some responses: their number and their sum, and the total, if these
are all. -/
theorem foldl_addResponse (N : ℕ) (hpositive : 0 < (N + 1) / 2) (order : List ℕ)
    (hlength : order.length ≤ (N + 1) / 2) :
    (order.foldl (addResponse N) {}).g_got = order.length ∧
      (order.foldl (addResponse N) {}).g_total =
        (order.map fun col ↦ weight N col * completions N 1 fun _ ↦ col).sum ∧
      (order.foldl (addResponse N) {}).logged = if order.length = (N + 1) / 2 then
        [(order.map fun col ↦ weight N col * completions N 1 fun _ ↦ col).sum] else [] := by
  induction order using List.reverseRecOn with
  | nil => exact ⟨rfl, rfl, by rw [List.length_nil, if_neg hpositive.ne]; rfl⟩
  | append_singleton order col ih =>
    rw [List.length_append, List.length_singleton] at hlength ⊢
    obtain ⟨hgot, htotal, hlogged⟩ := ih (by omega)
    rw [if_neg (by omega)] at hlogged
    rw [List.foldl_append, List.map_append, List.sum_append, ← htotal]
    simp only [List.foldl_cons, List.foldl_nil, List.map_cons, List.map_nil, List.sum_cons,
      List.sum_nil, Nat.add_zero]
    refine ⟨congrArg (· + 1) hgot, rfl, ?_⟩
    simp only [addResponse, hgot, hlogged, List.nil_append]

theorem sum_map_range {Value : Type*} [AddCommMonoid Value] (value : ℕ → Value) (count : ℕ) :
    ((List.range count).map value).sum = ∑ i ∈ Finset.range count, value i := by
  rw [← List.sum_toFinset value List.nodup_range, List.toFinset_range]

/-- When all responses have arrived, in whatever order, the client has the number of placements. -/
theorem clientSystem_total (hN : 2 ≤ N) (hbound : N ≤ kMaxQueens) {actions : List ℕ}
    {state : FanOut ℕ Client} (hrun : (clientSystem N).Run actions state)
    (hnone : state.pending = []) : state.result = {
      g_got := (N + 1) / 2
      g_total := (placements N).card
      logged := [(placements N).card] } := by
  obtain ⟨order, hperm, hresult⟩ := FanOut.exists_order
    (fun client col hcol ↦ onResponse_eq hN hbound client hcol) hrun hnone
  have hlength : order.length = (N + 1) / 2 := hperm.length_eq.trans List.length_range
  have hsum : (order.map fun col ↦ weight N col * completions N 1 fun _ ↦ col).sum =
      (placements N).card := by
    rw [(hperm.map _).sum_eq, requests, sum_map_range, card_placements_eq_sum (by omega)]
  obtain ⟨hgot, htotal, hlogged⟩ := foldl_addResponse N (by omega) order hlength.le
  rw [if_pos hlength] at hlogged
  rw [hlength] at hgot
  rw [hsum] at htotal hlogged
  rw [hresult]
  exact Client.ext hgot htotal hlogged

end Cpp

/-! ### The Go client -/

section Go

variable {N i : ℕ}

/-- What the map of `reducer` has for a row is the sum of the shards of this row. -/
theorem results_eq (shards : List Shard) (i : ℕ) : results shards i =
    (shards.map fun shard ↦ if shard.first_row = i then shard.count else 0).sum := by
  have hfold : ∀ (shards : List Shard) (known : ℕ → ℤ),
      shards.foldl (fun results shard ↦ Function.update results shard.first_row
        (results shard.first_row + shard.count)) known i =
          known i +
            (shards.map fun shard ↦ if shard.first_row = i then shard.count else 0).sum := by
    intro shards
    induction shards with
    | nil => exact fun known ↦ (Int.add_zero _).symm
    | cons shard rest ih =>
      intro known
      rw [List.foldl_cons, ih, List.map_cons, List.sum_cons]
      by_cases hrow : shard.first_row = i
      · rw [hrow, Function.update_self, if_pos rfl, Int.add_assoc]
      · rw [Function.update_of_ne (Ne.symm hrow), if_neg hrow, Int.zero_add]
  exact (hfold shards _).trans (Int.zero_add _)

/-- The total of `reducer` is the weighted sum of the rows. -/
theorem reducer_eq (N : ℕ) (shards : List Shard) : reducer N shards =
    ∑ i ∈ Finset.range ((N + 1) / 2), (weight N i : ℤ) * results shards i := by
  have hfold : ∀ (rows : List ℕ) (total : ℤ), rows.foldl (fun total i ↦
      if N % 2 = 1 ∧ i = N / 2 then total + results shards i
      else total + 2 * results shards i) total =
        total + (rows.map fun i ↦ (weight N i : ℤ) * results shards i).sum := by
    intro rows
    induction rows with
    | nil => exact fun total ↦ (Int.add_zero _).symm
    | cons row rest ih =>
      intro total
      rw [List.foldl_cons, ih, List.map_cons, List.sum_cons, ← Int.add_assoc]
      congr 1
      unfold weight
      by_cases hmiddle : N % 2 = 1 ∧ row = N / 2
      · rw [if_pos hmiddle, if_pos hmiddle, Nat.cast_one, Int.one_mul]
      · rw [if_neg hmiddle, if_neg hmiddle, Nat.cast_two]
  rw [reducer, hfold, Int.zero_add, sum_map_range]

/-- A call with a first row alone. -/
theorem solve_first (hN : 2 ≤ N) (hbound : N ≤ kMaxQueens) (hi : i < N) :
    solve N i none = completions N 1 fun _ ↦ i := by
  have hreply := backtrackingsub_first hN hbound hi
  unfold solve
  rw [Option.elim_none, hreply]

/-- The calls with a first row and each second row. -/
theorem sum_solve_second (hN : 3 ≤ N) (hbound : N ≤ kMaxQueens) (hi : i < N) :
    ∑ j ∈ Finset.range N, solve N i (some j) = completions N 1 fun _ ↦ i := by
  rw [completions_eq_sum_range (by omega), Nat.cast_sum]
  refine Finset.sum_congr rfl fun j hj ↦ ?_
  have hreply := backtrackingsub_second (by omega) hbound hi (Finset.mem_range.mp hj)
  unfold solve
  rw [Option.elim_some, hreply]

/-- A sum over the calls, by their first row. -/
theorem sum_calls {Value : Type*} [AddCommMonoid Value] (N : ℕ) (value : ℕ × Option ℕ → Value) :
    ((calls N).map value).sum = ∑ row ∈ Finset.range ((N + 1) / 2),
      if N ≤ threshold then value (row, none)
      else ∑ j ∈ Finset.range N, value (row, some j) := by
  rw [calls, List.map_flatMap, List.flatMap_def, List.sum_flatten, List.map_map, sum_map_range]
  refine Finset.sum_congr rfl fun row _ ↦ ?_
  rw [Function.comp_apply]
  by_cases hfew : N ≤ threshold
  · rw [if_pos hfew, if_pos hfew, List.map_singleton, List.sum_singleton]
  · rw [if_neg hfew, if_neg hfew, List.map_map, sum_map_range]
    rfl

/-- The calls for a row add up to its placements, with either sharding. -/
theorem sum_shards (hN : 2 ≤ N) (hbound : N ≤ kMaxQueens) (hi : i < (N + 1) / 2) :
    (((calls N).map (shardOf N)).map fun shard ↦
      if shard.first_row = i then shard.count else 0).sum = completions N 1 fun _ ↦ i := by
  rw [List.map_map, sum_calls, Finset.sum_eq_single i]
  · by_cases hfew : N ≤ threshold
    · rw [if_pos hfew]
      exact (if_pos rfl).trans (solve_first hN hbound (by omega))
    · have hthreshold : threshold = 14 := rfl
      rw [if_neg hfew, ← sum_solve_second (by omega) hbound (show i < N by omega)]
      refine Finset.sum_congr rfl fun j _ ↦ ?_
      exact if_pos rfl
  · intro row _ hother
    split_ifs
    · exact if_neg hother
    · exact Finset.sum_eq_zero fun j _ ↦ if_neg hother
  · intro hmissing
    exact absurd (Finset.mem_range.mpr hi) hmissing

/-- The shards in the order in which their calls return. -/
theorem foldl_shards (shard : ℕ × Option ℕ → Shard) (order : List (ℕ × Option ℕ)) :
    order.foldl (fun result call ↦ result ++ [shard call]) [] = order.map shard := by
  induction order using List.reverseRecOn with
  | nil => rfl
  | append_singleton order call ih =>
    rw [List.foldl_append, ih, List.map_append]
    rfl

/-- When all shards have arrived, in whatever order, the reducer has the number of placements. -/
theorem mapperSystem_total (hN : 2 ≤ N) (hbound : N ≤ kMaxQueens) {actions : List ℕ}
    {state : FanOut (ℕ × Option ℕ) (List Shard)} (hrun : (mapperSystem N).Run actions state)
    (hnone : state.pending = []) : reducer N state.result = (placements N).card := by
  obtain ⟨order, hperm, hresult⟩ := FanOut.exists_order (fun _ _ _ ↦ rfl) hrun hnone
  rw [hresult, foldl_shards, reducer_eq, card_placements_eq_sum (by omega), Nat.cast_sum]
  refine Finset.sum_congr rfl fun i hi ↦ ?_
  rw [results_eq, ((hperm.map _).map _).sum_eq, sum_shards hN hbound (Finset.mem_range.mp hi),
    Nat.cast_mul]

end Go

/-! ### Both totals -/

/-- There are so few placements that the counts of the server and the clients do not overflow. -/
theorem card_placements_lt {N : ℕ} (hbound : N ≤ kMaxQueens) : (placements N).card < 2 ^ 63 := by
  rw [card_placements N fun _ ↦ 0]
  calc completions N 0 (fun _ ↦ 0) ≤ N.factorial := completions_le_factorial N 0 _
    _ ≤ kMaxQueens.factorial := Nat.factorial_le hbound
    _ < 2 ^ 63 := by decide

/-- For every board that the server admits, both clients get the number of placements, in whatever
order the responses arrive; they can arrive in every order, and each of them that has not arrived
can be the next; and every column of the first row is counted once, by itself or by its mirror
image. -/
structure TotalsCorrect (N : ℕ) : Prop where
  cpp : ∀ actions state, (clientSystem N).Run actions state → state.pending = [] →
    state.result.g_total = (placements N).card ∧ state.result.logged = [(placements N).card]
  cppOrders : ∀ order, order.Perm (requests N) → ∃ actions state,
    arrivals (requests N) actions = order ∧ (clientSystem N).Run actions state ∧
      state.pending = [] ∧ state.result.g_got = order.length ∧
        state.result.g_total = (placements N).card ∧ state.result.logged = [(placements N).card]
  cppGoesOn : ∀ actions state, (clientSystem N).Run actions state →
    ∀ position < state.pending.length, ∃ next, (clientSystem N).step state position = some next
  go : ∀ actions state, (mapperSystem N).Run actions state → state.pending = [] →
    reducer N state.result = (placements N).card
  goOrders : ∀ order, order.Perm (calls N) → ∃ actions state,
    arrivals (calls N) actions = order ∧ (mapperSystem N).Run actions state ∧
      state.pending = [] ∧ state.result = order.map (shardOf N) ∧
        reducer N state.result = (placements N).card
  goGoesOn : ∀ actions state, (mapperSystem N).Run actions state →
    ∀ position < state.pending.length, ∃ next, (mapperSystem N).step state position = some next
  inRange : (placements N).card < 2 ^ 63
  once : ∀ column < N, ∃! request, request ∈ requests N ∧
    (column = request ∨ column = N - 1 - request)
  weights : ∀ request ∈ requests N,
    weight N request = ({request, N - 1 - request} : Finset ℕ).card

theorem totalsCorrect {N : ℕ} (hN : 2 ≤ N) (hbound : N ≤ kMaxQueens) : TotalsCorrect N where
  cpp := by
    intro actions state hrun hnone
    rw [clientSystem_total hN hbound hrun hnone]
    exact ⟨rfl, rfl⟩
  cppOrders := by
    intro order horder
    have hexists : ∃ actions, arrivals (requests N) actions = order ∧
        (clientSystem N).Run actions
          { pending := [], result := order.foldl (addResponse N) {} } :=
      FanOut.exists_run (fun client col hcol ↦ onResponse_eq hN hbound client hcol) horder
    obtain ⟨actions, harrivals, hrun⟩ := hexists
    have htotal := clientSystem_total hN hbound hrun rfl
    refine ⟨actions, _, harrivals, hrun, rfl, ?_⟩
    rw [htotal, horder.length_eq]
    exact ⟨List.length_range.symm, rfl, rfl⟩
  cppGoesOn := fun _ _ hrun _ hposition ↦
    FanOut.exists_step (fun client col hcol ↦ onResponse_eq hN hbound client hcol) hrun hposition
  go := fun _ _ hrun hnone ↦ mapperSystem_total hN hbound hrun hnone
  goOrders := by
    intro order horder
    have hexists : ∃ actions, arrivals (calls N) actions = order ∧
        (mapperSystem N).Run actions
          { pending := []
            result := order.foldl (fun result call ↦ result ++ [shardOf N call]) [] } :=
      FanOut.exists_run (fun _ _ _ ↦ rfl) horder
    obtain ⟨actions, harrivals, hrun⟩ := hexists
    have htotal := mapperSystem_total hN hbound hrun rfl
    exact ⟨actions, _, harrivals, hrun, rfl, foldl_shards _ _, htotal⟩
  goGoesOn := fun _ _ hrun _ hposition ↦ FanOut.exists_step (fun _ _ _ ↦ rfl) hrun hposition
  inRange := card_placements_lt hbound
  once := fun _ hcolumn ↦ requests_unique hcolumn
  weights := fun _ hrequest ↦ weight_eq_card hrequest

/-- The board with eight rows, where the response to the last column arrives first, and the largest
one. -/
theorem totalsCorrect_eight : TotalsCorrect 8 ∧ TotalsCorrect kMaxQueens ∧
    ∃ state, (clientSystem 8).Run [3, 0, 1, 0] state ∧
      arrivals (requests 8) [3, 0, 1, 0] = [3, 0, 2, 1] ∧
        state = { pending := [], result := { g_got := 4, g_total := 92, logged := [92] } } ∧
          (placements 8).card = 92 := by
  have height := totalsCorrect (N := 8) (by decide) (by decide)
  have hexecute : (clientSystem 8).execute (clientSystem 8).start [3, 0, 1, 0] =
      some { pending := [], result := { g_got := 4, g_total := 92, logged := [92] } } := by
    decide +kernel
  have hrun := TransitionSystem.Run.of_execute hexecute
  exact ⟨height, totalsCorrect (by decide) (by decide), _, hrun, by decide, rfl,
    (height.cpp _ _ hrun rfl).1.symm⟩

end MuduoProtorpc.NQueens
