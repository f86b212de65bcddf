import Mathlib.Data.Finset.Filter
import MuduoProtorpc.NQueens.Masks

/-!
# A search from the middle of the board

What `search` does when it is called for a row of the board, with queens in the rows before it: it
counts the placements with these queens and keeps to the arrays (`search_correct`). The masks have
to be right on the board, and nothing may be shifted into it; bits of `diagnoal` right of the board
that are no queen's make the search miss placements (`not_search_correct_of_lowMasks`).
-/

set_option autoImplicit false
set_option relaxedAutoImplicit false

namespace MuduoProtorpc.NQueens

/-! ### The elements that are accessed -/

/-- A search, with the indices of the array elements that it has read or written. -/
structure IndexedSearch where
  bt : BackTracking
  indices : List ℕ

/-- `search`, with the indices of the array elements that it reads and writes. -/
def searchIndexed (bt : BackTracking) (row : ℕ) (indices : List ℕ) : IndexedSearch :=
  let body : ℕ → IndexedSearch → IndexedSearch := fun i state ↦
    if row = state.bt.N - 1 then { state with bt := { state.bt with count := state.bt.count + 1 } }
    else if row + 1 < kMaxQueens then
      let mask : BitVec 32 := (1 : BitVec 32) <<< i
      searchIndexed (state.bt.place row mask) (row + 1) (state.indices ++ [row, row + 1])
    else { state with indices := state.indices ++ [row, row + 1] }
  whileAvail bt.N body (bt.avail row) { bt := bt, indices := indices ++ [row] }
termination_by kMaxQueens - row

section Indices

variable {State Other : Type*} {N : ℕ} {body : ℕ → State → State} {avail : BitVec 32}

/-- A view of the state goes through the loop as the state does. -/
theorem whileAvail_map {other : ℕ → Other → Other} (view : State → Other)
    (hbody : ∀ i state, view (body i state) = other i (view state)) (state : State) :
    view (whileAvail N body avail state) = whileAvail N other avail (view state) := by
  fun_induction whileAvail N body avail state with
  | case1 state =>
    rw [whileAvail, dif_pos rfl]
  | case2 avail state havail hend =>
    rw [whileAvail, dif_neg havail, if_pos hend]
  | case3 avail state havail hend ih =>
    rw [ih, hbody, whileAvail.eq_def N other avail, dif_neg havail, if_neg hend]

/-- What the body of the loop keeps, the loop keeps. -/
theorem whileAvail_invariant {p : State → Prop} (hbody : ∀ i state, p state → p (body i state))
    {state : State} (hstate : p state) : p (whileAvail N body avail state) := by
  fun_induction whileAvail N body avail state with
  | case1 state => exact hstate
  | case2 avail state havail hend => exact hstate
  | case3 avail state havail hend ih => exact ih (hbody _ state hstate)

/-- The search does not depend on the indices that are noted. -/
theorem searchIndexed_bt (bt : BackTracking) (row : ℕ) (indices : List ℕ) :
    (searchIndexed bt row indices).bt = search bt row := by
  rw [searchIndexed, search]
  refine whileAvail_map IndexedSearch.bt (fun i state ↦ ?_) _
  by_cases hlast : row = state.bt.N - 1
  · rw [if_pos hlast, if_pos hlast]
  · rw [if_neg hlast, if_neg hlast]
    by_cases hroom : row + 1 < kMaxQueens
    · rw [if_pos hroom, if_pos hroom]
      exact searchIndexed_bt _ (row + 1) _
    · rw [if_neg hroom, if_neg hroom]
termination_by kMaxQueens - row

/-- The search keeps to the elements of the rows of the board. -/
theorem searchIndexed_indices {bt : BackTracking} {row : ℕ} {indices : List ℕ} (hrow : row < bt.N)
    (hindices : ∀ index ∈ indices, index < bt.N) :
    (searchIndexed bt row indices).bt.N = bt.N ∧
      ∀ index ∈ (searchIndexed bt row indices).indices, index < bt.N := by
  rw [searchIndexed]
  refine whileAvail_invariant (p := fun state : IndexedSearch ↦ state.bt.N = bt.N ∧
    ∀ index ∈ state.indices, index < bt.N) (fun i state hstate ↦ ?_) ⟨rfl, ?_⟩
  · obtain ⟨hN, hbefore⟩ := hstate
    by_cases hlast : row = state.bt.N - 1
    · rw [if_pos hlast]
      exact ⟨hN, hbefore⟩
    · rw [if_neg hlast]
      have hnext : row + 1 < bt.N := by omega
      have hboth : ∀ index ∈ state.indices ++ [row, row + 1], index < bt.N := by
        intro index hindex
        rcases List.mem_append.mp hindex with hindex | hindex
        · exact hbefore index hindex
        · simp only [List.mem_cons, List.not_mem_nil, or_false] at hindex
          omega
      by_cases hroom : row + 1 < kMaxQueens
      · rw [if_pos hroom]
        have hplaced : (state.bt.place row ((1 : BitVec 32) <<< i)).N = bt.N := hN
        have hlater := searchIndexed_indices (hplaced ▸ hnext) (hplaced ▸ hboth)
        rwa [hplaced] at hlater
      · rw [if_neg hroom]
        exact ⟨hN, hboth⟩
  · intro index hindex
    rcases List.mem_append.mp hindex with hindex | hindex
    · exact hindices index hindex
    · rw [List.mem_singleton.mp hindex]
      exact hrow
termination_by kMaxQueens - row

end Indices

/-! ### The search is right -/

/-- What `search` is for: it adds the placements with the queens that are given to the count, leaves
the masks of the rows up to its own as they are, and keeps to the elements of the board's rows. -/
structure SearchCorrect (queens : ℕ → ℕ) (row : ℕ) (bt : BackTracking) : Prop where
  count : (search bt row).count = bt.count + completions bt.N row queens
  same : SameMasks row bt (search bt row)
  run : (searchIndexed bt row []).bt = search bt row
  indices : ∀ index ∈ (searchIndexed bt row []).indices, index < bt.N

/-- With masks that are right on the board, and no bits to be shifted into it, the search is
right. -/
theorem search_correct {queens : ℕ → ℕ} {row : ℕ} {bt : BackTracking} (hbound : bt.N ≤ kMaxQueens)
    (hrow : row < bt.N) (hpeaceful : Peaceful bt.N row queens)
    (hmasks : BoardMasks queens row bt) : SearchCorrect queens row bt := by
  obtain ⟨below, hbelow⟩ := Nat.exists_eq_add_of_lt hrow
  have hrows : bt.N = row + 1 + below := by omega
  have hsearched := search_spec hrows hbound hmasks hpeaceful
  constructor
  · exact hsearched.count
  · exact hsearched.same
  · exact searchIndexed_bt bt row []
  · exact (searchIndexed_indices hrow fun index hindex ↦ absurd hindex List.not_mem_nil).2

/-- The queens of a board with five rows, by their columns. -/
def fiveQueens (row : ℕ) : ℕ :=
  [1, 3, 0, 2, 4].getD row 0

/-- The masks for the fourth row with the first three of these queens, and more bits in
`diagnoal`. -/
def fiveBoard (more : BitVec 32) : BackTracking where
  N := 5
  count := 0
  columns := fun _ ↦ 0b01011
  diagnoal := fun _ ↦ more ||| 0b00010
  antidiagnoal := fun _ ↦ 0b10010

theorem search_correct_five : SearchCorrect fiveQueens 3 (fiveBoard 0) :=
  search_correct (by decide) (by decide) (by unfold Peaceful; decide)
    ⟨⟨by decide, by decide, by decide⟩, fun i hright hshifted ↦ by
      have hN : (fiveBoard 0).N = 5 := rfl
      obtain rfl : i = 5 := by omega
      decide⟩

/-- It is not enough that the masks are right on the board: the bit next to it, at the right of the
last column, attacks the last column of the next row. -/
theorem not_search_correct_of_lowMasks :
    ¬ ∀ (queens : ℕ → ℕ) (row : ℕ) (bt : BackTracking), 0 < bt.N → bt.N ≤ kMaxQueens →
      row < bt.N → Peaceful bt.N row queens → LowMasks queens row bt →
        SearchCorrect queens row bt := by
  intro hall
  have hcorrect := hall fiveQueens 3 (fiveBoard 0b100000) (by decide) (by decide) (by decide)
    (by unfold Peaceful; decide) ⟨by decide, by decide, by decide⟩
  have hsome : 0 < completions 5 3 fiveQueens :=
    Finset.card_pos.mpr ⟨fun row ↦ Fin.ofNat 5 (fiveQueens row),
      mem_completing.mpr ⟨by decide, by decide⟩⟩
  have hfourth : search (fiveBoard 0b100000) 3 = onSquare 3 2 (fiveBoard 0b100000) :=
    search_of_avail [2] (by decide)
  have hfifth : search ((fiveBoard 0b100000).place 3 ((1 : BitVec 32) <<< 2)) 4 =
      (fiveBoard 0b100000).place 3 ((1 : BitVec 32) <<< 2) := by
    rw [search_of_avail [] (by decide), List.foldl_nil]
  have hN : (fiveBoard 0b100000).N = 5 := rfl
  have hzero : (fiveBoard 0b100000).count = 0 := rfl
  have hplaced : ((fiveBoard 0b100000).place 3 ((1 : BitVec 32) <<< 2)).count = 0 := rfl
  have hcount := hcorrect.count
  rw [hN, hzero, hfourth, onSquare, if_neg (by decide), if_pos (by decide), hfifth,
    hplaced] at hcount
  omega

end MuduoProtorpc.NQueens
