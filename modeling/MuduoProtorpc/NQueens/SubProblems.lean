import MuduoProtorpc.NQueens.Masks

/-!
# The sub-problems

What `backtrackingsub` replies for a queen in the first row, and for one in the second: the number
of placements with queens on these squares. On the board with one row the first queen is the last,
and the search that is entered below it finds none (`subProblemsCorrect_iff`).
-/

set_option autoImplicit false
set_option relaxedAutoImplicit false

namespace MuduoProtorpc.NQueens

/-- The placements with queens on these squares, among others. -/
def placementsThrough (N : ℕ) (given : List (ℕ × ℕ)) : Finset (Finset (Fin N × Fin N)) :=
  (placements N).filter fun squares ↦ ∀ queen ∈ given, ∃ place ∈ squares, square place = queen

/-- The server counts the placements of every sub-problem of a board, and those of the second row
add up to those of the first. -/
structure SubProblemsCorrect (N : ℕ) : Prop where
  first : ∀ first < N,
    backtrackingsub N first (-1) = some (placementsThrough N [(0, first)]).card
  second : 2 ≤ N → ∀ first < N, ∀ second < N, backtrackingsub N first second =
    some (placementsThrough N [(0, first), (1, second)]).card
  sum : 2 ≤ N → ∀ first < N, some (∑ second ∈ Finset.range N,
    (backtrackingsub N first second).getD 0) = backtrackingsub N first (-1)

section SubProblems

variable {N row : ℕ} {queens : ℕ → ℕ}

/-- The squares of a function from rows to columns have the queens that are given, if it takes
their rows to their columns. -/
theorem squaresOf_through {placement : Fin N → Fin N} (hrow : row ≤ N) :
    (∀ queen ∈ (List.range row).map fun earlier ↦ (earlier, queens earlier),
      ∃ place ∈ squaresOf placement, square place = queen) ↔
        ∀ earlier : Fin N, (earlier : ℕ) < row → (placement earlier : ℕ) = queens earlier := by
  simp only [List.mem_map, List.mem_range]
  constructor
  · intro hthrough earlier hearlier
    obtain ⟨place, hplace, hsquare⟩ := hthrough _ ⟨earlier, hearlier, rfl⟩
    have hfirst : place.1 = earlier := Fin.ext (congrArg Prod.fst hsquare)
    have hsecond : (place.2 : ℕ) = queens earlier := congrArg Prod.snd hsquare
    rw [mem_squaresOf, hfirst] at hplace
    rw [hplace, hsecond]
  · rintro hgiven queen ⟨earlier, hearlier, rfl⟩
    have hbound : earlier < N := hearlier.trans_le hrow
    refine ⟨(⟨earlier, hbound⟩, placement ⟨earlier, hbound⟩), mem_squaresOf.mpr rfl, ?_⟩
    exact Prod.ext rfl (hgiven ⟨earlier, hbound⟩ hearlier)

/-- The placements with the queens in the first rows are those with queens on these squares. -/
theorem card_placementsThrough (queens : ℕ → ℕ) (hrow : row ≤ N) : (placementsThrough N
    ((List.range row).map fun earlier ↦ (earlier, queens earlier))).card =
      completions N row queens := by
  refine (Finset.card_bij (fun placement _ ↦ squaresOf placement) (fun placement hplacement ↦ ?_)
    (fun first _ second _ hequal ↦ squaresOf_injective hequal) (fun squares hsquares ↦ ?_)).symm
  · obtain ⟨hpeace, hgiven⟩ := mem_completing.mp hplacement
    exact Finset.mem_filter.mpr ⟨squaresOf_mem hpeace, (squaresOf_through hrow).mpr hgiven⟩
  · obtain ⟨hplacement, hthrough⟩ := Finset.mem_filter.mp hsquares
    obtain ⟨placement, hpeace, rfl⟩ := exists_squaresOf hplacement
    exact ⟨placement, mem_completing.mpr ⟨hpeace, (squaresOf_through hrow).mp hthrough⟩, rfl⟩

theorem card_through_first (hN : 1 ≤ N) (first : ℕ) :
    (placementsThrough N [(0, first)]).card = completions N 1 fun _ ↦ first :=
  card_placementsThrough (fun _ ↦ first) hN

theorem card_through_second (hN : 2 ≤ N) (first second : ℕ) :
    (placementsThrough N [(0, first), (1, second)]).card =
      completions N 2 (Function.update (fun _ ↦ first) 1 second) :=
  card_placementsThrough (Function.update (fun _ ↦ first) 1 second) hN

/-- On a board with one row the search is entered below the last queen. -/
theorem backtrackingsub_one : backtrackingsub 1 0 (-1) = some 0 := by
  rw [backtrackingsub_eq (by decide) (by decide), if_neg (by decide),
    search_of_avail [] (by decide)]
  rfl

theorem card_through_one : (placementsThrough 1 [(0, 0)]).card = 1 := by
  decide

end SubProblems

/-- The server is right about all sub-problems of the boards that it admits, but for the board with
one row. -/
theorem subProblemsCorrect_iff {N : ℕ} (hpositive : 0 < N) (hbound : N ≤ kMaxQueens) :
    SubProblemsCorrect N ↔ 2 ≤ N := by
  constructor
  · intro hcorrect
    by_contra hsmall
    obtain rfl : N = 1 := by omega
    have hfirst := hcorrect.first 0 (by decide)
    rw [backtrackingsub_one, card_through_one] at hfirst
    cases hfirst
  · intro hN
    constructor
    · intro first hfirst
      rw [backtrackingsub_first hN hbound hfirst, card_through_first hpositive]
    · intro _ first hfirst second hsecond
      rw [backtrackingsub_second hN hbound hfirst hsecond, card_through_second hN]
    · intro _ first hfirst
      rw [backtrackingsub_first hN hbound hfirst, completions_eq_sum_range (by omega)]
      refine congrArg some (Finset.sum_congr rfl fun second hsecond ↦ ?_)
      rw [backtrackingsub_second hN hbound hfirst (Finset.mem_range.mp hsecond), Option.getD_some]

theorem subProblemsCorrect_two : SubProblemsCorrect 2 ↔ 2 ≤ 2 :=
  subProblemsCorrect_iff (by decide) (by decide)

/-- With one row, the placement that there is, is missed. -/
theorem not_subProblemsCorrect_one :
    ¬ ∀ N, 0 < N → N ≤ kMaxQueens → SubProblemsCorrect N := by
  intro hall
  have hfirst := (hall 1 (by decide) (by decide)).first 0 (by decide)
  rw [backtrackingsub_one, card_through_one] at hfirst
  cases hfirst

end MuduoProtorpc.NQueens
