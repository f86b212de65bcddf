import Mathlib.Data.Fintype.Perm
import Mathlib.Data.Fintype.Pi
import Mathlib.Data.Fintype.Powerset
import Mathlib.Data.Fintype.Prod
import Mathlib.Algebra.BigOperators.Intervals
import Mathlib.Algebra.BigOperators.Group.Finset.Basic

/-!
# Placements of queens

A placement of `N` queens is a set of as many squares of which no two attack each other. It has one
queen in each row, so that it is a function from rows to columns (`card_placements`). The number of
placements with the first rows given is the sum over the free columns of the next row
(`completions_eq_sum`), and it does not change when the board is mirrored (`completions_mirror`).
-/

set_option autoImplicit false
set_option relaxedAutoImplicit false

namespace MuduoProtorpc.NQueens

/-! ### Sets of squares -/

/-- Queens on two squares, given by their rows and columns, attack each other: they share a row, a
column or a diagonal. -/
def Attacks (first second : ℕ × ℕ) : Prop :=
  first.1 = second.1 ∨ first.2 = second.2 ∨ first.1 + first.2 = second.1 + second.2 ∨
    first.1 + second.2 = second.1 + first.2

instance (first second : ℕ × ℕ) : Decidable (Attacks first second) := by
  unfold Attacks
  infer_instance

/-- A square of a board, by its row and column. -/
def square {N : ℕ} (place : Fin N × Fin N) : ℕ × ℕ :=
  (place.1, place.2)

/-- The placements of `N` queens on a board with `N` rows and columns. -/
def placements (N : ℕ) : Finset (Finset (Fin N × Fin N)) :=
  Finset.univ.filter fun squares ↦ squares.card = N ∧
    ∀ first ∈ squares, ∀ second ∈ squares, first ≠ second → ¬ Attacks (square first) (square second)

/-! ### One queen in each row -/

/-- The queens of the rows do not attack each other. -/
def NonAttacking {N : ℕ} (queens : Fin N → Fin N) : Prop :=
  ∀ first second, first < second →
    ¬ Attacks (square (first, queens first)) (square (second, queens second))

instance {N : ℕ} (queens : Fin N → Fin N) : Decidable (NonAttacking queens) := by
  unfold NonAttacking
  infer_instance

/-- The placements whose queens in the first rows are given. -/
def completing (N row : ℕ) (queens : ℕ → ℕ) : Finset (Fin N → Fin N) :=
  Finset.univ.filter fun placement ↦ NonAttacking placement ∧
    ∀ earlier : Fin N, (earlier : ℕ) < row → (placement earlier : ℕ) = queens earlier

/-- Their number. -/
def completions (N row : ℕ) (queens : ℕ → ℕ) : ℕ :=
  (completing N row queens).card

/-- A column of a row that the queens in the rows before it do not attack. -/
def Free (queens : ℕ → ℕ) (row column : ℕ) : Prop :=
  ∀ earlier < row, ¬ Attacks (earlier, queens earlier) (row, column)

instance (queens : ℕ → ℕ) (row column : ℕ) : Decidable (Free queens row column) := by
  unfold Free
  infer_instance

section Rows

variable {N row : ℕ} {queens : ℕ → ℕ}

theorem attacks_comm {first second : ℕ × ℕ} : Attacks first second ↔ Attacks second first := by
  unfold Attacks
  omega

theorem mem_completing {placement : Fin N → Fin N} : placement ∈ completing N row queens ↔
    NonAttacking placement ∧
      ∀ earlier : Fin N, (earlier : ℕ) < row → (placement earlier : ℕ) = queens earlier := by
  simp [completing]

/-- The squares of a function from rows to columns. -/
def squaresOf (queens : Fin N → Fin N) : Finset (Fin N × Fin N) :=
  Finset.univ.image fun row ↦ (row, queens row)

theorem mem_squaresOf {queens : Fin N → Fin N} {place : Fin N × Fin N} :
    place ∈ squaresOf queens ↔ queens place.1 = place.2 := by
  simp only [squaresOf, Finset.mem_image, Finset.mem_univ, true_and]
  constructor
  · rintro ⟨row, rfl⟩
    rfl
  · intro hplace
    exact ⟨place.1, Prod.ext rfl hplace⟩

theorem squaresOf_injective {first second : Fin N → Fin N}
    (hequal : squaresOf first = squaresOf second) : first = second := by
  funext row
  have hmem : (row, first row) ∈ squaresOf second := hequal ▸ mem_squaresOf.mpr rfl
  exact (mem_squaresOf.mp hmem).symm

theorem squaresOf_mem {queens : Fin N → Fin N} (hqueens : NonAttacking queens) :
    squaresOf queens ∈ placements N := by
  simp only [placements, Finset.mem_filter, Finset.mem_univ, true_and]
  constructor
  · rw [squaresOf, Finset.card_image_of_injective _ fun _ _ hequal ↦ congrArg Prod.fst hequal,
      Finset.card_univ, Fintype.card_fin]
  · rintro ⟨first, firstColumn⟩ hfirst ⟨second, secondColumn⟩ hsecond hne
    obtain rfl : queens first = firstColumn := mem_squaresOf.mp hfirst
    obtain rfl : queens second = secondColumn := mem_squaresOf.mp hsecond
    rcases lt_trichotomy first second with hless | rfl | hgreater
    · exact hqueens first second hless
    · exact absurd rfl hne
    · rw [attacks_comm]
      exact hqueens second first hgreater

/-- Every placement has one queen in each row. -/
theorem exists_squaresOf {squares : Finset (Fin N × Fin N)} (hsquares : squares ∈ placements N) :
    ∃ queens : Fin N → Fin N, NonAttacking queens ∧ squaresOf queens = squares := by
  simp only [placements, Finset.mem_filter, Finset.mem_univ, true_and] at hsquares
  obtain ⟨hcard, hpeace⟩ := hsquares
  have hrows : Set.InjOn Prod.fst (squares : Set (Fin N × Fin N)) := by
    intro first hfirst second hsecond hrow
    by_contra hne
    exact hpeace first hfirst second hsecond hne (Or.inl (congrArg Fin.val hrow))
  have hall : squares.image Prod.fst = Finset.univ := by
    refine Finset.eq_univ_of_card _ ?_
    rw [Finset.card_image_of_injOn hrows, hcard, Fintype.card_fin]
  have hqueen : ∀ row : Fin N, ∃ column, (row, column) ∈ squares := by
    intro row
    have hmem : row ∈ squares.image Prod.fst := hall ▸ Finset.mem_univ row
    obtain ⟨⟨_, column⟩, hplace, rfl⟩ := Finset.mem_image.mp hmem
    exact ⟨column, hplace⟩
  choose queens hqueens using hqueen
  refine ⟨queens, fun first second hless ↦ ?_, Finset.ext fun place ↦ ?_⟩
  · refine hpeace _ (hqueens first) _ (hqueens second) fun hequal ↦ ?_
    exact hless.ne (congrArg Prod.fst hequal)
  · rw [mem_squaresOf]
    constructor
    · intro hplace
      rw [← Prod.mk.eta (p := place), ← hplace]
      exact hqueens place.1
    · intro hplace
      exact congrArg Prod.snd (hrows (hqueens place.1) hplace rfl)

/-- There are as many placements as functions from rows to columns without attacks. -/
theorem card_placements (N : ℕ) (given : ℕ → ℕ) :
    (placements N).card = completions N 0 given := by
  refine (Finset.card_bij (fun queens _ ↦ squaresOf queens) (fun queens hqueens ↦ ?_)
    (fun first _ second _ hequal ↦ ?_) (fun squares hsquares ↦ ?_)).symm
  · exact squaresOf_mem (mem_completing.mp hqueens).1
  · exact squaresOf_injective hequal
  · obtain ⟨queens, hqueens, hequal⟩ := exists_squaresOf hsquares
    have hmem : queens ∈ completing N 0 given :=
      mem_completing.mpr ⟨hqueens, fun _ hrow ↦ absurd hrow (Nat.not_lt_zero _)⟩
    exact ⟨queens, hmem, hequal⟩

/-! ### Row after row -/

/-- The placements with one more queen given. -/
theorem completing_succ (hrow : row < N) (column : ℕ) :
    completing N (row + 1) (Function.update queens row column) =
      (completing N row queens).filter fun placement ↦
        (placement ⟨row, hrow⟩ : ℕ) = column := by
  ext placement
  rw [Finset.mem_filter, mem_completing, mem_completing, and_assoc, and_congr_right_iff]
  intro _
  constructor
  · intro hgiven
    refine ⟨fun earlier hearlier ↦ ?_, ?_⟩
    · rw [hgiven earlier (Nat.lt_succ_of_lt hearlier), Function.update_of_ne hearlier.ne]
    · rw [hgiven ⟨row, hrow⟩ (Nat.lt_succ_self row), Function.update_self]
  · rintro ⟨hgiven, hqueen⟩ earlier hearlier
    by_cases hsame : (earlier : ℕ) = row
    · obtain rfl : earlier = ⟨row, hrow⟩ := Fin.ext hsame
      rw [hqueen, Function.update_self]
    · rw [hgiven earlier (by omega), Function.update_of_ne hsame]

/-- A column that is attacked has no placements. -/
theorem completions_of_not_free (hrow : row < N) {column : ℕ}
    (hattacked : ¬ Free queens row column) :
    completions N (row + 1) (Function.update queens row column) = 0 := by
  rw [completions, completing_succ hrow, Finset.card_eq_zero, Finset.filter_eq_empty_iff]
  intro placement hplacement hqueen
  obtain ⟨hpeace, hgiven⟩ := mem_completing.mp hplacement
  refine hattacked fun earlier hearlier ↦ ?_
  have hnot := hpeace ⟨earlier, hearlier.trans hrow⟩ ⟨row, hrow⟩ hearlier
  simp only [square] at hnot
  rwa [hgiven ⟨earlier, hearlier.trans hrow⟩ hearlier, hqueen] at hnot

/-- The placements are counted by the column of the next queen. -/
theorem completions_eq_sum_range (hrow : row < N) (queens : ℕ → ℕ) :
    completions N row queens = ∑ column ∈ Finset.range N,
      completions N (row + 1) (Function.update queens row column) := by
  simp only [completions, completing_succ hrow]
  refine Finset.card_eq_sum_card_fiberwise fun placement _ ↦ ?_
  exact Finset.mem_coe.mpr (Finset.mem_range.mpr (placement ⟨row, hrow⟩).isLt)

/-- Only the free columns count. -/
theorem completions_eq_sum (hrow : row < N) (queens : ℕ → ℕ) : completions N row queens =
    ∑ column ∈ (Finset.range N).filter (Free queens row),
      completions N (row + 1) (Function.update queens row column) := by
  rw [completions_eq_sum_range hrow, Finset.sum_filter]
  refine Finset.sum_congr rfl fun column _ ↦ ?_
  by_cases hfree : Free queens row column
  · rw [if_pos hfree]
  · rw [if_neg hfree, completions_of_not_free hrow hfree]

/-- Only the queens in the rows that are given matter. -/
theorem completions_congr {other : ℕ → ℕ}
    (hsame : ∀ earlier < row, queens earlier = other earlier) :
    completions N row queens = completions N row other := by
  unfold completions
  congr 1
  ext placement
  rw [mem_completing, mem_completing, and_congr_right_iff]
  intro _
  refine forall_congr' fun earlier ↦ ?_
  constructor
  · intro hgiven hearlier
    rw [hgiven hearlier, hsame earlier hearlier]
  · intro hgiven hearlier
    rw [hgiven hearlier, hsame earlier hearlier]

/-- The queens in the first rows are on the board, and do not attack each other. -/
def Peaceful (N row : ℕ) (queens : ℕ → ℕ) : Prop :=
  ∀ earlier < row, queens earlier < N ∧ Free queens earlier (queens earlier)

/-- A queen on a free square keeps the peace. -/
theorem Peaceful.update (hpeaceful : Peaceful N row queens) {column : ℕ} (hcolumn : column < N)
    (hfree : Free queens row column) :
    Peaceful N (row + 1) (Function.update queens row column) := by
  have hkept : ∀ {later : ℕ}, later ≤ row → ∀ column', Free queens later column' →
      Free (Function.update queens row column) later column' := by
    intro later hlater column' hcolumn' earlier hearlier
    rw [Function.update_of_ne (by omega)]
    exact hcolumn' earlier hearlier
  intro earlier hearlier
  by_cases hsame : earlier = row
  · subst hsame
    rw [Function.update_self]
    exact ⟨hcolumn, hkept (Nat.le_refl earlier) column hfree⟩
  · rw [Function.update_of_ne hsame]
    obtain ⟨hbound, hbefore⟩ := hpeaceful earlier (by omega)
    exact ⟨hbound, hkept (by omega) _ hbefore⟩

/-- When all queens are given there is one placement. -/
theorem completions_all (hpeaceful : Peaceful N N queens) : completions N N queens = 1 := by
  rw [completions, Finset.card_eq_one]
  refine ⟨fun row ↦ ⟨queens row, (hpeaceful row row.isLt).1⟩, ?_⟩
  ext placement
  rw [mem_completing, Finset.mem_singleton]
  constructor
  · rintro ⟨-, hgiven⟩
    funext row
    exact Fin.ext (hgiven row row.isLt)
  · rintro rfl
    refine ⟨fun first second hless ↦ ?_, fun _ _ ↦ rfl⟩
    exact (hpeaceful second second.isLt).2 first hless

/-! ### The mirror -/

/-- Queens on the mirrored board attack each other as before. -/
theorem attacks_rev (first second : Fin N × Fin N) :
    Attacks (square (first.1, first.2.rev)) (square (second.1, second.2.rev)) ↔
      Attacks (square first) (square second) := by
  have hfirst := first.2.isLt
  have hsecond := second.2.isLt
  simp only [Attacks, square, Fin.val_rev]
  omega

theorem nonAttacking_rev {placement : Fin N → Fin N} (hpeace : NonAttacking placement) :
    NonAttacking fun row ↦ (placement row).rev := by
  intro first second hless
  rw [attacks_rev (first, placement first) (second, placement second)]
  exact hpeace first second hless

/-- There are as many placements with the queens in the first rows mirrored. -/
theorem completions_mirror (hqueens : ∀ earlier < row, queens earlier < N) :
    completions N row queens = completions N row fun earlier ↦ N - 1 - queens earlier := by
  refine Finset.card_bij' (fun placement _ ↦ fun row ↦ (placement row).rev)
    (fun placement _ ↦ fun row ↦ (placement row).rev) (fun placement hplacement ↦ ?_)
    (fun placement hplacement ↦ ?_) (fun placement _ ↦ ?_) (fun placement _ ↦ ?_)
  · obtain ⟨hpeace, hgiven⟩ := mem_completing.mp hplacement
    refine mem_completing.mpr ⟨nonAttacking_rev hpeace, fun earlier hearlier ↦ ?_⟩
    rw [Fin.val_rev, hgiven earlier hearlier]
    omega
  · obtain ⟨hpeace, hgiven⟩ := mem_completing.mp hplacement
    refine mem_completing.mpr ⟨nonAttacking_rev hpeace, fun earlier hearlier ↦ ?_⟩
    have hbound := hqueens earlier hearlier
    rw [Fin.val_rev, hgiven earlier hearlier]
    omega
  · funext row
    exact Fin.rev_rev _
  · funext row
    exact Fin.rev_rev _

/-! ### How many there can be -/

/-- Queens that do not attack each other are in different columns. -/
theorem NonAttacking.injective {placement : Fin N → Fin N} (hpeace : NonAttacking placement) :
    Function.Injective placement := by
  intro first second hequal
  rcases lt_trichotomy first second with hless | hsame | hgreater
  · exact absurd (Or.inr (Or.inl (congrArg Fin.val hequal))) (hpeace first second hless)
  · exact hsame
  · exact absurd (Or.inr (Or.inl (congrArg Fin.val hequal.symm))) (hpeace second first hgreater)

theorem completions_le_factorial (N row : ℕ) (queens : ℕ → ℕ) :
    completions N row queens ≤ N.factorial := by
  have hsubset : completing N row queens ⊆
      Finset.univ.image fun permutation : Equiv.Perm (Fin N) ↦ (permutation : Fin N → Fin N) := by
    intro placement hplacement
    have hinjective := (mem_completing.mp hplacement).1.injective
    exact Finset.mem_image.mpr
      ⟨Equiv.ofBijective placement (Finite.injective_iff_bijective.mp hinjective),
        Finset.mem_univ _, rfl⟩
  calc completions N row queens
      ≤ _ := Finset.card_le_card hsubset
    _ ≤ (Finset.univ : Finset (Equiv.Perm (Fin N))).card := Finset.card_image_le
    _ = N.factorial := by rw [Finset.card_univ, Fintype.card_perm, Fintype.card_fin]

end Rows

end MuduoProtorpc.NQueens
