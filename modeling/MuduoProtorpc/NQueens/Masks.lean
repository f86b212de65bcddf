import Mathlib.Algebra.BigOperators.Group.List.Lemmas
import Mathlib.Data.List.Range
import MuduoProtorpc.NQueens.BackTracking
import MuduoProtorpc.NQueens.Placements

/-!
# What the server counts

The masks of a row tell the squares that the queens in the rows before it attack (`MasksOf`). A
search needs no more than the bits on the board, and that no other bit is shifted into it from the
left (`LowMasks`, `BoardMasks`). The loop of `search` goes through the free squares of a row
(`whileAvail_eq_foldl`), and the search adds to the count the placements with the queens that are
given (`search_spec`).
-/

set_option autoImplicit false
set_option relaxedAutoImplicit false

namespace MuduoProtorpc.NQueens

/-! ### The loop over the available squares -/

section Loop

variable {avail : BitVec 32}

/-- There is a lowest bit that is set, and it is counted to. -/
theorem ctz_spec (havail : avail ≠ 0) : avail.getLsbD (ctz avail) = true ∧
    ∀ i < ctz avail, avail.getLsbD i = false := by
  have hsome : ∃ i ∈ List.range 32, avail.getLsbD i = true := by
    by_contra hnone
    push Not at hnone
    refine havail (BitVec.eq_of_getLsbD_eq fun i hi ↦ ?_)
    have hfalse := hnone i (List.mem_range.mpr hi)
    simpa using hfalse
  have hlength := List.findIdx_lt_length_of_exists hsome
  constructor
  · have hfound := List.findIdx_getElem (w := hlength)
    rwa [List.getElem_range] at hfound
  · intro i hi
    have hnot := List.not_of_lt_findIdx hi
    rwa [List.getElem_range] at hnot

/-- The last bit is turned off, the others are kept. -/
theorem getLsbD_turnOff (havail : avail ≠ 0) (i : ℕ) :
    (avail &&& (avail - 1)).getLsbD i = (avail.getLsbD i && decide (i ≠ ctz avail)) := by
  obtain ⟨hset, hclear⟩ := ctz_spec havail
  generalize ctz avail = last at hset hclear ⊢
  have hlow : avail.toNat % 2 ^ (last + 1) = 2 ^ last := by
    refine Nat.eq_of_testBit_eq fun j ↦ ?_
    rw [Nat.testBit_mod_two_pow, Nat.testBit_two_pow]
    rcases Nat.lt_trichotomy j last with hless | rfl | hgreater
    · have hbit : avail.toNat.testBit j = false := hclear j hless
      rw [hbit, Bool.and_false, decide_eq_false (by omega)]
    · have hbit : avail.toNat.testBit j = true := hset
      rw [hbit, decide_eq_true (by omega), decide_eq_true rfl, Bool.and_true]
    · rw [decide_eq_false (by omega), decide_eq_false (by omega), Bool.false_and]
  have hsplit := Nat.div_add_mod avail.toNat (2 ^ (last + 1))
  rw [hlow] at hsplit
  generalize avail.toNat / 2 ^ (last + 1) = high at hsplit
  have hpositive := Nat.two_pow_pos last
  have hpower : 2 ^ (last + 1) = 2 * 2 ^ last := Nat.pow_succ'
  have hbefore : (avail - 1).toNat = 2 ^ (last + 1) * high + (2 ^ last - 1) := by
    rw [BitVec.toNat_sub_of_le]
    · show avail.toNat - 1 = _
      omega
    · show 1 ≤ avail.toNat
      omega
  rw [BitVec.getLsbD_and]
  by_cases hsame : i = last
  · subst hsame
    have hoff : (avail - 1).getLsbD i = false := by
      show (avail - 1).toNat.testBit i = false
      rw [hbefore, Nat.testBit_two_pow_mul_add _ (by omega), if_pos (by omega),
        Nat.testBit_lt_two_pow (by omega)]
    rw [hoff, decide_eq_false (by simp), Bool.and_false]
  · rw [decide_eq_true hsame, Bool.and_true]
    by_cases hbit : avail.getLsbD i = true
    · have hgreater : last < i := by
        by_contra hle
        rw [hclear i (by omega)] at hbit
        cases hbit
      have hkept : (avail - 1).getLsbD i = avail.getLsbD i := by
        show (avail - 1).toNat.testBit i = avail.toNat.testBit i
        rw [hbefore, ← hsplit, Nat.testBit_two_pow_mul_add _ (by omega),
          Nat.testBit_two_pow_mul_add _ (by omega), if_neg (by omega), if_neg (by omega)]
      rw [hkept, Bool.and_self]
    · rw [Bool.not_eq_true] at hbit
      rw [hbit, Bool.false_and]

/-- The loop goes through the available squares of the board from left to right. -/
theorem whileAvail_eq_foldl {State : Type*} (N : ℕ) (body : ℕ → State → State)
    (avail : BitVec 32) (state : State) : whileAvail N body avail state =
      ((List.range N).filter fun i ↦ avail.getLsbD i).foldl (fun state i ↦ body i state) state := by
  fun_induction whileAvail N body avail state with
  | case1 state =>
    have hnone : (List.range N).filter (fun i ↦ (0 : BitVec 32).getLsbD i) = [] := by simp
    rw [hnone]
    rfl
  | case2 avail state havail hend =>
    obtain ⟨-, hclear⟩ := ctz_spec havail
    have hnone : (List.range N).filter (fun i ↦ avail.getLsbD i) = [] := by
      refine List.filter_eq_nil_iff.mpr fun i hi ↦ ?_
      rw [hclear i (lt_of_lt_of_le (List.mem_range.mp hi) hend)]
      simp
    rw [hnone]
    rfl
  | case3 avail state havail hend ih =>
    obtain ⟨hset, hclear⟩ := ctz_spec havail
    rw [ih]
    generalize hlast : ctz avail = last at hset hclear hend
    obtain ⟨after, rfl⟩ := Nat.exists_eq_add_of_lt (Nat.lt_of_not_le hend)
    have hrange : List.range (last + after + 1) =
        List.range last ++ last :: List.range' (last + 1) after := by
      rw [List.range_eq_range', List.range_eq_range', Nat.add_assoc, ← List.range'_append_1,
        Nat.zero_add, List.range'_succ]
    have hfirst : ∀ {mask : BitVec 32}, (∀ i < last, mask.getLsbD i = false) →
        (List.range last).filter (fun i ↦ mask.getLsbD i) = [] := by
      intro mask hmask
      refine List.filter_eq_nil_iff.mpr fun i hi ↦ ?_
      rw [hmask i (List.mem_range.mp hi)]
      simp
    have hoff : ∀ i < last, (avail &&& (avail - 1)).getLsbD i = false := by
      intro i hi
      rw [getLsbD_turnOff havail, hclear i hi, Bool.false_and]
    have hlater : (List.range' (last + 1) after).filter
        (fun i ↦ (avail &&& (avail - 1)).getLsbD i) =
          (List.range' (last + 1) after).filter fun i ↦ avail.getLsbD i := by
      refine List.filter_congr fun i hi ↦ ?_
      rw [List.mem_range'_1] at hi
      rw [getLsbD_turnOff havail, hlast, decide_eq_true (by omega), Bool.and_true]
    have hself : (avail &&& (avail - 1)).getLsbD last = false := by
      rw [getLsbD_turnOff havail, hlast, decide_eq_false (by simp), Bool.and_false]
    have hturnedOff : ¬ (avail &&& (avail - 1)).getLsbD last = true := by
      rw [hself]
      exact Bool.false_ne_true
    rw [hrange, List.filter_append, List.filter_append, hfirst hclear, hfirst hoff,
      List.filter_cons_of_pos hset, List.filter_cons_of_neg hturnedOff, hlater]
    rfl

end Loop

/-! ### The masks -/

/-- The masks of a row are those of the queens in the rows before it. -/
structure MasksOf (queens : ℕ → ℕ) (row : ℕ) (bt : BackTracking) : Prop where
  columns : ∀ i < 32, (bt.columns row).getLsbD i = true ↔ ∃ earlier < row, queens earlier = i
  diagnoal : ∀ i < 32, (bt.diagnoal row).getLsbD i = true ↔
    ∃ earlier < row, earlier + queens earlier = row + i
  antidiagnoal : ∀ i < 32, (bt.antidiagnoal row).getLsbD i = true ↔
    ∃ earlier < row, earlier + i = row + queens earlier

/-- On the board the masks of a row are those of the queens in the rows before it. -/
structure LowMasks (queens : ℕ → ℕ) (row : ℕ) (bt : BackTracking) : Prop where
  columns : ∀ i < bt.N, (bt.columns row).getLsbD i = true ↔ ∃ earlier < row, queens earlier = i
  diagnoal : ∀ i < bt.N, (bt.diagnoal row).getLsbD i = true ↔
    ∃ earlier < row, earlier + queens earlier = row + i
  antidiagnoal : ∀ i < bt.N, (bt.antidiagnoal row).getLsbD i = true ↔
    ∃ earlier < row, earlier + i = row + queens earlier

/-- Besides, the bits that will be shifted to the right into the board are clear. -/
structure BoardMasks (queens : ℕ → ℕ) (row : ℕ) (bt : BackTracking) : Prop
    extends LowMasks queens row bt where
  beyond : ∀ i, bt.N ≤ i → row + i + 1 < 2 * bt.N → (bt.diagnoal row).getLsbD i = false

/-- The board is the same, and so are the masks of the rows up to this one. -/
structure SameMasks (row : ℕ) (bt next : BackTracking) : Prop where
  N : next.N = bt.N
  columns : ∀ earlier ≤ row, next.columns earlier = bt.columns earlier
  diagnoal : ∀ earlier ≤ row, next.diagnoal earlier = bt.diagnoal earlier
  antidiagnoal : ∀ earlier ≤ row, next.antidiagnoal earlier = bt.antidiagnoal earlier

section Masks

variable {queens : ℕ → ℕ} {row i : ℕ} {bt next last : BackTracking}

theorem SameMasks.refl (row : ℕ) (bt : BackTracking) : SameMasks row bt bt :=
  ⟨rfl, fun _ _ ↦ rfl, fun _ _ ↦ rfl, fun _ _ ↦ rfl⟩

theorem SameMasks.trans (hfirst : SameMasks row bt next) (hsecond : SameMasks row next last) :
    SameMasks row bt last where
  N := hsecond.N.trans hfirst.N
  columns := fun earlier hearlier ↦
    (hsecond.columns earlier hearlier).trans (hfirst.columns earlier hearlier)
  diagnoal := fun earlier hearlier ↦
    (hsecond.diagnoal earlier hearlier).trans (hfirst.diagnoal earlier hearlier)
  antidiagnoal := fun earlier hearlier ↦
    (hsecond.antidiagnoal earlier hearlier).trans (hfirst.antidiagnoal earlier hearlier)

theorem SameMasks.mono (hsame : SameMasks (row + 1) bt next) : SameMasks row bt next where
  N := hsame.N
  columns := fun earlier hearlier ↦ hsame.columns earlier (Nat.le_succ_of_le hearlier)
  diagnoal := fun earlier hearlier ↦ hsame.diagnoal earlier (Nat.le_succ_of_le hearlier)
  antidiagnoal := fun earlier hearlier ↦ hsame.antidiagnoal earlier (Nat.le_succ_of_le hearlier)

theorem BoardMasks.congr (hmasks : BoardMasks queens row bt) (hsame : SameMasks row bt next) :
    BoardMasks queens row next := by
  have hcolumns := hsame.columns row (Nat.le_refl row)
  have hdiagnoal := hsame.diagnoal row (Nat.le_refl row)
  have hantidiagnoal := hsame.antidiagnoal row (Nat.le_refl row)
  refine ⟨⟨?_, ?_, ?_⟩, ?_⟩
  · rw [hsame.N, hcolumns]
    exact hmasks.columns
  · rw [hsame.N, hdiagnoal]
    exact hmasks.diagnoal
  · rw [hsame.N, hantidiagnoal]
    exact hmasks.antidiagnoal
  · rw [hsame.N, hdiagnoal]
    exact hmasks.beyond

/-- Masks that are right in all bits are right on the board. -/
theorem MasksOf.board (hmasks : MasksOf queens row bt) (hN : bt.N ≤ 32)
    (hqueens : ∀ earlier < row, queens earlier < bt.N) : BoardMasks queens row bt := by
  refine ⟨⟨?_, ?_, ?_⟩, ?_⟩
  · exact fun i hi ↦ hmasks.columns i (hi.trans_le hN)
  · exact fun i hi ↦ hmasks.diagnoal i (hi.trans_le hN)
  · exact fun i hi ↦ hmasks.antidiagnoal i (hi.trans_le hN)
  · intro i hi _
    by_cases hbit : i < 32
    · rw [← Bool.not_eq_true, hmasks.diagnoal i hbit]
      rintro ⟨earlier, hearlier, hqueen⟩
      have hcolumn := hqueens earlier hearlier
      omega
    · exact BitVec.getLsbD_of_ge _ _ (Nat.le_of_not_lt hbit)

/-- A queen is placed without touching the masks of the rows up to it. -/
theorem sameMasks_place (bt : BackTracking) (row : ℕ) (mask : BitVec 32) :
    SameMasks row bt (bt.place row mask) where
  N := rfl
  columns := fun _ hearlier ↦ Function.update_of_ne (by omega) _ _
  diagnoal := fun _ hearlier ↦ Function.update_of_ne (by omega) _ _
  antidiagnoal := fun _ hearlier ↦ Function.update_of_ne (by omega) _ _

/-- The available squares of a row are the free ones. -/
theorem BoardMasks.avail_iff (hmasks : BoardMasks queens row bt) (hN : bt.N ≤ 32) (hi : i < bt.N) :
    (bt.avail row).getLsbD i = true ↔ Free queens row i := by
  have hmask : (bt.avail row).getLsbD i = true ↔ ¬ (((bt.columns row).getLsbD i = true ∨
      (bt.diagnoal row).getLsbD i = true) ∨ (bt.antidiagnoal row).getLsbD i = true) := by
    simp [BackTracking.avail, hi.trans_le hN]
  rw [hmask, hmasks.columns i hi, hmasks.diagnoal i hi, hmasks.antidiagnoal i hi]
  constructor
  · intro hnone earlier hearlier hattacks
    rcases hattacks with hrow | hcolumn | hdiagonal | hantidiagonal
    · exact absurd hrow hearlier.ne
    · exact hnone (Or.inl (Or.inl ⟨earlier, hearlier, hcolumn⟩))
    · exact hnone (Or.inl (Or.inr ⟨earlier, hearlier, hdiagonal⟩))
    · exact hnone (Or.inr ⟨earlier, hearlier, hantidiagonal⟩)
  · rintro hfree ((⟨earlier, hearlier, hcolumn⟩ | ⟨earlier, hearlier, hdiagonal⟩) |
      ⟨earlier, hearlier, hantidiagonal⟩)
    · exact hfree earlier hearlier (Or.inr (Or.inl hcolumn))
    · exact hfree earlier hearlier (Or.inr (Or.inr (Or.inl hdiagonal)))
    · exact hfree earlier hearlier (Or.inr (Or.inr (Or.inr hantidiagonal)))

/-- Something holds of one of the queens up to a row. -/
theorem exists_update {q : ℕ → ℕ → Prop} : (∃ earlier < row + 1,
    q earlier (Function.update queens row i earlier)) ↔
      (∃ earlier < row, q earlier (queens earlier)) ∨ q row i := by
  constructor
  · rintro ⟨earlier, hearlier, hqueen⟩
    by_cases hsame : earlier = row
    · subst hsame
      rw [Function.update_self] at hqueen
      exact Or.inr hqueen
    · rw [Function.update_of_ne hsame] at hqueen
      exact Or.inl ⟨earlier, by omega, hqueen⟩
  · rintro (⟨earlier, hearlier, hqueen⟩ | hqueen)
    · exact ⟨earlier, by omega, by rwa [Function.update_of_ne hearlier.ne]⟩
    · exact ⟨row, Nat.lt_succ_self row, by rwa [Function.update_self]⟩

theorem getLsbD_mask {j : ℕ} (hj : j < 32) :
    ((1 : BitVec 32) <<< i).getLsbD j = true ↔ i = j := by
  simp [hj]
  omega

theorem getLsbD_mask_of_ne {j : ℕ} (hne : i ≠ j) : ((1 : BitVec 32) <<< i).getLsbD j = false := by
  by_cases hj : j < 32
  · exact Bool.eq_false_iff.mpr fun hset ↦ hne ((getLsbD_mask hj).mp hset)
  · exact BitVec.getLsbD_of_ge _ _ (Nat.le_of_not_lt hj)

/-- The masks of the next row, with a queen in this one. -/
theorem BoardMasks.place (hmasks : BoardMasks queens row bt) (hN : bt.N ≤ 32)
    (hrow : row + 1 < bt.N) (hqueens : ∀ earlier < row, queens earlier < bt.N) (hi : i < bt.N) :
    BoardMasks (Function.update queens row i) (row + 1)
      (bt.place row ((1 : BitVec 32) <<< i)) := by
  have hright (j : ℕ) : ((bt.place row ((1 : BitVec 32) <<< i)).diagnoal (row + 1)).getLsbD j =
      ((bt.diagnoal row).getLsbD (j + 1) || ((1 : BitVec 32) <<< i).getLsbD (j + 1)) := by
    simp [BackTracking.place, Nat.add_comm 1 j]
  refine ⟨⟨?_, ?_, ?_⟩, ?_⟩
  · intro j hj
    have hbit : ((bt.place row ((1 : BitVec 32) <<< i)).columns (row + 1)).getLsbD j = true ↔
        (bt.columns row).getLsbD j = true ∨ ((1 : BitVec 32) <<< i).getLsbD j = true := by
      simp [BackTracking.place]
    rw [hbit, hmasks.columns j hj, getLsbD_mask (hj.trans_le hN),
      exists_update (q := fun _ column ↦ column = j)]
  · intro j hj
    have hj : j < bt.N := hj
    rw [hright, Bool.or_eq_true, exists_update (q := fun earlier column ↦ earlier + column = _)]
    by_cases hlast : j + 1 < bt.N
    · rw [hmasks.diagnoal (j + 1) hlast, getLsbD_mask (hlast.trans_le hN)]
      simp only [Nat.add_assoc, Nat.add_comm 1 j, Nat.add_left_cancel_iff]
    · -- the bit that comes into the board is clear, and no queen is so far to the right
      have hclear := hmasks.beyond (j + 1) (by omega) (by omega)
      have hmask : ((1 : BitVec 32) <<< i).getLsbD (j + 1) = false := getLsbD_mask_of_ne (by omega)
      rw [hclear, hmask]
      constructor
      · simp
      · rintro (⟨earlier, hearlier, hqueen⟩ | hqueen)
        · have hbound := hqueens earlier hearlier
          omega
        · omega
  · intro j hj
    have hj : j < bt.N := hj
    have hbit : ((bt.place row ((1 : BitVec 32) <<< i)).antidiagnoal (row + 1)).getLsbD j = true ↔
        0 < j ∧ ((bt.antidiagnoal row).getLsbD (j - 1) = true ∨
          ((1 : BitVec 32) <<< i).getLsbD (j - 1) = true) := by
      have hmask : (bt.place row ((1 : BitVec 32) <<< i)).antidiagnoal (row + 1) =
          (bt.antidiagnoal row ||| (1 : BitVec 32) <<< i) <<< 1 := Function.update_self _ _ _
      rw [hmask, BitVec.getLsbD_shiftLeft, BitVec.getLsbD_or, decide_eq_true (hj.trans_le hN),
        Bool.true_and, Bool.and_eq_true, Bool.or_eq_true, Bool.not_eq_true',
        decide_eq_false_iff_not, Nat.not_lt]
      rfl
    rw [hbit, hmasks.antidiagnoal (j - 1) (by omega), getLsbD_mask (by omega),
      exists_update (q := fun earlier column ↦ earlier + j = row + 1 + column)]
    constructor
    · rintro ⟨hpositive, ⟨earlier, hearlier, hqueen⟩ | hqueen⟩
      · exact Or.inl ⟨earlier, hearlier, by omega⟩
      · exact Or.inr (by omega)
    · rintro (⟨earlier, hearlier, hqueen⟩ | hqueen)
      · exact ⟨by omega, Or.inl ⟨earlier, hearlier, by omega⟩⟩
      · exact ⟨by omega, Or.inr (by omega)⟩
  · intro j hj hshifted
    have hj : bt.N ≤ j := hj
    have hshifted : row + 1 + j + 1 < 2 * bt.N := hshifted
    have hmask : ((1 : BitVec 32) <<< i).getLsbD (j + 1) = false := getLsbD_mask_of_ne (by omega)
    rw [hright, hmasks.beyond (j + 1) (by omega) (by omega), hmask, Bool.or_self]

end Masks

/-! ### The search -/

section Search

variable {queens : ℕ → ℕ} {row : ℕ} {bt : BackTracking}

/-- What a search does: it adds the placements to the count, and leaves the masks of the rows up to
its own as they are. -/
structure Searched (queens : ℕ → ℕ) (row : ℕ) (bt next : BackTracking) : Prop where
  count : next.count = bt.count + completions bt.N row queens
  same : SameMasks row bt next

/-- What the search does with an available square. -/
def onSquare (row i : ℕ) (bt : BackTracking) : BackTracking :=
  if row = bt.N - 1 then { bt with count := bt.count + 1 }
  else if row + 1 < kMaxQueens then search (bt.place row ((1 : BitVec 32) <<< i)) (row + 1)
  else bt

/-- The search goes through the available squares from left to right. -/
theorem search_eq_foldl (bt : BackTracking) (row : ℕ) : search bt row =
    ((List.range bt.N).filter fun i ↦ (bt.avail row).getLsbD i).foldl
      (fun bt i ↦ onSquare row i bt) bt := by
  rw [search]
  exact whileAvail_eq_foldl _ _ _ _

theorem search_of_avail (columns : List ℕ)
    (havail : (List.range bt.N).filter (fun i ↦ (bt.avail row).getLsbD i) = columns) :
    search bt row = columns.foldl (fun bt i ↦ onSquare row i bt) bt := by
  rw [search_eq_foldl, havail]

/-- What is done with a square: the placements with a queen on it are added. -/
def SquareSearched (queens : ℕ → ℕ) (row i : ℕ) (bt next : BackTracking) : Prop :=
  next.count = bt.count + completions bt.N (row + 1) (Function.update queens row i) ∧
    SameMasks row bt next

/-- The loop over a list of squares adds the placements with a queen on one of them. -/
theorem foldl_onSquare (columns : List ℕ) (hsquares : ∀ i ∈ columns, ∀ next,
      SameMasks row bt next → SquareSearched queens row i next (onSquare row i next))
    {next : BackTracking} (hsame : SameMasks row bt next) :
    (columns.foldl (fun bt i ↦ onSquare row i bt) next).count = next.count +
      (columns.map fun i ↦ completions bt.N (row + 1) (Function.update queens row i)).sum ∧
        SameMasks row bt (columns.foldl (fun bt i ↦ onSquare row i bt) next) := by
  induction columns generalizing next with
  | nil => exact ⟨rfl, hsame⟩
  | cons i rest ih =>
    obtain ⟨hcount, hnext⟩ := hsquares i List.mem_cons_self next hsame
    obtain ⟨hrest, hlast⟩ := ih (fun later hlater ↦ hsquares later (List.mem_cons_of_mem i hlater))
      (hsame.trans hnext)
    refine ⟨?_, hlast⟩
    rw [List.foldl_cons, hrest, hcount, hsame.N, List.map_cons, List.sum_cons, Nat.add_assoc]

/-- The sum over the free columns is the number of placements. -/
theorem sum_free (hrow : row < bt.N) (hbound : bt.N ≤ kMaxQueens)
    (hmasks : BoardMasks queens row bt) :
    (((List.range bt.N).filter fun i ↦ (bt.avail row).getLsbD i).map fun i ↦
      completions bt.N (row + 1) (Function.update queens row i)).sum =
        completions bt.N row queens := by
  have hmax : kMaxQueens = 20 := rfl
  have hsame : ((List.range bt.N).filter fun i ↦ (bt.avail row).getLsbD i).toFinset =
      (Finset.range bt.N).filter (Free queens row) := by
    ext i
    rw [List.mem_toFinset, List.mem_filter, List.mem_range, Finset.mem_filter, Finset.mem_range,
      and_congr_right_iff]
    intro hi
    exact hmasks.avail_iff (by omega) hi
  rw [completions_eq_sum hrow, ← hsame, List.sum_toFinset]
  exact List.nodup_range.filter _

/-- A search adds the placements if it does so with each free square. -/
theorem searched_of_squares (hrow : row < bt.N) (hbound : bt.N ≤ kMaxQueens)
    (hmasks : BoardMasks queens row bt) (hsquares : ∀ i < bt.N, Free queens row i → ∀ next,
      SameMasks row bt next → SquareSearched queens row i next (onSquare row i next)) :
    Searched queens row bt (search bt row) := by
  have hmax : kMaxQueens = 20 := rfl
  have hlist : ∀ i ∈ (List.range bt.N).filter (fun i ↦ (bt.avail row).getLsbD i), ∀ next,
      SameMasks row bt next → SquareSearched queens row i next (onSquare row i next) := by
    intro i hi
    obtain ⟨hrange, havail⟩ := List.mem_filter.mp hi
    rw [List.mem_range] at hrange
    exact hsquares i hrange ((hmasks.avail_iff (by omega) hrange).mp havail)
  obtain ⟨hcount, hsame⟩ := foldl_onSquare _ hlist (SameMasks.refl row bt)
  rw [sum_free hrow hbound hmasks] at hcount
  rw [search_eq_foldl]
  exact ⟨hcount, hsame⟩

/-- The search counts the placements with the queens that are given: the induction is on the number
of rows below. -/
theorem search_spec {below : ℕ} (hbelow : bt.N = row + 1 + below) (hbound : bt.N ≤ kMaxQueens)
    (hmasks : BoardMasks queens row bt) (hpeaceful : Peaceful bt.N row queens) :
    Searched queens row bt (search bt row) := by
  have hmax : kMaxQueens = 20 := rfl
  induction below generalizing bt row queens with
  | zero =>
    refine searched_of_squares (by omega) hbound hmasks fun i hi hfree next hsame ↦ ?_
    have hlast : row = next.N - 1 := by
      rw [hsame.N]
      omega
    have hone : completions next.N (row + 1) (Function.update queens row i) = 1 := by
      have hpeace : Peaceful bt.N bt.N (Function.update queens row i) :=
        hbelow ▸ hpeaceful.update hi hfree
      have hall := completions_all hpeace
      rwa [hsame.N, ← hbelow]
    rw [onSquare, if_pos hlast]
    exact ⟨by rw [hone], ⟨rfl, fun _ _ ↦ rfl, fun _ _ ↦ rfl, fun _ _ ↦ rfl⟩⟩
  | succ below ih =>
    refine searched_of_squares (by omega) hbound hmasks fun i hi hfree next hsame ↦ ?_
    have hN := hsame.N
    have hplaced : BoardMasks (Function.update queens row i) (row + 1)
        (next.place row ((1 : BitVec 32) <<< i)) := by
      refine (hmasks.congr hsame).place (by omega) (by omega) (fun earlier hearlier ↦ ?_) (by omega)
      rw [hN]
      exact (hpeaceful earlier hearlier).1
    have hnext : Searched (Function.update queens row i) (row + 1)
        (next.place row ((1 : BitVec 32) <<< i))
        (search (next.place row ((1 : BitVec 32) <<< i)) (row + 1)) := by
      refine ih ?_ ?_ hplaced ?_
      · show next.N = _
        omega
      · show next.N ≤ _
        omega
      · show Peaceful next.N _ _
        rw [hN]
        exact hpeaceful.update hi hfree
    rw [onSquare, if_neg (by omega), if_pos (by omega)]
    exact ⟨hnext.count, (sameMasks_place next row _).trans hnext.same.mono⟩

end Search

/-! ### What is replied -/

section Replies

variable {N first second : ℕ}

/-- The board as `backtrackingsub` prepares it, with a queen in the first row. -/
def firstPlaced (N first : ℕ) : BackTracking where
  N := N
  count := 0
  columns := Function.update (fun _ ↦ 0) 1 ((1 : BitVec 32) <<< first)
  diagnoal := Function.update (fun _ ↦ 0) 1 ((1 : BitVec 32) <<< first >>> 1)
  antidiagnoal := Function.update (fun _ ↦ 0) 1 ((1 : BitVec 32) <<< first <<< 1)

theorem masksOf_first (N : ℕ) (hfirst : first < 32) :
    MasksOf (fun _ ↦ first) 1 (firstPlaced N first) := by
  constructor
  · intro i hi
    show ((1 : BitVec 32) <<< first).getLsbD i = true ↔ _
    rw [getLsbD_mask hi]
    simp
  · intro i hi
    show ((1 : BitVec 32) <<< first >>> 1).getLsbD i = true ↔ _
    rw [BitVec.getLsbD_ushiftRight]
    by_cases hlast : 1 + i < 32
    · rw [getLsbD_mask hlast]
      simp
    · rw [BitVec.getLsbD_of_ge _ _ (Nat.le_of_not_lt hlast)]
      simp
      omega
  · intro i hi
    show ((1 : BitVec 32) <<< first <<< 1).getLsbD i = true ↔ _
    rw [BitVec.getLsbD_shiftLeft, Bool.and_eq_true, getLsbD_mask (by omega)]
    simp [hi]
    omega

/-- On the board with a queen in the first row, the masks of the second are right. -/
theorem boardMasks_first (hbound : N ≤ kMaxQueens) (hfirst : first < N) :
    BoardMasks (fun _ ↦ first) 1 (firstPlaced N first) := by
  have hmax : kMaxQueens = 20 := rfl
  refine (masksOf_first N (by omega)).board ?_ fun _ _ ↦ hfirst
  show N ≤ 32
  omega

/-- What `backtrackingsub` does with an admitted board. -/
theorem backtrackingsub_eq (hpositive : 0 < N) (hbound : N ≤ kMaxQueens) (first : ℕ)
    (second : ℤ) : backtrackingsub N first second =
      if 0 ≤ second then
        if (firstPlaced N first).avail 1 &&& (1 : BitVec 32) <<< second.toNat ≠ 0 then
          some (search ((firstPlaced N first).place 1 ((1 : BitVec 32) <<< second.toNat)) 2).count
        else some 0
      else some (search (firstPlaced N first) 1).count := by
  unfold backtrackingsub BackTracking.create
  rw [if_pos ⟨hpositive, hbound⟩]
  rfl

theorem peaceful_first (hfirst : first < N) : Peaceful N 1 fun _ ↦ first := by
  intro earlier hearlier
  exact ⟨hfirst, fun before hbefore ↦ by omega⟩

theorem and_mask_ne_zero {avail : BitVec 32} (hsecond : second < 32) :
    avail &&& (1 : BitVec 32) <<< second ≠ 0 ↔ avail.getLsbD second = true := by
  constructor
  · intro hsome
    by_contra hclear
    refine hsome (BitVec.eq_of_getLsbD_eq fun i hi ↦ ?_)
    rw [BitVec.getLsbD_and]
    by_cases hsame : second = i
    · subst hsame
      rw [Bool.not_eq_true] at hclear
      rw [hclear]
      simp
    · rw [getLsbD_mask_of_ne hsame]
      simp
  · intro hset hzero
    have hbit := congrArg (fun mask : BitVec 32 ↦ mask.getLsbD second) hzero
    simp only [BitVec.getLsbD_and, hset, (getLsbD_mask hsecond).mpr rfl] at hbit
    simp at hbit

/-- With a first row alone, the server counts the placements with this queen. -/
theorem backtrackingsub_first (hN : 2 ≤ N) (hbound : N ≤ kMaxQueens) (hfirst : first < N) :
    backtrackingsub N first (-1) = some (completions N 1 fun _ ↦ first) := by
  have hmax : kMaxQueens = 20 := rfl
  have hbelow : (firstPlaced N first).N = 1 + 1 + (N - 2) := by
    show N = _
    omega
  have hsearched := search_spec hbelow hbound (boardMasks_first hbound hfirst)
    (peaceful_first hfirst)
  rw [backtrackingsub_eq (by omega) hbound, if_neg (by omega), hsearched.count]
  exact congrArg some (Nat.zero_add _)

/-- With a first and a second row, it counts the placements with these two queens: none, if the
second square is attacked. -/
theorem backtrackingsub_second (hN : 2 ≤ N) (hbound : N ≤ kMaxQueens) (hfirst : first < N)
    (hsecond : second < N) : backtrackingsub N first second =
      some (completions N 2 (Function.update (fun _ ↦ first) 1 second)) := by
  have hmax : kMaxQueens = 20 := rfl
  have hmasks := boardMasks_first hbound hfirst
  have havail : (firstPlaced N first).avail 1 &&& (1 : BitVec 32) <<< second ≠ 0 ↔
      Free (fun _ ↦ first) 1 second := by
    have hwidth : (firstPlaced N first).N ≤ 32 := by
      show N ≤ 32
      omega
    rw [and_mask_ne_zero (by omega), hmasks.avail_iff hwidth hsecond]
  rw [backtrackingsub_eq (by omega) hbound, if_pos (by omega), Int.toNat_natCast]
  by_cases hfree : Free (fun _ ↦ first) 1 second
  · have hlarge : 3 ≤ N := by
      -- on two rows and columns the queens attack each other
      by_contra hsmall
      have hnot : ¬ Attacks (0, first) (1, second) := hfree 0 (by omega)
      unfold Attacks at hnot
      omega
    have hplaced := hmasks.place (i := second) (show N ≤ 32 by omega) (show 1 + 1 < N by omega)
      (fun _ _ ↦ hfirst) hsecond
    have hbelow : ((firstPlaced N first).place 1 ((1 : BitVec 32) <<< second)).N =
        2 + 1 + (N - 3) := by
      show N = _
      omega
    have hsearched := search_spec hbelow hbound hplaced
      ((peaceful_first hfirst).update hsecond hfree)
    rw [if_pos (havail.mpr hfree), hsearched.count]
    exact congrArg some (Nat.zero_add _)
  · rw [if_neg (havail.not.mpr hfree), completions_of_not_free (by omega) hfree]

end Replies

end MuduoProtorpc.NQueens
