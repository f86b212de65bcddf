import Mathlib.Algebra.BigOperators.Group.List.Basic
import Mathlib.Algebra.GroupWithZero.Nat
import Mathlib.Data.List.Count
import Mathlib.Data.List.Perm.Basic
import Mathlib.Tactic.SplitIfs

/-!
# Counting values by their places

A table of counts, to which each value of a list adds one at its place (`tally`). What is at a place
in the end does not depend on the order of the values (`getElem?_tally`), and the first counts add
up to the number of values that have their places there (`sum_take_tally`).
-/

set_option autoImplicit false
set_option relaxedAutoImplicit false

namespace Foundation

variable {Value : Type*}

/-- Each value adds one to the count at its place. A value whose place is beyond the table is not
counted. -/
def tally (place : Value → ℕ) (values : List Value) (counts : List ℕ) : List ℕ :=
  values.foldl (fun counts value ↦ counts.modify (place value) (· + 1)) counts

/-- The number of values that have a place. -/
def placed (place : Value → ℕ) (values : List Value) (position : ℕ) : ℕ :=
  values.countP fun value ↦ decide (place value = position)

section Tally

variable {place : Value → ℕ} {values others : List Value} {counts : List ℕ}

@[simp] theorem tally_nil (place : Value → ℕ) (counts : List ℕ) : tally place [] counts = counts :=
  rfl

@[simp] theorem tally_cons (place : Value → ℕ) (value : Value) (rest : List Value)
    (counts : List ℕ) : tally place (value :: rest) counts =
      tally place rest (counts.modify (place value) (· + 1)) :=
  rfl

@[simp] theorem length_tally (place : Value → ℕ) (values : List Value) (counts : List ℕ) :
    (tally place values counts).length = counts.length := by
  induction values generalizing counts with
  | nil => rfl
  | cons value rest ih => rw [tally_cons, ih, List.length_modify]

theorem placed_cons (place : Value → ℕ) (value : Value) (rest : List Value) (position : ℕ) :
    placed place (value :: rest) position =
      placed place rest position + if place value = position then 1 else 0 := by
  simp [placed, List.countP_cons]

theorem placed_perm (hperm : values.Perm others) (position : ℕ) :
    placed place values position = placed place others position :=
  hperm.countP_eq _

/-- What is counted at a place. -/
theorem getElem?_tally (place : Value → ℕ) (values : List Value) (counts : List ℕ)
    (position : ℕ) : (tally place values counts)[position]? =
      counts[position]?.map (· + placed place values position) := by
  induction values generalizing counts with
  | nil =>
    show counts[position]? = counts[position]?.map (· + 0)
    simp
  | cons value rest ih =>
    rw [tally_cons, ih, List.getElem?_modify, placed_cons]
    by_cases hplace : place value = position
    · simp [hplace, Function.comp_def, Nat.add_assoc, Nat.add_comm 1]
    · simp [hplace]

/-- The order of the values does not matter. -/
theorem tally_perm (hperm : values.Perm others) :
    tally place values counts = tally place others counts := by
  refine List.ext_getElem? fun position ↦ ?_
  rw [getElem?_tally, getElem?_tally, placed_perm hperm]

/-- Values beyond the table are not counted. -/
theorem tally_of_beyond (hbeyond : ∀ value ∈ values, counts.length ≤ place value) :
    tally place values counts = counts := by
  induction values with
  | nil => rfl
  | cons value rest ih =>
    rw [tally_cons, List.modify_eq_self (hbeyond value List.mem_cons_self)]
    exact ih fun later hlater ↦ hbeyond later (List.mem_cons_of_mem value hlater)

/-- The values with their places before a position, and those at this position. -/
theorem countP_lt_succ (place : Value → ℕ) (values : List Value) (position : ℕ) :
    values.countP (fun value ↦ decide (place value < position + 1)) =
      values.countP (fun value ↦ decide (place value < position)) +
        placed place values position := by
  induction values with
  | nil => rfl
  | cons value rest ih =>
    rw [placed_cons, List.countP_cons, List.countP_cons, ih]
    simp only [decide_eq_true_eq]
    split_ifs <;> omega

/-- The first counts of a new table add up to the number of values placed there. -/
theorem sum_take_tally (place : Value → ℕ) (values : List Value) {size first : ℕ}
    (hfirst : first ≤ size) : ((tally place values (List.replicate size 0)).take first).sum =
      values.countP fun value ↦ decide (place value < first) := by
  induction first with
  | zero => simp
  | succ first ih =>
    have hthere : (tally place values (List.replicate size 0))[first]? =
        some (placed place values first) := by
      rw [getElem?_tally, List.getElem?_replicate_of_lt (by omega), Option.map_some, Nat.zero_add]
    rw [List.take_add_one, hthere, List.sum_append, ih (by omega), Option.toList_some,
      List.sum_singleton, countP_lt_succ]

end Tally

end Foundation
