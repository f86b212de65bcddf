import Mathlib.Data.Nat.Notation
import Mathlib.Data.Int.Notation
import Mathlib.Logic.Function.Basic

/-!
# The server of the nqueens example

`BackTracking` and `backtrackingsub` of `examples/nqueens/server.cc`: rows are filled one after the
other, and for each row a mask of 32 bits tells the columns that are attacked along columns, and two
along diagonals. The arrays have `kMaxQueens` elements; the search goes no further than that.
-/

set_option autoImplicit false
set_option relaxedAutoImplicit false

namespace MuduoProtorpc.NQueens

/-- `kMaxQueens`. -/
def kMaxQueens : ℕ :=
  20

/-- `BackTracking`. A bit of a mask is set where the square is occupied or attacked. -/
structure BackTracking where
  N : ℕ
  count : ℕ
  columns : ℕ → BitVec 32
  diagnoal : ℕ → BitVec 32
  antidiagnoal : ℕ → BitVec 32

/-- The constructor, unless its assertion fails. -/
def BackTracking.create (nqueens : ℕ) : Option BackTracking :=
  if 0 < nqueens ∧ nqueens ≤ kMaxQueens then some {
    N := nqueens
    count := 0
    columns := fun _ ↦ 0
    diagnoal := fun _ ↦ 0
    antidiagnoal := fun _ ↦ 0 }
  else none

/-- `__builtin_ctz`: the number of trailing zeros of a number that is not zero. -/
def ctz (avail : BitVec 32) : ℕ :=
  (List.range 32).findIdx fun i ↦ avail.getLsbD i

theorem toNat_turnOff_lt {avail : BitVec 32} (havail : avail ≠ 0) :
    (avail &&& (avail - 1)).toNat < avail.toNat := by
  have hpositive : 0 < avail.toNat := by
    refine Nat.pos_of_ne_zero fun hzero ↦ havail (BitVec.eq_of_toNat_eq ?_)
    rw [hzero]
    rfl
  have hless : (avail - 1).toNat < avail.toNat := by
    rw [BitVec.toNat_sub_of_le]
    · show avail.toNat - 1 < avail.toNat
      omega
    · show 1 ≤ avail.toNat
      omega
  rw [BitVec.toNat_and]
  exact Nat.lt_of_le_of_lt Nat.and_le_right hless

/-- The loop of `search` over the available squares of a row, with its body. -/
def whileAvail {State : Type*} (N : ℕ) (body : ℕ → State → State) (avail : BitVec 32)
    (state : State) : State :=
  if havail : avail = 0 then state
  else if N ≤ ctz avail then state
  else whileAvail N body (avail &&& (avail - 1)) (body (ctz avail) state)
termination_by avail.toNat
decreasing_by exact toNat_turnOff_lt havail

/-- The squares of a row that are available. -/
def BackTracking.avail (bt : BackTracking) (row : ℕ) : BitVec 32 :=
  ~~~ (bt.columns row ||| bt.diagnoal row ||| bt.antidiagnoal row)

/-- The masks of the next row, with a queen in this one. -/
def BackTracking.place (bt : BackTracking) (row : ℕ) (mask : BitVec 32) : BackTracking :=
  { bt with
    columns := Function.update bt.columns (row + 1) (bt.columns row ||| mask)
    diagnoal := Function.update bt.diagnoal (row + 1) ((bt.diagnoal row ||| mask) >>> 1)
    antidiagnoal :=
      Function.update bt.antidiagnoal (row + 1) ((bt.antidiagnoal row ||| mask) <<< 1) }

/-- `search`. -/
def search (bt : BackTracking) (row : ℕ) : BackTracking :=
  let body : ℕ → BackTracking → BackTracking := fun i bt ↦
    if row = bt.N - 1 then { bt with count := bt.count + 1 }
    else if row + 1 < kMaxQueens then
      let mask : BitVec 32 := (1 : BitVec 32) <<< i
      search (bt.place row mask) (row + 1)
    else bt
  whileAvail bt.N body (bt.avail row) bt
termination_by kMaxQueens - row

/-- `backtrackingsub`, unless the assertion of the constructor fails. -/
def backtrackingsub (N first_row : ℕ) (second_row : ℤ) : Option ℕ :=
  match BackTracking.create N with
  | none => none
  | some created =>
    let m0 : BitVec 32 := (1 : BitVec 32) <<< first_row
    let bt : BackTracking := { created with
      columns := Function.update created.columns 1 m0
      diagnoal := Function.update created.diagnoal 1 (m0 >>> 1)
      antidiagnoal := Function.update created.antidiagnoal 1 (m0 <<< 1) }
    if 0 ≤ second_row then
      let m1 : BitVec 32 := (1 : BitVec 32) <<< second_row.toNat
      if bt.avail 1 &&& m1 ≠ 0 then some (search (bt.place 1 m1) 2).count
      else some 0
    else some (search bt 1).count

end MuduoProtorpc.NQueens
