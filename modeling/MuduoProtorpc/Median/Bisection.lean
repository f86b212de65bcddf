import Mathlib.Algebra.Order.Ring.Int
import Mathlib.Tactic.NormNum
import MuduoProtorpc.Foundation.OrderStatistics
import MuduoProtorpc.Median.Int64Arithmetic

/-!
# The search for the k-th value

What the loop of `getKth` keeps: fewer than `k` values are below its lower bound, and `k` or more
are up to its upper bound (`KthInvariant`). After the first round each round halves the distance of
the bounds, so that there are at most 66 rounds, and the last finds the k-th value (`kthStep_spec`).
-/

set_option autoImplicit false
set_option relaxedAutoImplicit false

namespace MuduoProtorpc.Median

open Foundation

/-- The k-th value is between the bounds. After the first round, which guesses the upper bound, the
guess is in the middle, and the distance has been halved in each round. -/
structure KthInvariant (values : List ℤ) (k : ℕ) (loop : KthLoop) : Prop where
  ordered : loop.min ≤ loop.max
  below : countBelow values loop.min.toInt < k
  upTo : k ≤ countUpTo values loop.max.toInt
  progress : (loop.steps = 0 ∧ loop.guess = loop.max) ∨
    (0 < loop.steps ∧ loop.steps ≤ 65 ∧ loop.guess = middle loop.min loop.max ∧
      loop.max.toInt - loop.min.toInt < 2 ^ (65 - loop.steps))

section Loop

variable {values : List ℤ} {k : ℕ} {loop : KthLoop}

/-- The loop goes on as long as its bounds are in order. -/
theorem nextGuess_eq {min max : Int64} (steps : ℕ) (hle : min ≤ max) :
    nextGuess steps min max =
      .next { steps := steps, guess := middle min max, min := min, max := max } := by
  have hmiddle := toInt_middle hle
  have hguess : min ≤ middle min max ∧ middle min max ≤ max := by
    rw [Int64.le_iff_toInt_le] at hle
    rw [Int64.le_iff_toInt_le, Int64.le_iff_toInt_le]
    omega
  unfold nextGuess
  rw [if_neg (not_not.mpr hguess), if_pos hle]

/-- The guess is between the bounds. -/
theorem KthInvariant.guess_mem (hinvariant : KthInvariant values k loop) :
    loop.min.toInt ≤ loop.guess.toInt ∧ loop.guess.toInt ≤ loop.max.toInt := by
  have hordered := Int64.le_iff_toInt_le.mp hinvariant.ordered
  rcases hinvariant.progress with ⟨-, hguess⟩ | ⟨-, -, hguess, -⟩
  · rw [hguess]
    exact ⟨hordered, le_refl _⟩
  · rw [hguess, toInt_middle hinvariant.ordered]
    omega

theorem countBelow_succ (values : List ℤ) (bound : ℤ) :
    countBelow values (bound + 1) = countUpTo values bound :=
  List.countP_congr fun value _ ↦ by simp only [decide_eq_true_eq, Int.lt_add_one_iff]

/-- A new distance of at most half the old one keeps the bound on the number of rounds. -/
theorem progress_halved {steps : ℕ} {distance : ℤ} (next : ℤ) (hpositive : 0 < steps)
    (hsteps : steps ≤ 65) (hdistance : distance < 2 ^ (65 - steps)) (hsome : 1 ≤ distance)
    (hhalved : 2 * next ≤ distance) : steps + 1 ≤ 65 ∧ next < 2 ^ (65 - (steps + 1)) := by
  by_cases hlast : steps = 65
  · rw [hlast] at hdistance
    norm_num at hdistance
    omega
  · have hpower : (2 : ℤ) ^ (65 - steps) = 2 * 2 ^ (65 - (steps + 1)) := by
      rw [← pow_succ']
      congr 1
      omega
    rw [hpower] at hdistance
    omega

/-- The lower bound is raised above a guess up to which there are too few values. -/
theorem KthInvariant.raise (hinvariant : KthInvariant values k loop)
    (hfew : countUpTo values loop.guess.toInt < k) : loop.guess + 1 ≤ loop.max ∧
      KthInvariant values k {
        steps := loop.steps + 1
        guess := middle (loop.guess + 1) loop.max
        min := loop.guess + 1
        max := loop.max } := by
  obtain ⟨hlow, hhigh⟩ := hinvariant.guess_mem
  have hne : loop.guess.toInt ≠ loop.max.toInt := by
    intro hequal
    have hupTo := hinvariant.upTo
    rw [← hequal] at hupTo
    omega
  have hbound := loop.max.toInt_lt
  have hguessLow := loop.guess.le_toInt
  have hone : (1 : Int64).toInt = 1 := by decide
  have hsucc : (loop.guess + 1).toInt = loop.guess.toInt + 1 := by
    rw [toInt_add_of_mem (by omega) (by omega), hone]
  have hordered : loop.guess + 1 ≤ loop.max := by
    rw [Int64.le_iff_toInt_le, hsucc]
    omega
  refine ⟨hordered, hordered, ?_, hinvariant.upTo, Or.inr ?_⟩
  · show countBelow values (loop.guess + 1).toInt < k
    rwa [hsucc, countBelow_succ]
  · rcases hinvariant.progress with ⟨-, hguess⟩ | ⟨hpositive, hsteps, hguess, hdistance⟩
    · exact absurd (congrArg Int64.toInt hguess) hne
    · have hmiddle := toInt_middle hinvariant.ordered
      rw [← hguess] at hmiddle
      obtain ⟨hnext, hhalved⟩ := progress_halved (loop.max.toInt - (loop.guess.toInt + 1))
        hpositive hsteps hdistance (by omega) (by omega)
      refine ⟨Nat.succ_pos _, hnext, rfl, ?_⟩
      show loop.max.toInt - (loop.guess + 1).toInt < _
      rwa [hsucc]

/-- The upper bound is lowered to a guess below which there are enough values. -/
theorem KthInvariant.lower (hinvariant : KthInvariant values k loop)
    (hmany : k ≤ countBelow values loop.guess.toInt) : loop.min ≤ loop.guess ∧
      KthInvariant values k {
        steps := loop.steps + 1
        guess := middle loop.min loop.guess
        min := loop.min
        max := loop.guess } := by
  obtain ⟨hlow, hhigh⟩ := hinvariant.guess_mem
  have hordered : loop.min ≤ loop.guess := Int64.le_iff_toInt_le.mpr hlow
  have hne : loop.guess.toInt ≠ loop.min.toInt := by
    intro hequal
    have hbelow := hinvariant.below
    rw [← hequal] at hbelow
    omega
  refine ⟨hordered, hordered, hinvariant.below,
    hmany.trans (countBelow_le_countUpTo values _), Or.inr ?_⟩
  rcases hinvariant.progress with ⟨hzero, hguess⟩ | ⟨hpositive, hsteps, hguess, hdistance⟩
  · have hbound := loop.guess.toInt_lt
    have hstart := loop.min.le_toInt
    rw [hzero]
    refine ⟨Nat.succ_pos _, by norm_num, rfl, ?_⟩
    norm_num
    omega
  · have hmiddle := toInt_middle hinvariant.ordered
    rw [← hguess] at hmiddle
    obtain ⟨hnext, hhalved⟩ := progress_halved (loop.guess.toInt - loop.min.toInt)
      hpositive hsteps hdistance (by omega) (by omega)
    exact ⟨Nat.succ_pos _, hnext, rfl, hhalved⟩

/-- The counts that `search` returns, as numbers without overflow. -/
structure CountsOf (values : List ℤ) (guess : ℤ) (counts : SearchResponse) : Prop where
  smaller : counts.smaller.toInt = countBelow values guess
  same : counts.same.toInt = countUpTo values guess - countBelow values guess

/-- A round of the loop finds the k-th value, or narrows the bounds. -/
theorem kthStep_spec {counts : SearchResponse} {number : Int64} (hnumber : number.toInt = k)
    (hk : 0 < k) (hlength : values.length < 2 ^ 63)
    (hcounts : CountsOf values loop.guess.toInt counts) (hinvariant : KthInvariant values k loop) :
    (kthStep number counts.smaller counts.same loop = .result loop.guess true ∧
      kthSmallest values k = some loop.guess.toInt) ∨
    ∃ next, kthStep number counts.smaller counts.same loop = .next next ∧
      KthInvariant values k next := by
  have hupTo := countUpTo_le_length values loop.guess.toInt
  have hbelow := countBelow_le_countUpTo values loop.guess.toInt
  have hintegers : counts.smaller.toInt + counts.same.toInt =
      countUpTo values loop.guess.toInt := by
    rw [hcounts.smaller, hcounts.same]
    omega
  have hsum : (counts.smaller + counts.same).toInt = countUpTo values loop.guess.toInt := by
    rw [toInt_add_of_mem (by omega) (by omega), hintegers]
  have hsteps : ¬ loop.steps + 1 > 100 := by
    rcases hinvariant.progress with ⟨hzero, -⟩ | ⟨-, hbound, -, -⟩ <;> omega
  have hfound : counts.smaller < number ∧ counts.smaller + counts.same ≥ number ↔
      countBelow values loop.guess.toInt < k ∧ k ≤ countUpTo values loop.guess.toInt := by
    rw [ge_iff_le, Int64.lt_iff_toInt_lt, Int64.le_iff_toInt_le, hsum, hcounts.smaller, hnumber]
    omega
  unfold kthStep
  dsimp only
  rw [if_neg hsteps]
  by_cases hsuccess : countBelow values loop.guess.toInt < k ∧
      k ≤ countUpTo values loop.guess.toInt
  · rw [if_pos (hfound.mpr hsuccess)]
    exact Or.inl ⟨rfl, (kthSmallest_eq_some_iff hk).mpr hsuccess⟩
  · rw [if_neg (hfound.not.mpr hsuccess)]
    refine Or.inr ?_
    by_cases hfew : countUpTo values loop.guess.toInt < k
    · have hless : counts.smaller + counts.same < number := by
        rw [Int64.lt_iff_toInt_lt, hsum, hnumber]
        omega
      obtain ⟨hordered, hnext⟩ := hinvariant.raise hfew
      rw [if_pos hless, nextGuess_eq _ hordered]
      exact ⟨_, rfl, hnext⟩
    · have hless : ¬ counts.smaller + counts.same < number := by
        rw [Int64.lt_iff_toInt_lt, hsum, hnumber]
        omega
      have hmany : counts.smaller ≥ number := by
        rw [ge_iff_le, Int64.le_iff_toInt_le, hcounts.smaller, hnumber]
        omega
      obtain ⟨hordered, hnext⟩ := hinvariant.lower (by omega)
      rw [if_neg hless, if_pos hmany, nextGuess_eq _ hordered]
      exact ⟨_, rfl, hnext⟩

/-- A round that is not the last is one of the first hundred. -/
theorem steps_of_kthStep {number smaller same : Int64} {later : KthLoop}
    (hnext : kthStep number smaller same loop = .next later) :
    loop.steps < 100 ∧ later.steps = loop.steps + 1 := by
  unfold kthStep nextGuess at hnext
  dsimp only at hnext
  split_ifs at hnext <;> cases hnext <;> exact ⟨by omega, rfl⟩

/-- The loop starts with the least and the greatest value as its bounds. -/
theorem startKth_spec {min max : Int64} (hmin : ∀ value ∈ values, min.toInt ≤ value)
    (hmax : ∀ value ∈ values, value ≤ max.toInt) (hk : 0 < k) (hlength : k ≤ values.length) :
    ∃ loop, startKth min max = .next loop ∧ KthInvariant values k loop := by
  obtain ⟨value, hvalue⟩ := List.exists_mem_of_length_pos (hk.trans_le hlength)
  have hordered : min ≤ max :=
    Int64.le_iff_toInt_le.mpr ((hmin value hvalue).trans (hmax value hvalue))
  unfold startKth
  rw [if_pos hordered]
  refine ⟨_, rfl, hordered, ?_, ?_, Or.inl ⟨rfl, rfl⟩⟩
  · rwa [countBelow_eq_zero hmin]
  · rwa [countUpTo_eq_length hmax]

/-- Without a positive number of the value to look for, the loop never succeeds. -/
theorem kthStep_ne_success {number smaller same guess : Int64} (hnumber : number.toInt ≤ 0)
    (hsmaller : 0 ≤ smaller.toInt) :
    kthStep number smaller same loop ≠ .result guess true := by
  have hnot : ¬ (smaller < number ∧ smaller + same ≥ number) := by
    rintro ⟨hless, -⟩
    rw [Int64.lt_iff_toInt_lt] at hless
    omega
  unfold kthStep nextGuess
  dsimp only
  rw [if_neg hnot]
  split_ifs <;> simp

end Loop

end MuduoProtorpc.Median
