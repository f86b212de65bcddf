import MuduoProtorpc.Median.Replies

/-!
# The search for the k-th value as a function

`getKth` of `examples/median/kth.h` with any function that searches: the rounds it makes, each with
its variables when `search` is called, and how the last of them ends. The tests of
`examples/median/kth_unittest.cc` search a sorted vector, and give its first and its last element as
bounds; any bounds of the k-th value do (`getKth_correct`).
-/

set_option autoImplicit false
set_option relaxedAutoImplicit false

namespace MuduoProtorpc.Median

open Foundation

/-- What `getKth` does: its loop whenever it calls `search`, and how it ends. -/
structure KthRun where
  calls : List KthLoop
  outcome : KthOutcome

/-- The rounds of the loop of `getKth`, from this one on. -/
def kthRounds (search : Int64 → SearchResponse) (k : Int64) (loop : KthLoop) : KthRun :=
  let counts := search loop.guess
  match _hnext : kthStep k counts.smaller counts.same loop with
  | .next next =>
    let later := kthRounds search k next
    { later with calls := loop :: later.calls }
  | outcome => { calls := [loop], outcome := outcome }
termination_by 101 - loop.steps
decreasing_by
  obtain ⟨hsteps, hnext⟩ := steps_of_kthStep ‹_›
  omega

/-- `getKth`, which does not use its `count`. -/
def getKth (search : Int64 → SearchResponse) (k _count min max : Int64) : KthRun :=
  match startKth min max with
  | .next loop => kthRounds search k loop
  | outcome => { calls := [], outcome := outcome }

/-- `search` returns the number of the values below its guess, and of those equal to it. -/
structure ExactSearch (values : List Int64) (search : Int64 → SearchResponse) : Prop where
  smaller : ∀ guess, (search guess).smaller.toInt =
    values.countP fun value ↦ decide (value < guess)
  same : ∀ guess, (search guess).same.toInt = values.count guess

/-- What a call of `search` in this loop does not go wrong with: the bounds are in order and the
guess is between them, the cut-off is not reached, the counts say which way to go on, and the value
after the guess is a number if the lower bound is to be raised to it. -/
structure KthLoop.InOrder (loop : KthLoop) (k : Int64) (counts : SearchResponse) : Prop where
  bounds : loop.min ≤ loop.max
  guess : loop.min ≤ loop.guess ∧ loop.guess ≤ loop.max
  steps : loop.steps + 1 ≤ 100
  improves : (counts.smaller < k ∧ counts.smaller + counts.same ≥ k) ∨
    counts.smaller + counts.same < k ∨ counts.smaller ≥ k
  succ : counts.smaller + counts.same < k → loop.guess.toInt + 1 < 2 ^ 63

section Rounds

variable {values : List ℤ} {k : ℕ} {number : Int64} {loop : KthLoop}
  {search : Int64 → SearchResponse}

/-- The values up to a bound are those below it, and those equal to it. -/
theorem countUpTo_eq_add_count (values : List Int64) (bound : Int64) :
    countUpTo (values.map Int64.toInt) bound.toInt =
      countBelow (values.map Int64.toInt) bound.toInt + values.count bound := by
  induction values with
  | nil => rfl
  | cons first rest ih =>
    unfold countUpTo countBelow at ih ⊢
    simp only [List.map_cons, List.countP_cons, List.count_cons, ih, decide_eq_true_eq, beq_iff_eq,
      Int64.toInt_inj.symm]
    split_ifs <;> omega

/-- The counts of an exact search, over the integers. -/
theorem ExactSearch.countsOf {values : List Int64} (hsearch : ExactSearch values search)
    (guess : Int64) : CountsOf (values.map Int64.toInt) guess.toInt (search guess) where
  smaller := by
    rw [hsearch.smaller, countBelow, List.countP_map]
    simp only [Function.comp_def, Int64.lt_iff_toInt_lt]
  same := by
    rw [hsearch.same, countUpTo_eq_add_count]
    omega

/-- A loop whose bounds are right is in order. -/
theorem KthInvariant.inOrder {counts : SearchResponse} (hnumber : number.toInt = k)
    (hlength : values.length < 2 ^ 63) (hcounts : CountsOf values loop.guess.toInt counts)
    (hinvariant : KthInvariant values k loop) : loop.InOrder number counts := by
  have hguess := hinvariant.guess_mem
  have hupTo := countUpTo_le_length values loop.guess.toInt
  have hsmaller := hcounts.smaller
  have hintegers : counts.smaller.toInt + counts.same.toInt =
      countUpTo values loop.guess.toInt := by
    have hbelow := countBelow_le_countUpTo values loop.guess.toInt
    rw [hcounts.smaller, hcounts.same]
    omega
  have hsum : (counts.smaller + counts.same).toInt = countUpTo values loop.guess.toInt := by
    rw [toInt_add_of_mem (by omega) (by omega), hintegers]
  constructor
  · exact hinvariant.ordered
  · rw [Int64.le_iff_toInt_le, Int64.le_iff_toInt_le]
    exact hguess
  · rcases hinvariant.progress with ⟨hzero, -⟩ | ⟨-, hbound, -, -⟩ <;> omega
  · simp only [ge_iff_le, Int64.lt_iff_toInt_lt, Int64.le_iff_toInt_le, hsum]
    omega
  · intro hfew
    rw [Int64.lt_iff_toInt_lt, hsum, hnumber] at hfew
    obtain ⟨hraised, -⟩ := hinvariant.raise (by omega)
    have hmax := loop.max.toInt_lt
    have hne : loop.guess.toInt ≠ loop.max.toInt := by
      intro hequal
      have henough := hinvariant.upTo
      rw [← hequal] at henough
      omega
    omega

theorem kthRounds_next {k : Int64} {next : KthLoop}
    (hnext : kthStep k (search loop.guess).smaller (search loop.guess).same loop = .next next) :
    (kthRounds search k loop).calls = loop :: (kthRounds search k next).calls ∧
      (kthRounds search k loop).outcome = (kthRounds search k next).outcome := by
  rw [kthRounds]
  split
  · rename_i other hother
    rw [hnext] at hother
    cases hother
    exact ⟨rfl, rfl⟩
  · rename_i hlast
    exact (hlast next hnext).elim

theorem kthRounds_result {k guess : Int64} {succeed : Bool}
    (hlast : kthStep k (search loop.guess).smaller (search loop.guess).same loop =
      .result guess succeed) :
    kthRounds search k loop = { calls := [loop], outcome := .result guess succeed } := by
  rw [kthRounds]
  split
  · rename_i other hother
    rw [hlast] at hother
    cases hother
  · rw [hlast]

/-- Each of the rounds to come is in order, and the last of them, the 66th or an earlier one, finds
the k-th value. -/
theorem kthRounds_spec (loop : KthLoop) (hnumber : number.toInt = k) (hk : 0 < k)
    (hlength : values.length < 2 ^ 63)
    (hsearch : ∀ guess : Int64, CountsOf values guess.toInt (search guess))
    (hinvariant : KthInvariant values k loop) :
    (∃ value : Int64, kthSmallest values k = some value.toInt ∧
      (kthRounds search number loop).outcome = .result value true) ∧
    loop.steps + (kthRounds search number loop).calls.length ≤ 66 ∧
    ∀ call ∈ (kthRounds search number loop).calls, call.InOrder number (search call.guess) := by
  have hround := hinvariant.inOrder hnumber hlength (hsearch loop.guess)
  have hsteps : loop.steps + 1 ≤ 66 := by
    rcases hinvariant.progress with ⟨hzero, -⟩ | ⟨-, hbound, -, -⟩ <;> omega
  rcases kthStep_spec hnumber hk hlength (hsearch loop.guess) hinvariant with
    ⟨hresult, hfound⟩ | ⟨next, hnext, hlater⟩
  · rw [kthRounds_result hresult]
    refine ⟨⟨loop.guess, hfound, rfl⟩, hsteps, ?_⟩
    intro call hcall
    rw [List.mem_singleton.mp hcall]
    exact hround
  · obtain ⟨-, hcount⟩ := steps_of_kthStep hnext
    obtain ⟨hcalls, houtcome⟩ := kthRounds_next hnext
    obtain ⟨hfound, hbound, hrounds⟩ := kthRounds_spec next hnumber hk hlength hsearch hlater
    rw [hcalls, houtcome]
    refine ⟨hfound, ?_, ?_⟩
    · rw [List.length_cons]
      omega
    · intro call hcall
      rcases List.mem_cons.mp hcall with rfl | hcall
      · exact hround
      · exact hrounds call hcall
termination_by 101 - loop.steps
decreasing_by omega

end Rounds

/-- Between bounds of the k-th value, which need not be values, `getKth` finds it with at most 66
calls of `search`, in each of which the loop is in order. There is a k-th value exactly if `k` is at
most `count`. -/
theorem getKth_correct {values : List Int64} {search : Int64 → SearchResponse}
    {k count min max value : Int64} (hsearch : ExactSearch values search)
    (hcount : count.toInt = values.length) (hk : 1 ≤ k)
    (hvalue : kthSmallest (values.map Int64.toInt) k.toInt.toNat = some value.toInt)
    (hmin : min ≤ value) (hmax : value ≤ max) :
    (getKth search k count min max).outcome = .result value true ∧
      (getKth search k count min max).calls.length ≤ 66 ∧
      ∀ loop ∈ (getKth search k count min max).calls, loop.InOrder k (search loop.guess) := by
  have hone : (1 : Int64).toInt = 1 := by decide
  rw [Int64.le_iff_toInt_le, hone] at hk
  rw [Int64.le_iff_toInt_le] at hmin hmax
  obtain ⟨hbelow, hupTo⟩ := (kthSmallest_eq_some_iff (by omega)).mp hvalue
  have hnumber : k.toInt = k.toInt.toNat := by omega
  have hlength : (values.map Int64.toInt).length < 2 ^ 63 := by
    have hbound := count.toInt_lt
    rw [List.length_map]
    omega
  have hordered : min ≤ max := Int64.le_iff_toInt_le.mpr (hmin.trans hmax)
  have hinvariant : KthInvariant (values.map Int64.toInt) k.toInt.toNat
      { steps := 0, guess := max, min := min, max := max } := by
    constructor
    · exact hordered
    · exact (countBelow_mono _ hmin).trans_lt hbelow
    · exact hupTo.trans (countUpTo_mono _ hmax)
    · exact Or.inl ⟨rfl, rfl⟩
  have hstart : getKth search k count min max =
      kthRounds search k { steps := 0, guess := max, min := min, max := max } := by
    unfold getKth startKth
    rw [if_pos hordered]
  obtain ⟨⟨found, hfound, houtcome⟩, hcalls, hrounds⟩ :=
    kthRounds_spec _ hnumber (by omega) hlength hsearch.countsOf hinvariant
  obtain rfl : found = value :=
    Int64.toInt_inj.mp (Option.some.inj (hfound.symm.trans hvalue))
  rw [hstart]
  exact ⟨houtcome, by simpa using hcalls, hrounds⟩

/-- A sorted vector, searched as in the tests. -/
theorem Sorter.exactSearch (sorter : Sorter) (hlength : sorter.data.length < 2 ^ 63) :
    ExactSearch sorter.data (search sorter) := by
  have hcounts (guess : Int64) : CountsOf sorter.values guess.toInt (search sorter guess) :=
    search_spec sorter guess (by rwa [Sorter.length_values])
  constructor
  · intro guess
    rw [(hcounts guess).smaller, Sorter.values, countBelow, List.countP_map]
    simp only [Function.comp_def, Int64.lt_iff_toInt_lt]
  · intro guess
    rw [(hcounts guess).same, Sorter.values, countUpTo_eq_add_count]
    omega

/-- The least, the greatest and two values next to zero: the second of them, between bounds that
are not values. -/
def fourValues : Sorter where
  data := [Int64.minValue, -1, 1, Int64.maxValue]
  sorted := by decide

theorem getKth_fourValues :
    (getKth (search fourValues) 2 4 (-5) Int64.maxValue).outcome = .result (-1) true ∧
      (getKth (search fourValues) 2 4 (-5) Int64.maxValue).calls.length ≤ 66 ∧
      ∀ loop ∈ (getKth (search fourValues) 2 4 (-5) Int64.maxValue).calls,
        loop.InOrder 2 (search fourValues loop.guess) :=
  getKth_correct (fourValues.exactSearch (by decide)) (by decide) (by decide)
    ((kthSmallest_eq_some_iff (by decide)).mpr (by decide)) (by decide) (by decide)

end MuduoProtorpc.Median
