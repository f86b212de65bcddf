import Mathlib.Data.List.Perm.Basic
import MuduoProtorpc.Median.Bisection

/-!
# What the collector knows

The replies that the collector has heard add up to the counts of the values of these sorters,
whatever their order; an empty sorter adds nothing (`StatsOf`, `CountsOf`). When all have replied
these are the counts of all values. `CollectorInvariant` joins this with the search for the k-th
value, and with what becomes of `k` when the number of values plus one is out of range.
-/

set_option autoImplicit false
set_option relaxedAutoImplicit false

namespace MuduoProtorpc.Median

open Foundation

/-! ### The replies of one sorter -/

/-- The data of a sorter, as integers. -/
def Sorter.values (sorter : Sorter) : List ℤ :=
  sorter.data.map Int64.toInt

/-- The values of all sorters. -/
def union (sorters : List Sorter) : List ℤ :=
  sorters.flatMap Sorter.values

section Sorters

variable {sorter : Sorter} {value : ℤ} {guess : Int64}

@[simp] theorem Sorter.length_values (sorter : Sorter) :
    sorter.values.length = sorter.data.length :=
  List.length_map _

theorem Sorter.pairwise_values (sorter : Sorter) : sorter.values.Pairwise (· ≤ ·) :=
  sorter.sorted.map Int64.toInt fun _ _ hle ↦ Int64.le_iff_toInt_le.mp hle

theorem query_count (hlength : sorter.values.length < 2 ^ 63) :
    (query sorter).count.toInt = sorter.values.length := by
  rw [Sorter.length_values] at hlength ⊢
  have hcount : (query sorter).count = Int64.ofNat sorter.data.length := by
    unfold query
    dsimp only
    split_ifs <;> rfl
  rw [hcount, Int64.toInt_ofNat_of_lt hlength]

/-- The least value in the reply of a sorter that is not empty. -/
theorem query_min (hvalue : value ∈ sorter.values) :
    ((query sorter).min.getD 0).toInt ≤ value := by
  obtain ⟨data, hsorted⟩ := sorter
  obtain ⟨number, hnumber, rfl⟩ := List.mem_map.mp hvalue
  cases data with
  | nil => cases hnumber
  | cons first rest =>
    show first.toInt ≤ number.toInt
    rcases List.mem_cons.mp hnumber with rfl | hlater
    · exact le_refl _
    · exact Int64.le_iff_toInt_le.mp (List.rel_of_pairwise_cons hsorted hlater)

/-- The last of sorted data is the greatest. -/
theorem le_getLast {data : List Int64} (hsorted : data.Pairwise (· ≤ ·)) {number : Int64}
    (hnumber : number ∈ data) : number.toInt ≤ (data.getLast?.getD 0).toInt := by
  rcases List.eq_nil_or_concat data with rfl | ⟨before, last, rfl⟩
  · cases hnumber
  · rw [List.concat_eq_append] at hsorted hnumber ⊢
    rw [List.getLast?_concat]
    show number.toInt ≤ last.toInt
    rcases List.mem_append.mp hnumber with hearlier | hsame
    · exact Int64.le_iff_toInt_le.mp
        ((List.pairwise_append.mp hsorted).2.2 number hearlier last (List.mem_singleton_self last))
    · rw [List.mem_singleton.mp hsame]

/-- The greatest value in the reply of a sorter that is not empty. -/
theorem query_max (hvalue : value ∈ sorter.values) :
    value ≤ ((query sorter).max.getD 0).toInt := by
  obtain ⟨number, hnumber, rfl⟩ := List.mem_map.mp hvalue
  have hlast : (query sorter).max = sorter.data.getLast? := by
    unfold query
    simp [List.length_pos_of_mem hnumber]
  rw [hlast]
  exact le_getLast sorter.sorted hnumber

/-- The first position that is not below a guess. -/
theorem lowerBound_eq (sorter : Sorter) (guess : Int64) :
    lowerBound sorter.data guess = countBelow sorter.values guess.toInt := by
  rw [countBelow_eq_findIdx sorter.pairwise_values, Sorter.values, List.findIdx_map]
  unfold lowerBound
  congr 1
  funext value
  simp only [Function.comp_apply, Int64.lt_iff_toInt_lt]

/-- The first position that is above a guess. -/
theorem upperBound_eq (sorter : Sorter) (guess : Int64) :
    upperBound sorter.data guess = countUpTo sorter.values guess.toInt := by
  rw [countUpTo_eq_findIdx sorter.pairwise_values, Sorter.values, List.findIdx_map]
  unfold upperBound
  congr 1
  funext value
  simp only [Function.comp_apply, Int64.lt_iff_toInt_lt, ← decide_not, not_le]

/-- A sorter replies with the counts of its values. -/
theorem search_spec (sorter : Sorter) (guess : Int64) (hlength : sorter.values.length < 2 ^ 63) :
    CountsOf sorter.values guess.toInt (search sorter guess) := by
  have hupTo := countUpTo_le_length sorter.values guess.toInt
  have hbelow := countBelow_le_countUpTo sorter.values guess.toInt
  have hsmaller : (Int64.ofNat (lowerBound sorter.data guess)).toInt =
      countBelow sorter.values guess.toInt := by
    rw [lowerBound_eq, Int64.toInt_ofNat_of_lt (by omega)]
  have hupper : (Int64.ofNat (upperBound sorter.data guess)).toInt =
      countUpTo sorter.values guess.toInt := by
    rw [upperBound_eq, Int64.toInt_ofNat_of_lt (by omega)]
  refine ⟨hsmaller, ?_⟩
  show (Int64.ofNat (upperBound sorter.data guess) -
    Int64.ofNat (lowerBound sorter.data guess)).toInt = _
  rw [toInt_sub_of_mem (by omega) (by omega), hsmaller, hupper]

end Sorters

/-! ### The replies that were heard -/

/-- The number of values, and bounds of them. -/
structure StatsOf (values : List ℤ) (stats : QueryResponse) : Prop where
  count : stats.count.toInt = values.length
  min : ∀ value ∈ values, (stats.min.getD 0).toInt ≤ value
  max : ∀ value ∈ values, value ≤ (stats.max.getD 0).toInt

section Sums

variable {values others : List ℤ} {sorter : Sorter} {stats : QueryResponse}
  {counts : SearchResponse} {guess : ℤ}

theorem StatsOf.perm (hstats : StatsOf values stats) (hperm : values.Perm others) :
    StatsOf others stats where
  count := by rw [hstats.count, hperm.length_eq]
  min := fun value hvalue ↦ hstats.min value (hperm.mem_iff.mpr hvalue)
  max := fun value hvalue ↦ hstats.max value (hperm.mem_iff.mpr hvalue)

theorem CountsOf.perm (hcounts : CountsOf values guess counts) (hperm : values.Perm others) :
    CountsOf others guess counts where
  smaller := by rw [hcounts.smaller, countBelow_perm hperm]
  same := by rw [hcounts.same, countBelow_perm hperm, countUpTo_perm hperm]

/-- The reply of one more sorter is added to the statistics. -/
theorem StatsOf.add (hstats : StatsOf values stats)
    (hlength : (values ++ sorter.values).length < 2 ^ 63) :
    StatsOf (values ++ sorter.values) (addStats stats (query sorter)) := by
  rw [List.length_append] at hlength
  have hquery : (query sorter).count.toInt = sorter.values.length := query_count (by omega)
  have hcount := hstats.count
  have hsum : (stats.count + (query sorter).count).toInt =
      (values ++ sorter.values).length := by
    rw [toInt_add_of_mem (by omega) (by omega), hcount, hquery, List.length_append]
    omega
  unfold addStats
  dsimp only
  by_cases hsome : (query sorter).count > 0
  · rw [if_pos hsome]
    refine ⟨hsum, fun value hvalue ↦ ?_, fun value hvalue ↦ ?_⟩
    · dsimp only
      have hsplit := List.mem_append.mp hvalue
      split_ifs with hless
      · rw [Int64.lt_iff_toInt_lt] at hless
        rcases hsplit with hold | hnew
        · exact (le_of_lt hless).trans (hstats.min value hold)
        · exact query_min hnew
      · rw [Int64.lt_iff_toInt_lt, not_lt] at hless
        rcases hsplit with hold | hnew
        · exact hstats.min value hold
        · exact hless.trans (query_min hnew)
    · dsimp only
      have hsplit := List.mem_append.mp hvalue
      split_ifs with hgreater
      · rw [gt_iff_lt, Int64.lt_iff_toInt_lt] at hgreater
        rcases hsplit with hold | hnew
        · exact (hstats.max value hold).trans (le_of_lt hgreater)
        · exact query_max hnew
      · rw [gt_iff_lt, Int64.lt_iff_toInt_lt, not_lt] at hgreater
        rcases hsplit with hold | hnew
        · exact hstats.max value hold
        · exact (query_max hnew).trans hgreater
  · have hempty : sorter.values = [] := by
      rw [gt_iff_lt, Int64.lt_iff_toInt_lt, hquery] at hsome
      have hzero : (0 : Int64).toInt = 0 := by decide
      exact List.eq_nil_of_length_eq_zero (by omega)
    rw [if_neg hsome]
    rw [hempty, List.append_nil] at hsum ⊢
    exact ⟨hsum, hstats.min, hstats.max⟩

/-- The reply of one more sorter is added to the counts. -/
theorem CountsOf.add {guess : Int64} (hcounts : CountsOf values guess.toInt counts)
    (hlength : (values ++ sorter.values).length < 2 ^ 63) :
    CountsOf (values ++ sorter.values) guess.toInt (addCounts counts (search sorter guess)) := by
  rw [List.length_append] at hlength
  obtain ⟨hsmaller, hsame⟩ := search_spec sorter guess (by omega)
  have hvalues := countUpTo_le_length values guess.toInt
  have hbelow := countBelow_le_countUpTo values guess.toInt
  have hmore := countUpTo_le_length sorter.values guess.toInt
  have hmoreBelow := countBelow_le_countUpTo sorter.values guess.toInt
  have hold := hcounts.smaller
  have holdSame := hcounts.same
  constructor
  · show (counts.smaller + (search sorter guess).smaller).toInt = _
    rw [toInt_add_of_mem (by omega) (by omega), countBelow_append]
    omega
  · show (counts.same + (search sorter guess).same).toInt = _
    rw [toInt_add_of_mem (by omega) (by omega), countBelow_append, countUpTo_append]
    omega

end Sums

/-! ### The collector in every run -/

/-- The report is what it should be: there is no median if and only if there is no value, and the
median is the value in the middle, or the lower of the two. -/
def Report.Right (values : List ℤ) (report : Report) : Prop :=
  match report with
  | .noMedian => values = []
  | .median value => kthSmallest values ((values.length + 1) / 2) = some value.toInt
  | .notFound => False
  | .aborted _ => False

/-- What the collector looks for: the k-th value, or nothing that there is, when the number of
values plus one has wrapped around. -/
structure Searching (values : List ℤ) (k : Int64) (loop : KthLoop) : Prop where
  inRange : values.length + 1 < 2 ^ 63 →
    k.toInt = ((values.length + 1) / 2 : ℕ) ∧ 0 < (values.length + 1) / 2 ∧
      KthInvariant values ((values.length + 1) / 2) loop
  outOfRange : ¬ values.length + 1 < 2 ^ 63 → k.toInt ≤ 0

/-- What is known of the values that were heard. -/
def PhaseInvariant (values heard : List ℤ) (phase : CollectorPhase) : Prop :=
  match phase with
  | .querying stats => StatsOf heard stats
  | .searching k loop counts => Searching values k loop ∧ CountsOf heard loop.guess.toInt counts
  | .reported report => report.Right values ↔ values.length + 1 < 2 ^ 63

/-- The sorters that have replied, with those that have not, are all sorters. -/
def CollectorInvariant (sorters : List Sorter) (collector : Collector) : Prop :=
  ∃ heard, (heard ++ collector.pending).Perm sorters ∧
    PhaseInvariant (union sorters) (union heard) collector.phase

section Runs

variable {sorters heard : List Sorter} {collector next : Collector} {values : List ℤ}

theorem union_append (first second : List Sorter) :
    union (first ++ second) = union first ++ union second :=
  List.flatMap_append

theorem union_perm {first second : List Sorter} (hperm : first.Perm second) :
    (union first).Perm (union second) :=
  hperm.flatMap_right _

/-- When nobody has replied there is nothing to be counted. -/
theorem countsOf_nil (guess : ℤ) : CountsOf [] guess {} :=
  ⟨rfl, rfl⟩

theorem collectorInvariant_start (sorters : List Sorter) :
    CollectorInvariant sorters (collectorSystem sorters).start := by
  refine ⟨[], List.Perm.refl _, ?_⟩
  show StatsOf [] _
  exact ⟨rfl, fun _ hvalue ↦ (by cases hvalue), fun _ hvalue ↦ (by cases hvalue)⟩

/-- A reply is heard. -/
theorem CollectorInvariant.reply (hinvariant : CollectorInvariant sorters collector)
    (hlength : (union sorters).length < 2 ^ 63) {position : ℕ} {sorter : Sorter}
    (hsorter : collector.pending[position]? = some sorter) : CollectorInvariant sorters {
      phase := collector.phase.addReply sorter
      pending := collector.pending.eraseIdx position } := by
  obtain ⟨heard, hperm, hphase⟩ := hinvariant
  obtain ⟨hposition, hitem⟩ := List.getElem?_eq_some_iff.mp hsorter
  have herase : (sorter :: collector.pending.eraseIdx position).Perm collector.pending := by
    have herased := List.getElem_cons_eraseIdx_perm hposition
    rwa [hitem] at herased
  have hall : ((heard ++ [sorter]) ++ collector.pending.eraseIdx position).Perm sorters := by
    rw [List.append_assoc]
    exact (herase.append_left heard).trans hperm
  have hheard : union (heard ++ [sorter]) = union heard ++ sorter.values := by
    rw [union_append]
    exact congrArg _ (List.append_nil _)
  have hfits : (union heard ++ sorter.values).length < 2 ^ 63 := by
    have hsize := (union_perm hall).length_eq
    rw [union_append, hheard, List.length_append] at hsize
    omega
  refine ⟨heard ++ [sorter], hall, ?_⟩
  show PhaseInvariant (union sorters) (union (heard ++ [sorter])) _
  rw [hheard]
  unfold PhaseInvariant at hphase ⊢
  cases hcase : collector.phase with
  | querying stats =>
    simp only [hcase] at hphase
    exact hphase.add hfits
  | searching k loop counts =>
    simp only [hcase] at hphase
    exact ⟨hphase.1, hphase.2.add hfits⟩
  | reported report =>
    simp only [hcase] at hphase
    exact hphase

/-- After a round the search goes on, or its result is reported: the k-th value, if there is one
with the number `k`. -/
theorem collectorInvariant_afterRound {k : Int64} {outcome : KthOutcome}
    (hnext : ∀ loop, outcome = .next loop → Searching (union sorters) k loop)
    (hsuccess : ∀ guess, outcome = .result guess true →
      ((Report.median guess).Right (union sorters) ↔ (union sorters).length + 1 < 2 ^ 63))
    (hfailure : (∃ guess, outcome = .result guess false) ∨
      (∃ assertion, outcome = .aborted assertion) → ¬ (union sorters).length + 1 < 2 ^ 63) :
    CollectorInvariant sorters (.afterRound sorters k outcome) := by
  cases outcome with
  | next loop => exact ⟨[], List.Perm.refl _, hnext loop rfl, countsOf_nil _⟩
  | result guess succeed =>
    refine ⟨sorters, (List.append_nil sorters).symm ▸ List.Perm.refl _, ?_⟩
    cases succeed with
    | true => exact hsuccess guess rfl
    | false => exact iff_of_false (fun hright ↦ hright) (hfailure (Or.inl ⟨guess, rfl⟩))
  | aborted assertion =>
    refine ⟨sorters, (List.append_nil sorters).symm ▸ List.Perm.refl _, ?_⟩
    exact iff_of_false (fun hright ↦ hright) (hfailure (Or.inr ⟨assertion, rfl⟩))

/-- The number `k` of the value in the middle, when it is in range. -/
theorem toInt_half {count : Int64} {length : ℕ} (hcount : count.toInt = length)
    (hlength : length + 1 < 2 ^ 63) : ((count + 1) / 2).toInt = ((length + 1) / 2 : ℕ) := by
  have hone : (1 : Int64).toInt = 1 := by decide
  have htwo : (2 : Int64).toInt = 2 := by decide
  rw [Int64.toInt_div_of_ne_right _ _ (by decide), toInt_add_of_mem (by omega) (by omega), hone,
    htwo, hcount, Int.tdiv_eq_ediv_of_nonneg (by omega)]
  omega

/-- It is negative when the number of values plus one wraps around. -/
theorem toInt_half_wrapped {count : Int64} (hcount : count.toInt = 2 ^ 63 - 1) :
    ((count + 1) / 2).toInt ≤ 0 := by
  have hmax : count = Int64.maxValue := Int64.toInt_inj.mp (hcount.trans (by decide))
  rw [hmax]
  decide

/-- The first round, when the number of values and their bounds are known. -/
theorem collectorInvariant_startKth {stats : QueryResponse}
    (hstats : StatsOf (union sorters) stats) (hlength : (union sorters).length < 2 ^ 63)
    (hsome : ¬ stats.count ≤ 0) : CollectorInvariant sorters (.afterRound sorters
      ((stats.count + 1) / 2) (startKth (stats.min.getD 0) (stats.max.getD 0))) := by
  have hcount := hstats.count
  have hpositive : 0 < (union sorters).length := by
    rw [Int64.le_iff_toInt_le, hcount] at hsome
    have hzero : (0 : Int64).toInt = 0 := by decide
    omega
  obtain ⟨loop, hstart, hloop⟩ := startKth_spec hstats.min hstats.max
    (show 0 < ((union sorters).length + 1) / 2 by omega) (by omega)
  rw [hstart]
  refine collectorInvariant_afterRound (fun next hnext ↦ ?_) (fun guess hguess ↦ ?_) ?_
  · obtain rfl : loop = next := KthOutcome.next.inj hnext
    refine ⟨fun hrange ↦ ⟨toInt_half hcount hrange, by omega, hloop⟩, fun hwrapped ↦ ?_⟩
    exact toInt_half_wrapped (by omega)
  · cases hguess
  · rintro (⟨guess, hguess⟩ | ⟨assertion, hassertion⟩)
    · cases hguess
    · cases hassertion

/-- A later round, when the counts for its guess are known. -/
theorem collectorInvariant_kthStep {k : Int64} {loop : KthLoop} {counts : SearchResponse}
    (hsearching : Searching (union sorters) k loop)
    (hcounts : CountsOf (union sorters) loop.guess.toInt counts)
    (hlength : (union sorters).length < 2 ^ 63) : CollectorInvariant sorters
      (.afterRound sorters k (kthStep k counts.smaller counts.same loop)) := by
  by_cases hrange : (union sorters).length + 1 < 2 ^ 63
  · obtain ⟨hk, hpositive, hloop⟩ := hsearching.inRange hrange
    rcases kthStep_spec hk hpositive hlength hcounts hloop with
      ⟨hfound, hkth⟩ | ⟨next, hnext, hkept⟩
    · rw [hfound]
      refine collectorInvariant_afterRound (fun _ hnext ↦ (by cases hnext))
        (fun guess hguess ↦ ?_) ?_
      · cases hguess
        exact iff_of_true hkth hrange
      · rintro (⟨guess, hguess⟩ | ⟨assertion, hassertion⟩)
        · cases hguess
        · cases hassertion
    · rw [hnext]
      refine collectorInvariant_afterRound (fun later hlater ↦ ?_)
        (fun _ hguess ↦ (by cases hguess)) ?_
      · obtain rfl : next = later := KthOutcome.next.inj hlater
        exact ⟨fun _ ↦ ⟨hk, hpositive, hkept⟩, fun hwrapped ↦ absurd hrange hwrapped⟩
      · rintro (⟨guess, hguess⟩ | ⟨assertion, hassertion⟩)
        · cases hguess
        · cases hassertion
  · have hk := hsearching.outOfRange hrange
    have hsmaller : 0 ≤ counts.smaller.toInt := by
      rw [hcounts.smaller]
      omega
    refine collectorInvariant_afterRound
      (fun _ _ ↦ ⟨fun hfits ↦ absurd hfits hrange, fun _ ↦ hk⟩) (fun guess hguess ↦ ?_)
      (fun _ ↦ hrange)
    exact absurd hguess (kthStep_ne_success hk hsmaller)

/-- The thread goes on when all sorters have replied. -/
theorem CollectorInvariant.wake (hinvariant : CollectorInvariant sorters collector)
    (hlength : (union sorters).length < 2 ^ 63) (hpending : collector.pending = [])
    (hwake : collector.wake sorters = some next) : CollectorInvariant sorters next := by
  obtain ⟨heard, hperm, hphase⟩ := hinvariant
  rw [hpending, List.append_nil] at hperm
  have hunion := union_perm hperm
  unfold Collector.wake at hwake
  cases hcase : collector.phase with
  | querying stats =>
    simp only [hcase] at hwake
    simp only [PhaseInvariant, hcase] at hphase
    have hstats := hphase.perm hunion
    split_ifs at hwake with hnone
    · obtain rfl := Option.some.inj hwake
      have hempty : union sorters = [] := by
        have hcount := hstats.count
        rw [Int64.le_iff_toInt_le, hcount] at hnone
        have hzero : (0 : Int64).toInt = 0 := by decide
        exact List.eq_nil_of_length_eq_zero (by omega)
      refine ⟨sorters, (List.append_nil sorters).symm ▸ List.Perm.refl _, ?_⟩
      refine iff_of_true hempty ?_
      rw [hempty]
      decide
    · obtain rfl := Option.some.inj hwake
      exact collectorInvariant_startKth hstats hlength hnone
  | searching k loop counts =>
    simp only [hcase, Option.some.injEq] at hwake
    simp only [PhaseInvariant, hcase] at hphase
    rw [← hwake]
    exact collectorInvariant_kthStep hphase.1 (hphase.2.perm hunion) hlength
  | reported report =>
    simp only [hcase] at hwake
    cases hwake

/-- In every run the collector knows what it should. -/
theorem collectorInvariant_of_run {actions : List CollectorAction}
    (hlength : (union sorters).length < 2 ^ 63)
    (hrun : (collectorSystem sorters).Run actions collector) :
    CollectorInvariant sorters collector := by
  refine TransitionSystem.RunWhen.invariant (collectorInvariant_start sorters)
    (fun state action next _ hstep hinvariant ↦ ?_) hrun
  cases action with
  | reply position =>
    simp only [collectorSystem, collectorStep] at hstep
    split at hstep
    · cases hstep
    · rename_i sorter hsorter
      obtain rfl := Option.some.inj hstep
      exact hinvariant.reply hlength hsorter
  | wake =>
    simp only [collectorSystem, collectorStep] at hstep
    split_ifs at hstep with hpending
    exact hinvariant.wake hlength (List.isEmpty_iff.mp hpending) hstep

end Runs

end MuduoProtorpc.Median
