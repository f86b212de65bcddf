import Mathlib.Algebra.BigOperators.Group.List.Basic
import MuduoProtorpc.Foundation.Termination
import MuduoProtorpc.Median.Replies

/-!
# The median of the data of all sorters

Every run of the collector ends, and it ends with a report (`MedianCorrect`). The report is right,
for all data and all orders of the replies, if and only if the number of values plus one is in the
range of `int64` (`medianCorrect_iff`): `Collector::run` computes `(count+1)/2`, which is negative
when the count is the greatest number.
-/

set_option autoImplicit false
set_option relaxedAutoImplicit false

namespace MuduoProtorpc.Median

open Foundation

/-! ### What is to be shown -/

/-- Every run ends with the right report, which depends on nothing but the values of all sorters
together: with the same values in other sorters every run ends with the same report. -/
structure MedianCorrect (sorters : List Sorter) : Prop where
  ends : ∃ bound, ∀ actions collector, (collectorSystem sorters).Run actions collector →
    actions.length ≤ bound
  reports : ∀ actions collector, (collectorSystem sorters).Run actions collector →
    (collectorSystem sorters).Settled collector →
      ∃ report, collector.phase = .reported report ∧ report.Right (union sorters)
  onlyUnion : ∀ (others : List Sorter) (actions otherActions : List CollectorAction)
    (collector other : Collector), (union others).Perm (union sorters) →
      (collectorSystem sorters).Run actions collector →
      (collectorSystem sorters).Settled collector →
      (collectorSystem others).Run otherActions other → (collectorSystem others).Settled other →
        collector.phase = other.phase

/-! ### Every run ends -/

/-- The number of steps that are left, or more. -/
def remainingSteps (sorters : List Sorter) (collector : Collector) : ℕ :=
  match collector.phase with
  | .querying _ => (sorters.length + 1) * 102 + collector.pending.length + 1
  | .searching _ loop _ =>
    (sorters.length + 1) * (101 - loop.steps) + collector.pending.length + 1
  | .reported _ => collector.pending.length

section Ends

variable {sorters : List Sorter} {collector next : Collector}

/-- What is left after a round. -/
theorem remainingSteps_afterRound (sorters : List Sorter) (k : Int64) {outcome : KthOutcome}
    (steps : ℕ)
    (hnext : ∀ loop, outcome = .next loop → loop.steps ≤ 100 ∧ loop.steps = steps) :
    remainingSteps sorters (.afterRound sorters k outcome) ≤
      (sorters.length + 1) * (102 - steps) := by
  cases outcome with
  | next loop =>
    obtain ⟨hbound, rfl⟩ := hnext loop rfl
    obtain ⟨left, hleft⟩ := Nat.exists_eq_add_of_le hbound
    have hrounds : 101 - loop.steps = left + 1 := by omega
    have hmore : 102 - loop.steps = left + 2 := by omega
    show (sorters.length + 1) * (101 - loop.steps) + sorters.length + 1 ≤ _
    rw [hrounds, hmore, Nat.mul_add _ left 2, Nat.mul_add _ left 1]
    omega
  | result guess succeed => exact Nat.zero_le _
  | aborted assertion => exact Nat.zero_le _

/-- A step of the thread leaves less to do. -/
theorem remainingSteps_wake (hwake : collector.wake sorters = some next) :
    remainingSteps sorters next < remainingSteps sorters collector := by
  unfold Collector.wake at hwake
  cases hcase : collector.phase with
  | querying stats =>
    simp only [hcase] at hwake
    have hbefore : remainingSteps sorters collector =
        (sorters.length + 1) * 102 + collector.pending.length + 1 := by
      simp only [remainingSteps, hcase]
    rw [hbefore]
    split_ifs at hwake
    · obtain rfl := Option.some.inj hwake
      show (0 : ℕ) < _
      omega
    · obtain rfl := Option.some.inj hwake
      have hstart : ∀ loop, startKth (stats.min.getD 0) (stats.max.getD 0) = .next loop →
          loop.steps ≤ 100 ∧ loop.steps = 0 := by
        intro loop hloop
        unfold startKth at hloop
        split_ifs at hloop
        cases hloop
        exact ⟨Nat.zero_le _, rfl⟩
      have hafter := remainingSteps_afterRound sorters ((stats.count + 1) / 2) 0 hstart
      omega
  | searching k loop counts =>
    simp only [hcase, Option.some.injEq] at hwake
    have hbefore : remainingSteps sorters collector =
        (sorters.length + 1) * (101 - loop.steps) + collector.pending.length + 1 := by
      simp only [remainingSteps, hcase]
    have hround : ∀ later, kthStep k counts.smaller counts.same loop = .next later →
        later.steps ≤ 100 ∧ later.steps = loop.steps + 1 := by
      intro later hlater
      obtain ⟨hbound, hsteps⟩ := steps_of_kthStep hlater
      exact ⟨by omega, hsteps⟩
    have hafter := remainingSteps_afterRound sorters k (loop.steps + 1) hround
    have hrounds : 102 - (loop.steps + 1) = 101 - loop.steps := by omega
    rw [hrounds] at hafter
    rw [← hwake, hbefore]
    omega
  | reported report =>
    simp only [hcase] at hwake
    cases hwake

/-- A reply leaves one less to wait for. -/
theorem remainingSteps_reply {sorter : Sorter} {position : ℕ}
    (hposition : position < collector.pending.length) : remainingSteps sorters {
      phase := collector.phase.addReply sorter
      pending := collector.pending.eraseIdx position } <
        remainingSteps sorters collector := by
  have hlength := List.length_eraseIdx_of_lt hposition
  unfold remainingSteps CollectorPhase.addReply
  cases collector.phase with
  | querying stats =>
    dsimp only
    omega
  | searching k loop counts =>
    dsimp only
    omega
  | reported report =>
    dsimp only
    omega

theorem decreasing_remainingSteps (sorters : List Sorter) :
    (collectorSystem sorters).Decreasing (remainingSteps sorters) := by
  intro actions state action next _ hstep
  cases action with
  | reply position =>
    simp only [collectorSystem, collectorStep] at hstep
    split at hstep
    · cases hstep
    · rename_i sorter hsorter
      obtain rfl := Option.some.inj hstep
      obtain ⟨hposition, -⟩ := List.getElem?_eq_some_iff.mp hsorter
      exact remainingSteps_reply hposition
  | wake =>
    simp only [collectorSystem, collectorStep] at hstep
    split_ifs at hstep
    exact remainingSteps_wake hstep

/-- Nothing more happens only when the collector has reported. -/
theorem reported_of_settled (hsettled : (collectorSystem sorters).Settled collector) :
    ∃ report, collector.phase = .reported report := by
  have hpending : collector.pending = [] := by
    by_contra hsome
    have hposition := List.length_pos_iff.mpr hsome
    have hreply := hsettled (.reply 0)
    simp [collectorSystem, collectorStep, List.getElem?_eq_getElem hposition] at hreply
  have hwake := hsettled .wake
  simp only [collectorSystem, collectorStep, hpending, List.isEmpty_nil, if_true] at hwake
  unfold Collector.wake at hwake
  cases hcase : collector.phase with
  | querying stats =>
    simp only [hcase] at hwake
    split_ifs at hwake
  | searching k loop counts =>
    simp only [hcase] at hwake
    cases hwake
  | reported report => exact ⟨report, rfl⟩

end Ends

/-! ### The report -/

section Correct

variable {sorters : List Sorter} {collector : Collector} {actions : List CollectorAction}

/-- There is one right report, and it does not depend on the order of the values. -/
theorem Report.right_unique {values others : List ℤ} (hperm : values.Perm others)
    {first second : Report} (hfirst : first.Right values) (hsecond : second.Right others) :
    first = second := by
  have hkth : kthSmallest values ((values.length + 1) / 2) =
      kthSmallest others ((others.length + 1) / 2) := by
    rw [← hperm.length_eq]
    by_cases hempty : values = []
    · subst hempty
      rw [hperm.nil_eq]
    · have hpositive := List.length_pos_iff.mpr hempty
      exact kthSmallest_perm (by omega) hperm
  cases first with
  | noMedian =>
    have hvalues : values = [] := hfirst
    subst hvalues
    cases second with
    | noMedian => rfl
    | median value =>
      have hnone : kthSmallest others ((others.length + 1) / 2) = some value.toInt := hsecond
      rw [← hperm.nil_eq] at hnone
      simp [kthSmallest] at hnone
    | notFound => exact hsecond.elim
    | aborted assertion => exact hsecond.elim
  | median value =>
    have hvalue : kthSmallest values ((values.length + 1) / 2) = some value.toInt := hfirst
    cases second with
    | noMedian =>
      have hothers : others = [] := hsecond
      subst hothers
      rw [hperm.eq_nil] at hvalue
      simp [kthSmallest] at hvalue
    | median other =>
      have hother : kthSmallest others ((others.length + 1) / 2) = some other.toInt := hsecond
      rw [hkth, hother, Option.some.injEq] at hvalue
      rw [Int64.toInt_inj.mp hvalue]
    | notFound => exact hsecond.elim
    | aborted assertion => exact hsecond.elim
  | notFound => exact hfirst.elim
  | aborted assertion => exact hfirst.elim

/-- A run that is at its end has reported, and its report is right if and only if the number of
values plus one is in range. -/
theorem report_of_settled (hlength : (union sorters).length < 2 ^ 63)
    (hrun : (collectorSystem sorters).Run actions collector)
    (hsettled : (collectorSystem sorters).Settled collector) :
    ∃ report, collector.phase = .reported report ∧
      (report.Right (union sorters) ↔ (union sorters).length + 1 < 2 ^ 63) := by
  obtain ⟨report, hreport⟩ := reported_of_settled hsettled
  obtain ⟨heard, -, hphase⟩ := collectorInvariant_of_run hlength hrun
  simp only [PhaseInvariant, hreport] at hphase
  exact ⟨report, hreport, hphase⟩

/-- A number of values that is the greatest number makes every run report wrongly. -/
theorem not_medianCorrect (hlength : (union sorters).length < 2 ^ 63)
    (hwrapped : ¬ (union sorters).length + 1 < 2 ^ 63) : ¬ MedianCorrect sorters := by
  intro hcorrect
  obtain ⟨actions, collector, hrun, hsettled⟩ :=
    TransitionSystem.Run.exists_settled (decreasing_remainingSteps sorters) .start
  obtain ⟨report, hreport, hright⟩ := report_of_settled hlength hrun hsettled
  obtain ⟨other, hother, hotherRight⟩ := hcorrect.reports _ _ hrun hsettled
  obtain rfl : report = other := CollectorPhase.reported.inj (hreport.symm.trans hother)
  exact hwrapped (hright.mp hotherRight)

/-- The collector finds the median, whatever the data and the order of the replies, if and only if
the number of values plus one is in range. -/
theorem medianCorrect_iff (hlength : (union sorters).length < 2 ^ 63) :
    MedianCorrect sorters ↔ (union sorters).length + 1 < 2 ^ 63 := by
  constructor
  · intro hcorrect
    by_contra hwrapped
    exact not_medianCorrect hlength hwrapped hcorrect
  · intro hrange
    refine ⟨⟨remainingSteps sorters (collectorSystem sorters).start,
        fun actions collector hrun ↦ ?_⟩,
      fun actions collector hrun hsettled ↦ ?_,
      fun others actions otherActions collector other hperm hrun hsettled hotherRun hother ↦ ?_⟩
    · have hbound := TransitionSystem.Run.length_le (decreasing_remainingSteps sorters) hrun
      exact (Nat.le_add_right _ _).trans hbound
    · obtain ⟨report, hreport, hright⟩ := report_of_settled hlength hrun hsettled
      exact ⟨report, hreport, hright.mpr hrange⟩
    · have hsame := hperm.length_eq
      obtain ⟨report, hreport, hright⟩ := report_of_settled hlength hrun hsettled
      obtain ⟨otherReport, hotherReport, hotherRight⟩ :=
        report_of_settled (by omega) hotherRun hother
      have hunique := Report.right_unique hperm (hotherRight.mpr (by omega)) (hright.mpr hrange)
      rw [hreport, hotherReport, hunique]

end Correct

/-! ### Two sorters, and as many values as there can be -/

/-- One sorter is empty, and the other has the least and the greatest number. -/
theorem medianCorrect_extremes :
    MedianCorrect [⟨[], .nil⟩, ⟨[Int64.minValue, Int64.maxValue], by decide⟩] :=
  (medianCorrect_iff (by decide)).mpr (by decide)

/-- A sorter that has the number zero so many times. -/
def zeros (count : ℕ) : Sorter where
  data := List.replicate count 0
  sorted := List.pairwise_replicate.mpr (Or.inr (Int64.le_refl 0))

/-- Eight sorters with 2^60 - 1 zeros each, and one with seven. -/
def greatestCount : List Sorter :=
  List.replicate 8 (zeros (2 ^ 60 - 1)) ++ [zeros 7]

/-- With 2^63 - 1 values the collector does not find the median. -/
theorem not_medianCorrect_greatestCount :
    ¬ ∀ sorters : List Sorter, (union sorters).length < 2 ^ 63 → MedianCorrect sorters := by
  intro hall
  have hlength : (union greatestCount).length = 2 ^ 63 - 1 := by
    simp only [union, greatestCount, List.length_flatMap, List.map_append, List.map_replicate,
      Sorter.length_values, zeros, List.length_replicate, List.sum_append, List.sum_replicate,
      List.map_cons, List.map_nil, List.sum_cons, List.sum_nil]
    norm_num
  exact not_medianCorrect (by omega) (by omega) (hall greatestCount (by omega))

end MuduoProtorpc.Median
