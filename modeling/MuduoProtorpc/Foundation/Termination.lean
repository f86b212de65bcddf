import Mathlib.Algebra.BigOperators.Group.Finset.Basic
import Mathlib.Algebra.GroupWithZero.Nat
import Mathlib.Tactic.Push
import MuduoProtorpc.Foundation.TransitionSystem

/-!
# Systems whose runs all end

A measure that goes down with every step of every run bounds the length of the runs
(`Run.length_le`), and every run can be continued to a state in which nothing more happens
(`Run.exists_settled`). The same holds of the steps of a kind, where the measure goes down with
these (`RunWhen.length_le`, `Run.exists_rest`). Where the measure adds up the weights of the
elements of a list, or of the values of a function, `sum_map_set` and `sum_weight_update` are what a
step does to it that moves one of them.
-/

set_option autoImplicit false
set_option relaxedAutoImplicit false

namespace Foundation.TransitionSystem

variable {State Action : Type*} (system : TransitionSystem State Action)

/-- No action is enabled. -/
def Settled (state : State) : Prop :=
  ∀ action, system.step state action = none

/-- The measure goes down with every step of a run. -/
def Decreasing (measure : State → ℕ) : Prop :=
  ∀ actions state action next, system.Run actions state → system.step state action = some next →
    measure next < measure state

/-- It goes down with the steps of a kind. -/
def DecreasingWhen (kind : State → Action → Prop) (measure : State → ℕ) : Prop :=
  ∀ actions state action next, system.Run actions state → kind state action →
    system.step state action = some next → measure next < measure state

variable {system} {kind : State → Action → Prop} {measure : State → ℕ} {actions : List Action}
  {state : State}

theorem Decreasing.when (hdecreasing : system.Decreasing measure) :
    system.DecreasingWhen (fun _ _ ↦ True) measure :=
  fun actions state action next hrun _ hstep ↦ hdecreasing actions state action next hrun hstep

/-- A run of such steps is no longer than what they have taken off the measure. -/
theorem RunWhen.length_le (hdecreasing : system.DecreasingWhen kind measure)
    (hrun : system.RunWhen kind actions state) :
    actions.length + measure state ≤ measure system.start := by
  induction hrun with
  | start => simp
  | step hrun hkind hstep ih =>
    have hless := hdecreasing _ _ _ _ hrun.run hkind hstep
    rw [List.length_append, List.length_singleton]
    omega

/-- Every run can be continued until no such step is enabled. -/
theorem Run.exists_rest (hdecreasing : system.DecreasingWhen kind measure)
    (hrun : system.Run actions state) :
    ∃ more last, system.Run (actions ++ more) last ∧
      ∀ action, kind last action → system.step last action = none := by
  induction hmeasure : measure state using Nat.strongRecOn generalizing actions state with
  | _ bound ih =>
    by_cases hrest : ∀ action, kind state action → system.step state action = none
    · exact ⟨[], state, by rwa [List.append_nil], hrest⟩
    · push Not at hrest
      obtain ⟨action, hkind, henabled⟩ := hrest
      obtain ⟨next, hstep⟩ := Option.ne_none_iff_exists'.mp henabled
      have hless := hdecreasing _ _ _ _ hrun hkind hstep
      obtain ⟨more, last, hmore, hlast⟩ :=
        ih (measure next) (by omega) (.step hrun trivial hstep) rfl
      exact ⟨action :: more, last, by rwa [List.append_assoc] at hmore, hlast⟩

/-- A run is no longer than what its steps have taken off the measure. -/
theorem Run.length_le (hdecreasing : system.Decreasing measure)
    (hrun : system.Run actions state) :
    actions.length + measure state ≤ measure system.start :=
  RunWhen.length_le hdecreasing.when hrun

/-- Every run can be continued until nothing more happens. -/
theorem Run.exists_settled (hdecreasing : system.Decreasing measure)
    (hrun : system.Run actions state) :
    ∃ more last, system.Run (actions ++ more) last ∧ system.Settled last := by
  obtain ⟨more, last, hmore, hlast⟩ := Run.exists_rest hdecreasing.when hrun
  exact ⟨more, last, hmore, fun action ↦ hlast action trivial⟩

end Foundation.TransitionSystem

namespace Foundation

/-- The weight of a list after an element has been replaced. -/
theorem sum_map_set {Item : Type*} {items : List Item} {index : ℕ} {old : Item}
    (hold : items[index]? = some old) (weight : Item → ℕ) (new : Item) :
    ((items.set index new).map weight).sum + weight old =
      (items.map weight).sum + weight new := by
  induction items generalizing index with
  | nil => cases hold
  | cons head tail ih =>
    cases index with
    | zero =>
      obtain rfl := Option.some.inj hold
      simp only [List.set_cons_zero, List.map_cons, List.sum_cons]
      omega
    | succ index =>
      have htail := ih hold
      simp only [List.set_cons_succ, List.map_cons, List.sum_cons]
      omega

/-- The weight of some values of a function after one of them has been replaced. -/
theorem sum_weight_update {Index Item : Type*} [DecidableEq Index] {indices : Finset Index}
    {index : Index} (hindex : index ∈ indices) (items : Index → Item) (new : Item)
    (weight : Item → ℕ) :
    ∑ other ∈ indices, weight (Function.update items index new other) + weight (items index) =
      ∑ other ∈ indices, weight (items other) + weight new := by
  have hothers : ∑ other ∈ indices.erase index, weight (Function.update items index new other) =
      ∑ other ∈ indices.erase index, weight (items other) := by
    refine Finset.sum_congr rfl fun other hother ↦ ?_
    rw [Function.update_of_ne (Finset.ne_of_mem_erase hother)]
  rw [← Finset.add_sum_erase _ _ hindex, hothers, Function.update_self,
    ← Finset.add_sum_erase _ (fun other ↦ weight (items other)) hindex]
  omega

end Foundation
