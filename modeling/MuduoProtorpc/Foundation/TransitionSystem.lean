import Mathlib.Data.List.Induction
import Mathlib.Tactic.TypeStar

/-!
# Labelled transition systems, their runs, and events since an event

A `TransitionSystem` is a start state and a partial step function: an action that is not enabled
in a state has no step from it. All the nondeterminism of a concurrent program (which thread moves,
what a peer sends) sits in the choice of the action, so a step is a computation and a run on given
actions can be evaluated with `execute`.

`RunWhen permitted actions state` says that the actions, each permitted in the state it is taken
from, lead from the start to the state; `Run` permits every action. `RunWhen.invariant` and
`RunWhen.historyInvariant` are the two induction rules: an invariant of states, and an invariant
that also speaks about the actions taken so far.

`Since event blocker history` is the past-time operator "an `event` happened, and no `blocker`
happened after it"; `since_append_singleton` is its recurrence along a run.
-/

set_option autoImplicit false
set_option relaxedAutoImplicit false

namespace Foundation

/-- A labelled transition system with one start state and a partial step function. -/
structure TransitionSystem (State Action : Type*) where
  start : State
  step : State → Action → Option State

namespace TransitionSystem

variable {State Action : Type*} (system : TransitionSystem State Action)

/-! ### Executing actions -/

/-- Executes a list of actions from a state, oldest first. -/
def execute (state : State) : List Action → Option State
  | [] => some state
  | action :: rest => (system.step state action).bind fun next ↦ execute next rest

theorem execute_append (state : State) (first second : List Action) :
    system.execute state (first ++ second) =
      (system.execute state first).bind fun middle ↦ system.execute middle second := by
  induction first generalizing state with
  | nil => rfl
  | cons action rest ih =>
    simp only [List.cons_append, execute]
    cases system.step state action with
    | none => rfl
    | some next => exact ih next

theorem execute_cons {state next last : State} {action : Action} {rest : List Action}
    (hstep : system.step state action = some next) (hrest : system.execute next rest = some last) :
    system.execute state (action :: rest) = some last := by
  simp only [execute, hstep, Option.bind_some, hrest]

theorem execute_trans {state middle last : State} {first second : List Action}
    (hfirst : system.execute state first = some middle)
    (hsecond : system.execute middle second = some last) :
    system.execute state (first ++ second) = some last := by
  rw [execute_append, hfirst]
  exact hsecond

/-- Each action of an execution has a step from the state that those before it lead to. -/
theorem exists_step_of_execute {state middle last : State} {before after : List Action}
    {action : Action} (hbefore : system.execute state before = some middle)
    (hexecute : system.execute state (before ++ action :: after) = some last) :
    ∃ next, system.step middle action = some next := by
  rw [execute_append, hbefore, Option.bind_some] at hexecute
  obtain ⟨next, hstep, -⟩ := Option.bind_eq_some_iff.mp hexecute
  exact ⟨next, hstep⟩

/-- The system started in another state: its runs are what can happen from there. -/
def startingAt (state : State) : TransitionSystem State Action :=
  { system with start := state }

/-! ### Runs -/

/-- The runs of the system all of whose steps are permitted: the actions, oldest first, and the
state they lead to. -/
inductive RunWhen (permitted : State → Action → Prop) : List Action → State → Prop
  | start : RunWhen permitted [] system.start
  | step {actions : List Action} {state next : State} {action : Action} :
      RunWhen permitted actions state → permitted state action →
        system.step state action = some next → RunWhen permitted (actions ++ [action]) next

/-- The runs of the system, every step permitted. -/
abbrev Run : List Action → State → Prop := system.RunWhen fun _ _ ↦ True

variable {system} {permitted : State → Action → Prop} {actions : List Action} {state : State}

theorem RunWhen.mono {other : State → Action → Prop}
    (hmono : ∀ state action, permitted state action → other state action)
    (hrun : system.RunWhen permitted actions state) : system.RunWhen other actions state := by
  induction hrun with
  | start => exact .start
  | step _ hpermitted hstep ih => exact .step ih (hmono _ _ hpermitted) hstep

theorem RunWhen.run (hrun : system.RunWhen permitted actions state) :
    system.Run actions state :=
  hrun.mono fun _ _ _ ↦ trivial

/-- A run extended by an execution is a run. -/
theorem Run.extend {first second : List Action} {middle last : State}
    (hrun : system.Run first middle) (hexecute : system.execute middle second = some last) :
    system.Run (first ++ second) last := by
  induction second generalizing first middle with
  | nil =>
    cases hexecute
    rwa [List.append_nil]
  | cons action rest ih =>
    simp only [execute] at hexecute
    cases hstep : system.step middle action with
    | none => simp [hstep] at hexecute
    | some next =>
      simp only [hstep, Option.bind_some] at hexecute
      rw [List.append_cons]
      exact ih (.step hrun trivial hstep) hexecute

/-- An execution from the start is a run. -/
theorem Run.of_execute (hexecute : system.execute system.start actions = some state) :
    system.Run actions state :=
  Run.extend .start hexecute

/-- Executes a list of actions from a state, as long as each is permitted where it is taken. -/
def executeWhen (system : TransitionSystem State Action) (permitted : State → Action → Prop)
    [∀ state action, Decidable (permitted state action)] (state : State) :
    List Action → Option State
  | [] => some state
  | action :: rest =>
    if permitted state action then
      (system.step state action).bind fun next ↦ executeWhen system permitted next rest
    else none

/-- A run extended by permitted actions is a run. What decides the execution may be stronger than
what is permitted. -/
theorem RunWhen.extend {decided : State → Action → Prop}
    [∀ state action, Decidable (decided state action)] {first second : List Action}
    {middle last : State} (hrun : system.RunWhen permitted first middle)
    (hdecided : ∀ state action, decided state action → permitted state action)
    (hexecute : system.executeWhen decided middle second = some last) :
    system.RunWhen permitted (first ++ second) last := by
  induction second generalizing first middle with
  | nil =>
    cases hexecute
    rwa [List.append_nil]
  | cons action rest ih =>
    simp only [executeWhen] at hexecute
    split_ifs at hexecute with hpermitted
    cases hstep : system.step middle action with
    | none => simp [hstep] at hexecute
    | some next =>
      simp only [hstep, Option.bind_some] at hexecute
      rw [List.append_cons]
      exact ih (.step hrun (hdecided _ _ hpermitted) hstep) hexecute

/-- A run from a state in which another run has ended goes on with it. -/
theorem RunWhen.trans {first second : List Action} {middle last : State}
    (hfirst : system.RunWhen permitted first middle)
    (hsecond : (system.startingAt middle).RunWhen permitted second last) :
    system.RunWhen permitted (first ++ second) last := by
  induction hsecond with
  | start =>
    rw [List.append_nil]
    exact hfirst
  | step _ hpermitted hstep ih =>
    rw [← List.append_assoc]
    exact .step ih hpermitted hstep

/-- The induction rule for invariants: what holds at the start and is kept by every permitted step
holds after every run. -/
theorem RunWhen.invariant {invariant : State → Prop} (hstart : invariant system.start)
    (hkeep : ∀ state action next, permitted state action → system.step state action = some next →
      invariant state → invariant next)
    (hrun : system.RunWhen permitted actions state) : invariant state := by
  induction hrun with
  | start => exact hstart
  | step _ hpermitted hstep ih => exact hkeep _ _ _ hpermitted hstep ih

/-- The induction rule for invariants that speak about the actions taken so far. -/
theorem RunWhen.historyInvariant {invariant : List Action → State → Prop}
    (hstart : invariant [] system.start)
    (hkeep : ∀ actions state action next, permitted state action →
      system.step state action = some next → invariant actions state →
        invariant (actions ++ [action]) next)
    (hrun : system.RunWhen permitted actions state) : invariant actions state := by
  induction hrun with
  | start => exact hstart
  | step _ hpermitted hstep ih => exact hkeep _ _ _ _ hpermitted hstep ih

/-- The rule for systems that do not get stuck: if from every state with the invariant each legal
action has a step that keeps it, then every list of legal actions can be executed. -/
theorem exists_execute {legal : Action → Prop} {invariant : List Action → State → Prop}
    (hstart : invariant [] system.start)
    (hkeep : ∀ actions state action, legal action → invariant actions state →
      ∃ next, system.step state action = some next ∧ invariant (actions ++ [action]) next)
    (hlegal : ∀ action ∈ actions, legal action) :
    ∃ state, system.execute system.start actions = some state ∧ invariant actions state := by
  induction actions using List.reverseRecOn with
  | nil => exact ⟨system.start, rfl, hstart⟩
  | append_singleton actions action ih =>
    obtain ⟨state, hexecute, hinvariant⟩ :=
      ih fun other hother ↦ hlegal other (List.mem_append_left _ hother)
    have haction := hlegal action (List.mem_append_right _ (List.mem_singleton_self action))
    obtain ⟨next, hstep, hnext⟩ := hkeep actions state action haction hinvariant
    exact ⟨next, system.execute_trans hexecute (system.execute_cons hstep rfl), hnext⟩

end TransitionSystem

/-! ### Since -/

variable {Action : Type*} {event blocker : Action → Prop} {history : List Action}

/-- An event happened in the history, and no blocker happened after it. -/
def Since (event blocker : Action → Prop) (history : List Action) : Prop :=
  ∃ before action after, history = before ++ action :: after ∧ event action ∧
    ∀ later ∈ after, ¬ blocker later

@[simp] theorem since_nil : ¬ Since event blocker [] := by
  rintro ⟨before, action, after, hnil, _⟩
  simp at hnil

/-- The event itself is in the history. -/
theorem Since.exists_mem (hsince : Since event blocker history) :
    ∃ action ∈ history, event action := by
  obtain ⟨before, action, after, rfl, hevent, -⟩ := hsince
  exact ⟨action, by simp, hevent⟩

/-- An event in a history without a blocker has happened since. -/
theorem since_of_forall_not {action : Action} (hmem : action ∈ history) (hevent : event action)
    (hclear : ∀ other ∈ history, ¬ blocker other) : Since event blocker history := by
  obtain ⟨before, after, rfl⟩ := List.append_of_mem hmem
  exact ⟨before, action, after, rfl, hevent, fun later hlater ↦ hclear later (by simp [hlater])⟩

/-- What a list that has grown at its end holds was there before, or is its last element. -/
theorem getElem?_append_singleton_eq_some {Item : Type*} {items : List Item} {last found : Item}
    {index : ℕ} (hfound : (items ++ [last])[index]? = some found) :
    items[index]? = some found ∨ index = items.length ∧ found = last := by
  rcases Nat.lt_or_ge index items.length with hlt | hge
  · rw [List.getElem?_append_left hlt] at hfound
    exact Or.inl hfound
  · rw [List.getElem?_append_right hge, List.getElem?_singleton] at hfound
    split_ifs at hfound with hindex
    exact Or.inr ⟨by omega, (Option.some.inj hfound).symm⟩

/-- What a list holds stays where it is when the list grows at its end. -/
theorem getElem?_append_of_eq_some {Item : Type*} {items : List Item} {found : Item} {index : ℕ}
    (hfound : items[index]? = some found) (more : List Item) :
    (items ++ more)[index]? = some found := by
  rw [List.getElem?_append_left (List.getElem?_eq_some_iff.mp hfound).1, hfound]

/-- What a list has at a position after one of its elements was replaced. -/
theorem getElem?_set_cases {Item : Type*} {items : List Item} {index position : ℕ}
    {item found : Item}
    (hfound : (items.set index item)[position]? = some found) :
    (position = index ∧ found = item) ∨ (position ≠ index ∧ items[position]? = some found) := by
  rw [List.getElem?_set] at hfound
  split_ifs at hfound with hposition
  · exact Or.inl ⟨hposition.symm, (Option.some.inj hfound).symm⟩
  · exact Or.inr ⟨Ne.symm hposition, hfound⟩

/-- An element that is replaced by one with the same value leaves the values as they are. -/
theorem map_set_of_eq_some {Item Value : Type*} {items : List Item} {index : ℕ} {old new : Item}
    (hold : items[index]? = some old) (value : Item → Value) (hsame : value new = value old) :
    (items.set index new).map value = items.map value := by
  obtain ⟨hlt, rfl⟩ := List.getElem?_eq_some_iff.mp hold
  have hlength : index < (items.map value).length := by
    rwa [List.length_map]
  rw [List.map_set, hsame, ← List.getElem_map value (h := hlength), List.set_getElem_self hlength]

/-- How many elements satisfy a predicate after one of them was replaced. -/
theorem countP_set_add {Item : Type*} {items : List Item} {index : ℕ} {old : Item}
    (hold : items[index]? = some old) (predicate : Item → Bool) (new : Item) :
    (items.set index new).countP predicate + (if predicate old then 1 else 0) =
      items.countP predicate + if predicate new then 1 else 0 := by
  induction items generalizing index with
  | nil => cases hold
  | cons head tail ih =>
    cases index with
    | zero =>
      obtain rfl := Option.some.inj hold
      rw [List.set_cons_zero, List.countP_cons, List.countP_cons, Nat.add_right_comm]
    | succ index =>
      have htail := ih hold
      rw [List.set_cons_succ, List.countP_cons, List.countP_cons]
      omega

/-- An action of a history is the last one, or the last one comes after it. -/
theorem append_singleton_eq_append_cons {before after : List Action} {last found : Action}
    (hsplit : history ++ [last] = before ++ found :: after) :
    (before = history ∧ found = last ∧ after = []) ∨
      ∃ rest, after = rest ++ [last] ∧ history = before ++ found :: rest := by
  rcases List.eq_nil_or_concat after with rfl | ⟨rest, final, rfl⟩
  · obtain ⟨hstem, hlast⟩ := List.append_inj' hsplit rfl
    exact Or.inl ⟨hstem.symm, (List.singleton_inj.mp hlast).symm, rfl⟩
  · rw [List.concat_eq_append, ← List.cons_append, ← List.append_assoc] at hsplit
    obtain ⟨hstem, hlast⟩ := List.append_inj' hsplit rfl
    refine Or.inr ⟨rest, ?_, hstem⟩
    rw [List.concat_eq_append, List.singleton_inj.mp hlast]

/-- One more action is the event, or is no blocker and the event has happened before. -/
theorem since_append_singleton (action : Action) :
    Since event blocker (history ++ [action]) ↔
      event action ∨ (Since event blocker history ∧ ¬ blocker action) := by
  constructor
  · rintro ⟨before, found, after, hhistory, hevent, hafter⟩
    rcases append_singleton_eq_append_cons hhistory with ⟨-, rfl, -⟩ | ⟨rest, rfl, hstem⟩
    · exact Or.inl hevent
    · refine Or.inr ⟨⟨before, found, rest, hstem, hevent, fun later hlater ↦ ?_⟩, ?_⟩
      · exact hafter later (by simp [hlater])
      · exact hafter _ (by simp)
  · rintro (hevent | ⟨⟨before, found, after, rfl, hevent, hafter⟩, hblocker⟩)
    · exact ⟨history, action, [], rfl, hevent, by simp⟩
    · refine ⟨before, found, after ++ [action], by simp, hevent, fun later hlater ↦ ?_⟩
      rcases List.mem_append.mp hlater with hold | hnew
      · exact hafter later hold
      · rwa [List.mem_singleton.mp hnew]

end Foundation
