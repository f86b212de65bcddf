import Mathlib.Data.List.DropRight
import Mathlib.Data.List.Nodup
import Mathlib.Tactic.SplitIfs
import MuduoProtorpc.Foundation.TransitionSystem

/-!
# Least recently used

`lru capacity history` is what a cache of the most recently used names holds after a history of
uses and removals, the most recently used name first. It has at most `capacity` names
(`length_lru_le`), none twice (`nodup_lru`), and of two names in it the first is the one that has
been used since the other was (`pairwise_since_lru`). So a name that a use drops is the one that has
not been used for the longest time (`usedSince_of_dropped`).

A name can serve as a marker: when it was used, and then only others were used or removed, what is
before it has been used since and what is behind it has not, as long as it is there (`Marked`). So
`dropBehind` leaves the names used since, also when the marker was dropped (`Marked.dropBehind`).
-/

set_option autoImplicit false
set_option relaxedAutoImplicit false

namespace Foundation

variable {Name : Type*} [DecidableEq Name]

/-- What happens to a cache of names. -/
inductive LruEvent (Name : Type*)
  | use (name : Name)
  | remove (name : Name)
  | dropBehind (sentry : Name)

/-- A use puts a name in front, and the names beyond the capacity are dropped. `dropBehind` drops
the names that are less recent than one of the cache. -/
def lruStep (capacity : ℕ) (recent : List Name) : LruEvent Name → List Name
  | .use name => (name :: recent.erase name).take capacity
  | .remove name => recent.erase name
  | .dropBehind sentry =>
    if sentry ∈ recent then recent.rdropWhile fun name ↦ decide (name ≠ sentry) else recent

/-- The names in the cache after a history, the most recently used first. -/
def lru (capacity : ℕ) (history : List (LruEvent Name)) : List Name :=
  history.foldl (lruStep capacity) []

@[simp] theorem lru_nil (capacity : ℕ) : lru capacity ([] : List (LruEvent Name)) = [] :=
  rfl

theorem lru_append_singleton (capacity : ℕ) (history : List (LruEvent Name))
    (event : LruEvent Name) :
    lru capacity (history ++ [event]) = lruStep capacity (lru capacity history) event := by
  rw [lru, List.foldl_append]
  rfl

section Step

variable {capacity : ℕ} {recent : List Name} {name : Name}

/-- A name that is in the cache comes to the front, and nothing is dropped. -/
theorem lruStep_use_of_mem (hmem : name ∈ recent) (hlength : recent.length ≤ capacity) :
    lruStep capacity recent (.use name) = name :: recent.erase name := by
  have hcons : (name :: recent.erase name).length = recent.length := by
    rw [List.length_cons, List.length_erase_of_mem hmem]
    exact Nat.sub_add_cancel (List.length_pos_of_mem hmem)
  exact List.take_of_length_le (hcons.le.trans hlength)

/-- A name that is not in the cache is put in front as long as there is room. -/
theorem lruStep_use_of_room (hnew : name ∉ recent) (hroom : recent.length + 1 ≤ capacity) :
    lruStep capacity recent (.use name) = name :: recent := by
  rw [lruStep, List.erase_of_not_mem hnew]
  exact List.take_of_length_le hroom

/-- A name that is not in a full cache takes the place of the last one. -/
theorem lruStep_use_of_full (hnew : name ∉ recent) (hfull : recent.length = capacity) :
    lruStep capacity recent (.use name) = (name :: recent).dropLast := by
  rw [lruStep, List.erase_of_not_mem hnew, List.dropLast_eq_take, List.length_cons, hfull,
    Nat.add_sub_cancel]

/-- The name that is used is not the one that is dropped. -/
theorem mem_lruStep_use (hcapacity : 1 ≤ capacity) :
    name ∈ lruStep capacity recent (.use name) := by
  obtain ⟨rest, rfl⟩ := Nat.exists_eq_add_of_le hcapacity
  rw [lruStep, Nat.add_comm, List.take_succ_cons]
  exact List.mem_cons_self

/-- Apart from a use, an event only drops names. -/
theorem lruStep_sublist (capacity : ℕ) (recent : List Name) (event : LruEvent Name)
    (hremoves : ∀ name, event ≠ .use name) :
    (lruStep capacity recent event).Sublist recent := by
  cases event with
  | use name => exact absurd rfl (hremoves name)
  | remove name => exact List.erase_sublist
  | dropBehind sentry =>
    rw [lruStep]
    split_ifs
    · exact (List.rdropWhile_prefix _ _).sublist
    · exact List.Sublist.refl _

theorem length_lruStep_le (hlength : recent.length ≤ capacity) (event : LruEvent Name) :
    (lruStep capacity recent event).length ≤ capacity := by
  by_cases huse : ∃ name, event = .use name
  · obtain ⟨name, rfl⟩ := huse
    exact List.length_take_le _ _
  · have hsublist := lruStep_sublist capacity recent event (not_exists.mp huse)
    exact hsublist.length_le.trans hlength

theorem nodup_lruStep (hnodup : recent.Nodup) (event : LruEvent Name) :
    (lruStep capacity recent event).Nodup := by
  by_cases huse : ∃ name, event = .use name
  · obtain ⟨name, rfl⟩ := huse
    apply (List.take_sublist _ _).nodup
    exact List.nodup_cons.mpr ⟨hnodup.not_mem_erase, hnodup.erase name⟩
  · have hsublist := lruStep_sublist capacity recent event (not_exists.mp huse)
    exact hsublist.nodup hnodup

end Step

section History

/-- A name has been used since another was. -/
def UsedSince (history : List (LruEvent Name)) (newer older : Name) : Prop :=
  Since (· = .use newer) (· = .use older) history

/-- A use puts a name before those that are sorted by their uses. -/
theorem pairwise_since_use {history : List (LruEvent Name)} {recent : List Name}
    (hnodup : recent.Nodup) (hsorted : recent.Pairwise (UsedSince history)) (name : Name) :
    (name :: recent.erase name).Pairwise (UsedSince (history ++ [.use name])) := by
  constructor
  · intro older holder
    exact (since_append_singleton _).mpr (Or.inl rfl)
  · apply (hsorted.sublist List.erase_sublist).imp_of_mem
    intro newer older _ holder hsince
    have hother : LruEvent.use name ≠ .use older := by
      intro heq
      obtain rfl := LruEvent.use.inj heq
      exact hnodup.not_mem_erase holder
    exact (since_append_singleton _).mpr (Or.inr ⟨hsince, hother⟩)

variable (capacity : ℕ) (history : List (LruEvent Name))

theorem length_lru_le : (lru capacity history).length ≤ capacity := by
  induction history using List.reverseRecOn with
  | nil => exact Nat.zero_le capacity
  | append_singleton history event ih =>
    rw [lru_append_singleton]
    exact length_lruStep_le ih event

theorem nodup_lru : (lru capacity history).Nodup := by
  induction history using List.reverseRecOn with
  | nil => exact List.nodup_nil
  | append_singleton history event ih =>
    rw [lru_append_singleton]
    exact nodup_lruStep ih event

/-- Of two names in the cache, the first has been used since the second was. -/
theorem pairwise_since_lru : (lru capacity history).Pairwise (UsedSince history) := by
  induction history using List.reverseRecOn with
  | nil => exact List.Pairwise.nil
  | append_singleton history event ih =>
    rw [lru_append_singleton]
    by_cases huse : ∃ name, event = .use name
    · obtain ⟨name, rfl⟩ := huse
      have hused := pairwise_since_use (nodup_lru capacity history) ih name
      exact hused.sublist (List.take_sublist _ _)
    · have hremoves := not_exists.mp huse
      apply (ih.sublist (lruStep_sublist _ _ event hremoves)).imp
      intro newer older hsince
      exact (since_append_singleton _).mpr (Or.inr ⟨hsince, hremoves older⟩)

variable {capacity history}

/-- A name that a use drops is another one, and all names that stay have been used since it was. -/
theorem usedSince_of_dropped (hcapacity : 1 ≤ capacity) {name dropped : Name}
    (hmem : dropped ∈ lru capacity history)
    (hdropped : dropped ∉ lru capacity (history ++ [.use name])) :
    dropped ≠ name ∧ ∀ other ∈ lru capacity (history ++ [.use name]),
      UsedSince (history ++ [.use name]) other dropped := by
  rw [lru_append_singleton] at hdropped ⊢
  have hne : dropped ≠ name := by
    rintro rfl
    exact hdropped (mem_lruStep_use hcapacity)
  refine ⟨hne, fun other hother ↦ ?_⟩
  have hall := pairwise_since_use (nodup_lru capacity history)
    (pairwise_since_lru capacity history) name
  rw [← List.take_append_drop capacity (name :: _), List.pairwise_append] at hall
  have hlate : dropped ∈ (name :: (lru capacity history).erase name).drop capacity := by
    have hcons : dropped ∈ name :: (lru capacity history).erase name :=
      List.mem_cons_of_mem name ((List.mem_erase_of_ne hne).mpr hmem)
    rw [← List.take_append_drop capacity (name :: _)] at hcons
    exact (List.mem_append.mp hcons).resolve_left hdropped
  exact hall.2.2 other hother dropped hlate

end History

/-! ### A marker -/

section Marker

/-- The names that some events use. -/
def usedNames (events : List (LruEvent Name)) : List Name :=
  events.filterMap fun event ↦
    match event with
    | .use name => some name
    | .remove _ => none
    | .dropBehind _ => none

omit [DecidableEq Name] in
theorem mem_usedNames {events : List (LruEvent Name)} {name : Name} :
    name ∈ usedNames events ↔ LruEvent.use name ∈ events := by
  rw [usedNames, List.mem_filterMap]
  constructor
  · rintro ⟨event, hevent, hname⟩
    cases event with
    | use other => rwa [← Option.some.inj hname]
    | remove other => cases hname
    | dropBehind other => cases hname
  · intro huse
    exact ⟨.use name, huse, rfl⟩

/-- After a sentry was used, the names before it are those that some events have used since, and
no event has used a name behind it. The sentry may have been dropped, and all names behind it. -/
inductive Marked (sentry : Name) (events : List (LruEvent Name)) : List Name → Prop
  | behind {newer older : List Name} :
      (∀ name ∈ newer, name ≠ sentry ∧ LruEvent.use name ∈ events) →
        (∀ name ∈ older, LruEvent.use name ∉ events) →
          Marked sentry events (newer ++ sentry :: older)
  | dropped {newer : List Name} :
      (∀ name ∈ newer, name ≠ sentry ∧ LruEvent.use name ∈ events) → Marked sentry events newer

/-- An event uses or removes a name that is not the sentry. -/
def LruEvent.Beside (sentry : Name) : LruEvent Name → Prop
  | .use name => name ≠ sentry
  | .remove name => name ≠ sentry
  | .dropBehind _ => False

variable {capacity : ℕ} {sentry name : Name} {events : List (LruEvent Name)} {recent : List Name}

/-- The sentry is in front when it has been used. -/
theorem marked_use_sentry (hcapacity : 1 ≤ capacity) :
    Marked sentry [] (lruStep capacity recent (.use sentry)) := by
  obtain ⟨rest, rfl⟩ := Nat.exists_eq_add_of_le hcapacity
  rw [lruStep, Nat.add_comm, List.take_succ_cons]
  show Marked sentry [] ([] ++ sentry :: _)
  refine .behind ?_ ?_
  · intro name hname
    cases hname
  · intro name _ huse
    cases huse

omit [DecidableEq Name] in
/-- When the last names are dropped, the sentry is the last that is kept of the older ones. -/
theorem Marked.take (hmarked : Marked sentry events recent) (count : ℕ) :
    Marked sentry events (recent.take count) := by
  cases hmarked with
  | @behind newer older hnewer holder =>
    rw [List.take_append]
    cases count - newer.length with
    | zero =>
      rw [List.take_zero, List.append_nil]
      exact .dropped fun name hname ↦ hnewer name (List.mem_of_mem_take hname)
    | succ room =>
      rw [List.take_succ_cons]
      refine .behind ?_ ?_
      · intro name hname
        exact hnewer name (List.mem_of_mem_take hname)
      · intro name hname
        exact holder name (List.mem_of_mem_take hname)
  | dropped hnewer => exact .dropped fun name hname ↦ hnewer name (List.mem_of_mem_take hname)

omit [DecidableEq Name] in
/-- A name that has been used is put in front. -/
theorem Marked.cons (hmarked : Marked sentry events recent) (hother : name ≠ sentry)
    (hused : LruEvent.use name ∈ events) : Marked sentry events (name :: recent) := by
  have hcons : ∀ newer : List Name, (∀ name ∈ newer, name ≠ sentry ∧ LruEvent.use name ∈ events) →
      ∀ later ∈ name :: newer, later ≠ sentry ∧ LruEvent.use later ∈ events := by
    intro newer hnewer later hlater
    rcases List.mem_cons.mp hlater with rfl | hbefore
    · exact ⟨hother, hused⟩
    · exact hnewer later hbefore
  cases hmarked with
  | @behind newer older hnewer holder =>
    rw [← List.cons_append]
    exact .behind (hcons newer hnewer) holder
  | dropped hnewer => exact .dropped (hcons recent hnewer)

/-- A name that is taken out may be one that the next event uses. -/
theorem Marked.erase (hmarked : Marked sentry events recent) (hnodup : recent.Nodup)
    (hother : name ≠ sentry) {event : LruEvent Name}
    (hevent : ∀ later, event = .use later → later = name) :
    Marked sentry (events ++ [event]) (recent.erase name) := by
  have hgrows : ∀ newer : List Name, (∀ name ∈ newer, name ≠ sentry ∧ LruEvent.use name ∈ events) →
      ∀ later ∈ newer, later ≠ sentry ∧ LruEvent.use later ∈ events ++ [event] := by
    intro newer hnewer later hlater
    exact ⟨(hnewer later hlater).1, List.mem_append_left _ (hnewer later hlater).2⟩
  cases hmarked with
  | @behind newer older hnewer holder =>
    have hbehind : ∀ later ∈ older, later ≠ name → LruEvent.use later ∉ events ++ [event] := by
      intro later hlater hne huse
      rcases List.mem_append.mp huse with hbefore | hlast
      · exact holder later hlater hbefore
      · exact hne (hevent later (List.mem_singleton.mp hlast).symm)
    obtain ⟨-, holders, hdisjoint⟩ := List.nodup_append'.mp hnodup
    rw [List.nodup_cons] at holders
    by_cases hmem : name ∈ newer
    · rw [List.erase_append_left _ hmem]
      refine .behind ?_ ?_
      · intro later hlater
        exact hgrows newer hnewer later (List.mem_of_mem_erase hlater)
      · intro later hlater
        apply hbehind later hlater
        rintro rfl
        exact hdisjoint hmem (List.mem_cons_of_mem _ hlater)
    · rw [List.erase_append_right _ hmem, List.erase_cons_tail (by simpa using Ne.symm hother)]
      refine .behind (hgrows newer hnewer) ?_
      intro later hlater
      apply hbehind later (List.mem_of_mem_erase hlater)
      rintro rfl
      exact holders.2.not_mem_erase hlater
  | dropped hnewer =>
    exact .dropped fun later hlater ↦ hgrows recent hnewer later (List.mem_of_mem_erase hlater)

theorem Marked.step (hmarked : Marked sentry events recent) (hnodup : recent.Nodup)
    {event : LruEvent Name} (hbeside : event.Beside sentry) :
    Marked sentry (events ++ [event]) (lruStep capacity recent event) := by
  cases event with
  | use name =>
    have herased : Marked sentry (events ++ [.use name]) (recent.erase name) :=
      hmarked.erase hnodup hbeside fun later heq ↦ (LruEvent.use.inj heq).symm
    apply Marked.take
    exact herased.cons hbeside (List.mem_append_right _ (List.mem_singleton_self _))
  | remove name => exact hmarked.erase hnodup hbeside fun later heq ↦ by cases heq
  | dropBehind name => exact hbeside.elim

/-- What the events do that use and remove other names than the sentry. -/
theorem Marked.foldl (hmarked : Marked sentry [] recent) (hnodup : recent.Nodup)
    (hbeside : ∀ event ∈ events, event.Beside sentry) :
    Marked sentry events (events.foldl (lruStep capacity) recent) ∧
      (events.foldl (lruStep capacity) recent).Nodup := by
  induction events using List.reverseRecOn with
  | nil => exact ⟨hmarked, hnodup⟩
  | append_singleton events event ih =>
    obtain ⟨hbefore, hbeforeNodup⟩ := ih fun other hother ↦
      hbeside other (List.mem_append_left _ hother)
    have hlast := hbeside event (List.mem_append_right _ (List.mem_singleton_self event))
    rw [List.foldl_append]
    exact ⟨hbefore.step hbeforeNodup hlast, nodup_lruStep hbeforeNodup event⟩

omit [DecidableEq Name] in
/-- What is dropped from the back up to a kept name does not depend on what is behind it. -/
theorem rdropWhile_append {dropped : Name → Bool} {older : List Name} (newer : List Name)
    (holder : ∀ name ∈ older, dropped name = true) :
    (newer ++ older).rdropWhile dropped = newer.rdropWhile dropped := by
  induction older using List.reverseRecOn with
  | nil => rw [List.append_nil]
  | append_singleton older last ih =>
    have hlast := holder last (List.mem_append_right _ (List.mem_singleton_self last))
    rw [← List.append_assoc, List.rdropWhile_concat_pos _ _ _ hlast]
    exact ih fun name hname ↦ holder name (List.mem_append_left _ hname)

/-- The sweep keeps the names that have been used since, and the sentry, in their order. -/
theorem Marked.dropBehind (capacity : ℕ) (hmarked : Marked sentry events recent)
    (hnodup : recent.Nodup) :
    lruStep capacity recent (.dropBehind sentry) =
      recent.filter fun name ↦ decide (name = sentry ∨ name ∈ usedNames events) := by
  have hkeep : ∀ newer : List Name, (∀ name ∈ newer, name ≠ sentry ∧ LruEvent.use name ∈ events) →
      (newer.filter fun name ↦ decide (name = sentry ∨ name ∈ usedNames events)) = newer := by
    intro newer hnewer
    rw [List.filter_eq_self]
    intro name hname
    exact decide_eq_true (Or.inr (mem_usedNames.mpr (hnewer name hname).2))
  rw [lruStep]
  cases hmarked with
  | @behind newer older hnewer holder =>
    obtain ⟨-, holders, -⟩ := List.nodup_append'.mp hnodup
    have hsentry := (List.nodup_cons.mp holders).1
    have hne : ∀ name ∈ older, name ≠ sentry := by
      rintro name hname rfl
      exact hsentry hname
    have hunused : (older.filter fun name ↦ decide (name = sentry ∨ name ∈ usedNames events)) =
        [] := by
      rw [List.filter_eq_nil_iff]
      intro name hname
      simp [hne name hname, mem_usedNames, holder name hname]
    rw [if_pos (by simp), List.filter_append, hkeep newer hnewer, List.filter_cons_of_pos (by simp),
      hunused, List.append_cons, rdropWhile_append _ (by simpa using hne),
      List.rdropWhile_concat_neg _ _ _ (by simp)]
  | dropped hnewer =>
    rw [hkeep recent hnewer, if_neg fun hsentry ↦ (hnewer sentry hsentry).1 rfl]

end Marker

end Foundation
