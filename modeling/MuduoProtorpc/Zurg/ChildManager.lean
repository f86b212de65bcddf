import Mathlib.Data.Int.Notation
import Mathlib.Data.List.Perm.Basic
import Mathlib.Data.List.Nodup

/-!
# The children of a zurg slave

`ChildManager` of `examples/zurg/slave/ChildManager.cc`, with the processes of the kernel that it
waits for. The kernel gives a new child a pid that no child has which was not waited for; it reports
an exited child once; and it may report a signal for a pid late, more than once, or not at all, so
that `onRead` may be called with any pid at any time.

An `Owner` is what a callback is bound to. A child carries the owner that its successful start has
registered, which neither the kernel nor `ChildManager` looks at: it is there to say what the
callbacks are for (`Registered`). The `reports` are the callbacks that are registered or queued;
every operation but the start of a child and the run of a callback leaves them as they are.
-/

set_option autoImplicit false
set_option relaxedAutoImplicit false

namespace MuduoProtorpc.Zurg

/-! ### The state -/

/-- How a process has ended. -/
inductive ExitStatus
  | exited (code : ℕ)
  | signaled (signal : ℕ) (coredump : Bool)
  deriving DecidableEq, Repr

/-- The `status` of `wait4`. -/
def ExitStatus.status : ExitStatus → ℕ
  | .exited code => code * 256
  | .signaled signal coredump => signal + if coredump then 128 else 0

/-- A child process, with the owner that was registered for it. -/
structure Child (Owner : Type*) where
  pid : ℕ
  owner : Option Owner

/-- `ChildManager`, with the children of the kernel: those that run, and those that have exited and
were not waited for. `pendingFunctors` is the queue of the event loop. -/
structure ChildManager (Owner : Type*) where
  running : List (Child Owner) := []
  zombies : List (Child Owner × ExitStatus) := []
  callbacks : List (ℕ × Owner) := []
  pendingFunctors : List (Owner × ExitStatus) := []

/-- What `Process::start` has done: it returned an error, or threw an exception, for which its
callers have the error 12, and it may have left a child behind; or it started a process. -/
inductive StartOutcome
  | failed (err : { err : ℤ // err ≠ 0 }) (child : Option ℕ)
  | started (pid : ℕ)
  deriving DecidableEq

/-- The pid that the start has taken. -/
def StartOutcome.child : StartOutcome → Option ℕ
  | .failed _ child => child
  | .started pid => some pid

namespace ChildManager

variable {Owner : Type*}

/-- The children that were not waited for. -/
def live (children : ChildManager Owner) : List (Child Owner) :=
  children.running ++ children.zombies.map Prod.fst

/-- A child is forked. -/
def fork (children : ChildManager Owner) (pid : ℕ) (owner : Option Owner) :
    ChildManager Owner :=
  { children with running := children.running ++ [{ pid := pid, owner := owner }] }

/-- A start has failed, and has left a child or none. -/
def abandon (children : ChildManager Owner) : Option ℕ → ChildManager Owner
  | none => children
  | some pid => children.fork pid none

/-- A child exits. -/
def exit (children : ChildManager Owner) (pid : ℕ) (status : ExitStatus) :
    Option (ChildManager Owner) :=
  match children.running.find? fun child ↦ child.pid = pid with
  | none => none
  | some child => some { children with
      running := children.running.filter fun other ↦ other.pid ≠ pid
      zombies := children.zombies ++ [(child, status)] }

/-- `wait4` for a pid, which returns the status of a child that has exited. -/
def wait4 (children : ChildManager Owner) (pid : ℕ) : Option (ExitStatus × ChildManager Owner) :=
  match children.zombies.find? fun zombie ↦ zombie.1.pid = pid with
  | none => none
  | some (_, status) => some (status, { children with
      zombies := children.zombies.filter fun other ↦ other.1.pid ≠ pid })

/-- The assertion of `runAtExit`. -/
def unregistered (children : ChildManager Owner) (pid : ℕ) : Bool :=
  children.callbacks.all fun callback ↦ callback.1 ≠ pid

/-- `runAtExit`, which replaces a callback with the same pid. -/
def runAtExit (children : ChildManager Owner) (pid : ℕ) (owner : Owner) : ChildManager Owner :=
  { children with
    callbacks := (children.callbacks.filter fun other ↦ other.1 ≠ pid) ++ [(pid, owner)] }

/-- `onExit`. -/
def onExit (children : ChildManager Owner) (pid : ℕ) (status : ExitStatus) :
    ChildManager Owner :=
  match children.callbacks.find? fun callback ↦ callback.1 = pid with
  | none => children
  | some (_, owner) => { children with
      pendingFunctors := children.pendingFunctors ++ [(owner, status)]
      callbacks := children.callbacks.filter fun other ↦ other.1 ≠ pid }

/-- `onRead`, when a signal for a pid was read. -/
def onRead (children : ChildManager Owner) (pid : ℕ) : ChildManager Owner :=
  match children.wait4 pid with
  | none => children
  | some (status, waited) => waited.onExit pid status

/-- `onTimer`, which waits for the exited children in some order until there is none. -/
def onTimer (children : ChildManager Owner) (order : List ℕ) : Option (ChildManager Owner) :=
  let swept := order.foldl onRead children
  if swept.zombies.isEmpty then some swept else none

/-- The next functor of the queue of the event loop. -/
def nextFunctor (children : ChildManager Owner) :
    Option ((Owner × ExitStatus) × ChildManager Owner) :=
  match children.pendingFunctors with
  | [] => none
  | functor :: rest => some (functor, { children with pendingFunctors := rest })

/-! ### What is registered -/

/-- The callbacks that are registered or queued. -/
def reports (children : ChildManager Owner) : List Owner :=
  children.callbacks.map Prod.snd ++ children.pendingFunctors.map Prod.fst

/-- What a callback should be registered for. -/
def entry (child : Child Owner) : Option (ℕ × Owner) :=
  child.owner.map fun owner ↦ (child.pid, owner)

/-- What is queued when a child is waited for. -/
def report (reaped : Child Owner × ExitStatus) : Option (Owner × ExitStatus) :=
  reaped.1.owner.map fun owner ↦ (owner, reaped.2)

/-- No two children have one pid, and the callbacks are those of the children whose start has
succeeded and that were not waited for. -/
structure Registered (children : ChildManager Owner) : Prop where
  nodup : (children.live.map Child.pid).Nodup
  callbacks : children.callbacks.Perm (children.live.filterMap entry)

section Lemmas

variable {children next : ChildManager Owner} {pid : ℕ} {owner : Owner} {status : ExitStatus}

theorem registered_empty : Registered ({} : ChildManager Owner) where
  nodup := List.nodup_nil
  callbacks := List.Perm.refl _

/-- A pid under which a callback is registered belongs to a child. -/
theorem Registered.mem_live (hregistered : children.Registered)
    (hmem : (pid, owner) ∈ children.callbacks) :
    ∃ child ∈ children.live, child.pid = pid ∧ child.owner = some owner := by
  obtain ⟨child, hchild, hentry⟩ := List.mem_filterMap.mp (hregistered.callbacks.mem_iff.mp hmem)
  obtain ⟨found, hfound, hpair⟩ := Option.map_eq_some_iff.mp hentry
  obtain ⟨hpid, hsame⟩ := Prod.mk.inj hpair
  exact ⟨child, hchild, hpid, hsame ▸ hfound⟩

/-- The callbacks have the pids of the children whose start has succeeded. -/
theorem Registered.pids (hregistered : children.Registered) :
    (children.callbacks.map Prod.fst).Perm
      ((children.live.filter fun child ↦ child.owner.isSome).map Child.pid) := by
  refine (hregistered.callbacks.map Prod.fst).trans (List.Perm.of_eq ?_)
  induction children.live with
  | nil => rfl
  | cons child rest ih =>
    cases howner : child.owner with
    | none => simp [entry, howner, ih]
    | some owner => simp [entry, howner, ih]

/-! ### A child is started -/

theorem live_fork (given : Option Owner) :
    (children.fork pid given).live.Perm ({ pid := pid, owner := given } :: children.live) := by
  show (children.running ++ [_] ++ children.zombies.map Prod.fst).Perm _
  rw [List.append_assoc]
  exact List.perm_middle

theorem nodup_fork (given : Option Owner) (hregistered : children.Registered)
    (hfree : pid ∉ children.live.map Child.pid) :
    ((children.fork pid given).live.map Child.pid).Nodup := by
  rw [((live_fork given).map Child.pid).nodup_iff, List.map_cons, List.nodup_cons]
  exact ⟨hfree, hregistered.nodup⟩

/-- A start that fails may leave a child, for which nothing is registered. -/
theorem Registered.fork_none (hregistered : children.Registered)
    (hfree : pid ∉ children.live.map Child.pid) : (children.fork pid none).Registered where
  nodup := nodup_fork none hregistered hfree
  callbacks := hregistered.callbacks.trans ((live_fork none).filterMap entry).symm

/-- Nothing is registered for a pid that is free. -/
theorem Registered.unregistered (hregistered : children.Registered)
    (hfree : pid ∉ children.live.map Child.pid) : children.unregistered pid = true := by
  refine List.all_eq_true.mpr fun ⟨key, found⟩ hfound ↦ decide_eq_true fun hkey ↦ ?_
  obtain ⟨child, hchild, hpid, -⟩ := hregistered.mem_live hfound
  exact hfree (List.mem_map.mpr ⟨child, hchild, hpid.trans hkey⟩)

/-- A start that succeeds registers its callback. -/
theorem Registered.runAtExit (hregistered : children.Registered) (owner : Owner)
    (hfree : pid ∉ children.live.map Child.pid) :
    ((children.fork pid (some owner)).runAtExit pid owner).Registered ∧
      ((children.fork pid (some owner)).runAtExit pid owner).reports.Perm
        (owner :: children.reports) := by
  have hothers : children.callbacks.filter (fun other ↦ other.1 ≠ pid) = children.callbacks :=
    List.filter_eq_self.mpr (List.all_eq_true.mp (hregistered.unregistered hfree))
  refine ⟨⟨nodup_fork _ hregistered hfree, ?_⟩, ?_⟩
  · show (children.callbacks.filter _ ++ [(pid, owner)]).Perm _
    rw [hothers]
    refine List.Perm.trans ?_ ((live_fork (some owner)).filterMap entry).symm
    exact (List.perm_append_singleton _ _).trans (hregistered.callbacks.cons _)
  · show ((children.callbacks.filter _ ++ [(pid, owner)]).map Prod.snd ++ _).Perm _
    rw [hothers, List.map_append, List.append_assoc]
    exact List.perm_middle

/-! ### A child exits, and is waited for -/

/-- The item with a key, and the others, when no two have one key. -/
theorem perm_of_find {Item : Type*} {key : Item → ℕ} {items : List Item}
    (hnodup : (items.map key).Nodup) {item : Item}
    (hfind : items.find? (fun other ↦ key other = pid) = some item) :
    key item = pid ∧ items.Perm (item :: items.filter fun other ↦ key other ≠ pid) := by
  induction items with
  | nil => cases hfind
  | cons first rest ih =>
    obtain ⟨hfirst, hrest⟩ := List.nodup_cons.mp hnodup
    by_cases hkey : key first = pid
    · have hsame : first = item := by simpa [hkey] using hfind
      subst hsame
      have hothers : rest.filter (fun other ↦ key other ≠ pid) = rest := by
        refine List.filter_eq_self.mpr fun other hother ↦ decide_eq_true fun hequal ↦ ?_
        exact hfirst (List.mem_map.mpr ⟨other, hother, hequal.trans hkey.symm⟩)
      rw [List.filter_cons_of_neg (by simp [hkey]), hothers]
      exact ⟨hkey, List.Perm.refl _⟩
    · rw [List.find?_cons_of_neg (by simp [hkey])] at hfind
      obtain ⟨hitem, hperm⟩ := ih hrest hfind
      rw [List.filter_cons_of_pos (by simp [hkey])]
      exact ⟨hitem, (hperm.cons first).trans (List.Perm.swap _ _ _)⟩

/-- An item is found under its key, when no two have one key. -/
theorem find_of_mem {Item : Type*} {key : Item → ℕ} {items : List Item}
    (hnodup : (items.map key).Nodup) {item : Item} (hmem : item ∈ items) (hkey : key item = pid) :
    items.find? (fun other ↦ key other = pid) = some item := by
  induction items with
  | nil => cases hmem
  | cons first rest ih =>
    obtain ⟨hfirst, hrest⟩ := List.nodup_cons.mp hnodup
    rcases List.mem_cons.mp hmem with rfl | hother
    · rw [List.find?_cons_of_pos (by simp [hkey])]
    · have hne : key first ≠ pid := by
        intro hsame
        exact hfirst (List.mem_map.mpr ⟨item, hother, hkey.trans hsame.symm⟩)
      rw [List.find?_cons_of_neg (by simp [hne])]
      exact ih hrest hother

/-- A child that exits stays a child. -/
theorem Registered.exit (hregistered : children.Registered)
    (hexit : children.exit pid status = some next) :
    next.Registered ∧ next.reports = children.reports ∧ next.live.Perm children.live := by
  unfold ChildManager.exit at hexit
  split at hexit
  · cases hexit
  · rename_i child hfind
    obtain rfl := Option.some.inj hexit
    have hrunning : (children.running.map Child.pid).Nodup := by
      have hnodup := hregistered.nodup
      rw [live, List.map_append] at hnodup
      exact hnodup.of_append_left
    obtain ⟨-, hperm⟩ := perm_of_find hrunning hfind
    have hlive : (live { children with
        running := children.running.filter fun other ↦ other.pid ≠ pid
        zombies := children.zombies ++ [(child, status)] }).Perm children.live := by
      simp only [live, List.map_append, List.map_cons, List.map_nil]
      refine List.Perm.trans ?_ (hperm.append_right _).symm
      rw [← List.append_assoc]
      exact List.perm_append_singleton _ _
    refine ⟨⟨?_, ?_⟩, rfl, hlive⟩
    · rw [(hlive.map Child.pid).nodup_iff]
      exact hregistered.nodup
    · exact hregistered.callbacks.trans (hlive.filterMap entry).symm

/-- What becomes of the children when some of them are waited for, in this order: if the start of a
child has succeeded, its callback goes from the table to the queue. -/
structure Reaped (children next : ChildManager Owner)
    (reaped : List (Child Owner × ExitStatus)) : Prop where
  registered : next.Registered
  running : next.running = children.running
  zombies : children.zombies.Perm (reaped ++ next.zombies)
  functors : next.pendingFunctors = children.pendingFunctors ++ reaped.filterMap report
  reports : next.reports.Perm children.reports

theorem Reaped.refl (hregistered : children.Registered) : Reaped children children [] where
  registered := hregistered
  running := rfl
  zombies := List.Perm.refl _
  functors := (List.append_nil _).symm
  reports := List.Perm.refl _

theorem Reaped.trans {last : ChildManager Owner} {first second : List (Child Owner × ExitStatus)}
    (hfirst : Reaped children next first) (hsecond : Reaped next last second) :
    Reaped children last (first ++ second) where
  registered := hsecond.registered
  running := hsecond.running.trans hfirst.running
  zombies := by
    rw [List.append_assoc]
    exact hfirst.zombies.trans (hsecond.zombies.append_left _)
  functors := by
    rw [hsecond.functors, hfirst.functors, List.filterMap_append, List.append_assoc]
  reports := hsecond.reports.trans hfirst.reports

/-- The children that were waited for are gone, and no others. -/
theorem Reaped.live {reaped : List (Child Owner × ExitStatus)}
    (hreaped : Reaped children next reaped) :
    children.live.Perm (reaped.map Prod.fst ++ next.live) := by
  have hzombies := (hreaped.zombies.map Prod.fst).append_left children.running
  rw [List.map_append, ← List.append_assoc] at hzombies
  rw [ChildManager.live, ChildManager.live, hreaped.running, ← List.append_assoc]
  exact hzombies.trans (List.perm_append_comm.append_right _)

theorem Reaped.subset {reaped : List (Child Owner × ExitStatus)}
    (hreaped : Reaped children next reaped) : next.live ⊆ children.live :=
  fun _ hchild ↦ hreaped.live.mem_iff.mpr (List.mem_append_right _ hchild)

/-- Waiting for a pid that no child has which has exited changes nothing. -/
theorem onRead_of_none
    (hfind : children.zombies.find? (fun zombie ↦ zombie.1.pid = pid) = none) :
    children.onRead pid = children := by
  unfold onRead wait4
  rw [hfind]

/-- No two children that have exited have one pid. -/
theorem Registered.zombies_nodup (hregistered : children.Registered) :
    (children.zombies.map fun zombie ↦ zombie.1.pid).Nodup := by
  have hnodup := hregistered.nodup
  rw [ChildManager.live, List.map_append, List.map_map] at hnodup
  exact hnodup.of_append_right

/-- Waiting for a pid of a child that has exited. -/
theorem onRead_of_some (hregistered : children.Registered) {child : Child Owner}
    (hfind : children.zombies.find? (fun zombie ↦ zombie.1.pid = pid) = some (child, status)) :
    Reaped children (children.onRead pid) [(child, status)] := by
  obtain ⟨hpid, hperm⟩ := perm_of_find hregistered.zombies_nodup hfind
  have hlive : children.live.Perm (child :: (children.running ++
      (children.zombies.filter fun other ↦ other.1.pid ≠ pid).map Prod.fst)) := by
    refine ((hperm.map Prod.fst).append_left children.running).trans ?_
    exact List.perm_middle
  have hpids := (hlive.map Child.pid).nodup_iff.mp hregistered.nodup
  rw [List.map_cons, List.nodup_cons] at hpids
  have hcallbacks := hregistered.callbacks.trans (hlive.filterMap entry)
  have hread : children.onRead pid = onExit { children with
      zombies := children.zombies.filter fun other ↦ other.1.pid ≠ pid } pid status := by
    unfold onRead wait4
    rw [hfind]
  rw [hread]
  cases howner : child.owner with
  | none =>
    have hentry : entry child = none := by simp [entry, howner]
    rw [List.filterMap_cons_none hentry] at hcallbacks
    have hunused : children.callbacks.find? (fun callback ↦ callback.1 = pid) = none := by
      refine List.find?_eq_none.mpr fun ⟨key, owner⟩ hmem hkey ↦ ?_
      obtain rfl : key = pid := by simpa using hkey
      obtain ⟨other, hother, hentry⟩ := List.mem_filterMap.mp (hcallbacks.mem_iff.mp hmem)
      obtain ⟨_, _, hpair⟩ := Option.map_eq_some_iff.mp hentry
      have hsame := (Prod.mk.inj hpair).1
      exact hpids.1 (List.mem_map.mpr ⟨other, hother, hsame.trans hpid.symm⟩)
    unfold onExit
    simp only [hunused]
    exact ⟨⟨hpids.2, hcallbacks⟩, rfl, hperm, by simp [report, howner], List.Perm.refl _⟩
  | some owner =>
    have hsame : child.pid = pid := hpid
    have hentry : entry child = some (pid, owner) := by simp [entry, howner, hsame]
    rw [List.filterMap_cons_some hentry] at hcallbacks
    have hkeys : (children.callbacks.map Prod.fst).Nodup := by
      rw [hregistered.pids.nodup_iff]
      exact hregistered.nodup.sublist (List.filter_sublist.map _)
    have hfound : children.callbacks.find? (fun callback ↦ callback.1 = pid) =
        some (pid, owner) :=
      find_of_mem hkeys (hcallbacks.mem_iff.mpr List.mem_cons_self) rfl
    obtain ⟨-, hrest⟩ := perm_of_find hkeys hfound
    unfold onExit
    simp only [hfound]
    refine ⟨⟨hpids.2, ?_⟩, rfl, hperm, by simp [report, howner], ?_⟩
    · exact (hrest.symm.trans hcallbacks).cons_inv
    · have hsnd := hrest.map Prod.snd
      show (List.map Prod.snd _ ++ List.map Prod.fst _).Perm _
      rw [List.map_append, List.map_singleton]
      refine List.Perm.trans ?_ (hsnd.append_right _).symm
      rw [← List.append_assoc]
      exact List.perm_append_singleton _ _

/-- A child that has exited is waited for when its signal is read. -/
theorem onRead_of_mem (hregistered : children.Registered) {child : Child Owner}
    (hmem : (child, status) ∈ children.zombies) :
    Reaped children (children.onRead child.pid) [(child, status)] :=
  onRead_of_some hregistered (find_of_mem hregistered.zombies_nodup hmem rfl)

theorem reaped_onRead (hregistered : children.Registered) (pid : ℕ) :
    ∃ reaped : List (Child Owner × ExitStatus), Reaped children (children.onRead pid) reaped := by
  cases hfind : children.zombies.find? fun zombie ↦ zombie.1.pid = pid with
  | none => exact ⟨[], by rw [onRead_of_none hfind]; exact Reaped.refl hregistered⟩
  | some zombie => exact ⟨_, onRead_of_some hregistered hfind⟩

/-- What a sweep reaps, in this order. -/
theorem foldl_onRead (hregistered : children.Registered) (order : List ℕ) :
    ∃ reaped : List (Child Owner × ExitStatus),
      Reaped children (order.foldl onRead children) reaped := by
  induction order generalizing children with
  | nil => exact ⟨[], Reaped.refl hregistered⟩
  | cons pid rest ih =>
    obtain ⟨first, hfirst⟩ := reaped_onRead hregistered pid
    obtain ⟨others, hothers⟩ := ih hfirst.registered
    exact ⟨first ++ others, hfirst.trans hothers⟩

/-- The timer leaves no child that has exited. -/
theorem reaped_onTimer (hregistered : children.Registered) {order : List ℕ}
    (htimer : children.onTimer order = some next) :
    next.zombies = [] ∧ ∃ reaped : List (Child Owner × ExitStatus),
      Reaped children next reaped := by
  unfold onTimer at htimer
  obtain ⟨hempty, hswept⟩ := (Option.ite_none_right_eq_some ..).mp htimer
  obtain rfl := Option.some.inj hswept
  exact ⟨List.isEmpty_iff.mp hempty, foldl_onRead hregistered order⟩

/-- The timer can wait for all children that have exited. -/
theorem exists_onTimer (hregistered : children.Registered) :
    ∃ order next, children.onTimer order = some next := by
  have hswept : ∀ (zombies : List (Child Owner × ExitStatus)) (children : ChildManager Owner),
      children.Registered → children.zombies.Perm zombies →
        ((zombies.map fun zombie ↦ zombie.1.pid).foldl onRead children).zombies = [] := by
    intro zombies
    induction zombies with
    | nil => exact fun children _ hperm ↦ hperm.eq_nil
    | cons zombie rest ih =>
      intro children hregistered hperm
      have hreaped := onRead_of_mem hregistered (hperm.mem_iff.mpr List.mem_cons_self)
      rw [List.map_cons, List.foldl_cons]
      exact ih _ hreaped.registered (hreaped.zombies.symm.trans hperm).cons_inv
  have hempty := List.isEmpty_iff.mpr (hswept _ _ hregistered (List.Perm.refl _))
  refine ⟨children.zombies.map fun zombie ↦ zombie.1.pid, children.zombies.foldl
    (fun children zombie ↦ children.onRead zombie.1.pid) children, ?_⟩
  rw [onTimer, List.foldl_map]
  rw [List.foldl_map] at hempty
  exact if_pos hempty

/-- The functor that runs next is not registered or queued any more. -/
theorem nextFunctor_spec (hregistered : children.Registered)
    (hnext : children.nextFunctor = some ((owner, status), next)) :
    next.Registered ∧ children.reports.Perm (owner :: next.reports) ∧
      next.live = children.live ∧
      children.pendingFunctors = (owner, status) :: next.pendingFunctors := by
  unfold nextFunctor at hnext
  split at hnext
  · cases hnext
  · rename_i functor rest hqueue
    obtain ⟨rfl, rfl⟩ := Prod.mk.inj (Option.some.inj hnext)
    refine ⟨⟨hregistered.nodup, hregistered.callbacks⟩, ?_, rfl, hqueue⟩
    rw [reports, hqueue]
    exact List.perm_middle

end Lemmas

end ChildManager

end MuduoProtorpc.Zurg
