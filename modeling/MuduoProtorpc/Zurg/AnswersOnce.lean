import MuduoProtorpc.Zurg.Accounting

/-!
# A zurg slave answers every command once

What the account of `Accounting` says about every run: the callbacks are those of the children that
are waited for, the `done` of a command is called at once if its start fails and else when its
queued callback runs, and the `done` of a hardware task is called with the last of its sub-commands.
-/

set_option autoImplicit false
set_option relaxedAutoImplicit false

namespace MuduoProtorpc.Zurg

open Foundation ChildManager

/-! ### The calls of `done` in a step -/

/-- The response to a command whose start has failed. -/
def StartOutcome.response : StartOutcome → Option RunCommandResponse
  | .failed err _ => some { error_code := err }
  | .started _ => none

/-- The calls of `done` that an action makes: at once for the commands whose start fails, and for
the command whose queued callback runs. -/
def called (slave : Slave) : Action → List (Command × RunCommandResponse)
  | .runCommand outcome =>
    outcome.response.toList.map fun response ↦
      ({ number := slave.commands.length, done := .client }, response)
  | .getHardware lshw outcome =>
    ((hardwareKeys lshw).zipIdx slave.commands.length).filterMap fun issued ↦
      (outcome issued.1).response.map fun response ↦
        ({ number := issued.2, done := .hardware slave.tasks.length issued.1 }, response)
  | .runQueued output =>
    match slave.children.pendingFunctors with
    | (.onCommandExit command pid, status) :: _ => [(command, onCommandExit pid status output)]
    | _ => []
  | _ => []

section Calls

variable {slave next : Slave}

theorem dones_runCommand (slave : Slave) (done : Done) (outcome : StartOutcome) :
    (slave.runCommand done outcome).dones =
      slave.dones ++ (outcome.response.map fun response ↦
        (({ number := slave.commands.length, done := done } : Command), response)).toList := by
  cases outcome with
  | failed err child => exact (Slave.callDone_frame _ _ _).dones
  | started pid => exact (Slave.assert_frame _ _ _).dones

theorem commands_runCommand (slave : Slave) (done : Done) (outcome : StartOutcome) :
    (slave.runCommand done outcome).commands =
      slave.commands ++ [{ number := slave.commands.length, done := done }] := by
  cases outcome with
  | failed err child => exact (Slave.callDone_frame _ _ _).commands
  | started pid => exact (Slave.assert_frame _ _ _).commands

/-- The commands of a task have consecutive numbers. -/
theorem dones_runKeys (index : ℕ) (outcome : HardwareKey → StartOutcome)
    (keys : List HardwareKey) (slave : Slave) :
    (keys.foldl (fun slave key ↦
      slave.runCommand (.hardware index key) (outcome key)) slave).dones =
      slave.dones ++ (keys.zipIdx slave.commands.length).filterMap fun issued ↦
        (outcome issued.1).response.map fun response ↦
          ({ number := issued.2, done := .hardware index issued.1 }, response) := by
  induction keys generalizing slave with
  | nil => exact (List.append_nil _).symm
  | cons key rest ih =>
    rw [List.foldl_cons, ih, dones_runCommand, commands_runCommand, List.zipIdx_cons,
      List.append_assoc, List.length_append, List.length_singleton]
    cases hresponse : (outcome key).response with
    | none => simp [hresponse]
    | some response => simp [hresponse]

theorem dones_startApp (slave : Slave) (appName : String) (app : Application)
    (outcome : StartOutcome) : (slave.startApp appName app outcome).1.dones = slave.dones := by
  unfold Slave.startApp
  split_ifs
  · cases outcome with
    | failed err child => rfl
    | started pid => exact ((Slave.assert_frame _ _ _).dones).trans (List.append_nil _)
  · rfl

theorem dones_startNames (names : List (String × StartOutcome)) (slave : Slave) :
    (slave.startNames names).1.dones = slave.dones := by
  induction names generalizing slave with
  | nil => rfl
  | cons first rest ih =>
    refine (ih _).trans ?_
    unfold Slave.startName
    split
    · exact dones_startApp _ _ _ _
    · rfl

/-- The calls of `done` in a step. -/
theorem dones_step (hregistered : slave.children.Registered) {action : Action}
    (hstep : slaveSystem.step slave action = some next) :
    next.dones = slave.dones ++ called slave action := by
  obtain ⟨-, hperform⟩ := (Option.ite_none_right_eq_some ..).mp hstep
  cases action with
  | runCommand outcome =>
    obtain rfl := Option.some.inj hperform
    rw [dones_runCommand, called]
    cases outcome.response <;> rfl
  | getHardware lshw outcome =>
    obtain rfl := Option.some.inj hperform
    exact dones_runKeys _ _ _ _
  | addApplication request =>
    obtain rfl := Option.some.inj hperform
    exact (Slave.assert_frame _ _ _).dones
  | startApplications names =>
    obtain rfl := Option.some.inj hperform
    exact (dones_startNames names slave).trans (List.append_nil _).symm
  | exit pid status =>
    obtain ⟨children, -, rfl⟩ := Option.map_eq_some_iff.mp hperform
    exact (List.append_nil _).symm
  | onRead pid =>
    obtain rfl := Option.some.inj hperform
    exact (List.append_nil _).symm
  | onTimer order =>
    obtain ⟨children, -, rfl⟩ := Option.map_eq_some_iff.mp hperform
    exact (List.append_nil _).symm
  | runQueued output =>
    cases runQueued_cases hperform with
    | command hfunctor =>
      obtain ⟨-, -, -, hqueue⟩ := nextFunctor_spec hregistered hfunctor
      rw [called, hqueue]
      exact (Slave.callDone_frame _ _ _).dones
    | process hfunctor =>
      obtain ⟨-, -, -, hqueue⟩ := nextFunctor_spec hregistered hfunctor
      rw [called, hqueue]
      unfold Slave.onProcessExit
      split <;> exact (List.append_nil _).symm

end Calls

/-! ### Children that are waited for -/

section Reaping

variable {slave next : Slave}

theorem live_subset_fork {children : ChildManager Owner} (pid : ℕ) (given : Option Owner) :
    children.live ⊆ (children.fork pid given).live :=
  fun _ hchild ↦ (live_fork given).mem_iff.mpr (List.mem_cons_of_mem _ hchild)

theorem live_subset_abandon (children : ChildManager Owner) (child : Option ℕ) :
    children.live ⊆ (children.abandon child).live := by
  cases child with
  | none => exact List.Subset.refl _
  | some pid => exact live_subset_fork pid none

theorem live_subset_runCommand (slave : Slave) (done : Done) (outcome : StartOutcome) :
    slave.children.live ⊆ (slave.runCommand done outcome).children.live := by
  cases outcome with
  | failed err child =>
    show _ ⊆ (Slave.callDone _ _ _).children.live
    rw [(Slave.callDone_frame _ _ _).children]
    exact live_subset_abandon _ _
  | started pid => exact live_subset_fork pid _

theorem live_subset_runKeys (index : ℕ) (outcome : HardwareKey → StartOutcome)
    (keys : List HardwareKey) (slave : Slave) :
    slave.children.live ⊆ (keys.foldl (fun slave key ↦
      slave.runCommand (.hardware index key) (outcome key)) slave).children.live := by
  induction keys generalizing slave with
  | nil => exact List.Subset.refl _
  | cons key rest ih => exact List.Subset.trans (live_subset_runCommand _ _ _) (ih _)

theorem live_subset_startName (slave : Slave) (appName : String) (outcome : StartOutcome) :
    slave.children.live ⊆ (slave.startName appName outcome).1.children.live := by
  unfold Slave.startName Slave.startApp
  split
  · split_ifs
    · cases outcome with
      | failed err child => exact live_subset_abandon _ _
      | started pid => exact live_subset_fork pid _
    · exact List.Subset.refl _
  · exact List.Subset.refl _

theorem live_subset_startNames (names : List (String × StartOutcome)) (slave : Slave) :
    slave.children.live ⊆ (slave.startNames names).1.children.live := by
  induction names generalizing slave with
  | nil => exact List.Subset.refl _
  | cons first rest ih => exact List.Subset.trans (live_subset_startName _ _ _) (ih _)

/-- A child that was waited for has its callback queued. -/
theorem mem_pendingFunctors_of_reaped {children : ChildManager Owner}
    {reaped : List (Child Owner × ExitStatus)} (hreaped : Reaped slave.children children reaped)
    {child : Child Owner} (hlive : child ∈ slave.children.live) (hgone : child ∉ children.live)
    {owner : Owner} (howner : owner ∈ child.owner) :
    ∃ status, (owner, status) ∈ children.pendingFunctors := by
  have hmem := (List.mem_append.mp (hreaped.live.mem_iff.mp hlive)).resolve_right hgone
  obtain ⟨⟨_, status⟩, hpair, rfl⟩ := List.mem_map.mp hmem
  refine ⟨status, ?_⟩
  rw [hreaped.functors]
  refine List.mem_append_right _ (List.mem_filterMap.mpr ⟨_, hpair, ?_⟩)
  exact congrArg (Option.map _) (Option.mem_def.mp howner)

/-- A child is waited for in a step only if the callback of its successful start is queued. -/
theorem reaped_step (hregistered : slave.children.Registered) {action : Action}
    (hstep : slaveSystem.step slave action = some next) {child : Child Owner}
    (hlive : child ∈ slave.children.live) (hgone : child ∉ next.children.live)
    {owner : Owner} (howner : owner ∈ child.owner) :
    ∃ status, (owner, status) ∈ next.children.pendingFunctors := by
  obtain ⟨-, hperform⟩ := (Option.ite_none_right_eq_some ..).mp hstep
  cases action with
  | runCommand outcome =>
    obtain rfl := Option.some.inj hperform
    exact absurd (live_subset_runCommand _ _ _ hlive) hgone
  | getHardware lshw outcome =>
    obtain rfl := Option.some.inj hperform
    exact absurd (live_subset_runKeys slave.tasks.length outcome (hardwareKeys lshw)
      { slave with tasks := slave.tasks ++ [{ lshw := lshw }] } hlive) hgone
  | addApplication request =>
    obtain rfl := Option.some.inj hperform
    refine absurd ?_ hgone
    show child ∈ (Slave.assert _ _ _).children.live
    rw [(Slave.assert_frame _ _ _).children]
    exact hlive
  | startApplications names =>
    obtain rfl := Option.some.inj hperform
    exact absurd (live_subset_startNames names slave hlive) hgone
  | exit pid status =>
    obtain ⟨children, hexit, rfl⟩ := Option.map_eq_some_iff.mp hperform
    exact absurd ((hregistered.exit hexit).2.2.mem_iff.mpr hlive) hgone
  | onRead pid =>
    obtain rfl := Option.some.inj hperform
    obtain ⟨_, hreaped⟩ := reaped_onRead hregistered pid
    exact mem_pendingFunctors_of_reaped hreaped hlive hgone howner
  | onTimer order =>
    obtain ⟨children, htimer, rfl⟩ := Option.map_eq_some_iff.mp hperform
    obtain ⟨-, _, hreaped⟩ := reaped_onTimer hregistered htimer
    exact mem_pendingFunctors_of_reaped hreaped hlive hgone howner
  | runQueued output =>
    refine absurd ?_ hgone
    cases runQueued_cases hperform with
    | command hfunctor =>
      obtain ⟨-, -, hsame, -⟩ := nextFunctor_spec hregistered hfunctor
      rw [(Slave.callDone_frame _ _ _).children, hsame]
      exact hlive
    | process hfunctor =>
      obtain ⟨-, -, hsame, -⟩ := nextFunctor_spec hregistered hfunctor
      rw [children_onProcessExit, hsame]
      exact hlive

end Reaping

/-! ### What can always happen -/

section Enabled

variable {slave : Slave}

/-- An action that starts nothing is not held up by the kernel. -/
theorem step_eq_perform (hregistered : slave.children.Registered) {action : Action}
    (hnone : action.outcomes = []) :
    slaveSystem.step slave action = slave.perform action := by
  refine if_pos ?_
  rw [hnone]
  exact hregistered.nodup

/-- The next callback of the queue can run, whatever it is bound to. -/
theorem exists_runQueued (hqueue : slave.children.pendingFunctors ≠ []) (output : Output) :
    ∃ next, slave.runQueued output = some next := by
  cases hfunctors : slave.children.pendingFunctors with
  | nil => exact absurd hfunctors hqueue
  | cons functor rest =>
    obtain ⟨owner, status⟩ := functor
    have hnext : slave.children.nextFunctor =
        some ((owner, status), { slave.children with pendingFunctors := rest }) := by
      rw [nextFunctor, hfunctors]
    unfold Slave.runQueued
    cases owner with
    | onCommandExit command pid =>
      simp only [hnext]
      exact ⟨_, rfl⟩
    | onProcessExit appName pid =>
      simp only [hnext]
      exact ⟨_, rfl⟩

/-- Without children and queued callbacks, nothing is registered. -/
theorem reports_eq_nil (hregistered : slave.children.Registered)
    (hlive : slave.children.live = []) (hqueue : slave.children.pendingFunctors = []) :
    slave.children.reports = [] := by
  have hcallbacks := hregistered.callbacks
  rw [hlive] at hcallbacks
  rw [reports, hqueue, hcallbacks.eq_nil]
  rfl

end Enabled

/-! ### Every command is answered once -/

/-- The assertions of `runAtExit` and of `DEFINE_DONE` hold. The callbacks are those of the children
whose start has succeeded and that were not waited for; when such a child is waited for, its
callback is queued. A signal for a child that has exited makes `onRead` wait for it, and `onTimer`
waits for all children that have exited. Each command has its `done` called, or its callback
registered or queued, and only one of these, and its `done` is called when its start fails or its
callback runs, which it can do. Each hardware task has run each of its sub-commands once, and its
`done` was called once if the `done` of all of them was called, and else never. When no child is
left and no callback is queued, every command and every task was answered once. -/
structure AnswersOnce (slave : Slave) : Prop where
  runAtExit : runAtExitAssertion ∉ slave.failed
  keyDone : keyDoneAssertion ∉ slave.failed
  callbacks : (slave.children.callbacks.map Prod.fst).Perm
    ((slave.children.live.filter fun child ↦ child.owner.isSome).map Child.pid)
  pids : (slave.children.callbacks.map Prod.fst).Nodup
  bound : ∀ callback ∈ slave.children.callbacks, callback.2.pid = callback.1
  reaped : ∀ action next, slaveSystem.step slave action = some next →
    ∀ child ∈ slave.children.live, child ∉ next.children.live → ∀ owner ∈ child.owner,
      ∃ status, (owner, status) ∈ next.children.pendingFunctors
  read : ∀ exited ∈ slave.children.zombies, ∃ next,
    slaveSystem.step slave (.onRead exited.1.pid) = some next ∧
      slave.children.live.Perm (exited.1 :: next.children.live) ∧
        next.children.pendingFunctors =
          slave.children.pendingFunctors ++ (report exited).toList
  swept : ∀ order next, slaveSystem.step slave (.onTimer order) = some next →
    next.children.zombies = [] ∧ next.children.running = slave.children.running ∧
      ∃ reaped : List (Child Owner × ExitStatus), reaped.Perm slave.children.zombies ∧
        next.children.pendingFunctors =
          slave.children.pendingFunctors ++ reaped.filterMap report
  sweeps : ∃ order next, slaveSystem.step slave (.onTimer order) = some next
  queueRuns : slave.children.pendingFunctors ≠ [] → ∀ output, ∃ next,
    slaveSystem.step slave (.runQueued output) = some next
  places : (slave.dones.map Prod.fst ++ slave.children.reports.filterMap Owner.command).Perm
    slave.commands
  distinct : slave.commands.Nodup
  dones : ∀ action next, slaveSystem.step slave action = some next →
    next.dones = slave.dones ++ called slave action
  subCommands : ∀ index (task : HardwareTask), slave.tasks[index]? = some task → ∀ key,
    (slave.commands.filterMap Command.part).count (index, key) =
      if key ∈ hardwareKeys task.lshw then 1 else 0
  hardwareDones : ∀ index (task : HardwareTask), slave.tasks[index]? = some task →
    slave.hardwareDones.countP (fun done ↦ done.1 = index) =
      if ∀ key ∈ hardwareKeys task.lshw, (index, key) ∈ slave.doneParts then 1 else 0
  settled : slave.children.live = [] → slave.children.pendingFunctors = [] →
    (slave.dones.map Prod.fst).Perm slave.commands ∧
      ∀ index < slave.tasks.length, slave.hardwareDones.countP (fun done ↦ done.1 = index) = 1

theorem allDone_iff (task : HardwareTask) :
    task.allDone = true ↔ ∀ key ∈ hardwareKeys task.lshw, task.keyDone key = true := by
  cases hlshw : task.lshw
  · simp [HardwareTask.allDone, hardwareKeys, hlshw, and_assoc]
  · simp [HardwareTask.allDone, hardwareKeys, hlshw]
    tauto

theorem answersOnce {actions : List Action} {slave : Slave}
    (hrun : slaveSystem.Run actions slave) : AnswersOnce slave := by
  have h := accounted hrun
  have hnodup := h.nodup
  rw [List.append_nil] at hnodup
  have hplaces := h.conserved
  rw [List.append_nil] at hplaces
  constructor
  case runAtExit =>
    intro hmem
    exact absurd (h.assertions _ hmem) (by decide)
  case keyDone =>
    intro hmem
    exact absurd (h.assertions _ hmem) (by decide)
  case callbacks => exact h.registered.pids
  case pids =>
    rw [h.registered.pids.nodup_iff]
    exact h.registered.nodup.sublist (List.filter_sublist.map _)
  case bound =>
    rintro ⟨pid, owner⟩ hmem
    obtain ⟨child, hchild, hpid, howner⟩ := h.registered.mem_live hmem
    exact (h.bound child hchild owner howner).trans hpid
  case reaped =>
    intro action next hstep child hlive hgone owner howner
    exact reaped_step h.registered hstep hlive hgone howner
  case read =>
    rintro ⟨child, status⟩ hmem
    have hreaped := onRead_of_mem h.registered hmem
    refine ⟨_, step_eq_perform h.registered rfl, hreaped.live, hreaped.functors.trans ?_⟩
    cases hreport : report (child, status) <;> simp [hreport]
  case swept =>
    intro order next hstep
    rw [step_eq_perform h.registered rfl] at hstep
    obtain ⟨children, htimer, rfl⟩ := Option.map_eq_some_iff.mp hstep
    obtain ⟨hnone, reaped, hreaped⟩ := reaped_onTimer h.registered htimer
    have hzombies := hreaped.zombies
    rw [hnone, List.append_nil] at hzombies
    exact ⟨hnone, hreaped.running, reaped, hzombies.symm, hreaped.functors⟩
  case sweeps =>
    obtain ⟨order, children, htimer⟩ := exists_onTimer h.registered
    refine ⟨order, { slave with children := children }, ?_⟩
    rw [step_eq_perform h.registered rfl, Slave.perform, htimer]
    rfl
  case queueRuns =>
    intro hqueue output
    obtain ⟨next, hnext⟩ := exists_runQueued hqueue output
    exact ⟨next, (step_eq_perform h.registered rfl).trans hnext⟩
  case places => exact hplaces
  case distinct =>
    refine List.Nodup.of_map Command.number ?_
    rw [h.numbered]
    exact List.nodup_range
  case dones => exact fun _ _ hstep ↦ dones_step h.registered hstep
  case subCommands =>
    intro index task htask key
    have hparts := h.parts index key
    rw [List.append_nil] at hparts
    rw [List.Nodup.count hnodup]
    refine if_congr (hparts.trans ?_) rfl rfl
    constructor
    · rintro ⟨found, hfound, hkey⟩
      obtain rfl := Option.some.inj (htask.symm.trans hfound)
      exact hkey
    · intro hkey
      exact ⟨task, htask, hkey⟩
  case hardwareDones =>
    intro index task htask
    rw [h.answered index task htask]
    refine if_congr ((allDone_iff task).trans ?_) rfl rfl
    exact forall₂_congr fun key _ ↦ h.flags index task htask key
  case settled =>
    intro hlive hqueue
    rw [reports_eq_nil h.registered hlive hqueue, List.filterMap_nil, List.append_nil] at hplaces
    refine ⟨hplaces, fun index hindex ↦ ?_⟩
    have htask := List.getElem?_eq_getElem hindex
    rw [h.answered index _ htask]
    refine if_pos ((allDone_iff _).mpr fun key hkey ↦ (h.flags index _ htask key).mpr ?_)
    have hpart := (h.parts index key).mpr ⟨_, htask, hkey⟩
    rw [List.append_nil] at hpart
    exact (hplaces.filterMap Command.part).mem_iff.mpr hpart

/-- How the sub-commands of a task start. -/
def hardwareOutcome : HardwareKey → StartOutcome
  | .lspci => .failed ⟨2, by decide⟩ none
  | .lshw => .started 8
  | .lscpu => .started 9
  | .ifconfig => .started 10

/-- A command and a sub-command fail to start, one with a child left to die; a signal is reported
twice, one child is found by the timer before its signal, and the task is answered by the last of
its sub-commands. -/
def hardwareAnswered : List Action :=
  [.runCommand (.failed ⟨12, by decide⟩ (some 7)), .getHardware true hardwareOutcome,
    .exit 9 (.exited 0), .exit 7 (.exited 1), .onRead 9, .exit 8 (.signaled 2 false), .onRead 9,
    .onTimer [8, 7], .onRead 8, .runQueued ⟨[97], []⟩, .exit 10 (.exited 0), .onRead 10,
    .runQueued ⟨[], []⟩, .runQueued ⟨[98], []⟩]

theorem answersOnce_hardware : ∃ slave : Slave, slaveSystem.Run hardwareAnswered slave ∧
    slave.children.live = [] ∧ slave.children.pendingFunctors = [] ∧
      slave.hardwareDones.length = 1 ∧ slave.dones.length = 5 ∧ AnswersOnce slave := by
  have hexecutes : (slaveSystem.execute slaveSystem.start hardwareAnswered).map
      (fun slave ↦ (slave.children.live.length, slave.children.pendingFunctors.length,
        slave.hardwareDones.length, slave.dones.length)) = some (0, 0, 1, 5) := by
    decide +kernel
  obtain ⟨slave, hexecute, hlast⟩ := Option.map_eq_some_iff.mp hexecutes
  simp only [Prod.mk.injEq] at hlast
  obtain ⟨hlive, hqueue, htask, hdones⟩ := hlast
  have hrun := TransitionSystem.Run.of_execute hexecute
  exact ⟨slave, hrun, List.eq_nil_of_length_eq_zero hlive, List.eq_nil_of_length_eq_zero hqueue,
    htask, hdones, answersOnce hrun⟩

end MuduoProtorpc.Zurg
