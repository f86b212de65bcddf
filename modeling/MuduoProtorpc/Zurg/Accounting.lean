import MuduoProtorpc.Zurg.SlaveService

/-!
# Where the commands of a zurg slave are

Every call of `runCommand` has its `done` called, or its callback registered or queued, and only one
of these (`Accounted.conserved`). The flags of a hardware task say which of its sub-commands have
their `done` called, and its own `done` was called once if all of them have, and else never.

Inside an action there may be commands `inHand`, which are in none of these places, and sub-commands
`owing`, which their task has not run yet.
-/

set_option autoImplicit false
set_option relaxedAutoImplicit false

namespace MuduoProtorpc.Zurg

open ChildManager

/-! ### Free pids -/

section Fresh

variable {Owner : Type*} {children : ChildManager Owner} {pid : ℕ} {rest : List StartOutcome}

theorem Fresh.fork (given : Option Owner) (hfresh :
    (pid :: rest.filterMap StartOutcome.child ++ children.live.map Child.pid).Nodup) :
    pid ∉ children.live.map Child.pid ∧ (children.fork pid given).Fresh rest := by
  obtain ⟨hpid, hothers⟩ := List.nodup_cons.mp hfresh
  refine ⟨fun hmem ↦ hpid (List.mem_append_right _ hmem), ?_⟩
  have hlive : ((children.fork pid given).live.map Child.pid).Perm
      (pid :: children.live.map Child.pid) := (live_fork given).map Child.pid
  have hperm : (rest.filterMap StartOutcome.child ++
      (children.fork pid given).live.map Child.pid).Perm
        (pid :: (rest.filterMap StartOutcome.child ++ children.live.map Child.pid)) :=
    (hlive.append_left _).trans List.perm_middle
  exact hperm.nodup_iff.mpr hfresh

theorem Fresh.started {owner : Owner} (hfresh : children.Fresh (.started pid :: rest)) :
    pid ∉ children.live.map Child.pid ∧
      ((children.fork pid (some owner)).runAtExit pid owner).Fresh rest :=
  Fresh.fork _ hfresh

theorem Fresh.tail {outcome : StartOutcome} (hfresh : children.Fresh (outcome :: rest)) :
    children.Fresh rest := by
  refine List.Nodup.sublist ?_ hfresh
  exact ((List.sublist_cons_self outcome rest).filterMap _).append_right _

/-- A start that fails leaves what is registered as it is. -/
structure Abandoned (children next : ChildManager Owner) (rest : List StartOutcome) : Prop where
  registered : next.Registered
  fresh : next.Fresh rest
  reports : next.reports = children.reports
  live : ∀ child ∈ next.live, child ∈ children.live ∨ child.owner = none

theorem Fresh.abandon {err : { err : ℤ // err ≠ 0 }} {child : Option ℕ}
    (hregistered : children.Registered) (hfresh : children.Fresh (.failed err child :: rest)) :
    Abandoned children (children.abandon child) rest := by
  cases child with
  | none => exact ⟨hregistered, hfresh, rfl, fun _ hchild ↦ Or.inl hchild⟩
  | some pid =>
    obtain ⟨hfree, hrest⟩ := Fresh.fork none hfresh
    refine ⟨hregistered.fork_none hfree, hrest, rfl, fun child hchild ↦ ?_⟩
    rcases List.mem_cons.mp ((live_fork none).mem_iff.mp hchild) with hnew | hold
    · exact Or.inr (by rw [hnew])
    · exact Or.inl hold

end Fresh

/-! ### The account -/

/-- The sub-commands of the hardware tasks whose `done` was called. -/
def Slave.doneParts (slave : Slave) : List (ℕ × HardwareKey) :=
  (slave.dones.map Prod.fst).filterMap Command.part

/-- The account of a slave, with the commands that are in hand and the sub-commands that are
owing. -/
structure Accounted (slave : Slave) (inHand : List Command)
    (owing : List (ℕ × HardwareKey)) : Prop where
  registered : slave.children.Registered
  bound : ∀ child ∈ slave.children.live, ∀ owner ∈ child.owner, owner.pid = child.pid
  numbered : slave.commands.map Command.number = List.range slave.commands.length
  conserved : (slave.dones.map Prod.fst ++ slave.children.reports.filterMap Owner.command ++
    inHand).Perm slave.commands
  parts : ∀ index key, (index, key) ∈ slave.commands.filterMap Command.part ++ owing ↔
    ∃ task, slave.tasks[index]? = some task ∧ key ∈ hardwareKeys task.lshw
  nodup : (slave.commands.filterMap Command.part ++ owing).Nodup
  flags : ∀ index task, slave.tasks[index]? = some task →
    ∀ key, task.keyDone key = true ↔ (index, key) ∈ slave.doneParts
  answered : ∀ index task, slave.tasks[index]? = some task →
    slave.hardwareDones.countP (fun done ↦ done.1 = index) = if task.allDone then 1 else 0
  known : ∀ done ∈ slave.hardwareDones, done.1 < slave.tasks.length
  assertions : ∀ text ∈ slave.failed, text = nameAssertion

/-! ### What calling a `done` leaves as it is -/

/-- The children, the commands and the applications are as they were, and some calls of `done` were
made. -/
structure Slave.Called (slave next : Slave) (dones : List (Command × RunCommandResponse)) :
    Prop where
  children : next.children = slave.children
  commands : next.commands = slave.commands
  dones : next.dones = slave.dones ++ dones
  apps : next.apps = slave.apps
  appDones : next.appDones = slave.appDones

theorem Slave.assert_frame (slave : Slave) (holds : Bool) (text : String) :
    slave.Called (slave.assert holds text) [] := by
  unfold Slave.assert
  split_ifs <;> exact ⟨rfl, rfl, (List.append_nil _).symm, rfl, rfl⟩

theorem Slave.keyDone_frame (slave : Slave) (index : ℕ) (key : HardwareKey)
    (out : RunCommandResponse) : slave.Called (slave.keyDone index key out) [] := by
  unfold Slave.keyDone Slave.assert
  split
  · exact ⟨rfl, rfl, (List.append_nil _).symm, rfl, rfl⟩
  · dsimp only
    split_ifs <;> exact ⟨rfl, rfl, (List.append_nil _).symm, rfl, rfl⟩

theorem Slave.callDone_frame (slave : Slave) (command : Command) (response : RunCommandResponse) :
    slave.Called (slave.callDone command response) [(command, response)] := by
  unfold Slave.callDone
  split
  · exact ⟨rfl, rfl, rfl, rfl, rfl⟩
  · rename_i index key _
    obtain ⟨hchildren, hcommands, hdones, happs, happDones⟩ := Slave.keyDone_frame
      { slave with dones := slave.dones ++ [(command, response)] } index key response
    exact ⟨hchildren, hcommands, hdones.trans (List.append_nil _), happs, happDones⟩

/-! ### What the next callback does -/

/-- The next callback of the queue is for a command, or for the process of an application. -/
inductive QueuedRun (slave : Slave) (output : Output) : Slave → Prop
  | command {command : Command} {pid : ℕ} {status : ExitStatus} {children : ChildManager Owner} :
      slave.children.nextFunctor = some ((.onCommandExit command pid, status), children) →
        QueuedRun slave output ({ slave with children := children }.callDone command
          (onCommandExit pid status output))
  | process {appName : String} {pid : ℕ} {status : ExitStatus} {children : ChildManager Owner} :
      slave.children.nextFunctor = some ((.onProcessExit appName pid, status), children) →
        QueuedRun slave output ({ slave with children := children }.onProcessExit appName)

theorem runQueued_cases {slave next : Slave} {output : Output}
    (hnext : slave.runQueued output = some next) : QueuedRun slave output next := by
  unfold Slave.runQueued at hnext
  split at hnext
  · cases hnext
  · rename_i hfunctor
    obtain rfl := Option.some.inj hnext
    exact .command hfunctor
  · rename_i hfunctor
    obtain rfl := Option.some.inj hnext
    exact .process hfunctor

theorem children_onProcessExit (slave : Slave) (appName : String) :
    (slave.onProcessExit appName).children = slave.children := by
  unfold Slave.onProcessExit
  split <;> rfl

/-! ### The sub-commands of a task -/

theorem Slave.keyDone_eq (slave : Slave) {index : ℕ} {key : HardwareKey} {task : HardwareTask}
    (out : RunCommandResponse) (htask : slave.tasks[index]? = some task)
    (hflag : task.keyDone key = false) :
    slave.keyDone index key out = { slave with
      tasks := slave.tasks.set index (task.setDone key out)
      hardwareDones := slave.hardwareDones ++ if (task.setDone key out).allDone then
        [(index, (task.setDone key out).resp)] else [] } := by
  unfold Slave.keyDone
  simp only [htask, hflag, Slave.assert, beq_self_eq_true, if_true]
  split_ifs with hall
  · rfl
  · rw [List.append_nil]

theorem getElem?_setTask {tasks : List HardwareTask} {index : ℕ} {task : HardwareTask}
    (next : HardwareTask) (htask : tasks[index]? = some task) (other : ℕ) :
    (tasks.set index next)[other]? = if other = index then some next else tasks[other]? := by
  have hbound := (List.getElem?_eq_some_iff.mp htask).1
  rw [List.getElem?_set]
  by_cases hother : other = index
  · subst hother
    rw [if_pos rfl, if_pos hbound, if_pos rfl]
  · rw [if_neg (Ne.symm hother), if_neg hother]

theorem getElem?_addTask (tasks : List HardwareTask) (lshw : Bool) (index : ℕ) :
    (tasks ++ [({ lshw := lshw } : HardwareTask)])[index]? =
      if index = tasks.length then some { lshw := lshw } else tasks[index]? := by
  rw [List.getElem?_append]
  split_ifs with hless hequal hequal
  · exact absurd hequal (ne_of_lt hless)
  · rfl
  · subst hequal
    simp
  · have hmore : tasks.length < index := by omega
    rw [List.getElem?_eq_none (Nat.le_of_lt hmore), List.getElem?_eq_none]
    rw [List.length_singleton]
    omega

section Account

variable {slave : Slave} {inHand : List Command} {owing : List (ℕ × HardwareKey)}

theorem accounted_start : Accounted ({} : Slave) [] [] where
  registered := registered_empty
  bound := by simp [live]
  numbered := rfl
  conserved := List.Perm.refl _
  parts := by simp
  nodup := List.nodup_nil
  flags := by simp
  answered := by simp
  known := by simp
  assertions := by simp

/-- The applications and the responses about them are not in the account. -/
theorem Accounted.setApps (h : Accounted slave inHand owing)
    (apps : Foundation.Table String Application) (appDones : List ApplicationsResponse) :
    Accounted { slave with apps := apps, appDones := appDones } inHand owing :=
  ⟨h.registered, h.bound, h.numbered, h.conserved, h.parts, h.nodup, h.flags, h.answered,
    h.known, h.assertions⟩

/-- The children may change as long as the reports stay, up to commands that are taken in hand. -/
theorem Accounted.setChildren {next : ChildManager Owner} {taken : List Command}
    (h : Accounted slave inHand owing) (hregistered : next.Registered)
    (hlive : ∀ child ∈ next.live, child ∈ slave.children.live ∨
      ∀ owner ∈ child.owner, owner.pid = child.pid)
    (hreports : (slave.children.reports.filterMap Owner.command ++ inHand).Perm
      (next.reports.filterMap Owner.command ++ taken)) :
    Accounted { slave with children := next } taken owing where
  registered := hregistered
  bound := fun child hchild ↦ (hlive child hchild).elim (h.bound child) id
  numbered := h.numbered
  conserved := by
    have hconserved := h.conserved
    rw [List.append_assoc] at hconserved ⊢
    exact (hreports.symm.append_left _).trans hconserved
  parts := h.parts
  nodup := h.nodup
  flags := h.flags
  answered := h.answered
  known := h.known
  assertions := h.assertions

/-- A start has failed. -/
theorem Accounted.abandon {next : ChildManager Owner} {rest : List StartOutcome}
    (h : Accounted slave inHand owing) (habandoned : Abandoned slave.children next rest) :
    Accounted { slave with children := next } inHand owing := by
  refine h.setChildren habandoned.registered (fun child hchild ↦ ?_) ?_
  · refine (habandoned.live child hchild).imp_right fun hnone owner howner ↦ ?_
    rw [hnone] at howner
    cases howner
  · rw [habandoned.reports]

/-- An assertion that holds, or that of `AppManager::add`. -/
theorem Accounted.assert (h : Accounted slave inHand owing) {holds : Bool} {text : String}
    (hholds : holds = true ∨ text = nameAssertion) :
    Accounted (slave.assert holds text) inHand owing := by
  unfold Slave.assert
  split_ifs with hcase
  · exact h
  · have htext := hholds.resolve_left hcase
    refine ⟨h.registered, h.bound, h.numbered, h.conserved, h.parts, h.nodup, h.flags, h.answered,
      h.known, fun other hother ↦ ?_⟩
    rcases List.mem_append.mp hother with hold | hnew
    · exact h.assertions other hold
    · exact (List.mem_singleton.mp hnew).trans htext

/-! ### Commands are issued, registered, and done -/

/-- A call of `runCommand` has the next number; if it is for a hardware task, it is owed to it. -/
theorem Accounted.issue {command : Command} (hnumber : command.number = slave.commands.length)
    (h : Accounted slave [] (command.part.toList ++ owing)) :
    Accounted { slave with commands := slave.commands ++ [command] } [command] owing := by
  have hparts : (slave.commands ++ [command]).filterMap Command.part ++ owing =
      slave.commands.filterMap Command.part ++ (command.part.toList ++ owing) := by
    rw [List.filterMap_append, List.append_assoc]
    cases hpart : command.part <;> simp [hpart]
  constructor
  case registered => exact h.registered
  case bound => exact h.bound
  case numbered =>
    show (slave.commands ++ [command]).map Command.number = List.range (slave.commands ++ _).length
    rw [List.map_append, h.numbered, List.length_append, List.length_singleton, List.range_succ,
      List.map_singleton, hnumber]
  case conserved =>
    have hconserved := h.conserved
    rw [List.append_nil] at hconserved
    exact hconserved.append_right _
  case parts =>
    intro index key
    show (index, key) ∈ (slave.commands ++ [command]).filterMap Command.part ++ owing ↔ _
    rw [hparts]
    exact h.parts index key
  case nodup =>
    show ((slave.commands ++ [command]).filterMap Command.part ++ owing).Nodup
    rw [hparts]
    exact h.nodup
  case flags => exact h.flags
  case answered => exact h.answered
  case known => exact h.known
  case assertions => exact h.assertions

/-- A process was started: its command, if it has one, is registered. The assertion of `runAtExit`
holds, for the pid is free. -/
theorem Accounted.started {pid : ℕ} {owner : Owner}
    (h : Accounted slave owner.command.toList owing) (hpid : owner.pid = pid)
    (hfree : pid ∉ slave.children.live.map Child.pid) :
    Accounted (slave.started pid owner) [] owing := by
  have hunregistered : (slave.children.fork pid (some owner)).unregistered pid = true :=
    h.registered.unregistered hfree
  obtain ⟨hregistered, hreports⟩ := h.registered.runAtExit owner hfree
  have hsame : slave.assert ((slave.children.fork pid (some owner)).unregistered pid)
      runAtExitAssertion = slave := by
    rw [Slave.assert, if_pos hunregistered]
  show Accounted { slave.assert _ _ with children := _ } [] owing
  rw [hsame]
  refine h.setChildren hregistered (fun child hchild ↦ ?_) ?_
  · rcases List.mem_cons.mp ((live_fork (some owner)).mem_iff.mp hchild) with hnew | hold
    · refine Or.inr fun found hfound ↦ ?_
      rw [hnew] at hfound ⊢
      obtain rfl := Option.some.inj hfound
      exact hpid
    · exact Or.inl hold
  have hcommands := (hreports.filterMap Owner.command).symm
  rw [List.append_nil]
  refine List.Perm.trans ?_ hcommands
  cases howner : owner.command with
  | none => simp [howner]
  | some command =>
    rw [List.filterMap_cons_some howner]
    exact List.perm_append_singleton _ _

theorem allDone_eq_false (task : HardwareTask) {key : HardwareKey}
    (hkey : key ∈ hardwareKeys task.lshw) (hflag : task.keyDone key = false) :
    task.allDone = false := by
  cases hlshw : task.lshw <;> cases key <;>
    simp_all [hardwareKeys, HardwareTask.allDone]

/-- The flag of a sub-command in hand is not set. -/
theorem Accounted.flag_false {command : Command} {index : ℕ} {key : HardwareKey}
    {task : HardwareTask} (h : Accounted slave [command] owing)
    (hpart : command.part = some (index, key)) (htask : slave.tasks[index]? = some task) :
    task.keyDone key = false := by
  refine Bool.eq_false_iff.mpr fun htrue ↦ ?_
  have hdone := (h.flags index task htask key).mp htrue
  have hnodup := (List.nodup_append.mp h.nodup).1
  rw [← (h.conserved.filterMap Command.part).nodup_iff, List.append_assoc, List.filterMap_append]
    at hnodup
  have hdisjoint := (List.nodup_append.mp hnodup).2.2
  refine hdisjoint _ hdone (index, key) ?_ rfl
  exact List.mem_filterMap.mpr ⟨command, List.mem_append_right _ List.mem_cons_self, hpart⟩

/-- The commands, when one in hand is done. -/
theorem Accounted.conserved_done {command : Command} (h : Accounted slave [command] owing)
    (response : RunCommandResponse) :
    ((slave.dones ++ [(command, response)]).map Prod.fst ++
      slave.children.reports.filterMap Owner.command ++ []).Perm slave.commands := by
  refine List.Perm.trans ?_ h.conserved
  rw [List.append_nil, List.map_append, List.append_assoc, List.append_assoc]
  exact List.perm_append_comm.append_left _

/-- A `KEYDone` is called: its flag was not set, and if it is the last flag of the task, the `done`
of the task is called. -/
theorem Accounted.keyDone {command : Command} {index : ℕ} {key : HardwareKey}
    (h : Accounted slave [command] owing) (response : RunCommandResponse)
    (hpart : command.part = some (index, key)) :
    Accounted (Slave.keyDone { slave with dones := slave.dones ++ [(command, response)] }
      index key response) [] owing := by
  have hissued : (index, key) ∈ slave.commands.filterMap Command.part :=
    List.mem_filterMap.mpr ⟨command, h.conserved.mem_iff.mp (by simp), hpart⟩
  obtain ⟨task, htask, hkey⟩ := (h.parts index key).mp (List.mem_append_left _ hissued)
  have hflag := h.flag_false hpart htask
  have hset := getElem?_setTask (task.setDone key response) htask
  have hdoneParts : ((slave.dones ++ [(command, response)]).map Prod.fst).filterMap Command.part =
      slave.doneParts ++ [(index, key)] := by
    simp [Slave.doneParts, hpart]
  rw [Slave.keyDone_eq { slave with dones := slave.dones ++ [(command, response)] } response htask
    hflag]
  constructor
  case registered => exact h.registered
  case bound => exact h.bound
  case numbered => exact h.numbered
  case conserved => exact h.conserved_done response
  case nodup => exact h.nodup
  case assertions => exact h.assertions
  case parts =>
    intro other otherKey
    rw [h.parts other otherKey, hset other]
    by_cases hother : other = index
    · subst hother
      simp [htask, HardwareTask.setDone]
    · simp only [if_neg hother]
  case flags =>
    intro other found hfound otherKey
    rw [hset other] at hfound
    show _ ↔ (other, otherKey) ∈ ((slave.dones ++ [(command, response)]).map _).filterMap _
    rw [hdoneParts, List.mem_append, List.mem_singleton]
    by_cases hother : other = index
    · subst hother
      rw [if_pos rfl] at hfound
      obtain rfl := Option.some.inj hfound
      rw [← h.flags other task htask otherKey]
      by_cases hsame : otherKey = key
      · simp [HardwareTask.setDone, hsame]
      · simp [HardwareTask.setDone, hsame]
    · rw [if_neg hother] at hfound
      rw [h.flags other found hfound otherKey]
      simp [hother]
  case answered =>
    intro other found hfound
    rw [hset other] at hfound
    rw [List.countP_append]
    by_cases hother : other = index
    · subst hother
      rw [if_pos rfl] at hfound
      obtain rfl := Option.some.inj hfound
      rw [h.answered other task htask, allDone_eq_false task hkey hflag,
        if_neg Bool.false_ne_true, Nat.zero_add]
      by_cases hall : (task.setDone key response).allDone = true
      · simp [hall]
      · simp [hall]
    · rw [if_neg hother] at hfound
      rw [h.answered other found hfound]
      split_ifs <;> simp [Ne.symm hother]
  case known =>
    intro done hdone
    show done.1 < (slave.tasks.set _ _).length
    rw [List.length_set]
    rcases List.mem_append.mp hdone with hold | hnew
    · exact h.known done hold
    · have hindex := (List.getElem?_eq_some_iff.mp htask).1
      split_ifs at hnew
      · rw [List.mem_singleton.mp hnew]
        exact hindex
      · cases hnew

/-- The `done` of a command in hand is called. -/
theorem Accounted.callDone {command : Command} (h : Accounted slave [command] owing)
    (response : RunCommandResponse) : Accounted (slave.callDone command response) [] owing := by
  cases hdone : command.done with
  | client =>
    have hpart : command.part = none := by simp [Command.part, hdone]
    have hsame : slave.callDone command response =
        { slave with dones := slave.dones ++ [(command, response)] } := by
      simp only [Slave.callDone, hdone]
    have hdoneParts : ((slave.dones ++ [(command, response)]).map Prod.fst).filterMap
        Command.part = slave.doneParts := by
      simp [Slave.doneParts, hpart]
    rw [hsame]
    refine ⟨h.registered, h.bound, h.numbered, h.conserved_done response, h.parts, h.nodup, ?_,
      h.answered, h.known, h.assertions⟩
    intro index task htask key
    show _ ↔ (index, key) ∈ ((slave.dones ++ [(command, response)]).map Prod.fst).filterMap _
    rw [hdoneParts]
    exact h.flags index task htask key
  | hardware index key =>
    have hpart : command.part = some (index, key) := by simp [Command.part, hdone]
    have hsame : slave.callDone command response =
        Slave.keyDone { slave with dones := slave.dones ++ [(command, response)] }
          index key response := by
      simp only [Slave.callDone, hdone]
    rw [hsame]
    exact h.keyDone response hpart

/-- A new task owes all its sub-commands. -/
theorem Accounted.addTask (h : Accounted slave [] []) (lshw : Bool) :
    Accounted { slave with tasks := slave.tasks ++ [{ lshw := lshw }] } []
      ((hardwareKeys lshw).map fun key ↦ (slave.tasks.length, key)) := by
  have hget := getElem?_addTask slave.tasks lshw
  have hbound {index : ℕ} {key : HardwareKey}
      (hmem : (index, key) ∈ slave.commands.filterMap Command.part) :
      index < slave.tasks.length := by
    obtain ⟨task, htask, -⟩ := (h.parts index key).mp (List.mem_append_left _ hmem)
    exact (List.getElem?_eq_some_iff.mp htask).1
  have hnodup := h.nodup
  rw [List.append_nil] at hnodup
  have hkeys : (hardwareKeys lshw).Nodup := by
    cases lshw <;> decide
  constructor
  case registered => exact h.registered
  case bound => exact h.bound
  case numbered => exact h.numbered
  case conserved => exact h.conserved
  case assertions => exact h.assertions
  case nodup =>
    refine List.nodup_append.mpr ⟨hnodup, hkeys.map fun _ _ hpair ↦ (Prod.mk.inj hpair).2, ?_⟩
    rintro ⟨index, key⟩ hold _ hnew rfl
    obtain ⟨_, -, hpair⟩ := List.mem_map.mp hnew
    exact absurd (hbound hold) (by rw [← (Prod.mk.inj hpair).1]; exact lt_irrefl _)
  case parts =>
    intro index key
    have hparts := h.parts index key
    rw [List.append_nil] at hparts
    rw [List.mem_append, hget index]
    by_cases hindex : index = slave.tasks.length
    · subst hindex
      have hnot : (slave.tasks.length, key) ∉ slave.commands.filterMap Command.part :=
        fun hmem ↦ lt_irrefl _ (hbound hmem)
      simp [hnot]
    · rw [if_neg hindex, ← hparts]
      simp [Ne.symm hindex]
  case flags =>
    intro index task htask key
    rw [hget index] at htask
    by_cases hindex : index = slave.tasks.length
    · subst hindex
      rw [if_pos rfl] at htask
      obtain rfl := Option.some.inj htask
      have hnot : (slave.tasks.length, key) ∉ slave.doneParts := by
        intro hmem
        have hissued := (h.conserved.filterMap Command.part).mem_iff.mp (by
          rw [List.append_nil, List.filterMap_append]
          exact List.mem_append_left _ hmem)
        exact lt_irrefl _ (hbound hissued)
      exact iff_of_false Bool.false_ne_true hnot
    · rw [if_neg hindex] at htask
      exact h.flags index task htask key
  case answered =>
    intro index task htask
    rw [hget index] at htask
    by_cases hindex : index = slave.tasks.length
    · subst hindex
      rw [if_pos rfl] at htask
      obtain rfl := Option.some.inj htask
      refine List.countP_eq_zero.mpr fun done hdone hequal ↦ ?_
      have hindex : done.1 = slave.tasks.length := of_decide_eq_true hequal
      exact absurd (h.known done hdone) (by rw [hindex]; exact lt_irrefl _)
    · rw [if_neg hindex] at htask
      exact h.answered index task htask
  case known =>
    intro done hdone
    show done.1 < (slave.tasks ++ [_]).length
    rw [List.length_append]
    exact Nat.lt_add_right _ (h.known done hdone)

/-! ### The actions -/

theorem Accounted.runCommand (done : Done) {outcome : StartOutcome} {rest : List StartOutcome}
    (h : Accounted slave []
      (({ number := slave.commands.length, done := done } : Command).part.toList ++ owing))
    (hfresh : slave.children.Fresh (outcome :: rest)) :
    Accounted (slave.runCommand done outcome) [] owing ∧
      (slave.runCommand done outcome).children.Fresh rest := by
  have hissued := h.issue rfl
  cases outcome with
  | failed err child =>
    have habandoned := Fresh.abandon h.registered hfresh
    constructor
    · exact (hissued.abandon habandoned).callDone _
    · show (Slave.callDone _ _ _).children.Fresh rest
      rw [(Slave.callDone_frame _ _ _).children]
      exact habandoned.fresh
  | started pid =>
    obtain ⟨hfree, hrest⟩ := Fresh.started hfresh
    exact ⟨hissued.started rfl hfree, hrest⟩

/-- The sub-commands of a task are run one after the other. -/
theorem Accounted.runKeys {index : ℕ} {outcome : HardwareKey → StartOutcome}
    (keys : List HardwareKey) (h : Accounted slave [] (keys.map fun key ↦ (index, key)))
    (hfresh : slave.children.Fresh (keys.map outcome)) :
    Accounted (keys.foldl
      (fun slave key ↦ slave.runCommand (.hardware index key) (outcome key)) slave) [] [] := by
  induction keys generalizing slave with
  | nil => exact h
  | cons key rest ih =>
    obtain ⟨hnext, hrest⟩ := Accounted.runCommand (.hardware index key) h hfresh
    exact ih hnext hrest

theorem Accounted.startApp {appName : String} {app : Application} {outcome : StartOutcome}
    {rest : List StartOutcome} (h : Accounted slave [] [])
    (hfresh : slave.children.Fresh (outcome :: rest)) :
    Accounted (slave.startApp appName app outcome).1 [] [] ∧
      (slave.startApp appName app outcome).1.children.Fresh rest := by
  unfold Slave.startApp
  by_cases hstate : app.status.getState ≠ .kRunning
  · rw [if_pos hstate]
    cases outcome with
    | failed err child =>
      have habandoned := Fresh.abandon h.registered hfresh
      exact ⟨(h.abandon habandoned).setApps _ _, habandoned.fresh⟩
    | started pid =>
      obtain ⟨hfree, hrest⟩ := Fresh.started hfresh
      exact ⟨(h.setApps _ slave.appDones).started rfl hfree, hrest⟩
  · rw [if_neg hstate]
    exact ⟨h, Fresh.tail hfresh⟩

theorem Accounted.startName {appName : String} {outcome : StartOutcome}
    {rest : List StartOutcome} (h : Accounted slave [] [])
    (hfresh : slave.children.Fresh (outcome :: rest)) :
    Accounted (slave.startName appName outcome).1 [] [] ∧
      (slave.startName appName outcome).1.children.Fresh rest := by
  unfold Slave.startName
  split
  · exact h.startApp hfresh
  · exact ⟨h, Fresh.tail hfresh⟩

theorem Accounted.startNames (names : List (String × StartOutcome)) (h : Accounted slave [] [])
    (hfresh : slave.children.Fresh (names.map Prod.snd)) :
    Accounted (slave.startNames names).1 [] [] := by
  induction names generalizing slave with
  | nil => exact h
  | cons first rest ih =>
    obtain ⟨hnext, hrest⟩ := h.startName hfresh
    exact ih hnext hrest

theorem Accounted.addApplication (h : Accounted slave [] []) (request : AddApplicationRequest) :
    Accounted (slave.addApplication request) [] [] :=
  (h.assert (Or.inr rfl)).setApps _ _

theorem Accounted.onProcessExit (h : Accounted slave [] []) (appName : String) :
    Accounted (slave.onProcessExit appName) [] [] := by
  unfold Slave.onProcessExit
  split
  · exact h
  · exact h.setApps _ slave.appDones

theorem Accounted.runQueued {output : Output} {next : Slave} (h : Accounted slave [] [])
    (hnext : slave.runQueued output = some next) : Accounted next [] [] := by
  cases runQueued_cases hnext with
  | command hfunctor =>
    obtain ⟨hregistered, hreports, hlive, -⟩ := nextFunctor_spec h.registered hfunctor
    refine (h.setChildren hregistered (fun _ hchild ↦ Or.inl (hlive ▸ hchild)) ?_).callDone _
    rw [List.append_nil]
    exact (hreports.filterMap Owner.command).trans (List.perm_append_singleton _ _).symm
  | process hfunctor =>
    obtain ⟨hregistered, hreports, hlive, -⟩ := nextFunctor_spec h.registered hfunctor
    refine (h.setChildren hregistered (fun _ hchild ↦ Or.inl (hlive ▸ hchild)) ?_).onProcessExit _
    rw [List.append_nil, List.append_nil]
    exact hreports.filterMap Owner.command

/-- What the kernel and the `ChildManager` do with the children leaves the account as it is. -/
theorem Accounted.reaped {children : ChildManager Owner} (h : Accounted slave [] [])
    (hregistered : children.Registered) (hlive : children.live ⊆ slave.children.live)
    (hreports : children.reports.Perm slave.children.reports) :
    Accounted { slave with children := children } [] [] :=
  h.setChildren hregistered (fun _ hchild ↦ Or.inl (hlive hchild))
    ((hreports.symm.filterMap Owner.command).append_right _)

/-- A step keeps the account. -/
theorem Accounted.step {action : Action} {next : Slave} (h : Accounted slave [] [])
    (hstep : slaveSystem.step slave action = some next) : Accounted next [] [] := by
  obtain ⟨hfresh, hperform⟩ := (Option.ite_none_right_eq_some ..).mp hstep
  cases action with
  | runCommand outcome =>
    obtain rfl := Option.some.inj hperform
    exact (Accounted.runCommand .client h hfresh).1
  | getHardware lshw outcome =>
    obtain rfl := Option.some.inj hperform
    exact Accounted.runKeys _ (h.addTask lshw) hfresh
  | addApplication request =>
    obtain rfl := Option.some.inj hperform
    exact h.addApplication request
  | startApplications names =>
    obtain rfl := Option.some.inj hperform
    exact (h.startNames names hfresh).setApps _ _
  | exit pid status =>
    obtain ⟨children, hexit, rfl⟩ := Option.map_eq_some_iff.mp hperform
    obtain ⟨hregistered, hreports, hlive⟩ := h.registered.exit hexit
    exact h.reaped hregistered hlive.subset (List.Perm.of_eq hreports)
  | onRead pid =>
    obtain rfl := Option.some.inj hperform
    obtain ⟨_, hreaped⟩ := reaped_onRead h.registered pid
    exact h.reaped hreaped.registered hreaped.subset hreaped.reports
  | onTimer order =>
    obtain ⟨children, htimer, rfl⟩ := Option.map_eq_some_iff.mp hperform
    obtain ⟨-, _, hreaped⟩ := reaped_onTimer h.registered htimer
    exact h.reaped hreaped.registered hreaped.subset hreaped.reports
  | runQueued output => exact h.runQueued hperform

/-- The account of every run. -/
theorem accounted {actions : List Action} (hrun : slaveSystem.Run actions slave) :
    Accounted slave [] [] := by
  apply hrun.invariant
  · exact accounted_start
  · intro state action next _ hstep hbefore
    exact hbefore.step hstep

end Account

end MuduoProtorpc.Zurg
