import MuduoProtorpc.Zurg.Accounting

/-!
# The applications of a zurg slave

An application is `kRunning` exactly while there is a callback for one of its processes, registered
with the `ChildManager` or queued in the event loop, and there is never a second one
(`Managed.reports`). Between the time when its process is waited for and the time when the queued
callback runs, an application counts as running, and a request to start it is turned down.
-/

set_option autoImplicit false
set_option relaxedAutoImplicit false

namespace MuduoProtorpc.Zurg

open Foundation ChildManager

/-! ### The reports of an application -/

/-- The processes of an application whose callback is registered or queued. -/
def reportsOf (children : ChildManager Owner) (appName : String) : List ℕ :=
  children.reports.filterMap (Owner.processOf appName)

/-- The process that an application should have, if there is the application. -/
def runningPid : Option Application → List ℕ
  | none => []
  | some app => if app.status.getState = .kRunning then app.status.pid.toList else []

theorem length_runningPid_le (app : Option Application) : (runningPid app).length ≤ 1 := by
  cases app with
  | none => exact Nat.zero_le 1
  | some app =>
    rw [runningPid]
    split_ifs
    · exact Option.length_toList_le
    · exact Nat.zero_le 1

/-- The applications and the callbacks for their processes agree. -/
structure Managed (children : ChildManager Owner) (apps : Table String Application) : Prop where
  registered : children.Registered
  named : ∀ appName app, apps.find appName = some app →
    app.request.name = appName ∧ app.status.name = some appName ∧ app.status.state.isSome
  pid : ∀ appName app, apps.find appName = some app → app.status.getState = .kRunning →
    app.status.pid.isSome
  reports : ∀ appName, (reportsOf children appName).Perm (runningPid (apps.find appName))

section Operations

variable {children next : ChildManager Owner} {apps : Table String Application}
  {appName : String} {app : Application}

theorem managed_start : Managed {} Table.empty where
  registered := registered_empty
  named := by simp
  pid := by simp
  reports := fun _ ↦ List.Perm.refl _

/-- A callback for another application, or for a command, is not among the reports. -/
theorem reportsOf_cons {owner : Owner} (hreports : next.reports.Perm (owner :: children.reports))
    (appName : String) : (reportsOf next appName).Perm
      ((owner.processOf appName).toList ++ reportsOf children appName) := by
  refine (hreports.filterMap _).trans (List.Perm.of_eq ?_)
  cases howner : owner.processOf appName with
  | none => simp [howner, reportsOf]
  | some pid => simp [howner, reportsOf]

theorem Managed.setChildren (h : Managed children apps) (hregistered : next.Registered)
    (hreports : ∀ appName, (reportsOf next appName).Perm (reportsOf children appName)) :
    Managed next apps where
  registered := hregistered
  named := h.named
  pid := h.pid
  reports := fun appName ↦ (hreports appName).trans (h.reports appName)

/-- An application is stored, and the reports of the others stay. -/
theorem Managed.insert (h : Managed children apps) (hregistered : next.Registered)
    (hnamed : app.request.name = appName ∧ app.status.name = some appName ∧
      app.status.state.isSome)
    (hpid : app.status.getState = .kRunning → app.status.pid.isSome)
    (hself : (reportsOf next appName).Perm (runningPid (some app)))
    (hothers : ∀ other, other ≠ appName →
      (reportsOf next other).Perm (reportsOf children other)) :
    Managed next (apps.insert appName app) := by
  constructor
  case registered => exact hregistered
  case named =>
    intro other found hfound
    rcases Table.find_insert_eq_some.mp hfound with ⟨rfl, rfl⟩ | ⟨-, hold⟩
    · exact hnamed
    · exact h.named other found hold
  case pid =>
    intro other found hfound
    rcases Table.find_insert_eq_some.mp hfound with ⟨rfl, rfl⟩ | ⟨-, hold⟩
    · exact hpid
    · exact h.pid other found hold
  case reports =>
    intro other
    by_cases hother : other = appName
    · subst hother
      rw [Table.find_insert_self]
      exact hself
    · rw [Table.find_insert_of_ne apps app hother]
      exact (hothers other hother).trans (h.reports other)

/-- An application that does not run has no process. -/
theorem Managed.reports_nil (h : Managed children apps) (hfind : apps.find appName = some app)
    (hstate : app.status.getState ≠ .kRunning) : reportsOf children appName = [] := by
  have hreports := h.reports appName
  rw [hfind, runningPid, if_neg hstate] at hreports
  exact hreports.eq_nil

/-! ### Commands -/

theorem Managed.started_command (h : Managed children apps) {command : Command} {pid : ℕ}
    (hfree : pid ∉ children.live.map Child.pid) :
    Managed ((children.fork pid (some (.onCommandExit command pid))).runAtExit pid
      (.onCommandExit command pid)) apps := by
  obtain ⟨hregistered, hreports⟩ :=
    h.registered.runAtExit (.onCommandExit command pid) hfree
  exact h.setChildren hregistered (reportsOf_cons hreports)

theorem Managed.abandon {rest : List StartOutcome} (h : Managed children apps)
    (habandoned : Abandoned children next rest) : Managed next apps := by
  refine h.setChildren habandoned.registered fun appName ↦ ?_
  rw [reportsOf, habandoned.reports, reportsOf]

theorem Managed.runCommand {slave : Slave} (h : Managed slave.children slave.apps) (done : Done)
    {outcome : StartOutcome} {rest : List StartOutcome}
    (hfresh : slave.children.Fresh (outcome :: rest)) :
    Managed (slave.runCommand done outcome).children (slave.runCommand done outcome).apps ∧
      (slave.runCommand done outcome).children.Fresh rest := by
  cases outcome with
  | failed err child =>
    have habandoned := Fresh.abandon h.registered hfresh
    show Managed (Slave.callDone _ _ _).children (Slave.callDone _ _ _).apps ∧
      (Slave.callDone _ _ _).children.Fresh rest
    rw [(Slave.callDone_frame _ _ _).children, (Slave.callDone_frame _ _ _).apps]
    exact ⟨h.abandon habandoned, habandoned.fresh⟩
  | started pid =>
    obtain ⟨hfree, hrest⟩ := Fresh.started hfresh
    refine ⟨?_, hrest⟩
    show Managed _ (Slave.assert _ _ _).apps
    rw [(Slave.assert_frame _ _ _).apps]
    exact h.started_command hfree

theorem Managed.runKeys (slave : Slave) (index : ℕ) {outcome : HardwareKey → StartOutcome}
    (keys : List HardwareKey) (h : Managed slave.children slave.apps)
    (hfresh : slave.children.Fresh (keys.map outcome)) :
    let last := keys.foldl
      (fun slave key ↦ slave.runCommand (.hardware index key) (outcome key)) slave
    Managed last.children last.apps := by
  induction keys generalizing slave with
  | nil => exact h
  | cons key rest ih =>
    obtain ⟨hnext, hrest⟩ := h.runCommand (.hardware index key) hfresh
    exact ih _ hnext hrest

/-! ### Applications are started -/

/-- An application is started while it does not run, and has the new process only. -/
theorem Managed.startApp {slave : Slave} (h : Managed slave.children slave.apps)
    {outcome : StartOutcome} {rest : List StartOutcome}
    (hfind : slave.apps.find appName = some app)
    (hfresh : slave.children.Fresh (outcome :: rest)) :
    let next := (slave.startApp appName app outcome).1
    Managed next.children next.apps ∧ next.children.Fresh rest := by
  obtain ⟨hname, hstatus, -⟩ := h.named appName app hfind
  intro next
  by_cases hstate : app.status.getState ≠ .kRunning
  · have hnone := h.reports_nil hfind hstate
    cases outcome with
    | failed err child =>
      have habandoned := Fresh.abandon h.registered hfresh
      have hsame : ∀ other, reportsOf (slave.children.abandon child) other =
          reportsOf slave.children other := by
        intro other
        rw [reportsOf, habandoned.reports, reportsOf]
      have hnext : next = { slave with
          apps := slave.apps.insert appName
            { app with status := { app.status with state := some .kError } }
          children := slave.children.abandon child } := by
        simp only [next, Slave.startApp, if_pos hstate]
      rw [hnext]
      refine ⟨h.insert habandoned.registered ⟨hname, hstatus, rfl⟩ ?_ ?_ ?_, habandoned.fresh⟩
      · intro hrunning
        cases hrunning
      · rw [hsame, hnone]
        exact List.Perm.refl _
      · intro other _
        rw [hsame]
    | started pid =>
      obtain ⟨hfree, hrest⟩ := Fresh.started hfresh
      obtain ⟨hregistered, hreports⟩ :=
        h.registered.runAtExit (.onProcessExit app.request.name pid) hfree
      have hprocesses := reportsOf_cons hreports
      have hchildren : next.children = (slave.children.fork pid
          (some (.onProcessExit app.request.name pid))).runAtExit pid
            (.onProcessExit app.request.name pid) := by
        simp only [next, Slave.startApp, if_pos hstate]
        rfl
      have happs : next.apps = slave.apps.insert appName { app with
          status := { app.status with state := some .kRunning, pid := some pid } } := by
        simp only [next, Slave.startApp, if_pos hstate]
        exact (Slave.assert_frame _ _ _).apps
      rw [hchildren, happs]
      refine ⟨h.insert hregistered ⟨hname, hstatus, rfl⟩ (fun _ ↦ rfl) ?_ ?_, hrest⟩
      · refine (hprocesses appName).trans (List.Perm.of_eq ?_)
        rw [hnone]
        simp [Owner.processOf, hname, runningPid, ApplicationStatus.getState]
      · intro other hother
        refine (hprocesses other).trans (List.Perm.of_eq ?_)
        simp [Owner.processOf, hname, Ne.symm hother]
  · have hnext : next = slave := by
      simp only [next, Slave.startApp, if_neg hstate]
    rw [hnext]
    exact ⟨h, Fresh.tail hfresh⟩

theorem Managed.startNames {slave : Slave} (names : List (String × StartOutcome))
    (h : Managed slave.children slave.apps)
    (hfresh : slave.children.Fresh (names.map Prod.snd)) :
    let next := (slave.startNames names).1
    Managed next.children next.apps := by
  induction names generalizing slave with
  | nil => exact h
  | cons first rest ih =>
    have hstart : Managed (slave.startName first.1 first.2).1.children
        (slave.startName first.1 first.2).1.apps ∧
          (slave.startName first.1 first.2).1.children.Fresh (rest.map Prod.snd) := by
      unfold Slave.startName
      split
      · exact h.startApp ‹_› hfresh
      · exact ⟨h, Fresh.tail hfresh⟩
    exact ih hstart.1 hstart.2

/-! ### Applications are added -/

/-- The status of an application after it was added. -/
def addedStatus (appName : String) : Option Application → ApplicationStatus
  | none => { state := some .kNewApp, name := some appName }
  | some app => app.status

theorem Managed.addApplication_eq {slave : Slave} (h : Managed slave.children slave.apps)
    (request : AddApplicationRequest) :
    let prev := slave.apps.find request.name
    let status := addedStatus request.name prev
    let next := slave.addApplication request
    next.children = slave.children ∧
      next.apps = slave.apps.insert request.name { request := request, status := status } ∧
      next.appDones = slave.appDones ++ [.added status (prev.map Application.request)] := by
  intro prev status next
  have hstatus : (fun status : ApplicationStatus ↦ if status.state.isNone then
      { status with state := some .kNewApp } else status)
        { (prev.map Application.status).getD {} with name := some request.name } = status := by
    cases hfind : prev with
    | none => simp [status, addedStatus, hfind]
    | some app =>
      obtain ⟨-, hname, hstate⟩ := h.named request.name app hfind
      have hsame : { app.status with name := some request.name } = app.status := by
        rw [← hname]
      have hset : app.status.state.isNone = false := by
        rw [Option.isNone_eq_false_iff]
        exact hstate
      simp [status, addedStatus, hfind, hsame, hset]
  have hassert := Slave.assert_frame slave (!request.name.toList.contains '/') nameAssertion
  simp only [next, Slave.addApplication]
  rw [hassert.apps, hassert.appDones]
  refine ⟨hassert.children, ?_, ?_⟩
  · rw [← hstatus]
  · rw [← hstatus]

/-- An application that is added again keeps its status, and its request is replaced. -/
theorem Managed.addApplication {slave : Slave} (h : Managed slave.children slave.apps)
    (request : AddApplicationRequest) :
    Managed (slave.addApplication request).children (slave.addApplication request).apps := by
  obtain ⟨hchildren, happs, -⟩ := h.addApplication_eq request
  have hreports := h.reports request.name
  rw [hchildren, happs]
  cases hfind : slave.apps.find request.name with
  | none =>
    rw [hfind] at hreports
    exact h.insert h.registered ⟨rfl, rfl, rfl⟩ (fun hstate ↦ by cases hstate) hreports
      fun _ _ ↦ List.Perm.refl _
  | some app =>
    rw [hfind] at hreports
    obtain ⟨-, hstatus, hstate⟩ := h.named request.name app hfind
    exact h.insert h.registered ⟨rfl, hstatus, hstate⟩ (h.pid request.name app hfind) hreports
      fun _ _ ↦ List.Perm.refl _

/-! ### A process has exited -/

theorem Managed.reaped (h : Managed children apps) (hregistered : next.Registered)
    (hreports : next.reports.Perm children.reports) : Managed next apps :=
  h.setChildren hregistered fun _ ↦ hreports.filterMap _

/-- The callback of a process runs: it was the only one of its application, which was running. -/
theorem Managed.onProcessExit {slave : Slave} {pid : ℕ} {status : ExitStatus}
    (h : Managed slave.children slave.apps)
    (hfunctor : slave.children.nextFunctor =
      some ((.onProcessExit appName pid, status), children)) :
    let last := Slave.onProcessExit { slave with children := children } appName
    Managed last.children last.apps := by
  obtain ⟨hregistered, hreports, -, -⟩ := nextFunctor_spec h.registered hfunctor
  have hprocesses := reportsOf_cons hreports
  have hself := (hprocesses appName).symm.trans (h.reports appName)
  rw [Owner.processOf, if_pos rfl, Option.toList_some] at hself
  have hothers : ∀ other, other ≠ appName →
      (reportsOf children other).Perm (reportsOf slave.children other) := by
    intro other hother
    refine List.Perm.trans (List.Perm.of_eq ?_) (hprocesses other).symm
    simp [Owner.processOf, Ne.symm hother]
  have hnone : reportsOf children appName = [] := by
    have hlength := hself.length_eq
    have hmost := length_runningPid_le (slave.apps.find appName)
    rw [List.length_append, List.length_singleton] at hlength
    refine List.eq_nil_of_length_eq_zero ?_
    omega
  cases hfind : slave.apps.find appName with
  | none =>
    rw [hfind] at hself
    exact absurd hself.eq_nil (List.cons_ne_nil _ _)
  | some app =>
    obtain ⟨hname, hstatus, -⟩ := h.named appName app hfind
    have hexit : Slave.onProcessExit { slave with children := children } appName = { slave with
        children := children
        apps := slave.apps.insert appName
          { app with status := { app.status with state := some .kExited } } } := by
      simp only [Slave.onProcessExit, hfind]
    rw [hexit]
    refine h.insert hregistered ⟨hname, hstatus, rfl⟩ (fun hstate ↦ by cases hstate) ?_ hothers
    rw [hnone]
    exact List.Perm.refl _

theorem Managed.runQueued {slave next : Slave} {output : Output}
    (h : Managed slave.children slave.apps) (hnext : slave.runQueued output = some next) :
    Managed next.children next.apps := by
  cases runQueued_cases hnext with
  | command hfunctor =>
    obtain ⟨hregistered, hreports, -, -⟩ := nextFunctor_spec h.registered hfunctor
    rw [(Slave.callDone_frame _ _ _).children, (Slave.callDone_frame _ _ _).apps]
    exact h.setChildren hregistered fun appName ↦ (reportsOf_cons hreports appName).symm
  | process hfunctor => exact h.onProcessExit hfunctor

/-- A step keeps the applications and the callbacks in agreement. -/
theorem Managed.step {slave next : Slave} {action : Action}
    (h : Managed slave.children slave.apps)
    (hstep : slaveSystem.step slave action = some next) : Managed next.children next.apps := by
  obtain ⟨hfresh, hperform⟩ := (Option.ite_none_right_eq_some ..).mp hstep
  cases action with
  | runCommand outcome =>
    obtain rfl := Option.some.inj hperform
    exact (h.runCommand .client hfresh).1
  | getHardware lshw outcome =>
    obtain rfl := Option.some.inj hperform
    exact Managed.runKeys { slave with tasks := slave.tasks ++ [{ lshw := lshw }] }
      slave.tasks.length (hardwareKeys lshw) h hfresh
  | addApplication request =>
    obtain rfl := Option.some.inj hperform
    exact h.addApplication request
  | startApplications names =>
    obtain rfl := Option.some.inj hperform
    exact h.startNames names hfresh
  | exit pid status =>
    obtain ⟨children, hexit, rfl⟩ := Option.map_eq_some_iff.mp hperform
    obtain ⟨hregistered, hreports, -⟩ := h.registered.exit hexit
    exact h.reaped hregistered (List.Perm.of_eq hreports)
  | onRead pid =>
    obtain rfl := Option.some.inj hperform
    obtain ⟨_, hreaped⟩ := reaped_onRead h.registered pid
    exact h.reaped hreaped.registered hreaped.reports
  | onTimer order =>
    obtain ⟨children, htimer, rfl⟩ := Option.map_eq_some_iff.mp hperform
    obtain ⟨-, _, hreaped⟩ := reaped_onTimer h.registered htimer
    exact h.reaped hreaped.registered hreaped.reports
  | runQueued output => exact h.runQueued hperform

/-- The applications of every run. -/
theorem managed {actions : List Action} {slave : Slave}
    (hrun : slaveSystem.Run actions slave) : Managed slave.children slave.apps := by
  apply hrun.invariant
  · exact managed_start
  · intro state action next _ hstep hbefore
    exact hbefore.step hstep

end Operations

/-! ### Applications are started -/

section Started

variable {slave : Slave} {appName : String} {app : Application}

/-- A start of one application leaves the others as they are. -/
theorem find_startName_of_ne {other : String} (hother : other ≠ appName)
    (outcome : StartOutcome) :
    (slave.startName other outcome).1.apps.find appName = slave.apps.find appName := by
  unfold Slave.startName Slave.startApp
  cases hfind : slave.apps.find other with
  | none => rfl
  | some found =>
    dsimp only
    split_ifs
    · cases outcome with
      | failed err child => exact Table.find_insert_of_ne _ _ (Ne.symm hother)
      | started pid =>
        show (Slave.assert _ _ _).apps.find appName = _
        rw [(Slave.assert_frame _ _ _).apps]
        exact Table.find_insert_of_ne _ _ (Ne.symm hother)
    · rfl

/-- A successful start of an application that is not running. -/
theorem find_startName (hfind : slave.apps.find appName = some app)
    (hstate : app.status.getState ≠ .kRunning) (pid : ℕ) :
    (slave.startName appName (.started pid)).1.apps.find appName =
      some { app with status := { app.status with state := some .kRunning, pid := some pid } } := by
  unfold Slave.startName Slave.startApp
  simp only [hfind, if_pos hstate]
  show (Slave.assert _ _ _).apps.find appName = _
  rw [(Slave.assert_frame _ _ _).apps]
  exact Table.find_insert_self _ _ _

/-- An application that is running is not started again. -/
theorem find_startNames_of_running (names : List (String × StartOutcome))
    (hfind : slave.apps.find appName = some app) (hstate : app.status.getState = .kRunning) :
    (slave.startNames names).1.apps.find appName = some app := by
  induction names generalizing slave with
  | nil => exact hfind
  | cons first rest ih =>
    refine ih ?_
    by_cases hother : first.1 = appName
    · unfold Slave.startName Slave.startApp
      rw [hother, hfind]
      simp only [hstate, ne_eq, not_true_eq_false, if_false]
      exact hfind
    · rw [find_startName_of_ne hother]
      exact hfind

/-- An application that is not running is running with the pid of its first start in a request, if
that succeeds. -/
theorem find_startNames (before after : List (String × StartOutcome))
    (hfirst : appName ∉ before.map Prod.fst) (hfind : slave.apps.find appName = some app)
    (hstate : app.status.getState ≠ .kRunning) (pid : ℕ) :
    (slave.startNames (before ++ (appName, .started pid) :: after)).1.apps.find appName =
      some { app with status := { app.status with state := some .kRunning, pid := some pid } } := by
  induction before generalizing slave with
  | nil => exact find_startNames_of_running after (find_startName hfind hstate pid) rfl
  | cons first rest ih =>
    rw [List.map_cons, List.mem_cons, not_or] at hfirst
    refine ih hfirst.2 ?_
    rw [find_startName_of_ne (Ne.symm hfirst.1)]
    exact hfind

end Started

/-! ### Applications are running while they have a process -/

/-- An application is running if and only if there is one callback for its processes, registered or
queued, and its status then has the pid of that process, under which the callback is registered. No
application, known or not, has two processes that were started and not yet reported as exited. An
application that is not running is running after a successful start, with the pid of the process. An
application that is added again keeps its status, and its request is replaced and returned. -/
structure RunsOnce (slave : Slave) : Prop where
  running : ∀ appName app, slave.apps.find appName = some app →
    (app.status.getState = .kRunning ↔ (reportsOf slave.children appName).length = 1)
  pid : ∀ appName app, slave.apps.find appName = some app → app.status.getState = .kRunning →
    ∃ pid, app.status.pid = some pid ∧ reportsOf slave.children appName = [pid]
  bound : ∀ callback ∈ slave.children.callbacks, callback.2.pid = callback.1
  single : ∀ appName, ((slave.children.live.filterMap Child.owner ++
    slave.children.pendingFunctors.map Prod.fst).filterMap (Owner.processOf appName)).length ≤ 1
  started : ∀ before appName pid after next app, slaveSystem.step slave
      (.startApplications (before ++ (appName, .started pid) :: after)) = some next →
    appName ∉ before.map Prod.fst → slave.apps.find appName = some app →
      app.status.getState ≠ .kRunning → next.apps.find appName = some { app with
        status := { app.status with state := some .kRunning, pid := some pid } }
  readd : ∀ request next app, slaveSystem.step slave (.addApplication request) = some next →
    slave.apps.find request.name = some app →
      next.apps = slave.apps.insert request.name { app with request := request } ∧
        next.appDones = slave.appDones ++ [.added app.status (some app.request)]

/-- The processes that were started and not yet reported as exited are those with a callback. -/
theorem unreported_perm {children : ChildManager Owner} (hregistered : children.Registered) :
    (children.live.filterMap Child.owner ++ children.pendingFunctors.map Prod.fst).Perm
      children.reports := by
  have howners : (children.live.filterMap entry).map Prod.snd =
      children.live.filterMap Child.owner := by
    rw [List.map_filterMap]
    refine List.filterMap_congr fun child _ ↦ ?_
    cases howner : child.owner with
    | none => simp [entry, howner]
    | some owner => simp [entry, howner]
  rw [← howners]
  exact (hregistered.callbacks.map Prod.snd).symm.append_right _

theorem runsOnce {actions : List Action} {slave : Slave}
    (hrun : slaveSystem.Run actions slave) : RunsOnce slave := by
  have h := managed hrun
  have hrunning : ∀ appName app, slave.apps.find appName = some app →
      app.status.getState = .kRunning →
        ∃ pid, app.status.pid = some pid ∧ reportsOf slave.children appName = [pid] := by
    intro appName app hfind hstate
    obtain ⟨pid, hpid⟩ := Option.isSome_iff_exists.mp (h.pid appName app hfind hstate)
    have hreports := h.reports appName
    rw [hfind, runningPid, if_pos hstate, hpid, Option.toList_some] at hreports
    exact ⟨pid, hpid, List.perm_singleton.mp hreports⟩
  constructor
  case running =>
    intro appName app hfind
    constructor
    · intro hstate
      obtain ⟨pid, -, hreports⟩ := hrunning appName app hfind hstate
      rw [hreports, List.length_singleton]
    · intro hone
      by_contra hstate
      rw [h.reports_nil hfind hstate] at hone
      cases hone
  case pid => exact hrunning
  case bound =>
    rintro ⟨pid, owner⟩ hmem
    obtain ⟨child, hchild, hpid, howner⟩ := h.registered.mem_live hmem
    exact ((accounted hrun).bound child hchild owner howner).trans hpid
  case single =>
    intro appName
    have hperm := ((unreported_perm h.registered).filterMap (Owner.processOf appName)).trans
      (h.reports appName)
    rw [hperm.length_eq]
    exact length_runningPid_le _
  case started =>
    intro before appName pid after next app hstep hfirst hfind hstate
    obtain ⟨-, hperform⟩ := (Option.ite_none_right_eq_some ..).mp hstep
    obtain rfl := Option.some.inj hperform
    exact find_startNames before after hfirst hfind hstate pid
  case readd =>
    intro request next app hstep hfind
    obtain ⟨-, hperform⟩ := (Option.ite_none_right_eq_some ..).mp hstep
    obtain rfl := Option.some.inj hperform
    obtain ⟨-, happs, happDones⟩ := h.addApplication_eq request
    rw [hfind] at happs happDones
    exact ⟨happs, happDones⟩

/-- A program is started twice in one request, dies, is added again and started again, before its
callback runs and after that. -/
def restarted : List Action :=
  let request : AddApplicationRequest :=
    { name := "app", binary := "/bin/app", slave_name := "slave" }
  [.addApplication request,
    .startApplications [("app", .started 3), ("app", .started 4), ("other", .started 5)],
    .exit 3 (.exited 1), .onTimer [3], .addApplication { request with binary := "/bin/new" },
    .startApplications [("app", .started 6)], .runQueued ⟨[], []⟩,
    .startApplications [("app", .started 7)]]

theorem runsOnce_restart : ∃ slave : Slave, slaveSystem.Run restarted slave ∧
    slave.appDones.length = 5 ∧ reportsOf slave.children "app" = [7] ∧ RunsOnce slave := by
  have hexecutes : (slaveSystem.execute slaveSystem.start restarted).map
      (fun slave ↦ (slave.appDones.length, reportsOf slave.children "app")) = some (5, [7]) := by
    decide +kernel
  obtain ⟨slave, hexecute, hlast⟩ := Option.map_eq_some_iff.mp hexecutes
  obtain ⟨hdones, hreports⟩ := Prod.mk.inj hlast
  have hrun := TransitionSystem.Run.of_execute hexecute
  exact ⟨slave, hrun, hdones, hreports, runsOnce hrun⟩

end MuduoProtorpc.Zurg
