import Mathlib.Logic.Function.Basic
import MuduoProtorpc.Foundation.PendingTable
import MuduoProtorpc.Foundation.TransitionSystem
import MuduoProtorpc.Zurg.ChildManager

/-!
# The service of a zurg slave

`SlaveServiceImpl` of `examples/zurg/slave/SlaveService.cc` with its `GetHardwareTask` and its
`AppManager`, all of which run on one event loop and share one `ChildManager`.

A call of `runCommand` is known by its number, and comes from a client or from a hardware task. The
state records the calls of `done` that were made. It also records the assertions that have failed,
and goes on, as the code does when it is built without assertions; with them, a run ends where the
first one fails.
-/

set_option autoImplicit false
set_option relaxedAutoImplicit false

namespace MuduoProtorpc.Zurg

open Foundation

/-! ### Commands -/

/-- The sub-commands of a hardware task. -/
inductive HardwareKey
  | lshw
  | lspci
  | lscpu
  | ifconfig
  deriving DecidableEq, Repr

/-- The `done` of a `runCommand`: that of a client, or `KEYDone` of a hardware task. -/
inductive Done
  | client
  | hardware (index : ℕ) (key : HardwareKey)
  deriving DecidableEq, Repr

/-- A call of `runCommand`. -/
structure Command where
  number : ℕ
  done : Done
  deriving DecidableEq, Repr

/-- The task and the key whose `KEYDone` is the `done` of a command. -/
def Command.part (command : Command) : Option (ℕ × HardwareKey) :=
  match command.done with
  | .client => none
  | .hardware index key => some (index, key)

/-- `RunCommandResponse`. -/
structure RunCommandResponse where
  error_code : ℤ
  pid : Option ℕ := none
  status : Option ℕ := none
  std_output : Option (List UInt8) := none
  std_error : Option (List UInt8) := none
  exit_status : Option ℕ := none
  signaled : Option ℕ := none
  coredump : Option Bool := none
  deriving DecidableEq

/-- What the sinks of a process have read. -/
structure Output where
  std_output : List UInt8
  std_error : List UInt8

/-- The response of `Process::onCommandExit`. -/
def onCommandExit (pid : ℕ) (status : ExitStatus) (output : Output) : RunCommandResponse :=
  let response : RunCommandResponse := {
    error_code := 0
    pid := some pid
    status := some status.status
    std_output := some output.std_output
    std_error := some output.std_error }
  match status with
  | .exited code => { response with exit_status := some code }
  | .signaled signal core => { response with signaled := some signal, coredump := some core }

/-! ### Hardware tasks -/

/-- `GetHardwareTask`, with the outputs in its response. -/
structure HardwareTask where
  lshw : Bool
  keyDone : HardwareKey → Bool := fun _ ↦ false
  resp : HardwareKey → Option (List UInt8) := fun _ ↦ none

/-- The sub-commands that a task runs, in this order. -/
def hardwareKeys (lshw : Bool) : List HardwareKey :=
  (if lshw then [.lshw] else []) ++ [.lspci, .lscpu, .ifconfig]

/-- `DEFINE_DONE`, after its assertion. -/
def HardwareTask.setDone (task : HardwareTask) (key : HardwareKey) (out : RunCommandResponse) :
    HardwareTask :=
  { task with
    keyDone := Function.update task.keyDone key true
    resp := if out.error_code = 0 then
        Function.update task.resp key (some (out.std_output.getD []))
      else task.resp }

/-- The condition of `checkAllDone`. -/
def HardwareTask.allDone (task : HardwareTask) : Bool :=
  task.keyDone .lspci && task.keyDone .lscpu && task.keyDone .ifconfig &&
    (task.lshw == false || task.keyDone .lshw)

/-! ### Applications -/

/-- `ApplicationState`. -/
inductive ApplicationState
  | kUnknown
  | kNewApp
  | kRunning
  | kExited
  | kError
  deriving DecidableEq, Repr

/-- `ApplicationStatus`, with the fields that the slave sets. -/
structure ApplicationStatus where
  state : Option ApplicationState := none
  name : Option String := none
  pid : Option ℕ := none
  message : Option String := none
  deriving DecidableEq, Repr

/-- The accessor `state()`, with the default of the field. -/
def ApplicationStatus.getState (status : ApplicationStatus) : ApplicationState :=
  status.state.getD .kUnknown

/-- `AddApplicationRequest`. -/
structure AddApplicationRequest where
  name : String
  binary : String
  args : List String := []
  envs : List String := []
  envs_only : Bool := false
  redirect_stdout : Bool := true
  redirect_stderr : Bool := true
  slave_name : String
  max_memory_mb : ℤ := 32768
  comment : Option String := none
  md5sum_files : List String := []
  expected_md5sums : List String := []
  md5sum_now : Option Bool := none
  deriving DecidableEq, Repr

/-- `Application`, whose request is set as soon as there is one. -/
structure Application where
  request : AddApplicationRequest
  status : ApplicationStatus

/-- `AddApplicationResponse` and `StartApplicationsResponse`. -/
inductive ApplicationsResponse
  | added (status : ApplicationStatus) (prev_request : Option AddApplicationRequest)
  | started (status : List ApplicationStatus)
  deriving DecidableEq

/-! ### The slave -/

/-- What a callback at the exit of a process is bound to: a command or the name of an application,
with the pid of the process. -/
inductive Owner
  | onCommandExit (command : Command) (pid : ℕ)
  | onProcessExit (name : String) (pid : ℕ)
  deriving DecidableEq

/-- The pid of the process. -/
def Owner.pid : Owner → ℕ
  | .onCommandExit _ pid => pid
  | .onProcessExit _ pid => pid

/-- The command of a callback. -/
def Owner.command : Owner → Option Command
  | .onCommandExit command _ => some command
  | .onProcessExit _ _ => none

/-- The process of a callback, if it is for the given application. -/
def Owner.processOf (appName : String) : Owner → Option ℕ
  | .onCommandExit _ _ => none
  | .onProcessExit name pid => if name = appName then some pid else none

/-- `SlaveServiceImpl`: the calls of `runCommand` and the calls of their `done`, the hardware tasks
and the calls of theirs, the applications and the responses about them, and the assertions that have
failed. -/
structure Slave where
  children : ChildManager Owner := {}
  commands : List Command := []
  dones : List (Command × RunCommandResponse) := []
  tasks : List HardwareTask := []
  hardwareDones : List (ℕ × (HardwareKey → Option (List UInt8))) := []
  apps : Table String Application := Table.empty
  appDones : List ApplicationsResponse := []
  failed : List String := []

/-- The assertion of `runAtExit`. -/
def runAtExitAssertion : String :=
  "callbacks_.find(pid) == callbacks_.end()"

/-- The assertion of `DEFINE_DONE`. -/
def keyDoneAssertion : String :=
  "KEYDone_ == false"

/-- The assertion of `AppManager::add`. -/
def nameAssertion : String :=
  "request->name().find('/') == std::string::npos"

namespace Slave

/-- `assert`. -/
def assert (slave : Slave) (holds : Bool) (text : String) : Slave :=
  if holds then slave else { slave with failed := slave.failed ++ [text] }

/-- A process was started, and its callback is registered with `runAtExit`. -/
def started (slave : Slave) (pid : ℕ) (owner : Owner) : Slave :=
  let forked := slave.children.fork pid (some owner)
  { slave.assert (forked.unregistered pid) runAtExitAssertion with
    children := forked.runAtExit pid owner }

/-- `KEYDone`, and `checkAllDone`. -/
def keyDone (slave : Slave) (index : ℕ) (key : HardwareKey) (out : RunCommandResponse) : Slave :=
  match slave.tasks[index]? with
  | none => slave
  | some task =>
    let next := task.setDone key out
    let slave := { slave.assert (task.keyDone key == false) keyDoneAssertion with
      tasks := slave.tasks.set index next }
    if next.allDone then
      { slave with hardwareDones := slave.hardwareDones ++ [(index, next.resp)] }
    else slave

/-- The `done` of a command is called. -/
def callDone (slave : Slave) (command : Command) (response : RunCommandResponse) : Slave :=
  let slave := { slave with dones := slave.dones ++ [(command, response)] }
  match command.done with
  | .client => slave
  | .hardware index key => slave.keyDone index key response

/-- `runCommand`, which counts its calls. -/
def runCommand (slave : Slave) (done : Done) (outcome : StartOutcome) : Slave :=
  let command : Command := { number := slave.commands.length, done := done }
  let slave := { slave with commands := slave.commands ++ [command] }
  match outcome with
  | .failed err child =>
    { slave with children := slave.children.abandon child }.callDone command { error_code := err }
  | .started pid => slave.started pid (.onCommandExit command pid)

/-- `getHardware` and `GetHardwareTask::start`. -/
def getHardware (slave : Slave) (lshw : Bool) (outcome : HardwareKey → StartOutcome) : Slave :=
  let index := slave.tasks.length
  let slave := { slave with tasks := slave.tasks ++ [{ lshw := lshw }] }
  (hardwareKeys lshw).foldl
    (fun slave key ↦ slave.runCommand (.hardware index key) (outcome key)) slave

/-- `AppManager::add`. -/
def addApplication (slave : Slave) (request : AddApplicationRequest) : Slave :=
  let slave := slave.assert (!request.name.toList.contains '/') nameAssertion
  let prev := slave.apps.find request.name
  let status : ApplicationStatus := (prev.map Application.status).getD {}
  let status := { status with name := some request.name }
  let status := if status.state.isNone then { status with state := some .kNewApp } else status
  { slave with
    apps := slave.apps.insert request.name { request := request, status := status }
    appDones := slave.appDones ++ [.added status (prev.map Application.request)] }

/-- `AppManager::startApp`, for the application that was found under a name. -/
def startApp (slave : Slave) (appName : String) (app : Application) (outcome : StartOutcome) :
    Slave × ApplicationStatus :=
  if app.status.getState ≠ .kRunning then
    match outcome with
    | .failed _ child =>
      let status := { app.status with state := some .kError }
      ({ slave with
        apps := slave.apps.insert appName { app with status := status }
        children := slave.children.abandon child }, status)
    | .started pid =>
      let status := { app.status with state := some .kRunning, pid := some pid }
      let slave := { slave with apps := slave.apps.insert appName { app with status := status } }
      (slave.started pid (.onProcessExit app.request.name pid), status)
  else (slave, { app.status with message := some "Already running." })

/-- The body of the loop of `AppManager::start`. -/
def startName (slave : Slave) (appName : String) (outcome : StartOutcome) :
    Slave × ApplicationStatus :=
  match slave.apps.find appName with
  | some app => slave.startApp appName app outcome
  | none => (slave, {
      state := some .kUnknown
      name := some appName
      message := some "Application is unknown." })

/-- The loop of `AppManager::start`, over the names with what `Process::start` does if it is called
for them. -/
def startNames (slave : Slave) :
    List (String × StartOutcome) → Slave × List ApplicationStatus
  | [] => (slave, [])
  | (appName, outcome) :: rest =>
    let first := slave.startName appName outcome
    let others := first.1.startNames rest
    (others.1, first.2 :: others.2)

/-- `AppManager::start`. -/
def startApplications (slave : Slave) (names : List (String × StartOutcome)) : Slave :=
  let response := slave.startNames names
  { response.1 with appDones := response.1.appDones ++ [.started response.2] }

/-- `AppManager::onProcessExit`. -/
def onProcessExit (slave : Slave) (appName : String) : Slave :=
  match slave.apps.find appName with
  | none => slave
  | some app => { slave with
      apps := slave.apps.insert appName
        { app with status := { app.status with state := some .kExited } } }

/-- The event loop runs the next callback of its queue. -/
def runQueued (slave : Slave) (output : Output) : Option Slave :=
  match slave.children.nextFunctor with
  | none => none
  | some ((.onCommandExit command pid, status), children) =>
    some ({ slave with children := children }.callDone command (onCommandExit pid status output))
  | some ((.onProcessExit appName _, _), children) =>
    some ({ slave with children := children }.onProcessExit appName)

end Slave

/-! ### The system -/

/-- What can happen: the requests of the clients, with the outcomes of `Process::start`; a child
exits; and the events of the loop. -/
inductive Action
  | runCommand (outcome : StartOutcome)
  | getHardware (lshw : Bool) (outcome : HardwareKey → StartOutcome)
  | addApplication (request : AddApplicationRequest)
  | startApplications (names : List (String × StartOutcome))
  | exit (pid : ℕ) (status : ExitStatus)
  | onRead (pid : ℕ)
  | onTimer (order : List ℕ)
  | runQueued (output : Output)

/-- The outcomes of `Process::start` in an action. -/
def Action.outcomes : Action → List StartOutcome
  | .runCommand outcome => [outcome]
  | .getHardware lshw outcome => (hardwareKeys lshw).map outcome
  | .startApplications names => names.map Prod.snd
  | _ => []

/-- The new children have pids that are free. -/
def ChildManager.Fresh {Owner : Type*} (children : ChildManager Owner)
    (outcomes : List StartOutcome) : Prop :=
  (outcomes.filterMap StartOutcome.child ++ children.live.map Child.pid).Nodup

instance {Owner : Type*} (children : ChildManager Owner) (outcomes : List StartOutcome) :
    Decidable (children.Fresh outcomes) :=
  inferInstanceAs (Decidable (List.Nodup _))

/-- What an action does. -/
def Slave.perform (slave : Slave) : Action → Option Slave
  | .runCommand outcome => some (slave.runCommand .client outcome)
  | .getHardware lshw outcome => some (slave.getHardware lshw outcome)
  | .addApplication request => some (slave.addApplication request)
  | .startApplications names => some (slave.startApplications names)
  | .exit pid status =>
    (slave.children.exit pid status).map fun children ↦ { slave with children := children }
  | .onRead pid => some { slave with children := slave.children.onRead pid }
  | .onTimer order =>
    (slave.children.onTimer order).map fun children ↦ { slave with children := children }
  | .runQueued output => slave.runQueued output

/-- A slave with its clients and its children. -/
def slaveSystem : TransitionSystem Slave Action where
  start := {}
  step := fun slave action ↦
    if slave.children.Fresh action.outcomes then slave.perform action else none

end MuduoProtorpc.Zurg
