import Mathlib.Logic.Function.Basic
import MuduoProtorpc.Foundation.TransitionSystem
import MuduoProtorpc.Zurg.Descriptors

/-!
# What a slave reads from its commands

`Sink` of `examples/zurg/slave/Sink.h`, of which a process that runs a command has two, on the event
loop of a slave. The loop has two phases: it handles the events of the channels, and then it runs
the functors that were queued until then; what these refer to is released behind the last of them.
A sink that has read more than its limit is closed by a functor of its own (`delayedClose`); any
other is closed when the process is destroyed, after `Process::onCommandExit`.

The commands write to their pipes at any time, and so may processes that they have left behind. A
file descriptor that was closed may be given to another process at once, so that a `close` too many
would close a pipe of that one.
-/

set_option autoImplicit false
set_option relaxedAutoImplicit false

namespace MuduoProtorpc.Zurg

open Foundation

/-! ### One sink -/

/-- A pipe that a command writes to: what was written, what was not read yet, and whether all who
could write are gone. -/
structure OutputPipe where
  written : List UInt8 := []
  unread : List UInt8 := []
  hungUp : Bool := false

/-- `Sink`, with the pipe that it reads: `fd` is none for -1, `reading` is that its channel has an
event, and `added` that the channel is in the poller. -/
structure Sink where
  fd : Option ℕ
  maxLength : BitVec 32
  reading : Bool := true
  added : Bool := true
  buf : List UInt8 := []
  destroyed : Bool := false
  pipe : OutputPipe := {}

/-- The sinks of a process. -/
inductive Which
  | stdout
  | stderr
  deriving DecidableEq, Repr

/-- The comparison of `onRead`. -/
def Sink.exceeds (sink : Sink) : Bool :=
  sink.maxLength.toInt < (BitVec.ofNat 32 sink.buf.length).toInt

/-- `readFd`: it returns a number of bytes, which are then in the buffer, or an error. -/
def Sink.readFd (sink : Sink) : Option ℕ → Sink
  | none => sink
  | some n => { sink with
      buf := sink.buf ++ sink.pipe.unread.take n
      pipe := { sink.pipe with unread := sink.pipe.unread.drop n } }

/-- `onRead`, for the result of `readFd`: the sink, and whether `delayedClose` is queued. -/
def Sink.onRead (sink : Sink) (n : Option ℕ) : Sink × Bool :=
  let sink := sink.readFd n
  let sink := if n = some 0 then { sink with reading := false } else sink
  if sink.exceeds then ({ sink with reading := false }, true) else (sink, false)

/-- `onClose`. -/
def Sink.onClose (sink : Sink) : Sink :=
  { sink with reading := false }

/-- `stop`. -/
def Sink.stop (sink : Sink) : Sink :=
  if sink.reading then { sink with reading := false } else sink

/-! ### The loop -/

/-- What is queued in the event loop for a command. -/
inductive LoopFunctor
  | onCommandExit (index : ℕ)
  | delayedClose (index : ℕ) (which : Which)
  deriving DecidableEq, Repr

/-- `Process` for a command: its sinks and whether it has a `shared_ptr` to each, whether its
callback is registered with `ChildManager`, whether there is a `shared_ptr` to it, `std_output` and
`std_error` of the response, when it was given, and whether `stop` has logged its warning. -/
structure CommandProcess where
  sink : Which → Sink
  holds : Which → Bool := fun _ ↦ true
  callback : Bool := true
  alive : Bool := true
  response : Option (Which → List UInt8) := none
  warned : Which → Bool := fun _ ↦ false

/-- A sink of a process is replaced. -/
def CommandProcess.setSink (process : CommandProcess) (which : Which) (sink : Sink) :
    CommandProcess :=
  { process with sink := Function.update process.sink which sink }

@[simp] theorem CommandProcess.setSink_self (process : CommandProcess) (which : Which)
    (sink : Sink) : (process.setSink which sink).sink which = sink := by
  simp [setSink]

theorem CommandProcess.setSink_of_ne (process : CommandProcess) {which any : Which}
    (hne : any ≠ which) (sink : Sink) :
    (process.setSink which sink).sink any = process.sink any := by
  simp [setSink, hne]

/-- An event loop with its commands: `functors` are those that are run now, and `ran` those of them
that have run and are still referring to a command. -/
structure CommandLoop where
  processes : List CommandProcess := []
  eventHandling : Bool := true
  pendingFunctors : List LoopFunctor := []
  functors : List LoopFunctor := []
  ran : List LoopFunctor := []
  fds : FdTable
  failed : List String := []

namespace CommandLoop

/-- The assertion of `delayedClose`. -/
def delayedCloseAssertion : String :=
  "ch_.isNoneEvent()"

/-- The assertions of `Channel::remove`: there is no event, and the channel is in the poller. -/
def removeAssertion : String :=
  "isNoneEvent() && hasChannel(this)"

/-- The assertion of the destructors of `Sink` and `Process`, and of `onCommandExit`. -/
def eventHandlingAssertion : String :=
  "!loop_->eventHandling()"

/-- That nothing is done with a sink that was destroyed. -/
def livenessAssertion : String :=
  "!destroyed"

/-- `assert`. -/
def assert (loop : CommandLoop) (holds : Bool) (text : String) : CommandLoop :=
  if holds then loop else { loop with failed := loop.failed ++ [text] }

/-- A process is replaced. -/
def setProcess (loop : CommandLoop) (index : ℕ) (process : CommandProcess) : CommandLoop :=
  { loop with processes := loop.processes.set index process }

/-- `queueInLoop`. -/
def queueInLoop (loop : CommandLoop) (functor : LoopFunctor) : CommandLoop :=
  { loop with pendingFunctors := loop.pendingFunctors ++ [functor] }

/-- `ch_.remove()` and `::close(fd_)`. -/
def removeAndClose (loop : CommandLoop) (sink : Sink) : CommandLoop :=
  let loop := loop.assert (!sink.reading && sink.added) removeAssertion
  { loop with fds := loop.fds.close sink.fd }

/-- `delayedClose`. -/
def delayedClose (loop : CommandLoop) (index : ℕ) (process : CommandProcess) (which : Which) :
    CommandLoop :=
  let sink := process.sink which
  let loop := loop.assert (!sink.destroyed) livenessAssertion
  let loop := loop.assert (!sink.reading) delayedCloseAssertion
  (loop.removeAndClose sink).setProcess index
    (process.setSink which { sink with added := false, fd := none })

/-- `onCommandExit`, up to the response. -/
def onCommandExit (loop : CommandLoop) (index : ℕ) (process : CommandProcess) : CommandLoop :=
  let loop := loop.assert (!loop.eventHandling) eventHandlingAssertion
  let loop := loop.assert (process.alive && !(process.sink .stdout).destroyed &&
    !(process.sink .stderr).destroyed) livenessAssertion
  let sink := fun which ↦ (process.sink which).stop
  loop.setProcess index { process with
    sink := sink
    response := some fun which ↦ (sink which).buf
    warned := fun which ↦ (process.sink which).reading }

/-- The destructor of `Sink`. -/
def destroySink (loop : CommandLoop) (index : ℕ) (process : CommandProcess) (which : Which) :
    CommandLoop :=
  let sink := process.sink which
  let loop := loop.assert (!sink.destroyed) livenessAssertion
  let loop := loop.assert (!loop.eventHandling) eventHandlingAssertion
  let loop := if sink.fd.isSome then loop.removeAndClose sink else loop
  loop.setProcess index (process.setSink which
    { sink with added := sink.added && sink.fd.isNone, destroyed := true })

/-- Something that may be referred to from the queues is still referred to. -/
def refers (loop : CommandLoop) (functor : LoopFunctor) : Bool :=
  (loop.pendingFunctors ++ loop.functors ++ loop.ran).contains functor

/-- A reference to a sink was released. It is destroyed if that was the last one. -/
def releaseSink (loop : CommandLoop) (index : ℕ) (which : Which) : CommandLoop :=
  match loop.processes[index]? with
  | none => loop
  | some process =>
    if process.holds which || loop.refers (.delayedClose index which) then loop
    else loop.destroySink index process which

/-- A process that is destroyed releases one of its sinks. -/
def dropSink (loop : CommandLoop) (index : ℕ) (which : Which) : CommandLoop :=
  match loop.processes[index]? with
  | none => loop
  | some process =>
    (loop.setProcess index
      { process with holds := Function.update process.holds which false }).releaseSink index which

/-- A reference to a process was released: if that was the last one, the process is destroyed, with
its sinks in the reverse order of the members. -/
def releaseProcess (loop : CommandLoop) (index : ℕ) : CommandLoop :=
  match loop.processes[index]? with
  | none => loop
  | some process =>
    if process.callback || loop.refers (.onCommandExit index) then loop
    else
      let loop := loop.assert (!loop.eventHandling) eventHandlingAssertion
      let loop := loop.setProcess index { process with alive := false }
      (loop.dropSink index .stderr).dropSink index .stdout

/-- What can happen: a command is started; a command writes to a pipe, or is the last one to close
it; the channel of a sink has an event to read or to close; a command was waited for, or has timed
out; and the functors are taken, run one after another, and released. -/
inductive LoopAction
  | start (calls : StartCalls) (maxLength : Which → BitVec 32)
  | write (index : ℕ) (which : Which) (bytes : List UInt8)
  | hangUp (index : ℕ) (which : Which)
  | onRead (index : ℕ) (which : Which) (n : Option ℕ)
  | onClose (index : ℕ) (which : Which)
  | onExit (index : ℕ)
  | onTimeout (index : ℕ)
  | doPendingFunctors
  | runFunctor
  | releaseFunctor
  | endFunctors

/-- A command has been started, or it has not. -/
def start (loop : CommandLoop) (calls : StartCalls) (maxLength : Which → BitVec 32) :
    Option CommandLoop :=
  match startFds true calls loop.fds with
  | none => none
  | some (fds, none) => some { loop with fds := fds }
  | some (fds, some (stdoutFd, stderrFd)) => some { loop with
      fds := fds
      processes := loop.processes ++ [{
        sink := fun
          | .stdout => { fd := some stdoutFd, maxLength := maxLength .stdout }
          | .stderr => { fd := some stderrFd, maxLength := maxLength .stderr } }] }

/-- A command does something to a pipe that can still be written to. -/
def changePipe (loop : CommandLoop) (index : ℕ) (which : Which) (change : OutputPipe → OutputPipe) :
    Option CommandLoop :=
  match loop.processes[index]? with
  | none => none
  | some process =>
    let sink := process.sink which
    if sink.pipe.hungUp then none
    else some (loop.setProcess index
      (process.setSink which { sink with pipe := change sink.pipe }))

/-- `readFd` can return that. -/
def readable (pipe : OutputPipe) : Option ℕ → Bool
  | none => true
  | some 0 => pipe.unread.isEmpty && pipe.hungUp
  | some n => n ≤ pipe.unread.length

/-- An event of the channel of a sink. -/
def handleEvent (loop : CommandLoop) (index : ℕ) (which : Which) (possible : OutputPipe → Bool)
    (callback : Sink → Sink × Bool) : Option CommandLoop :=
  match loop.processes[index]? with
  | none => none
  | some process =>
    let sink := process.sink which
    if loop.eventHandling && sink.reading && possible sink.pipe then
      let loop := loop.assert (!sink.destroyed) livenessAssertion
      let (sink, queued) := callback sink
      let loop := loop.setProcess index (process.setSink which sink)
      some (if queued then loop.queueInLoop (.delayedClose index which) else loop)
    else none

/-- `ChildManager::onExit` for the pid of a command. -/
def onExit (loop : CommandLoop) (index : ℕ) : Option CommandLoop :=
  match loop.processes[index]? with
  | none => none
  | some process =>
    if loop.eventHandling && process.callback then
      some ((loop.setProcess index { process with callback := false }).queueInLoop
        (.onCommandExit index))
    else none

/-- `onTimeoutWeak`: what a `shared_ptr` that is locked for the call releases behind it. -/
def onTimeoutWeak (loop : CommandLoop) (index : ℕ) : Option CommandLoop :=
  match loop.processes[index]? with
  | none => none
  | some process => some (if process.alive then loop.releaseProcess index else loop)

/-- The next functor is run. -/
def runFunctor (loop : CommandLoop) : Option CommandLoop :=
  match loop.functors with
  | [] => none
  | functor :: functors =>
    let loop := { loop with functors := functors, ran := loop.ran ++ [functor] }
    match functor with
    | .onCommandExit index =>
      loop.processes[index]?.map fun process ↦ loop.onCommandExit index process
    | .delayedClose index which =>
      loop.processes[index]?.map fun process ↦ loop.delayedClose index process which

/-- A functor that has run is destroyed, when all have run. -/
def releaseFunctor (loop : CommandLoop) : Option CommandLoop :=
  match loop.functors, loop.ran with
  | [], functor :: ran =>
    let loop := { loop with ran := ran }
    some (match functor with
      | .onCommandExit index => loop.releaseProcess index
      | .delayedClose index which => loop.releaseSink index which)
  | _, _ => none

end CommandLoop

/-- One step of the loop. -/
def commandLoopStep (loop : CommandLoop) : CommandLoop.LoopAction → Option CommandLoop
  | .start calls maxLength => if loop.eventHandling then loop.start calls maxLength else none
  | .write index which bytes => loop.changePipe index which fun pipe ↦
      { pipe with written := pipe.written ++ bytes, unread := pipe.unread ++ bytes }
  | .hangUp index which => loop.changePipe index which fun pipe ↦ { pipe with hungUp := true }
  | .onRead index which n =>
    loop.handleEvent index which (CommandLoop.readable · n) fun sink ↦ sink.onRead n
  | .onClose index which =>
    loop.handleEvent index which (fun pipe ↦ pipe.unread.isEmpty && pipe.hungUp) fun sink ↦
      (sink.onClose, false)
  | .onExit index => loop.onExit index
  | .onTimeout index => if loop.eventHandling then loop.onTimeoutWeak index else none
  | .doPendingFunctors =>
    if loop.eventHandling then some { loop with
      eventHandling := false
      functors := loop.pendingFunctors
      pendingFunctors := [] }
    else none
  | .runFunctor => if loop.eventHandling then none else loop.runFunctor
  | .releaseFunctor => if loop.eventHandling then none else loop.releaseFunctor
  | .endFunctors =>
    if !loop.eventHandling && loop.functors.isEmpty && loop.ran.isEmpty then
      some { loop with eventHandling := true }
    else none

/-- An event loop with no command yet, in a slave that has some files open. -/
def commandLoopSystem (opened : Finset ℕ) :
    TransitionSystem CommandLoop CommandLoop.LoopAction where
  start := { fds := { opened := opened, badCloses := 0 } }
  step := commandLoopStep

end MuduoProtorpc.Zurg
