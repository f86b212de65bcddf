import MuduoProtorpc.Zurg.SinkRuns

/-!
# The commands of a slave, while their functors are run

`LoopInvariant` is `SinkInvariant` for all sinks, with what ties a process to its callback in
`ChildManager` and to `onCommandExit` in the queues, and with the account of the descriptors: the
open ones are those that the slave had, and one for each sink that was neither closed nor destroyed.
Here every step keeps it but the release of a functor.
-/

set_option autoImplicit false
set_option relaxedAutoImplicit false

namespace MuduoProtorpc.Zurg

open Foundation

/-- The descriptor that a sink has to close. -/
def Sink.descriptor (sink : Sink) : List ℕ :=
  if sink.destroyed then [] else sink.fd.toList

theorem descriptor_of_fd {sink : Sink} {fd : ℕ} (hnot : sink.destroyed = false)
    (hfd : sink.fd = some fd) : sink.descriptor = [fd] := by
  simp [Sink.descriptor, hnot, hfd]

/-- The process that a functor refers to. -/
def LoopFunctor.index : LoopFunctor → ℕ
  | .onCommandExit index => index
  | .delayedClose index _ => index

/-- What holds of a process, of which `onCommandExit` is to be run, and has run in this round, some
times. -/
structure ProcessInvariant (process : CommandProcess) (queued ran : ℕ) : Prop where
  once : queued + ran ≤ 1
  callback : process.callback = true → queued = 0 ∧ ran = 0
  alive : process.alive = true ↔ process.callback = true ∨ 0 < queued + ran
  response : process.response = none ↔ process.callback = true ∨ 0 < queued
  holds : ∀ which, process.holds which = process.alive

theorem ProcessInvariant.setSink {process : CommandProcess} {queued ran : ℕ}
    (hprocess : ProcessInvariant process queued ran) (which : Which) (sink : Sink) :
    ProcessInvariant (process.setSink which sink) queued ran :=
  ⟨hprocess.once, hprocess.callback, hprocess.alive, hprocess.response, hprocess.holds⟩

namespace CommandLoop

/-- The descriptors that the sinks of a process have to close. -/
def held (process : CommandProcess) : List ℕ :=
  (process.sink .stdout).descriptor ++ (process.sink .stderr).descriptor

/-- How often a functor is still to be run. -/
def waiting (loop : CommandLoop) (functor : LoopFunctor) : ℕ :=
  (loop.functors ++ loop.pendingFunctors).count functor

/-- The functors that are to be run or to be released. -/
def queue (loop : CommandLoop) : List LoopFunctor :=
  loop.functors ++ loop.pendingFunctors ++ loop.ran

/-- What holds of the sinks of a loop. -/
structure SinksInvariant (opened : Finset ℕ) (loop : CommandLoop) : Prop where
  asserted : loop.failed = []
  fds : ({ opened := opened, badCloses := 0 } : FdTable).Extended loop.fds
    (loop.processes.flatMap held)
  sinks : ∀ index process, loop.processes[index]? = some process → ∀ which,
    SinkInvariant (process.sink which) (process.holds which) (process.warned which)
      (process.response.map fun output ↦ output which)
        (loop.waiting (.delayedClose index which)) (loop.ran.count (.delayedClose index which))

/-- What holds of a loop. -/
structure LoopInvariant (opened : Finset ℕ) (loop : CommandLoop) : Prop
    extends SinksInvariant opened loop where
  processes : ∀ index process, loop.processes[index]? = some process →
    ProcessInvariant process (loop.waiting (.onCommandExit index))
      (loop.ran.count (.onCommandExit index))
  inRange : ∀ functor ∈ loop.queue, functor.index < loop.processes.length
  idle : loop.eventHandling = true → loop.functors = [] ∧ loop.ran = []

section Changes

variable {opened : Finset ℕ} {loop next : CommandLoop} {index : ℕ} {process other : CommandProcess}

/-- The descriptors around those of one process. -/
theorem exists_held_set {processes : List CommandProcess}
    (hprocess : processes[index]? = some process) : ∃ front rest,
      processes.flatMap held = front ++ (held process ++ rest) ∧
        ∀ other, (processes.set index other).flatMap held = front ++ (held other ++ rest) := by
  obtain ⟨hlt, rfl⟩ := List.getElem?_eq_some_iff.mp hprocess
  refine ⟨(processes.take index).flatMap held, (processes.drop (index + 1)).flatMap held, ?_, ?_⟩
  · have hsplit : processes.take index ++ processes[index] :: processes.drop (index + 1) =
        processes := by
      rw [List.getElem_cons_drop, List.take_append_drop]
    conv_lhs => rw [← hsplit, List.flatMap_append, List.flatMap_cons]
  · intro other
    rw [List.set_eq_take_cons_drop _ hlt]
    simp

/-- The queues have changed for one process only. -/
structure QueuesOf (loop next : CommandLoop) (index : ℕ) : Prop where
  waiting : ∀ functor, functor.index ≠ index → next.waiting functor = loop.waiting functor
  ran : ∀ functor, functor.index ≠ index → next.ran.count functor = loop.ran.count functor

/-- A process, and the queues for it, have changed. -/
theorem SinksInvariant.set (hinvariant : SinksInvariant opened loop)
    (hprocesses : next.processes = loop.processes.set index other) (hfailed : next.failed = [])
    (hfds : ({ opened := opened, badCloses := 0 } : FdTable).Extended next.fds
      (next.processes.flatMap held))
    (hqueues : QueuesOf loop next index)
    (hsinks : ∀ which, SinkInvariant (other.sink which) (other.holds which) (other.warned which)
      (other.response.map fun output ↦ output which)
        (next.waiting (.delayedClose index which)) (next.ran.count (.delayedClose index which))) :
    SinksInvariant opened next where
  asserted := hfailed
  fds := hfds
  sinks := by
    intro position found hfound which
    rw [hprocesses] at hfound
    rcases getElem?_set_cases hfound with ⟨rfl, rfl⟩ | ⟨hposition, hold⟩
    · exact hsinks which
    · have hne : (LoopFunctor.delayedClose position which).index ≠ index := hposition
      rw [hqueues.waiting _ hne, hqueues.ran _ hne]
      exact hinvariant.sinks position found hold which

variable {base fds : FdTable} {processes : List CommandProcess}

/-- The descriptors of a process are what they were. -/
theorem extended_set (hextended : base.Extended fds (processes.flatMap held))
    (hprocess : processes[index]? = some process)
    (hheld : ∀ which, (other.sink which).descriptor = (process.sink which).descriptor) :
    base.Extended fds ((processes.set index other).flatMap held) := by
  obtain ⟨front, rest, hbefore, hafter⟩ := exists_held_set hprocess
  have hsame : held other = held process := by
    rw [held, hheld, hheld]
    rfl
  rwa [hafter, hsame, ← hbefore]

/-- A sink of the process has closed its descriptor. -/
theorem extended_close (hextended : base.Extended fds (processes.flatMap held))
    (hprocess : processes[index]? = some process) {which : Which} {fd : ℕ}
    (hopen : (process.sink which).descriptor = [fd]) (hclosed : (other.sink which).descriptor = [])
    (hothers : ∀ any, any ≠ which → (other.sink any).descriptor = (process.sink any).descriptor) :
    base.Extended (fds.close (some fd)) ((processes.set index other).flatMap held) := by
  obtain ⟨front, rest, hbefore, hafter⟩ := exists_held_set hprocess
  rw [hafter]
  rw [hbefore] at hextended
  cases which with
  | stdout =>
    have hheld : held process = fd :: (process.sink .stderr).descriptor := by
      rw [held, hopen]
      rfl
    have hnext : held other = (process.sink .stderr).descriptor := by
      rw [held, hclosed, hothers .stderr (by decide)]
      rfl
    rw [hheld] at hextended
    rw [hnext]
    exact hextended.close front _
  | stderr =>
    have hheld : held process = (process.sink .stdout).descriptor ++ [fd] := by
      rw [held, hopen]
    have hnext : held other = (process.sink .stdout).descriptor := by
      rw [held, hclosed, hothers .stdout (by decide), List.append_nil]
    rw [hheld, List.append_assoc, ← List.append_assoc] at hextended
    rw [hnext, ← List.append_assoc]
    exact hextended.close _ rest

/-- A process, and the queues for it, have changed, and all is well with it. -/
theorem LoopInvariant.set (hinvariant : LoopInvariant opened loop)
    (hindex : index < loop.processes.length)
    (hprocesses : next.processes = loop.processes.set index other)
    (hsinks : SinksInvariant opened next) (hqueues : QueuesOf loop next index)
    (hprocess : ProcessInvariant other (next.waiting (.onCommandExit index))
      (next.ran.count (.onCommandExit index)))
    (hrange : ∀ functor ∈ next.queue, functor ∈ loop.queue ∨ functor.index = index)
    (hidle : next.eventHandling = true → next.functors = [] ∧ next.ran = []) :
    LoopInvariant opened next where
  toSinksInvariant := hsinks
  processes := by
    intro position found hfound
    rw [hprocesses] at hfound
    rcases getElem?_set_cases hfound with ⟨rfl, rfl⟩ | ⟨hposition, hold⟩
    · exact hprocess
    · have hne : (LoopFunctor.onCommandExit position).index ≠ index := hposition
      rw [hqueues.waiting _ hne, hqueues.ran _ hne]
      exact hinvariant.processes position found hold
  inRange := by
    intro functor hfunctor
    rw [hprocesses, List.length_set]
    rcases hrange functor hfunctor with hold | hsame
    · exact hinvariant.inRange functor hold
    · rwa [hsame]
  idle := hidle

/-! ### The events -/

theorem assert_of_true {holds : Bool} (hholds : holds = true) (text : String) :
    loop.assert holds text = loop := by
  simp only [assert, hholds, if_true]

theorem waiting_queueInLoop (loop : CommandLoop) (functor any : LoopFunctor) :
    (loop.queueInLoop functor).waiting any = loop.waiting any + if functor = any then 1 else 0 := by
  simp [waiting, queueInLoop, List.count_append, List.count_singleton, Nat.add_assoc]

theorem mem_queue_queueInLoop {functor any : LoopFunctor}
    (hany : any ∈ (loop.queueInLoop functor).queue) : any ∈ loop.queue ∨ any = functor := by
  simp only [queue, queueInLoop, List.mem_append, List.mem_singleton] at hany ⊢
  tauto

/-- A process is replaced, and the queues stay. -/
theorem LoopInvariant.setProcess (hinvariant : LoopInvariant opened loop)
    (hprocess : loop.processes[index]? = some process)
    (hdescriptor : ∀ which, (other.sink which).descriptor = (process.sink which).descriptor)
    (hsinks : ∀ which, SinkInvariant (other.sink which) (other.holds which) (other.warned which)
      (other.response.map fun output ↦ output which)
        (loop.waiting (.delayedClose index which)) (loop.ran.count (.delayedClose index which)))
    (hother : ProcessInvariant other (loop.waiting (.onCommandExit index))
      (loop.ran.count (.onCommandExit index))) :
    LoopInvariant opened (loop.setProcess index other) := by
  have hqueues : QueuesOf loop (loop.setProcess index other) index :=
    ⟨fun _ _ ↦ rfl, fun _ _ ↦ rfl⟩
  have hsinksInvariant : SinksInvariant opened (loop.setProcess index other) := by
    refine hinvariant.toSinksInvariant.set rfl hinvariant.asserted ?_ hqueues hsinks
    exact extended_set hinvariant.fds hprocess hdescriptor
  exact hinvariant.set (List.getElem?_eq_some_iff.mp hprocess).1 rfl hsinksInvariant hqueues hother
    (fun _ hfunctor ↦ Or.inl hfunctor) hinvariant.idle

/-- A process is replaced, and has queued a functor. -/
theorem LoopInvariant.setProcess_queueInLoop (hinvariant : LoopInvariant opened loop)
    (hprocess : loop.processes[index]? = some process) {functor : LoopFunctor}
    (hfunctor : functor.index = index)
    (hdescriptor : ∀ which, (other.sink which).descriptor = (process.sink which).descriptor)
    (hsinks : ∀ which, SinkInvariant (other.sink which) (other.holds which) (other.warned which)
      (other.response.map fun output ↦ output which)
        (loop.waiting (.delayedClose index which) +
          if functor = .delayedClose index which then 1 else 0)
            (loop.ran.count (.delayedClose index which)))
    (hother : ProcessInvariant other (loop.waiting (.onCommandExit index) +
      if functor = .onCommandExit index then 1 else 0)
        (loop.ran.count (.onCommandExit index))) :
    LoopInvariant opened ((loop.setProcess index other).queueInLoop functor) := by
  have hwaiting := waiting_queueInLoop (loop.setProcess index other) functor
  have hqueues : QueuesOf loop ((loop.setProcess index other).queueInLoop functor) index := by
    refine ⟨fun any hne ↦ (hwaiting any).trans ?_, fun _ _ ↦ rfl⟩
    rw [if_neg, Nat.add_zero]
    · rfl
    · rintro rfl
      exact hne hfunctor
  have hsinksInvariant :
      SinksInvariant opened ((loop.setProcess index other).queueInLoop functor) := by
    refine hinvariant.toSinksInvariant.set rfl hinvariant.asserted ?_ hqueues fun which ↦ ?_
    · exact extended_set hinvariant.fds hprocess hdescriptor
    · rw [hwaiting]
      exact hsinks which
  refine hinvariant.set (List.getElem?_eq_some_iff.mp hprocess).1 rfl hsinksInvariant hqueues ?_ ?_
    hinvariant.idle
  · rw [hwaiting]
    exact hother
  · intro any hany
    rcases mem_queue_queueInLoop hany with hold | rfl
    · exact Or.inl hold
    · exact Or.inr hfunctor

/-- A sink of a process is replaced. -/
theorem SinksInvariant.setSink (hinvariant : SinksInvariant opened loop)
    (hprocess : loop.processes[index]? = some process) {which : Which} {sink : Sink}
    {queued ran : Which → ℕ}
    (hsink : SinkInvariant sink (process.holds which) (process.warned which)
      (process.response.map fun output ↦ output which) (queued which) (ran which))
    (hothers : ∀ any, any ≠ which → queued any = loop.waiting (.delayedClose index any) ∧
      ran any = loop.ran.count (.delayedClose index any)) (any : Which) :
    SinkInvariant ((process.setSink which sink).sink any) (process.holds any) (process.warned any)
      (process.response.map fun output ↦ output any) (queued any) (ran any) := by
  by_cases hany : any = which
  · subst hany
    rw [CommandProcess.setSink_self]
    exact hsink
  · rw [process.setSink_of_ne hany, (hothers any hany).1, (hothers any hany).2]
    exact hinvariant.sinks index process hprocess any

theorem descriptor_setSink {which : Which} {sink : Sink}
    (hdescriptor : sink.descriptor = (process.sink which).descriptor) (any : Which) :
    ((process.setSink which sink).sink any).descriptor = (process.sink any).descriptor := by
  by_cases hany : any = which
  · subst hany
    rw [CommandProcess.setSink_self, hdescriptor]
  · rw [process.setSink_of_ne hany]

/-- A command writes to its pipe, or closes it. -/
theorem LoopInvariant.changePipe (hinvariant : LoopInvariant opened loop) {which : Which}
    {change : OutputPipe → OutputPipe}
    (hchange : ∀ pipe, ∃ bytes, (change pipe).written = pipe.written ++ bytes ∧
      (change pipe).unread = pipe.unread ++ bytes)
    (hstep : loop.changePipe index which change = some next) : LoopInvariant opened next := by
  unfold CommandLoop.changePipe at hstep
  cases hprocess : loop.processes[index]? with
  | none =>
    rw [hprocess] at hstep
    cases hstep
  | some process =>
    simp only [hprocess] at hstep
    split_ifs at hstep with hhungUp
    obtain rfl := Option.some.inj hstep
    have hsink := hinvariant.sinks index process hprocess which
    have hnext := hsink.changePipe (by simpa using hhungUp) (hchange _)
    exact hinvariant.setProcess hprocess (descriptor_setSink rfl)
      (hinvariant.toSinksInvariant.setSink hprocess hnext fun _ _ ↦ ⟨rfl, rfl⟩)
      ((hinvariant.processes index process hprocess).setSink _ _)

/-- An event of a channel. -/
theorem LoopInvariant.handleEvent (hinvariant : LoopInvariant opened loop) {which : Which}
    {possible : OutputPipe → Bool} {callback : Sink → Sink × Bool}
    (hcallback : ∀ {sink : Sink} {holds warned : Bool} {output : Option (List UInt8)}
      {queued ran : ℕ}, SinkInvariant sink holds warned output queued ran → sink.reading = true →
        possible sink.pipe = true → SinkInvariant (callback sink).1 holds warned output
          (queued + (callback sink).2.toNat) ran ∧
            (callback sink).1.descriptor = sink.descriptor)
    (hstep : loop.handleEvent index which possible callback = some next) :
    LoopInvariant opened next := by
  unfold CommandLoop.handleEvent at hstep
  cases hprocess : loop.processes[index]? with
  | none =>
    rw [hprocess] at hstep
    cases hstep
  | some process =>
    simp only [hprocess] at hstep
    by_cases hevent :
        (loop.eventHandling && (process.sink which).reading && possible (process.sink which).pipe) =
          true
    · rw [if_pos hevent] at hstep
      rw [Bool.and_eq_true, Bool.and_eq_true] at hevent
      obtain ⟨⟨-, hreading⟩, hpossible⟩ := hevent
      have hsink := hinvariant.sinks index process hprocess which
      have halive := hsink.not_destroyed (Or.inl (hsink.reading hreading).2.2.2.1)
      rw [assert_of_true (by rw [halive]; rfl)] at hstep
      obtain ⟨hnext, hdescriptor⟩ := hcallback hsink hreading hpossible
      have hother := (hinvariant.processes index process hprocess).setSink which
        (callback (process.sink which)).1
      obtain rfl := Option.some.inj hstep
      cases hqueued : (callback (process.sink which)).2 with
      | false =>
        rw [hqueued] at hnext
        exact hinvariant.setProcess hprocess (descriptor_setSink hdescriptor)
          (hinvariant.toSinksInvariant.setSink hprocess hnext fun _ _ ↦ ⟨rfl, rfl⟩) hother
      | true =>
        rw [hqueued] at hnext
        refine hinvariant.setProcess_queueInLoop hprocess rfl (descriptor_setSink hdescriptor)
          (hinvariant.toSinksInvariant.setSink hprocess ?_ ?_) ?_
        · rw [if_pos rfl]
          exact hnext
        · intro any hany
          rw [if_neg]
          · exact ⟨rfl, rfl⟩
          · rintro ⟨⟩
            exact hany rfl
        · rw [if_neg (by simp)]
          exact hother
    · rw [if_neg hevent] at hstep
      cases hstep

/-- A command was waited for. -/
theorem LoopInvariant.onExit (hinvariant : LoopInvariant opened loop)
    (hstep : loop.onExit index = some next) : LoopInvariant opened next := by
  unfold CommandLoop.onExit at hstep
  cases hprocess : loop.processes[index]? with
  | none =>
    rw [hprocess] at hstep
    cases hstep
  | some process =>
    simp only [hprocess] at hstep
    split_ifs at hstep with hevent
    rw [Bool.and_eq_true] at hevent
    obtain rfl := Option.some.inj hstep
    have hold := hinvariant.processes index process hprocess
    obtain ⟨hqueued, hran⟩ := hold.callback hevent.2
    have halive := hold.alive.mpr (Or.inl hevent.2)
    have hresponse := hold.response.mpr (Or.inl hevent.2)
    refine hinvariant.setProcess_queueInLoop hprocess rfl (fun _ ↦ rfl) (fun which ↦ ?_) ?_
    · rw [if_neg (by simp)]
      exact hinvariant.sinks index process hprocess which
    · rw [if_pos rfl, hqueued, hran]
      exact {
        once := le_rfl
        callback := by
          intro hfalse
          cases hfalse
        alive := by simp [halive]
        response := by simp [hresponse]
        holds := hold.holds }

/-! ### The functors -/

/-- No functor refers to a process that there is not. -/
theorem LoopInvariant.count_eq_zero (hinvariant : LoopInvariant opened loop) {functor : LoopFunctor}
    (hfunctor : functor.index = loop.processes.length) :
    loop.waiting functor = 0 ∧ loop.ran.count functor = 0 := by
  have hnot : functor ∉ loop.queue := by
    intro hmem
    have hlt := hinvariant.inRange functor hmem
    omega
  rw [queue, List.mem_append, not_or] at hnot
  exact ⟨List.count_eq_zero.mpr hnot.1, List.count_eq_zero.mpr hnot.2⟩

/-- A command is started, or it is not. -/
theorem LoopInvariant.start (hinvariant : LoopInvariant opened loop) {calls : StartCalls}
    {maxLength : Which → BitVec 32} (hstep : loop.start calls maxLength = some next) :
    LoopInvariant opened next := by
  unfold CommandLoop.start at hstep
  cases hstart : startFds true calls loop.fds with
  | none =>
    rw [hstart] at hstep
    cases hstep
  | some result =>
    obtain ⟨fds, sinks⟩ := result
    have hfds := hinvariant.fds.trans (extended_startFds hstart)
    rw [hstart] at hstep
    cases sinks with
    | none =>
      obtain rfl := Option.some.inj hstep
      exact {
        asserted := hinvariant.asserted
        fds := hfds
        sinks := hinvariant.sinks
        processes := hinvariant.processes
        inRange := hinvariant.inRange
        idle := hinvariant.idle }
    | some ends =>
      obtain ⟨stdoutFd, stderrFd⟩ := ends
      obtain rfl := Option.some.inj hstep
      have hempty : ∀ (fd : ℕ) (maxLength : BitVec 32),
          SinkInvariant { fd := some fd, maxLength := maxLength } true false none 0 0 := by
        intro fd maxLength
        exact {
          content := rfl
          added := rfl
          once := Nat.zero_le 1
          reading := fun _ ↦ ⟨rfl, rfl, by simp, rfl, rfl⟩
          opened := fun _ ↦ by simp
          closed := fun hpositive ↦ by omega
          destroyed := by simp
          unwarned := fun _ ↦ rfl
          quiet := fun hreading ↦ by cases hreading
          captured := fun bytes hbytes ↦ by cases hbytes }
      exact {
        asserted := hinvariant.asserted
        fds := by
          refine hfds.perm ?_
          rw [List.flatMap_append]
          exact (List.Perm.append_right _ (List.Perm.swap _ _ [])).trans List.perm_append_comm
        sinks := by
          intro position found hfound which
          rcases getElem?_append_singleton_eq_some hfound with hold | ⟨rfl, rfl⟩
          · exact hinvariant.sinks position found hold which
          · obtain ⟨hwaiting, hran⟩ := hinvariant.count_eq_zero
              (show (LoopFunctor.delayedClose loop.processes.length which).index = _ from rfl)
            show SinkInvariant _ true false none (loop.waiting _) (loop.ran.count _)
            rw [hwaiting, hran]
            cases which with
            | stdout => exact hempty stdoutFd _
            | stderr => exact hempty stderrFd _
        processes := by
          intro position found hfound
          rcases getElem?_append_singleton_eq_some hfound with hold | ⟨rfl, rfl⟩
          · exact hinvariant.processes position found hold
          · obtain ⟨hwaiting, hran⟩ := hinvariant.count_eq_zero
              (show (LoopFunctor.onCommandExit loop.processes.length).index = _ from rfl)
            show ProcessInvariant _ (loop.waiting _) (loop.ran.count _)
            rw [hwaiting, hran]
            exact {
              once := Nat.zero_le 1
              callback := fun _ ↦ ⟨rfl, rfl⟩
              alive := by simp
              response := by simp
              holds := fun _ ↦ rfl }
        inRange := by
          intro functor hfunctor
          rw [List.length_append]
          exact (hinvariant.inRange functor hfunctor).trans_le (Nat.le_add_right _ _)
        idle := hinvariant.idle }

/-- The functors are taken. -/
theorem LoopInvariant.doPendingFunctors (hinvariant : LoopInvariant opened loop)
    (hphase : loop.eventHandling = true) : LoopInvariant opened { loop with
      eventHandling := false
      functors := loop.pendingFunctors
      pendingFunctors := [] } := by
  obtain ⟨hfunctors, hran⟩ := hinvariant.idle hphase
  have hwaiting : ∀ functor, waiting { loop with
      eventHandling := false
      functors := loop.pendingFunctors
      pendingFunctors := [] } functor = loop.waiting functor := by
    intro functor
    simp [waiting, hfunctors]
  exact {
    asserted := hinvariant.asserted
    fds := hinvariant.fds
    sinks := by
      intro position process hprocess which
      rw [hwaiting]
      exact hinvariant.sinks position process hprocess which
    processes := by
      intro position process hprocess
      rw [hwaiting]
      exact hinvariant.processes position process hprocess
    inRange := by
      intro functor hfunctor
      refine hinvariant.inRange functor ?_
      simpa [queue, hfunctors] using hfunctor
    idle := by
      intro hevent
      cases hevent }

/-- The functor that is next has been run. -/
structure RunOf (loop next : CommandLoop) (functor : LoopFunctor) : Prop where
  waiting : ∀ any, loop.waiting any = next.waiting any + if functor = any then 1 else 0
  ran : ∀ any, next.ran.count any = loop.ran.count any + if functor = any then 1 else 0
  subset : ∀ any ∈ next.queue, any ∈ loop.queue

theorem runOf_of_functors {functor : LoopFunctor} {functors : List LoopFunctor}
    (hfunctors : loop.functors = functor :: functors) (hnext : next.functors = functors)
    (hpending : next.pendingFunctors = loop.pendingFunctors)
    (hran : next.ran = loop.ran ++ [functor]) : RunOf loop next functor where
  waiting := by
    intro any
    unfold CommandLoop.waiting
    rw [hfunctors, hnext, hpending, List.cons_append, List.count_cons]
    simp
  ran := by
    intro any
    rw [hran, List.count_append, List.count_singleton]
    simp
  subset := by
    intro any hany
    simp only [queue, hnext, hpending, hran, hfunctors, List.mem_append,
      List.mem_cons] at hany ⊢
    tauto

theorem RunOf.queuesOf {functor : LoopFunctor} (hrun : RunOf loop next functor)
    (hindex : functor.index = index) : QueuesOf loop next index := by
  have hne : ∀ any : LoopFunctor, any.index ≠ index → functor ≠ any := by
    rintro any hany rfl
    exact hany hindex
  refine ⟨fun any hany ↦ ?_, fun any hany ↦ ?_⟩
  · have hwaiting := hrun.waiting any
    rw [if_neg (hne any hany)] at hwaiting
    exact hwaiting.symm
  · rw [hrun.ran, if_neg (hne any hany), Nat.add_zero]

theorem descriptor_stop (sink : Sink) : sink.stop.descriptor = sink.descriptor := by
  unfold Sink.stop
  split_ifs <;> rfl

theorem processes_setProcess {running : CommandLoop}
    (hprocesses : running.processes = loop.processes) (index : ℕ) (other : CommandProcess) :
    (running.setProcess index other).processes = loop.processes.set index other := by
  simp only [CommandLoop.setProcess, hprocesses]

/-- `onCommandExit` whose assertions hold. -/
theorem onCommandExit_eq (hphase : loop.eventHandling = false) (halive : process.alive = true)
    (hnot : ∀ which, (process.sink which).destroyed = false) :
    loop.onCommandExit index process = loop.setProcess index { process with
      sink := fun which ↦ (process.sink which).stop
      response := some fun which ↦ (process.sink which).stop.buf
      warned := fun which ↦ (process.sink which).reading } := by
  simp only [CommandLoop.onCommandExit, assert, hphase, halive, hnot, Bool.not_false, Bool.and_self,
    if_true]

/-- `delayedClose` whose assertions hold. -/
theorem delayedClose_eq {which : Which} (hnot : (process.sink which).destroyed = false)
    (hreading : (process.sink which).reading = false) (hadded : (process.sink which).added = true) :
    loop.delayedClose index process which =
      { loop with fds := loop.fds.close (process.sink which).fd }.setProcess index
        (process.setSink which { process.sink which with added := false, fd := none }) := by
  simp only [CommandLoop.delayedClose, removeAndClose, assert, hnot, hreading, hadded,
    Bool.not_false, Bool.and_self, if_true]

/-- `onCommandExit` is run. -/
theorem LoopInvariant.onCommandExit (hinvariant : LoopInvariant opened loop)
    {running : CommandLoop} (hrun : RunOf loop running (.onCommandExit index))
    (hprocesses : running.processes = loop.processes) (hfailed : running.failed = loop.failed)
    (hfds : running.fds = loop.fds) (hphase : running.eventHandling = false)
    (hprocess : loop.processes[index]? = some process) :
    LoopInvariant opened (running.onCommandExit index process) := by
  have hold := hinvariant.processes index process hprocess
  have hwaiting := hrun.waiting (.onCommandExit index)
  have hran := hrun.ran (.onCommandExit index)
  rw [if_pos rfl] at hwaiting hran
  have honce := hold.once
  have hresponse : process.response = none := hold.response.mpr (Or.inr (by omega))
  have halive : process.alive = true := hold.alive.mpr (Or.inr (by omega))
  have hcallback : process.callback = false := by
    cases hcallback : process.callback with
    | false => rfl
    | true =>
      have hnone := (hold.callback hcallback).1
      omega
  have hsink := fun which ↦ hinvariant.sinks index process hprocess which
  have hnot : ∀ which, (process.sink which).destroyed = false := fun which ↦
    (hsink which).not_destroyed (Or.inl ((hold.holds which).trans halive))
  rw [onCommandExit_eq hphase halive hnot]
  have hqueues : QueuesOf loop running index := hrun.queuesOf rfl
  have hother : ∀ which, LoopFunctor.onCommandExit index ≠ .delayedClose index which := by
    intro which hsame
    cases hsame
  refine hinvariant.set (List.getElem?_eq_some_iff.mp hprocess).1
    (processes_setProcess hprocesses index _) ?_ ⟨hqueues.waiting, hqueues.ran⟩
      ?_ (fun any hany ↦ Or.inl (hrun.subset any hany)) ?_
  · refine hinvariant.toSinksInvariant.set
      (processes_setProcess hprocesses index _)
        (hfailed.trans hinvariant.asserted) ?_ ⟨hqueues.waiting, hqueues.ran⟩ fun which ↦ ?_
    · rw [processes_setProcess hprocesses]
      show FdTable.Extended _ running.fds _
      rw [hfds]
      exact extended_set hinvariant.fds hprocess fun which ↦ descriptor_stop _
    · have hsame := hrun.waiting (.delayedClose index which)
      have hsameRan := hrun.ran (.delayedClose index which)
      rw [if_neg (hother which), Nat.add_zero] at hsame hsameRan
      have hstopped := hsink which
      rw [hresponse, hsame] at hstopped
      show SinkInvariant _ (process.holds which) _ _ (running.waiting _) (running.ran.count _)
      rw [hsameRan]
      exact hstopped.stop
  · show ProcessInvariant _ (running.waiting _) (running.ran.count _)
    exact {
      once := by omega
      callback := by
        intro htrue
        rw [hcallback] at htrue
        cases htrue
      alive := by
        simp only [halive, true_iff]
        exact Or.inr (by omega)
      response := by
        simp only [reduceCtorEq, false_iff, hcallback, Bool.false_eq_true, false_or]
        omega
      holds := hold.holds }
  · intro hevent
    exact absurd (hphase.symm.trans hevent) (by decide)

/-- `delayedClose` is run. -/
theorem LoopInvariant.delayedClose (hinvariant : LoopInvariant opened loop)
    {running : CommandLoop} {which : Which}
    (hrun : RunOf loop running (.delayedClose index which))
    (hprocesses : running.processes = loop.processes) (hfailed : running.failed = loop.failed)
    (hfds : running.fds = loop.fds) (hphase : running.eventHandling = false)
    (hprocess : loop.processes[index]? = some process) :
    LoopInvariant opened (running.delayedClose index process which) := by
  have hwaiting := hrun.waiting (.delayedClose index which)
  have hran := hrun.ran (.delayedClose index which)
  rw [if_pos rfl] at hwaiting hran
  have hsink := hinvariant.sinks index process hprocess which
  rw [hwaiting] at hsink
  have hnot := hsink.not_destroyed (Or.inr (Or.inl (Nat.succ_pos _)))
  have hclosing := hsink.delayedClose
  rw [← hran] at hclosing
  have hreading : (process.sink which).reading = false := by
    cases hreading : (process.sink which).reading with
    | false => rfl
    | true =>
      have hnone := (hsink.reading hreading).1
      omega
  obtain ⟨fd, hfd⟩ := Option.ne_none_iff_exists'.mp (hsink.opened (Nat.succ_pos _))
  have hadded : (process.sink which).added = true := by
    rw [hsink.added, hfd, hnot]
    rfl
  have hqueues : QueuesOf loop running index := hrun.queuesOf rfl
  rw [delayedClose_eq hnot hreading hadded]
  refine hinvariant.set (List.getElem?_eq_some_iff.mp hprocess).1
    (processes_setProcess hprocesses index _) ?_ ⟨hqueues.waiting, hqueues.ran⟩
      ?_ (fun any hany ↦ Or.inl (hrun.subset any hany)) ?_
  · refine hinvariant.toSinksInvariant.set
      (processes_setProcess hprocesses index _)
        (hfailed.trans hinvariant.asserted) ?_ ⟨hqueues.waiting, hqueues.ran⟩ ?_
    · show FdTable.Extended _ (running.fds.close _) ((running.processes.set index _).flatMap held)
      rw [hprocesses, hfds, hfd]
      refine extended_close hinvariant.fds hprocess (descriptor_of_fd hnot hfd) ?_ fun any hany ↦ ?_
      · rw [CommandProcess.setSink_self]
        simp [Sink.descriptor]
      · rw [process.setSink_of_ne hany]
    · refine hinvariant.toSinksInvariant.setSink hprocess hclosing fun any hany ↦ ?_
      have hne : LoopFunctor.delayedClose index which ≠ .delayedClose index any := by
        rintro ⟨⟩
        exact hany rfl
      have hsame := hrun.waiting (.delayedClose index any)
      have hsameRan := hrun.ran (.delayedClose index any)
      rw [if_neg hne, Nat.add_zero] at hsame hsameRan
      exact ⟨hsame.symm, hsameRan⟩
  · have hsame := hrun.waiting (.onCommandExit index)
    have hsameRan := hrun.ran (.onCommandExit index)
    rw [if_neg (by simp), Nat.add_zero] at hsame hsameRan
    have hold := hinvariant.processes index process hprocess
    rw [hsame, ← hsameRan] at hold
    exact hold.setSink _ _
  · intro hevent
    exact absurd (hphase.symm.trans hevent) (by decide)

/-- The functor that is next is run. -/
theorem LoopInvariant.runFunctor (hinvariant : LoopInvariant opened loop)
    (hphase : loop.eventHandling = false) (hstep : loop.runFunctor = some next) :
    LoopInvariant opened next := by
  unfold CommandLoop.runFunctor at hstep
  cases hfunctors : loop.functors with
  | nil =>
    rw [hfunctors] at hstep
    cases hstep
  | cons functor functors =>
    simp only [hfunctors] at hstep
    have hrun : RunOf loop { loop with functors := functors, ran := loop.ran ++ [functor] }
        functor := runOf_of_functors hfunctors rfl rfl rfl
    cases functor with
    | onCommandExit index =>
      obtain ⟨process, hprocess, rfl⟩ := Option.map_eq_some_iff.mp hstep
      exact hinvariant.onCommandExit hrun rfl rfl rfl hphase hprocess
    | delayedClose index which =>
      obtain ⟨process, hprocess, rfl⟩ := Option.map_eq_some_iff.mp hstep
      exact hinvariant.delayedClose hrun rfl rfl rfl hphase hprocess

end Changes

end CommandLoop

end MuduoProtorpc.Zurg
