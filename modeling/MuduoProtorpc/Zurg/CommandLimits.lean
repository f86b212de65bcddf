import MuduoProtorpc.Zurg.CommandGuarantees

/-!
# How much of its commands a slave keeps

A sink stops when it has more than its limit, as 32-bit integers are compared. When no read returns
more than `chunk` bytes, and no limit is so close to 2^31 that it would not be seen to be exceeded,
it never has more than the limit and one read.
-/

set_option autoImplicit false
set_option relaxedAutoImplicit false

namespace MuduoProtorpc.Zurg

open Foundation

/-! ### One sink -/

/-- The limit of a sink; a limit below zero is as zero, up to the first event. -/
def Sink.limit (sink : Sink) : ℕ :=
  sink.maxLength.toInt.toNat

/-- A sink has at most a read more than its limit, and within it when it reads. -/
structure Sink.Within (chunk : ℕ) (sink : Sink) : Prop where
  small : sink.limit + chunk < 2 ^ 31
  buffered : sink.buf.length ≤ sink.limit + chunk
  reading : sink.reading = true → sink.buf.length ≤ sink.limit

section Sink

variable {sink next : Sink} {chunk : ℕ}

/-- A buffer of less than 2^31 bytes is compared as what it is. -/
theorem exceeds_iff (hsmall : sink.buf.length < 2 ^ 31) :
    sink.exceeds = true ↔ sink.maxLength.toInt < sink.buf.length := by
  have hlength : (BitVec.ofNat 32 sink.buf.length).toInt = sink.buf.length := by
    rw [BitVec.toInt_ofNat', Int.bmod_eq_of_le] <;> omega
  rw [Sink.exceeds, decide_eq_true_iff, hlength]

theorem Sink.Within.quieter (hwithin : sink.Within chunk) (hquieter : sink.Quieter next) :
    next.Within chunk := by
  have hlimit : next.limit = sink.limit := by rw [Sink.limit, Sink.limit, hquieter.maxLength]
  exact {
    small := by
      rw [hlimit]
      exact hwithin.small
    buffered := by
      rw [hlimit, hquieter.buf]
      exact hwithin.buffered
    reading := by
      intro hreading
      rw [hlimit, hquieter.buf]
      exact hwithin.reading (hquieter.reading hreading) }

/-- A read of at most so many bytes, by a sink that reads. -/
theorem Sink.Within.onRead (hwithin : sink.Within chunk) (hreading : sink.reading = true)
    {n : Option ℕ} (hchunk : ∀ bytes, n = some bytes → bytes ≤ chunk) :
    (sink.onRead n).1.Within chunk := by
  obtain ⟨reading, hnext, -, -, hexceeds⟩ := onRead_cases sink n
  obtain ⟨-, -, -, -, -, -, hmaxLength⟩ := readFd_frame sink n
  have hlimit : (sink.readFd n).limit = sink.limit := by rw [Sink.limit, Sink.limit, hmaxLength]
  have hbuffered : (sink.readFd n).buf.length ≤ sink.limit + chunk := by
    have hle := hwithin.reading hreading
    cases n with
    | none =>
      show sink.buf.length ≤ _
      omega
    | some bytes =>
      have hbytes := hchunk bytes rfl
      simp only [Sink.readFd, List.length_append, List.length_take]
      omega
  have hsmall := hwithin.small
  rw [hnext]
  exact {
    small := by
      show (sink.readFd n).limit + chunk < 2 ^ 31
      rwa [hlimit]
    buffered := by
      show _ ≤ (sink.readFd n).limit + chunk
      rwa [hlimit]
    reading := by
      intro htrue
      have hnot : ¬ (sink.readFd n).exceeds = true := by
        intro hmore
        exact absurd ((hexceeds hmore).symm.trans htrue) (by decide)
      rw [exceeds_iff (by omega), not_lt] at hnot
      show (sink.readFd n).buf.length ≤ (sink.readFd n).maxLength.toInt.toNat
      omega }

end Sink

namespace CommandLoop

/-! ### A loop -/

/-- Every sink of a loop reads no more than before. -/
def Quieter (loop next : CommandLoop) : Prop :=
  ∀ (index : ℕ) (process : CommandProcess), next.processes[index]? = some process →
    ∃ old : CommandProcess, loop.processes[index]? = some old ∧
      ∀ which, (old.sink which).Quieter (process.sink which)

section Quieter

variable {loop next last : CommandLoop} {index : ℕ} {process other : CommandProcess}

theorem quieter_of_processes (hprocesses : next.processes = loop.processes) : Quieter loop next :=
  fun _ process hprocess ↦ ⟨process, hprocesses ▸ hprocess, fun _ ↦ .refl _⟩

theorem Quieter.trans (hfirst : Quieter loop next) (hsecond : Quieter next last) :
    Quieter loop last := by
  intro index process hprocess
  obtain ⟨middle, hmiddle, hlater⟩ := hsecond index process hprocess
  obtain ⟨old, hold, hearlier⟩ := hfirst index middle hmiddle
  exact ⟨old, hold, fun which ↦ (hearlier which).trans (hlater which)⟩

theorem Framed.quieter (hframed : Framed loop next index other)
    (hprocess : loop.processes[index]? = some process)
    (hsinks : ∀ which, (process.sink which).Quieter (other.sink which)) : Quieter loop next := by
  intro position found hfound
  rw [hframed.processes] at hfound
  rcases getElem?_set_cases hfound with ⟨rfl, rfl⟩ | ⟨-, hold⟩
  · exact ⟨process, hprocess, hsinks⟩
  · exact ⟨found, hold, fun _ ↦ .refl _⟩

theorem quieter_setProcess (hprocess : loop.processes[index]? = some process)
    (hsinks : ∀ which, (process.sink which).Quieter (other.sink which)) :
    Quieter loop (loop.setProcess index other) :=
  (framed_setProcess loop index other).quieter hprocess hsinks

theorem quieter_releaseSink (loop : CommandLoop) (index : ℕ) (which : Which) :
    Quieter loop (loop.releaseSink index which) := by
  cases hprocess : loop.processes[index]? with
  | none =>
    refine quieter_of_processes ?_
    simp only [CommandLoop.releaseSink, hprocess]
  | some process =>
    obtain ⟨sink, hframed, hquieter⟩ := framed_releaseSink hprocess which
    exact hframed.quieter hprocess (quieter_setSink hquieter)

theorem quieter_dropSink (loop : CommandLoop) (index : ℕ) (which : Which) :
    Quieter loop (loop.dropSink index which) := by
  cases hprocess : loop.processes[index]? with
  | none =>
    refine quieter_of_processes ?_
    simp only [CommandLoop.dropSink, hprocess]
  | some process =>
    obtain ⟨other, hframed, hdropped⟩ := framed_dropSink hprocess which
    exact hframed.quieter hprocess hdropped.sinks

theorem processes_assert (loop : CommandLoop) (holds : Bool) (text : String) :
    (loop.assert holds text).processes = loop.processes := by
  unfold assert
  split_ifs <;> rfl

theorem quieter_releaseProcess (loop : CommandLoop) (index : ℕ) :
    Quieter loop (loop.releaseProcess index) := by
  unfold CommandLoop.releaseProcess
  cases hprocess : loop.processes[index]? with
  | none => exact quieter_of_processes rfl
  | some process =>
    simp only
    split_ifs with hreferred
    · exact quieter_of_processes rfl
    · have hasserted := quieter_of_processes
        (processes_assert loop (!loop.eventHandling) eventHandlingAssertion)
      refine hasserted.trans (Quieter.trans ?_ ((quieter_dropSink _ index .stderr).trans
        (quieter_dropSink _ index .stdout)))
      have hget : (loop.assert (!loop.eventHandling) eventHandlingAssertion).processes[index]? =
          some process := by
        rw [processes_assert, hprocess]
      exact quieter_setProcess hget fun _ ↦ .refl _

theorem quieter_changePipe {which : Which} {change : OutputPipe → OutputPipe}
    (hstep : loop.changePipe index which change = some next) : Quieter loop next := by
  unfold CommandLoop.changePipe at hstep
  cases hprocess : loop.processes[index]? with
  | none =>
    rw [hprocess] at hstep
    cases hstep
  | some process =>
    simp only [hprocess] at hstep
    split_ifs at hstep with hhungUp
    obtain rfl := Option.some.inj hstep
    exact quieter_setProcess hprocess (quieter_setSink ⟨rfl, rfl, id⟩)

theorem quieter_onClose {which : Which} {possible : OutputPipe → Bool}
    (hstep : loop.handleEvent index which possible (fun sink ↦ (sink.onClose, false)) =
      some next) : Quieter loop next := by
  unfold CommandLoop.handleEvent at hstep
  cases hprocess : loop.processes[index]? with
  | none =>
    rw [hprocess] at hstep
    cases hstep
  | some process =>
    simp only [hprocess] at hstep
    split_ifs at hstep with hevent hqueued
    · cases hqueued
    · obtain rfl := Option.some.inj hstep
      have hasserted := quieter_of_processes
        (processes_assert loop (!(process.sink which).destroyed) livenessAssertion)
      have hget : (loop.assert (!(process.sink which).destroyed)
          livenessAssertion).processes[index]? = some process := by
        rw [processes_assert, hprocess]
      refine hasserted.trans (quieter_setProcess hget (quieter_setSink ⟨rfl, rfl, ?_⟩))
      intro hreading
      cases hreading

theorem quieter_onExit (hstep : loop.onExit index = some next) : Quieter loop next := by
  unfold CommandLoop.onExit at hstep
  cases hprocess : loop.processes[index]? with
  | none =>
    rw [hprocess] at hstep
    cases hstep
  | some process =>
    simp only [hprocess] at hstep
    split_ifs at hstep with hevent
    obtain rfl := Option.some.inj hstep
    have hset : Quieter loop (loop.setProcess index { process with callback := false }) :=
      quieter_setProcess hprocess fun _ ↦ .refl _
    exact hset.trans (quieter_of_processes rfl)

theorem quieter_onTimeoutWeak (hstep : loop.onTimeoutWeak index = some next) :
    Quieter loop next := by
  unfold CommandLoop.onTimeoutWeak at hstep
  cases hprocess : loop.processes[index]? with
  | none =>
    rw [hprocess] at hstep
    cases hstep
  | some process =>
    simp only [hprocess, Option.some.injEq] at hstep
    rw [← hstep]
    split_ifs
    · exact quieter_releaseProcess loop index
    · exact quieter_of_processes rfl

theorem quieter_onCommandExit (hprocess : loop.processes[index]? = some process) :
    Quieter loop (loop.onCommandExit index process) := by
  have hframed : Framed loop (loop.onCommandExit index process) index { process with
      sink := fun which ↦ (process.sink which).stop
      response := some fun which ↦ (process.sink which).stop.buf
      warned := fun which ↦ (process.sink which).reading } := by
    refine ⟨?_, ?_, ?_, ?_, ?_⟩
    all_goals
      simp only [CommandLoop.onCommandExit, CommandLoop.setProcess, assert]
      split_ifs <;> rfl
  exact hframed.quieter hprocess fun which ↦ quieter_stop _

theorem quieter_delayedClose {which : Which} (hprocess : loop.processes[index]? = some process) :
    Quieter loop (loop.delayedClose index process which) := by
  have hframed : Framed loop (loop.delayedClose index process which) index
      (process.setSink which { process.sink which with added := false, fd := none }) := by
    refine ⟨?_, ?_, ?_, ?_, ?_⟩
    all_goals
      simp only [CommandLoop.delayedClose, CommandLoop.removeAndClose, CommandLoop.setProcess,
        assert]
      split_ifs <;> rfl
  exact hframed.quieter hprocess (quieter_setSink ⟨rfl, rfl, id⟩)

theorem quieter_runFunctor (hstep : loop.runFunctor = some next) : Quieter loop next := by
  unfold CommandLoop.runFunctor at hstep
  cases hfunctors : loop.functors with
  | nil =>
    rw [hfunctors] at hstep
    cases hstep
  | cons functor functors =>
    simp only [hfunctors] at hstep
    have hrunning : Quieter loop { loop with functors := functors, ran := loop.ran ++ [functor] } :=
      quieter_of_processes rfl
    cases functor with
    | onCommandExit index =>
      obtain ⟨process, hprocess, rfl⟩ := Option.map_eq_some_iff.mp hstep
      exact hrunning.trans (quieter_onCommandExit hprocess)
    | delayedClose index which =>
      obtain ⟨process, hprocess, rfl⟩ := Option.map_eq_some_iff.mp hstep
      exact hrunning.trans (quieter_delayedClose hprocess)

theorem quieter_releaseFunctor (hstep : loop.releaseFunctor = some next) : Quieter loop next := by
  unfold CommandLoop.releaseFunctor at hstep
  cases hfunctors : loop.functors with
  | cons functor functors =>
    simp only [hfunctors] at hstep
    cases hstep
  | nil =>
    cases hran : loop.ran with
    | nil =>
      simp only [hfunctors, hran] at hstep
      cases hstep
    | cons functor ran =>
      simp only [hfunctors, hran] at hstep
      obtain rfl := Option.some.inj hstep
      have hreleased : Quieter loop { loop with functors := [], ran := ran } :=
        quieter_of_processes rfl
      cases functor with
      | onCommandExit index => exact hreleased.trans (quieter_releaseProcess _ index)
      | delayedClose index which => exact hreleased.trans (quieter_releaseSink _ index which)

/-- Whatever runs on the loop but a start and `onRead` reads nothing. -/
theorem quieter_step {action : LoopAction} (hstep : commandLoopStep loop action = some next)
    (hstart : ∀ calls maxLength, action ≠ .start calls maxLength)
    (honRead : ∀ index which n, action ≠ .onRead index which n) : Quieter loop next := by
  cases action with
  | start calls maxLength => exact absurd rfl (hstart calls maxLength)
  | onRead index which n => exact absurd rfl (honRead index which n)
  | write index which bytes =>
    simp only [commandLoopStep] at hstep
    exact quieter_changePipe hstep
  | hangUp index which =>
    simp only [commandLoopStep] at hstep
    exact quieter_changePipe hstep
  | onClose index which =>
    simp only [commandLoopStep] at hstep
    exact quieter_onClose hstep
  | onExit index =>
    simp only [commandLoopStep] at hstep
    exact quieter_onExit hstep
  | onTimeout index =>
    simp only [commandLoopStep] at hstep
    split_ifs at hstep with hphase
    exact quieter_onTimeoutWeak hstep
  | doPendingFunctors =>
    simp only [commandLoopStep] at hstep
    split_ifs at hstep with hphase
    obtain rfl := Option.some.inj hstep
    exact quieter_of_processes rfl
  | runFunctor =>
    simp only [commandLoopStep] at hstep
    split_ifs at hstep with hphase
    exact quieter_runFunctor hstep
  | releaseFunctor =>
    simp only [commandLoopStep] at hstep
    split_ifs at hstep with hphase
    exact quieter_releaseFunctor hstep
  | endFunctors =>
    simp only [commandLoopStep] at hstep
    split_ifs at hstep with hphase
    obtain rfl := Option.some.inj hstep
    exact quieter_of_processes rfl

/-- The sinks of a loop have at most a read more than their limits. -/
def Within (chunk : ℕ) (loop : CommandLoop) : Prop :=
  ∀ (index : ℕ) (process : CommandProcess), loop.processes[index]? = some process →
    ∀ which, (process.sink which).Within chunk

/-- A read returns at most so many bytes, and no limit is too close to 2^31. -/
def LoopAction.Within (chunk : ℕ) : LoopAction → Prop
  | .start _ maxLength => ∀ which, (maxLength which).toInt.toNat + chunk < 2 ^ 31
  | .onRead _ _ (some bytes) => bytes ≤ chunk
  | _ => True

variable {chunk : ℕ}

instance (action : LoopAction) : Decidable (action.Within chunk) :=
  match action with
  | .start _ maxLength =>
    decidable_of_iff ((maxLength .stdout).toInt.toNat + chunk < 2 ^ 31 ∧
        (maxLength .stderr).toInt.toNat + chunk < 2 ^ 31)
      ⟨fun hboth which ↦ match which with
        | .stdout => hboth.1
        | .stderr => hboth.2, fun hall ↦ ⟨hall .stdout, hall .stderr⟩⟩
  | .onRead _ _ (some bytes) => inferInstanceAs (Decidable (bytes ≤ chunk))
  | .onRead _ _ none | .write .. | .hangUp .. | .onClose .. | .onExit _ | .onTimeout _
  | .doPendingFunctors | .runFunctor | .releaseFunctor | .endFunctors =>
    inferInstanceAs (Decidable True)

theorem Within.quieter (hwithin : loop.Within chunk) (hquieter : Quieter loop next) :
    next.Within chunk := by
  intro index process hprocess which
  obtain ⟨old, hold, hsinks⟩ := hquieter index process hprocess
  exact (hwithin index old hold which).quieter (hsinks which)

theorem Within.start (hwithin : loop.Within chunk) {calls : StartCalls}
    {maxLength : Which → BitVec 32} (hlimits : (LoopAction.start calls maxLength).Within chunk)
    (hstep : loop.start calls maxLength = some next) : next.Within chunk := by
  unfold CommandLoop.start at hstep
  cases hstart : startFds true calls loop.fds with
  | none =>
    rw [hstart] at hstep
    cases hstep
  | some result =>
    obtain ⟨fds, sinks⟩ := result
    rw [hstart] at hstep
    cases sinks with
    | none =>
      obtain rfl := Option.some.inj hstep
      exact hwithin
    | some ends =>
      obtain rfl := Option.some.inj hstep
      intro index process hprocess which
      rcases getElem?_append_singleton_eq_some hprocess with hold | ⟨-, rfl⟩
      · exact hwithin index process hold which
      · have hlimit := hlimits which
        cases which with
        | stdout => exact ⟨hlimit, Nat.zero_le _, fun _ ↦ Nat.zero_le _⟩
        | stderr => exact ⟨hlimit, Nat.zero_le _, fun _ ↦ Nat.zero_le _⟩

theorem Within.onRead (hwithin : loop.Within chunk) {which : Which} {n : Option ℕ}
    (hchunk : ∀ bytes, n = some bytes → bytes ≤ chunk) {possible : OutputPipe → Bool}
    (hstep : loop.handleEvent index which possible (fun sink ↦ sink.onRead n) = some next) :
    next.Within chunk := by
  unfold CommandLoop.handleEvent at hstep
  cases hprocess : loop.processes[index]? with
  | none =>
    rw [hprocess] at hstep
    cases hstep
  | some process =>
    simp only [hprocess] at hstep
    by_cases hevent :
        (loop.eventHandling && (process.sink which).reading && possible (process.sink which).pipe) =
          true
    · rw [if_pos hevent] at hstep
      rw [Bool.and_eq_true, Bool.and_eq_true] at hevent
      have hsink := (hwithin index process hprocess which).onRead hevent.1.2 hchunk
      have hprocesses : next.processes =
          loop.processes.set index (process.setSink which ((process.sink which).onRead n).1) := by
        obtain rfl := Option.some.inj hstep
        simp only [CommandLoop.setProcess, CommandLoop.queueInLoop, apply_ite, processes_assert,
          ite_self]
      intro position found hfound any
      rw [hprocesses] at hfound
      rcases getElem?_set_cases hfound with ⟨rfl, rfl⟩ | ⟨-, hold⟩
      · by_cases hany : any = which
        · subst hany
          rwa [CommandProcess.setSink_self]
        · rw [process.setSink_of_ne hany]
          exact hwithin position process hprocess any
      · exact hwithin position found hold any
    · rw [if_neg hevent] at hstep
      cases hstep

theorem Within.step (hwithin : loop.Within chunk) {action : LoopAction}
    (haction : action.Within chunk) (hstep : commandLoopStep loop action = some next) :
    next.Within chunk := by
  cases action with
  | start calls maxLength =>
    simp only [commandLoopStep] at hstep
    split_ifs at hstep with hphase
    exact hwithin.start haction hstep
  | onRead index which n =>
    simp only [commandLoopStep] at hstep
    refine hwithin.onRead (fun bytes hbytes ↦ ?_) hstep
    subst hbytes
    exact haction
  | _ => exact hwithin.quieter (quieter_step hstep (by simp) (by simp))

end Quieter

/-- If no read returns more than `chunk` bytes, and every limit is that far below 2^31, then no sink
ever has more than its limit and one read, and no response says more. -/
theorem buffered_le_of_run {opened : Finset ℕ} {chunk : ℕ} {actions : List LoopAction}
    {loop : CommandLoop}
    (hrun : (commandLoopSystem opened).RunWhen (fun _ action ↦ action.Within chunk) actions loop)
    {index : ℕ} {process : CommandProcess} (hprocess : loop.processes[index]? = some process)
    (which : Which) :
    (process.sink which).buf.length ≤ (process.sink which).limit + chunk ∧
      ∀ response, process.response = some response →
        (response which).length ≤ (process.sink which).limit + chunk := by
  have hwithin : loop.Within chunk := by
    refine hrun.invariant ?_ fun _ _ _ haction hstep hwithin ↦ hwithin.step haction hstep
    intro index process hprocess
    cases hprocess
  have hbuffered := (hwithin index process hprocess which).buffered
  refine ⟨hbuffered, fun response hresponse ↦ ?_⟩
  have hsink := (loopInvariant_of_run hrun.run).sinks index process hprocess which
  rw [hresponse] at hsink
  have hcaptured : response which = (process.sink which).buf := hsink.captured _ rfl
  rwa [hcaptured]

/-- Reads of at most three bytes, and a limit of four. -/
theorem buffered_le_noisyCommand : ∃ (loop : CommandLoop) (process : CommandProcess),
    (commandLoopSystem standardFds).RunWhen (fun _ action ↦ action.Within 3) noisyCommandExited
      loop ∧
    loop.processes[0]? = some process ∧ (process.sink .stdout).buf.length = 5 ∧
      (process.sink .stdout).buf.length ≤ (process.sink .stdout).limit + 3 := by
  let firstLength : CommandLoop → Option ℕ := fun loop ↦
    loop.processes[0]?.map fun process ↦ (process.sink .stdout).buf.length
  have hexecutes : ((commandLoopSystem standardFds).executeWhen
      (fun _ action ↦ action.Within 3) (commandLoopSystem standardFds).start
        noisyCommandExited).map firstLength = some (some 5) := by
    decide +kernel
  obtain ⟨loop, hexecute, hlength⟩ := Option.map_eq_some_iff.mp hexecutes
  obtain ⟨process, hprocess, hfive⟩ := Option.map_eq_some_iff.mp hlength
  have hrun := TransitionSystem.RunWhen.extend .start (fun _ _ hwithin ↦ hwithin) hexecute
  rw [List.nil_append] at hrun
  exact ⟨loop, process, hrun, hprocess, hfive, (buffered_le_of_run hrun hprocess .stdout).1⟩

end CommandLoop

end MuduoProtorpc.Zurg
