import MuduoProtorpc.Zurg.CommandRuns

/-!
# What a slave guarantees about its commands

A functor that has run is released, and with it, perhaps, the last pointer to a sink or to a
process. `LoopInvariant` survives that, and so holds after every run. Two things follow: no
descriptor is closed twice or forgotten, and no sink is used after it was destroyed
(`descriptors_accounted`); and a response says what the command has written, all of it unless a
limit or a warning in the log says otherwise (`output_faithful`).
-/

set_option autoImplicit false
set_option relaxedAutoImplicit false

namespace MuduoProtorpc.Zurg

open Foundation

namespace CommandLoop

section Releases

variable {opened : Finset ℕ} {loop next : CommandLoop} {index : ℕ} {process : CommandProcess}

/-! ### What is released -/

theorem refers_iff {functor : LoopFunctor} :
    loop.refers functor = true ↔ 0 < loop.waiting functor ∨ 0 < loop.ran.count functor := by
  simp only [refers, waiting, List.contains_iff_mem, List.count_pos_iff, List.mem_append]
  tauto

/-- A sink that is destroyed, when its assertions hold: whether it was closed or not. -/
theorem destroySink_eq {which : Which} (hphase : loop.eventHandling = false)
    (hnot : (process.sink which).destroyed = false)
    (hreading : (process.sink which).reading = false)
    (hadded : (process.sink which).added = (process.sink which).fd.isSome) :
    loop.destroySink index process which =
      { loop with fds :=
          if (process.sink which).fd.isSome then loop.fds.close (process.sink which).fd
          else loop.fds }.setProcess index
        (process.setSink which { process.sink which with
          added := (process.sink which).added && (process.sink which).fd.isNone
          destroyed := true }) := by
  cases hfd : (process.sink which).fd with
  | none => simp [destroySink, assert, hnot, hphase, hfd, CommandLoop.setProcess]
  | some fd =>
    rw [hfd] at hadded
    simp [destroySink, removeAndClose, assert, hnot, hphase, hfd, hreading, hadded]

/-- What holds of the sinks of a loop, but for one that loses a reference. -/
structure SinksButOne (opened : Finset ℕ) (loop : CommandLoop) (index : ℕ) (which : Which) :
    Prop where
  asserted : loop.failed = []
  fds : ({ opened := opened, badCloses := 0 } : FdTable).Extended loop.fds
    (loop.processes.flatMap held)
  others : ∀ position process, loop.processes[position]? = some process → ∀ any,
    position ≠ index ∨ any ≠ which →
      SinkInvariant (process.sink any) (process.holds any) (process.warned any)
        (process.response.map fun output ↦ output any)
          (loop.waiting (.delayedClose position any))
            (loop.ran.count (.delayedClose position any))

/-- All is well with that one too. -/
theorem SinksButOne.complete {which : Which} (hbut : SinksButOne opened loop index which)
    (hprocess : loop.processes[index]? = some process)
    (hsink : SinkInvariant (process.sink which) (process.holds which) (process.warned which)
      (process.response.map fun output ↦ output which)
        (loop.waiting (.delayedClose index which)) (loop.ran.count (.delayedClose index which))) :
    SinksInvariant opened loop where
  asserted := hbut.asserted
  fds := hbut.fds
  sinks := by
    intro position found hfound any
    by_cases hsame : position = index ∧ any = which
    · obtain ⟨rfl, rfl⟩ := hsame
      obtain rfl := Option.some.inj (hprocess.symm.trans hfound)
      exact hsink
    · exact hbut.others position found hfound any (by tauto)

/-- That one is destroyed. -/
theorem SinksButOne.destroySink {which : Which} (hbut : SinksButOne opened loop index which)
    (hprocess : loop.processes[index]? = some process) (hphase : loop.eventHandling = false)
    (hnot : (process.sink which).destroyed = false)
    (hreading : (process.sink which).reading = false)
    (hadded : (process.sink which).added = (process.sink which).fd.isSome)
    (hsink : SinkInvariant { process.sink which with
        added := (process.sink which).added && (process.sink which).fd.isNone
        destroyed := true } (process.holds which) (process.warned which)
      (process.response.map fun output ↦ output which)
        (loop.waiting (.delayedClose index which)) (loop.ran.count (.delayedClose index which))) :
    SinksInvariant opened (loop.destroySink index process which) := by
  rw [destroySink_eq hphase hnot hreading hadded]
  have hfds : ({ opened := opened, badCloses := 0 } : FdTable).Extended
      (if (process.sink which).fd.isSome then loop.fds.close (process.sink which).fd else loop.fds)
        ((loop.processes.set index (process.setSink which { process.sink which with
          added := (process.sink which).added && (process.sink which).fd.isNone
          destroyed := true })).flatMap held) := by
    have hothers : ∀ (sink : Sink) (any : Which), any ≠ which →
        ((process.setSink which sink).sink any).descriptor = (process.sink any).descriptor := by
      intro sink any hany
      rw [process.setSink_of_ne hany]
    cases hfd : (process.sink which).fd with
    | none =>
      refine extended_set hbut.fds hprocess (descriptor_setSink ?_)
      simp [Sink.descriptor, hfd]
    | some fd =>
      refine extended_close hbut.fds hprocess (descriptor_of_fd hnot hfd) ?_ (hothers _)
      rw [CommandProcess.setSink_self]
      rfl
  exact {
    asserted := hbut.asserted
    fds := hfds
    sinks := by
      intro position found hfound any
      rcases getElem?_set_cases hfound with ⟨rfl, rfl⟩ | ⟨hposition, hold⟩
      · by_cases hany : any = which
        · subst hany
          rw [CommandProcess.setSink_self]
          exact hsink
        · rw [process.setSink_of_ne hany]
          exact hbut.others position process hprocess any (Or.inr hany)
      · exact hbut.others position found hold any (Or.inl hposition) }

/-- A reference to that one is released. It had references before. -/
theorem SinksButOne.releaseSink {which : Which} {holds : Bool} {ran : ℕ}
    (hbut : SinksButOne opened loop index which)
    (hprocess : loop.processes[index]? = some process) (hphase : loop.eventHandling = false)
    (hsink : SinkInvariant (process.sink which) holds (process.warned which)
      (process.response.map fun output ↦ output which)
        (loop.waiting (.delayedClose index which)) ran)
    (hran : loop.ran.count (.delayedClose index which) ≤ ran)
    (hholds : process.holds which = true → holds = true)
    (hreading : (process.sink which).reading = true → process.holds which = true)
    (hreferred : holds = true ∨ 0 < loop.waiting (.delayedClose index which) ∨ 0 < ran) :
    SinksInvariant opened (loop.releaseSink index which) := by
  unfold CommandLoop.releaseSink
  simp only [hprocess]
  by_cases hrefers :
      (process.holds which || loop.refers (.delayedClose index which)) = true
  · rw [if_pos hrefers]
    rw [Bool.or_eq_true, refers_iff] at hrefers
    exact hbut.complete hprocess (hsink.release hran hholds hreading hrefers)
  · rw [if_neg hrefers]
    rw [Bool.or_eq_true, refers_iff, not_or, not_or, Bool.not_eq_true, Nat.not_lt,
      Nat.not_lt, Nat.le_zero, Nat.le_zero] at hrefers
    obtain ⟨hreleased, hwaiting, hcount⟩ := hrefers
    have hnot := hsink.not_destroyed hreferred
    have hquiet : (process.sink which).reading = false := by
      cases htrue : (process.sink which).reading with
      | false => rfl
      | true => exact absurd (hreading htrue) (by rw [hreleased]; decide)
    have hadded : (process.sink which).added = (process.sink which).fd.isSome := by
      rw [hsink.added, hnot, Bool.not_false, Bool.and_true]
    rw [hwaiting] at hsink
    refine hbut.destroySink hprocess hphase hnot hquiet hadded ?_
    rw [hreleased, hwaiting, hcount]
    exact hsink.destroy hquiet

/-- What a release leaves: the queues, and all but one of the processes. -/
structure Framed (loop next : CommandLoop) (index : ℕ) (other : CommandProcess) : Prop where
  processes : next.processes = loop.processes.set index other
  functors : next.functors = loop.functors
  pendingFunctors : next.pendingFunctors = loop.pendingFunctors
  ran : next.ran = loop.ran
  eventHandling : next.eventHandling = loop.eventHandling

theorem framed_releaseSink (hprocess : loop.processes[index]? = some process) (which : Which) :
    ∃ sink, Framed loop (loop.releaseSink index which) index (process.setSink which sink) ∧
      (process.sink which).Quieter sink := by
  unfold CommandLoop.releaseSink
  simp only [hprocess]
  split_ifs with hrefers
  · refine ⟨process.sink which, ⟨?_, rfl, rfl, rfl, rfl⟩, .refl _⟩
    obtain ⟨hlt, rfl⟩ := List.getElem?_eq_some_iff.mp hprocess
    rw [CommandProcess.setSink, Function.update_eq_self, List.set_getElem_self]
  · refine ⟨{ process.sink which with
      added := (process.sink which).added && (process.sink which).fd.isNone
      destroyed := true }, ⟨?_, ?_, ?_, ?_, ?_⟩, ⟨rfl, rfl, id⟩⟩
    all_goals
      simp only [CommandLoop.destroySink, CommandLoop.removeAndClose, assert,
        CommandLoop.setProcess]
      split_ifs <;> rfl

theorem framed_setProcess (loop : CommandLoop) (index : ℕ) (other : CommandProcess) :
    Framed loop (loop.setProcess index other) index other :=
  ⟨rfl, rfl, rfl, rfl, rfl⟩

theorem Framed.trans {framed : CommandLoop} {other last : CommandProcess}
    (hfirst : Framed loop next index other) (hsecond : Framed next framed index last) :
    Framed loop framed index last where
  processes := by rw [hsecond.processes, hfirst.processes, List.set_set]
  functors := hsecond.functors.trans hfirst.functors
  pendingFunctors := hsecond.pendingFunctors.trans hfirst.pendingFunctors
  ran := hsecond.ran.trans hfirst.ran
  eventHandling := hsecond.eventHandling.trans hfirst.eventHandling

theorem Framed.getElem?_eq {other : CommandProcess} (hframed : Framed loop next index other)
    (hprocess : loop.processes[index]? = some process) : next.processes[index]? = some other := by
  have hlt := (List.getElem?_eq_some_iff.mp hprocess).1
  rw [hframed.processes, List.getElem?_set_self hlt]

/-- A process that has given its response is destroyed, and releases one of its sinks. -/
theorem SinksInvariant.dropSink (hinvariant : SinksInvariant opened loop) {which : Which}
    (hprocess : loop.processes[index]? = some process) (hphase : loop.eventHandling = false)
    (hresponse : process.response ≠ none) (hholds : process.holds which = true) :
    SinksInvariant opened (loop.dropSink index which) := by
  have hsink := hinvariant.sinks index process hprocess which
  have hquiet : (process.sink which).reading = false := by
    cases htrue : (process.sink which).reading with
    | false => rfl
    | true =>
      have hnone := (hsink.reading htrue).2.2.2.2
      exact absurd (Option.map_eq_none_iff.mp hnone) hresponse
  rw [hholds] at hsink
  have hreleased : Function.update process.holds which false which = false :=
    Function.update_self which false process.holds
  unfold CommandLoop.dropSink
  simp only [hprocess]
  refine SinksButOne.releaseSink ?_ ((framed_setProcess loop index _).getElem?_eq hprocess) hphase
    hsink le_rfl (fun _ ↦ rfl) ?_ (Or.inl rfl)
  · exact {
      asserted := hinvariant.asserted
      fds := extended_set hinvariant.fds hprocess fun _ ↦ rfl
      others := by
        intro position found hfound any hother
        rcases getElem?_set_cases hfound with ⟨rfl, rfl⟩ | ⟨-, hold⟩
        · have hany : any ≠ which := by tauto
          have hsame : Function.update process.holds which false any = process.holds any :=
            Function.update_of_ne hany false process.holds
          show SinkInvariant _ (Function.update process.holds which false any) _ _ _ _
          rw [hsame]
          exact hinvariant.sinks position process hprocess any
        · exact hinvariant.sinks position found hold any }
  · intro htrue
    rw [show (process.sink which).reading = true from htrue] at hquiet
    cases hquiet

/-- What is left of a process that releases a sink. -/
structure Dropped (process other : CommandProcess) (which : Which) : Prop where
  callback : other.callback = process.callback
  alive : other.alive = process.alive
  response : other.response = process.response
  holds : other.holds = Function.update process.holds which false
  sinks : ∀ any, (process.sink any).Quieter (other.sink any)

theorem framed_dropSink (hprocess : loop.processes[index]? = some process) (which : Which) :
    ∃ other, Framed loop (loop.dropSink index which) index other ∧ Dropped process other which := by
  unfold CommandLoop.dropSink
  simp only [hprocess]
  have hfirst := framed_setProcess loop index
    { process with holds := Function.update process.holds which false }
  obtain ⟨sink, hframed, hquieter⟩ := framed_releaseSink (hfirst.getElem?_eq hprocess) which
  exact ⟨_, hfirst.trans hframed, rfl, rfl, rfl, rfl, quieter_setSink hquieter⟩

/-- A sink, or a process, of which a functor was released, is still referred to, or is not. -/
structure ReleaseOf (loop next : CommandLoop) (functor : LoopFunctor) : Prop where
  processes : next.processes = loop.processes
  failed : next.failed = loop.failed
  fds : next.fds = loop.fds
  waiting : ∀ any, next.waiting any = loop.waiting any
  ran : ∀ any, loop.ran.count any = next.ran.count any + if functor = any then 1 else 0
  functors : next.functors = []
  subset : ∀ any ∈ next.queue, any ∈ loop.queue

theorem releaseOf_of_ran {functor : LoopFunctor} {ran : List LoopFunctor}
    (hfunctors : loop.functors = []) (hran : loop.ran = functor :: ran) :
    ReleaseOf loop { loop with ran := ran } functor where
  processes := rfl
  failed := rfl
  fds := rfl
  waiting := fun _ ↦ rfl
  ran := by
    intro any
    rw [hran, List.count_cons]
    simp
  functors := hfunctors
  subset := by
    intro any hany
    simp only [queue, hran, List.mem_append, List.mem_cons] at hany ⊢
    tauto

theorem ReleaseOf.queuesOf {functor : LoopFunctor} (hrelease : ReleaseOf loop next functor)
    (hindex : functor.index = index) : QueuesOf loop next index where
  waiting := fun any _ ↦ hrelease.waiting any
  ran := by
    intro any hany
    have hcount := hrelease.ran any
    rw [if_neg, Nat.add_zero] at hcount
    · exact hcount.symm
    · rintro rfl
      exact hany hindex

theorem Framed.queuesOf {framed : CommandLoop} {other : CommandProcess}
    (hframed : Framed next framed index other) (hqueues : QueuesOf loop next index) :
    QueuesOf loop framed index where
  waiting := by
    intro any hany
    rw [← hqueues.waiting any hany, CommandLoop.waiting, hframed.functors,
      hframed.pendingFunctors, CommandLoop.waiting]
  ran := by
    intro any hany
    rw [hframed.ran, hqueues.ran any hany]

theorem Framed.queue {framed : CommandLoop} {other : CommandProcess}
    (hframed : Framed next framed index other) : framed.queue = next.queue := by
  simp only [CommandLoop.queue, hframed.functors, hframed.pendingFunctors, hframed.ran]

theorem Framed.waiting {framed : CommandLoop} {other : CommandProcess}
    (hframed : Framed next framed index other) (functor : LoopFunctor) :
    framed.waiting functor = next.waiting functor := by
  simp only [CommandLoop.waiting, hframed.functors, hframed.pendingFunctors]

/-- `delayedClose`, when it has run, releases the sink. -/
theorem LoopInvariant.release_delayedClose (hinvariant : LoopInvariant opened loop) {which : Which}
    (hrelease : ReleaseOf loop next (.delayedClose index which))
    (hphase : next.eventHandling = false) :
    LoopInvariant opened (next.releaseSink index which) := by
  have hran := hrelease.ran (.delayedClose index which)
  rw [if_pos rfl] at hran
  have hmem : LoopFunctor.delayedClose index which ∈ loop.queue := by
    refine List.mem_append_right _ (List.count_pos_iff.mp ?_)
    omega
  have hlt : index < loop.processes.length := hinvariant.inRange _ hmem
  have hget : loop.processes[index]? = some loop.processes[index] :=
    List.getElem?_eq_getElem hlt
  set process := loop.processes[index] with hprocess
  have hnext : next.processes[index]? = some process := by rw [hrelease.processes, hget]
  have hsink := hinvariant.sinks index process hget which
  rw [← hrelease.waiting] at hsink
  have hbut : SinksButOne opened next index which := by
    exact {
      asserted := hrelease.failed.trans hinvariant.asserted
      fds := by
        rw [hrelease.fds, hrelease.processes]
        exact hinvariant.fds
      others := by
        intro position found hfound any hother
        rw [hrelease.processes] at hfound
        have hcount := hrelease.ran (.delayedClose position any)
        rw [if_neg, Nat.add_zero] at hcount
        · rw [hrelease.waiting, ← hcount]
          exact hinvariant.sinks position found hfound any
        · rintro ⟨⟩
          rcases hother with hposition | hany
          · exact hposition rfl
          · exact hany rfl }
  have hsinks := hbut.releaseSink hnext hphase hsink (by omega) id
    (fun htrue ↦ (hsink.reading htrue).2.2.2.1) (Or.inr (Or.inr (by omega)))
  obtain ⟨sink, hframed, -⟩ := framed_releaseSink hnext which
  have hqueues := hframed.queuesOf (hrelease.queuesOf rfl)
  refine hinvariant.set hlt (hframed.processes.trans (by rw [hrelease.processes])) hsinks hqueues
    ?_ ?_ ?_
  · have hexit := hrelease.ran (.onCommandExit index)
    rw [if_neg (by simp), Nat.add_zero] at hexit
    rw [hframed.waiting, hframed.ran, hrelease.waiting, ← hexit]
    exact (hinvariant.processes index process hget).setSink _ _
  · intro functor hfunctor
    rw [hframed.queue] at hfunctor
    exact Or.inl (hrelease.subset functor hfunctor)
  · intro hevent
    rw [hframed.eventHandling, hphase] at hevent
    cases hevent

/-- A process that nothing refers to any more is destroyed. -/
theorem releaseProcess_eq (hprocess : loop.processes[index]? = some process)
    (hphase : loop.eventHandling = false) (hcallback : process.callback = false)
    (hrefers : loop.refers (.onCommandExit index) = false) :
    loop.releaseProcess index = ((loop.setProcess index { process with alive := false }).dropSink
      index .stderr).dropSink index .stdout := by
  simp [CommandLoop.releaseProcess, hprocess, hcallback, hrefers, assert, hphase]

/-- `onCommandExit`, when it has run, releases the process, which releases its sinks. -/
theorem LoopInvariant.release_onCommandExit (hinvariant : LoopInvariant opened loop)
    (hrelease : ReleaseOf loop next (.onCommandExit index))
    (hphase : next.eventHandling = false) :
    LoopInvariant opened (next.releaseProcess index) := by
  have hran := hrelease.ran (.onCommandExit index)
  rw [if_pos rfl] at hran
  have hmem : LoopFunctor.onCommandExit index ∈ loop.queue := by
    refine List.mem_append_right _ (List.count_pos_iff.mp ?_)
    omega
  have hlt : index < loop.processes.length := hinvariant.inRange _ hmem
  have hget : loop.processes[index]? = some loop.processes[index] :=
    List.getElem?_eq_getElem hlt
  set process := loop.processes[index] with hprocess
  have hnext : next.processes[index]? = some process := by rw [hrelease.processes, hget]
  have hold := hinvariant.processes index process hget
  have honce := hold.once
  have hwaiting : next.waiting (.onCommandExit index) = 0 := by
    rw [hrelease.waiting]
    omega
  have hcount : next.ran.count (.onCommandExit index) = 0 := by omega
  have hcallback : process.callback = false := by
    cases hcallback : process.callback with
    | false => rfl
    | true =>
      have hnone := (hold.callback hcallback).2
      omega
  have hresponse : process.response ≠ none := by
    intro hnone
    rcases hold.response.mp hnone with htrue | hpositive
    · rw [hcallback] at htrue
      cases htrue
    · omega
  have halive : process.alive = true := hold.alive.mpr (Or.inr (by omega))
  have hrefers : next.refers (.onCommandExit index) = false := by
    rw [← Bool.not_eq_true, refers_iff]
    omega
  rw [releaseProcess_eq hnext hphase hcallback hrefers]
  have hkilled := framed_setProcess next index { process with alive := false }
  have hfirst : SinksInvariant opened (next.setProcess index { process with alive := false }) := by
    refine hinvariant.toSinksInvariant.set (processes_setProcess hrelease.processes index _)
      (hrelease.failed.trans hinvariant.asserted) ?_ (hkilled.queuesOf (hrelease.queuesOf rfl))
        fun which ↦ ?_
    · rw [processes_setProcess hrelease.processes]
      show FdTable.Extended _ next.fds _
      rw [hrelease.fds]
      exact extended_set hinvariant.fds hget fun _ ↦ rfl
    · have hsame := hrelease.ran (.delayedClose index which)
      rw [if_neg (by simp), Nat.add_zero] at hsame
      show SinkInvariant _ _ _ _ (next.waiting _) (next.ran.count _)
      rw [hrelease.waiting, ← hsame]
      exact hinvariant.sinks index process hget which
  have hfirstGet := hkilled.getElem?_eq hnext
  have hsecond := hfirst.dropSink hfirstGet hphase hresponse ((hold.holds .stderr).trans halive)
  obtain ⟨middle, hmiddle, hmiddleDropped⟩ := framed_dropSink hfirstGet .stderr
  have hmiddleGet := hmiddle.getElem?_eq hfirstGet
  have hstdout : middle.holds .stdout = true := by
    rw [hmiddleDropped.holds, Function.update_of_ne (by decide)]
    exact (hold.holds .stdout).trans halive
  have hthird := hsecond.dropSink hmiddleGet (hmiddle.eventHandling.trans hphase)
    (by rwa [hmiddleDropped.response]) hstdout
  obtain ⟨last, hlast, hlastDropped⟩ := framed_dropSink hmiddleGet .stdout
  have hframed := (hkilled.trans hmiddle).trans hlast
  refine hinvariant.set hlt (hframed.processes.trans (by rw [hrelease.processes])) hthird
    (hframed.queuesOf (hrelease.queuesOf rfl)) ?_ ?_ ?_
  · rw [hframed.waiting, hframed.ran, hwaiting, hcount]
    have hgone : last.callback = false :=
      (hlastDropped.callback.trans hmiddleDropped.callback).trans hcallback
    have hdead : last.alive = false := hlastDropped.alive.trans hmiddleDropped.alive
    have hanswered : last.response ≠ none := by
      rwa [hlastDropped.response, hmiddleDropped.response]
    exact {
      once := Nat.zero_le 1
      callback := fun _ ↦ ⟨rfl, rfl⟩
      alive := by simp [hgone, hdead]
      response := by simp [hgone, hanswered]
      holds := by
        intro which
        rw [hdead, hlastDropped.holds, hmiddleDropped.holds]
        cases which <;> rfl }
  · intro functor hfunctor
    rw [hframed.queue] at hfunctor
    exact Or.inl (hrelease.subset functor hfunctor)
  · intro hevent
    rw [hframed.eventHandling, hphase] at hevent
    cases hevent

/-- A functor that has run is released. -/
theorem LoopInvariant.releaseFunctor (hinvariant : LoopInvariant opened loop)
    (hphase : loop.eventHandling = false) (hstep : loop.releaseFunctor = some next) :
    LoopInvariant opened next := by
  unfold CommandLoop.releaseFunctor at hstep
  cases hfunctors : loop.functors with
  | cons functor functors =>
    simp only [hfunctors] at hstep
    cases hstep
  | nil =>
    cases hran : loop.ran with
    | nil =>
      simp only [hfunctors, hran] at hstep
      cases hstep
    | cons functor ran =>
      simp only [hfunctors, hran] at hstep
      obtain rfl := Option.some.inj hstep
      have hrelease := releaseOf_of_ran hfunctors hran
      simp only [hfunctors] at hrelease
      cases functor with
      | onCommandExit index => exact hinvariant.release_onCommandExit hrelease hphase
      | delayedClose index which => exact hinvariant.release_delayedClose hrelease hphase

/-- The pointer that a timer has locked is not the last one. -/
theorem LoopInvariant.onTimeoutWeak (hinvariant : LoopInvariant opened loop)
    (hstep : loop.onTimeoutWeak index = some next) : next = loop := by
  unfold CommandLoop.onTimeoutWeak at hstep
  cases hprocess : loop.processes[index]? with
  | none =>
    rw [hprocess] at hstep
    cases hstep
  | some process =>
    simp only [hprocess, Option.some.injEq] at hstep
    split_ifs at hstep with halive
    · have hold := hinvariant.processes index process hprocess
      have hreferred : (process.callback || loop.refers (.onCommandExit index)) = true := by
        rw [Bool.or_eq_true, refers_iff]
        rcases hold.alive.mp halive with hcallback | hpositive
        · exact Or.inl hcallback
        · exact Or.inr (by omega)
      rw [← hstep, CommandLoop.releaseProcess]
      simp only [hprocess, if_pos hreferred]
    · exact hstep.symm

/-- A step keeps the invariant. -/
theorem LoopInvariant.step (hinvariant : LoopInvariant opened loop) {action : LoopAction}
    (hstep : commandLoopStep loop action = some next) : LoopInvariant opened next := by
  cases action with
  | start calls maxLength =>
    simp only [commandLoopStep] at hstep
    split_ifs at hstep with hphase
    exact hinvariant.start hstep
  | write index which bytes =>
    simp only [commandLoopStep] at hstep
    exact hinvariant.changePipe (fun pipe ↦ ⟨bytes, rfl, rfl⟩) hstep
  | hangUp index which =>
    simp only [commandLoopStep] at hstep
    exact hinvariant.changePipe (fun pipe ↦ ⟨[], by simp, by simp⟩) hstep
  | onRead index which n =>
    simp only [commandLoopStep] at hstep
    refine hinvariant.handleEvent (fun hsink hreading hreadable ↦ ?_) hstep
    refine ⟨hsink.onRead hreading hreadable, ?_⟩
    obtain ⟨reading, hnext, -⟩ := onRead_cases _ n
    obtain ⟨hfd, -, hdestroyed, -⟩ := readFd_frame _ n
    rw [hnext, Sink.descriptor, Sink.descriptor, hfd, hdestroyed]
  | onClose index which =>
    simp only [commandLoopStep] at hstep
    refine hinvariant.handleEvent (fun hsink hreading hpossible ↦ ?_) hstep
    rw [Bool.and_eq_true, List.isEmpty_iff] at hpossible
    exact ⟨hsink.onClose hreading hpossible.1 hpossible.2, rfl⟩
  | onExit index => exact hinvariant.onExit hstep
  | onTimeout index =>
    simp only [commandLoopStep] at hstep
    split_ifs at hstep with hphase
    rwa [hinvariant.onTimeoutWeak hstep]
  | doPendingFunctors =>
    simp only [commandLoopStep] at hstep
    split_ifs at hstep with hphase
    obtain rfl := Option.some.inj hstep
    exact hinvariant.doPendingFunctors hphase
  | runFunctor =>
    simp only [commandLoopStep] at hstep
    split_ifs at hstep with hphase
    exact hinvariant.runFunctor (by simpa using hphase) hstep
  | releaseFunctor =>
    simp only [commandLoopStep] at hstep
    split_ifs at hstep with hphase
    exact hinvariant.releaseFunctor (by simpa using hphase) hstep
  | endFunctors =>
    simp only [commandLoopStep] at hstep
    split_ifs at hstep with hphase
    obtain rfl := Option.some.inj hstep
    rw [Bool.and_eq_true, Bool.and_eq_true, List.isEmpty_iff, List.isEmpty_iff] at hphase
    exact {
      asserted := hinvariant.asserted
      fds := hinvariant.fds
      sinks := hinvariant.sinks
      processes := hinvariant.processes
      inRange := hinvariant.inRange
      idle := fun _ ↦ ⟨hphase.1.2, hphase.2⟩ }

end Releases

/-! ### Whole runs -/

variable {opened : Finset ℕ} {actions : List LoopAction} {loop : CommandLoop}

theorem loopInvariant_start (opened : Finset ℕ) :
    LoopInvariant opened (commandLoopSystem opened).start where
  asserted := rfl
  fds := .refl _
  sinks := by
    intro index process hprocess
    cases hprocess
  processes := by
    intro index process hprocess
    cases hprocess
  inRange := by
    intro functor hfunctor
    cases hfunctor
  idle := fun _ ↦ ⟨rfl, rfl⟩

theorem loopInvariant_of_run (hrun : (commandLoopSystem opened).Run actions loop) :
    LoopInvariant opened loop :=
  hrun.invariant (loopInvariant_start opened) fun _ _ _ _ hstep hinvariant ↦ hinvariant.step hstep

/-- What is left open of the commands of a loop. -/
structure DescriptorsAccounted (opened : Finset ℕ) (loop : CommandLoop) : Prop where
  asserted : loop.failed = []
  noBadClose : loop.fds.badCloses = 0
  table : loop.fds.opened = opened ∪ (loop.processes.flatMap held).toFinset
  distinct : (loop.processes.flatMap held).Nodup
  untouched : ∀ fd ∈ loop.processes.flatMap held, fd ∉ opened
  alive : ∀ index process, loop.processes[index]? = some process →
    process.alive = (process.callback || loop.refers (.onCommandExit index))
  destroyed : ∀ index process, loop.processes[index]? = some process → ∀ which,
    (process.sink which).destroyed =
      !(process.alive || loop.refers (.delayedClose index which))
  idle : loop.eventHandling = true → loop.pendingFunctors = [] →
    (∀ process ∈ loop.processes, process.callback = false) → loop.fds.opened = opened

/-- However the events of the commands and the functors of the loop are mixed: no assertion fails,
nothing is used after it was destroyed, and the open descriptors are those of the slave and of the
sinks that are still referred to. When all commands were waited for and the queues are empty, they
are what they were at the start. -/
theorem descriptors_accounted (hrun : (commandLoopSystem opened).Run actions loop) :
    DescriptorsAccounted opened loop := by
  have hinvariant := loopInvariant_of_run hrun
  have halive : ∀ index process, loop.processes[index]? = some process →
      process.alive = (process.callback || loop.refers (.onCommandExit index)) := by
    intro index process hprocess
    have hold := hinvariant.processes index process hprocess
    rw [Bool.eq_iff_iff, hold.alive, Bool.or_eq_true, refers_iff]
    have hsum : 0 < loop.waiting (.onCommandExit index) + loop.ran.count (.onCommandExit index) ↔
        0 < loop.waiting (.onCommandExit index) ∨ 0 < loop.ran.count (.onCommandExit index) := by
      omega
    rw [hsum]
  have hdestroyed : ∀ index process, loop.processes[index]? = some process → ∀ which,
      (process.sink which).destroyed =
        !(process.alive || loop.refers (.delayedClose index which)) := by
    intro index process hprocess which
    have hsink := hinvariant.sinks index process hprocess which
    have hholds := (hinvariant.processes index process hprocess).holds which
    rw [Bool.eq_iff_iff, hsink.destroyed, hholds, Bool.not_eq_true', Bool.or_eq_false_iff,
      ← Bool.not_eq_true (loop.refers _), refers_iff]
    constructor
    · rintro ⟨hdead, hqueued, hran⟩
      exact ⟨hdead, by omega⟩
    · rintro ⟨hdead, hnone⟩
      exact ⟨hdead, by omega, by omega⟩
  exact {
    asserted := hinvariant.asserted
    noBadClose := hinvariant.fds.noBadClose
    table := hinvariant.fds.opened
    distinct := hinvariant.fds.nodup
    untouched := hinvariant.fds.fresh
    alive := halive
    destroyed := hdestroyed
    idle := by
      intro hphase hpending hcallbacks
      obtain ⟨hfunctors, hran⟩ := hinvariant.idle hphase
      have hrefers : ∀ functor, loop.refers functor = false := by
        intro functor
        simp [refers, hfunctors, hpending, hran]
      have hheld : loop.processes.flatMap held = [] := by
        rw [List.flatMap_eq_nil_iff]
        intro process hmem
        obtain ⟨index, hprocess⟩ := List.mem_iff_getElem?.mp hmem
        have hgone : ∀ which, (process.sink which).destroyed = true := by
          intro which
          rw [hdestroyed index process hprocess which, halive index process hprocess,
            hcallbacks process hmem, hrefers, hrefers]
          rfl
        simp [held, Sink.descriptor, hgone]
      rw [hinvariant.fds.opened, hheld, List.toFinset_nil, Finset.union_empty] }

/-- What a response says that a command has written to one of its pipes. -/
structure OutputFaithful (sink : Sink) (warned : Bool) (output : List UInt8) : Prop where
  buffered : output = sink.buf
  writtenFirst : output <+: sink.pipe.written
  complete : warned = false → sink.exceeds = false →
    output = sink.pipe.written ∧ sink.pipe.hungUp = true

/-- What a response says is the beginning of what the command has written, and what the sink has
kept. It is all of it, with no writer left, if the sink was within its limit, and `stop` has not
warned that the command ended before its pipe. -/
theorem output_faithful (hrun : (commandLoopSystem opened).Run actions loop) {index : ℕ}
    {process : CommandProcess} (hprocess : loop.processes[index]? = some process)
    {response : Which → List UInt8} (hresponse : process.response = some response)
    (which : Which) :
    OutputFaithful (process.sink which) (process.warned which) (response which) := by
  have hsink := (loopInvariant_of_run hrun).sinks index process hprocess which
  rw [hresponse] at hsink
  have hbuffered : response which = (process.sink which).buf := hsink.captured _ rfl
  have hquiet : (process.sink which).reading = false := by
    cases htrue : (process.sink which).reading with
    | false => rfl
    | true =>
      have hnone := (hsink.reading htrue).2.2.2.2
      cases hnone
  exact {
    buffered := hbuffered
    writtenFirst := ⟨(process.sink which).pipe.unread, by rw [hbuffered, hsink.content]⟩
    complete := by
      intro hunwarned hwithin
      rcases hsink.quiet hquiet with hwarned | hexceeds | ⟨hunread, hhungUp⟩
      · rw [hunwarned] at hwarned
        cases hwarned
      · rw [hwithin] at hexceeds
        cases hexceeds
      · have hcontent := hsink.content
        rw [hunread, List.append_nil] at hcontent
        exact ⟨hbuffered.trans hcontent, hhungUp⟩ }

/-! ### A command -/

/-- A command that writes more than it may to one pipe, and a little to the other. -/
def noisyCommand : List LoopAction :=
  [.start ⟨true, some (3, 4), some (5, 6), some (7, 8), true, .eof, some 9, some 10⟩
      (fun | .stdout => 4 | .stderr => 100),
    .write 0 .stdout [104, 101], .onRead 0 .stdout (some 2), .write 0 .stderr [33],
    .onRead 0 .stderr (some 1), .write 0 .stdout [108, 108, 111], .onTimeout 0,
    .onRead 0 .stdout (some 3), .hangUp 0 .stderr, .onClose 0 .stderr, .onExit 0]

/-- What the loop does when it has ended. -/
def noisyCommandExited : List LoopAction :=
  noisyCommand ++ [.doPendingFunctors, .runFunctor, .runFunctor, .releaseFunctor, .releaseFunctor,
    .endFunctors]

/-- The standard files of a process. -/
def standardFds : Finset ℕ :=
  {0, 1, 2}

/-- The output of a loop's first command, if it was given. -/
def firstOutput (loop : CommandLoop) (which : Which) : Option (List UInt8) :=
  (loop.processes[0]?).bind fun process ↦ process.response.map fun response ↦ response which

theorem exists_execute_noisyCommandExited : ∃ loop,
    (commandLoopSystem standardFds).execute (commandLoopSystem standardFds).start
      noisyCommandExited = some loop ∧
        (loop.fds.opened, loop.firstOutput .stdout, loop.firstOutput .stderr) =
          (standardFds, some [104, 101, 108, 108, 111], some [33]) := by
  have hexecutes : ((commandLoopSystem standardFds).execute (commandLoopSystem standardFds).start
      noisyCommandExited).map (fun loop ↦
        (loop.fds.opened, loop.firstOutput .stdout, loop.firstOutput .stderr)) =
          some (standardFds, some [104, 101, 108, 108, 111], some [33]) := by
    decide +kernel
  exact Option.map_eq_some_iff.mp hexecutes

/-- When the command is gone, so are its descriptors. -/
theorem descriptors_accounted_noisyCommand : ∃ loop : CommandLoop,
    (commandLoopSystem standardFds).Run noisyCommandExited loop ∧
    loop.fds.opened = standardFds ∧ DescriptorsAccounted standardFds loop := by
  obtain ⟨loop, hexecute, hlast⟩ := exists_execute_noisyCommandExited
  have hrun := TransitionSystem.Run.of_execute hexecute
  exact ⟨loop, hrun, (Prod.mk.inj hlast).1, descriptors_accounted hrun⟩

/-- All that the command has written is in the response, also where it was too much. -/
theorem output_faithful_noisyCommand :
    ∃ (loop : CommandLoop) (process : CommandProcess) (response : Which → List UInt8),
      (commandLoopSystem standardFds).Run noisyCommandExited loop ∧
      loop.processes[0]? = some process ∧ process.response = some response ∧
      response .stdout = [104, 101, 108, 108, 111] ∧
        OutputFaithful (process.sink .stdout) (process.warned .stdout) (response .stdout) := by
  obtain ⟨loop, hexecute, hlast⟩ := exists_execute_noisyCommandExited
  obtain ⟨process, hprocess, houtput⟩ :=
    Option.bind_eq_some_iff.mp (Prod.mk.inj (Prod.mk.inj hlast).2).1
  obtain ⟨response, hresponse, hstdout⟩ := Option.map_eq_some_iff.mp houtput
  have hrun := TransitionSystem.Run.of_execute hexecute
  exact ⟨loop, process, response, hrun, hprocess, hresponse, hstdout,
    output_faithful hrun hprocess hresponse .stdout⟩

end CommandLoop

end MuduoProtorpc.Zurg
