import MuduoProtorpc.Zurg.Sink

/-!
# One sink, over what can happen to it

`SinkInvariant` says what holds of a sink between two steps of the loop: what it has read and what
is still in its pipe are what was written; its channel is in the poller as long as its descriptor is
open; `delayedClose` is queued at most once, and only after the channel was disabled; and it is
destroyed when neither its process nor a functor refers to it. There is one lemma for each thing
that happens to a sink.
-/

set_option autoImplicit false
set_option relaxedAutoImplicit false

namespace MuduoProtorpc.Zurg

open Foundation

/-! ### One sink -/

/-- What holds of a sink, which its process has a pointer to or not, and has stopped with a warning
or not; which has given its output to the response or not; and of which `delayedClose` is to be run,
and has run in this round, some times. -/
structure SinkInvariant (sink : Sink) (holds warned : Bool) (output : Option (List UInt8))
    (queued ran : ℕ) : Prop where
  content : sink.buf ++ sink.pipe.unread = sink.pipe.written
  added : sink.added = (sink.fd.isSome && !sink.destroyed)
  once : queued + ran ≤ 1
  reading : sink.reading = true →
    queued = 0 ∧ ran = 0 ∧ sink.fd ≠ none ∧ holds = true ∧ output = none
  opened : 0 < queued → sink.fd ≠ none
  closed : 0 < ran → sink.fd = none
  destroyed : sink.destroyed = true ↔ holds = false ∧ queued = 0 ∧ ran = 0
  unwarned : output = none → warned = false
  quiet : sink.reading = false → warned = true ∨ sink.exceeds = true ∨
    sink.pipe.unread = [] ∧ sink.pipe.hungUp = true
  captured : ∀ bytes, output = some bytes → bytes = sink.buf

section Sink

variable {sink : Sink} {holds warned : Bool} {output : Option (List UInt8)} {queued ran : ℕ}

/-- A sink that is referred to was not destroyed. -/
theorem SinkInvariant.not_destroyed (hsink : SinkInvariant sink holds warned output queued ran)
    (hreferred : holds = true ∨ 0 < queued ∨ 0 < ran) : sink.destroyed = false := by
  cases hdestroyed : sink.destroyed with
  | false => rfl
  | true =>
    obtain ⟨hholds, hqueued, hran⟩ := hsink.destroyed.mp hdestroyed
    rcases hreferred with htrue | hpositive | hpositive
    · rw [hholds] at htrue
      cases htrue
    · omega
    · omega

/-- An event of a sink that reads: some bytes are read, and it goes on reading, or it stops, and
perhaps queues `delayedClose`. -/
theorem SinkInvariant.event (hsink : SinkInvariant sink holds warned output queued ran)
    (hreading : sink.reading = true) {next : Sink} {more : Bool} (hfd : next.fd = sink.fd)
    (hadded : next.added = sink.added) (hdestroyed : next.destroyed = sink.destroyed)
    (hcontent : next.buf ++ next.pipe.unread = next.pipe.written)
    (hmore : more = true → next.reading = false)
    (hquiet : next.reading = false →
      next.exceeds = true ∨ next.pipe.unread = [] ∧ next.pipe.hungUp = true) :
    SinkInvariant next holds warned output (queued + more.toNat) ran := by
  obtain ⟨hqueued, hran, hopen, hholds, houtput⟩ := hsink.reading hreading
  exact {
    content := hcontent
    added := by
      rw [hadded, hfd, hdestroyed]
      exact hsink.added
    once := by
      have hle := Bool.toNat_le more
      omega
    reading := by
      intro hnext
      have hnone : more = false := by
        cases more with
        | false => rfl
        | true =>
          rw [hmore rfl] at hnext
          cases hnext
      subst hnone
      exact ⟨hqueued, hran, by rwa [hfd], hholds, houtput⟩
    opened := fun _ ↦ by rwa [hfd]
    closed := fun hpositive ↦ by omega
    destroyed := by
      rw [hdestroyed, hsink.not_destroyed (Or.inl hholds), hholds]
      simp
    unwarned := hsink.unwarned
    quiet := fun hnext ↦ Or.inr (hquiet hnext)
    captured := by
      intro bytes hbytes
      rw [houtput] at hbytes
      cases hbytes }

/-- What `readFd` leaves. -/
theorem readFd_frame (sink : Sink) (n : Option ℕ) :
    (sink.readFd n).fd = sink.fd ∧ (sink.readFd n).added = sink.added ∧
      (sink.readFd n).destroyed = sink.destroyed ∧ (sink.readFd n).reading = sink.reading ∧
        (sink.readFd n).pipe.written = sink.pipe.written ∧
          (sink.readFd n).pipe.hungUp = sink.pipe.hungUp ∧
            (sink.readFd n).maxLength = sink.maxLength := by
  cases n with
  | none => exact ⟨rfl, rfl, rfl, rfl, rfl, rfl, rfl⟩
  | some n => exact ⟨rfl, rfl, rfl, rfl, rfl, rfl, rfl⟩

theorem readFd_content (sink : Sink) (n : Option ℕ) :
    (sink.readFd n).buf ++ (sink.readFd n).pipe.unread = sink.buf ++ sink.pipe.unread := by
  cases n with
  | none => rfl
  | some n => simp [Sink.readFd]

/-- What `onRead` leaves, and what it does. -/
theorem onRead_cases (sink : Sink) (n : Option ℕ) :
    ∃ reading : Bool, (sink.onRead n).1 = { sink.readFd n with reading := reading } ∧
      (sink.onRead n).2 = (sink.readFd n).exceeds ∧
        (reading = false → sink.reading = true → (sink.readFd n).exceeds = true ∨ n = some 0) ∧
          ((sink.readFd n).exceeds = true → reading = false) := by
  obtain ⟨-, -, -, hreading, -⟩ := readFd_frame sink n
  unfold Sink.onRead
  by_cases hzero : n = some 0
  · simp only [if_pos hzero]
    by_cases hexceeds : (sink.readFd n).exceeds = true
    · have hsame : Sink.exceeds { sink.readFd n with reading := false } = true := hexceeds
      rw [if_pos hsame]
      exact ⟨false, rfl, hexceeds.symm, fun _ _ ↦ Or.inl hexceeds, fun _ ↦ rfl⟩
    · have hsame : ¬ Sink.exceeds { sink.readFd n with reading := false } = true := hexceeds
      rw [if_neg hsame]
      refine ⟨false, rfl, ?_, fun _ _ ↦ Or.inr hzero, fun _ ↦ rfl⟩
      simpa using hexceeds
  · simp only [if_neg hzero]
    by_cases hexceeds : (sink.readFd n).exceeds = true
    · rw [if_pos hexceeds]
      exact ⟨false, rfl, hexceeds.symm, fun _ _ ↦ Or.inl hexceeds, fun _ ↦ rfl⟩
    · rw [if_neg hexceeds]
      refine ⟨(sink.readFd n).reading, rfl, by simpa using hexceeds, ?_, fun htrue ↦ ?_⟩
      · intro hfalse htrue
        rw [hreading, htrue] at hfalse
        cases hfalse
      · exact absurd htrue hexceeds

/-- `onRead` of a sink that reads. -/
theorem SinkInvariant.onRead (hsink : SinkInvariant sink holds warned output queued ran)
    (hreading : sink.reading = true) {n : Option ℕ}
    (hreadable : CommandLoop.readable sink.pipe n = true) :
    SinkInvariant (sink.onRead n).1 holds warned output (queued + (sink.onRead n).2.toNat) ran := by
  obtain ⟨reading, hnext, hqueued, hstops, hexceeds⟩ := onRead_cases sink n
  obtain ⟨hfd, hadded, hdestroyed, -, hwritten, hhungUp, -⟩ := readFd_frame sink n
  rw [hnext, hqueued]
  refine hsink.event hreading hfd hadded hdestroyed ?_ hexceeds fun hfalse ↦ ?_
  · exact (readFd_content sink n).trans (hsink.content.trans hwritten.symm)
  · rcases hstops hfalse hreading with hmore | rfl
    · exact Or.inl hmore
    · simp only [CommandLoop.readable, Bool.and_eq_true, List.isEmpty_iff] at hreadable
      refine Or.inr ⟨?_, hhungUp.trans hreadable.2⟩
      simp [Sink.readFd, hreadable.1]

/-- `onClose` of a sink that reads. -/
theorem SinkInvariant.onClose (hsink : SinkInvariant sink holds warned output queued ran)
    (hreading : sink.reading = true) (hunread : sink.pipe.unread = [])
    (hhungUp : sink.pipe.hungUp = true) :
    SinkInvariant sink.onClose holds warned output (queued + false.toNat) ran :=
  hsink.event hreading rfl rfl rfl hsink.content (fun hfalse ↦ by cases hfalse)
    fun _ ↦ Or.inr ⟨hunread, hhungUp⟩

/-- A command writes to its pipe, or closes it. -/
theorem SinkInvariant.changePipe (hsink : SinkInvariant sink holds warned output queued ran)
    (hopen : sink.pipe.hungUp = false) {pipe : OutputPipe}
    (hpipe : ∃ bytes, pipe.written = sink.pipe.written ++ bytes ∧
      pipe.unread = sink.pipe.unread ++ bytes) :
    SinkInvariant { sink with pipe := pipe } holds warned output queued ran where
  content := by
    obtain ⟨bytes, hwritten, hunread⟩ := hpipe
    simp only [hwritten, hunread, ← hsink.content, List.append_assoc]
  added := hsink.added
  once := hsink.once
  reading := hsink.reading
  opened := hsink.opened
  closed := hsink.closed
  destroyed := hsink.destroyed
  unwarned := hsink.unwarned
  quiet := by
    intro hreading
    rcases hsink.quiet hreading with hwarned | hexceeds | ⟨-, hhungUp⟩
    · exact Or.inl hwarned
    · exact Or.inr (Or.inl hexceeds)
    · rw [hopen] at hhungUp
      cases hhungUp
  captured := hsink.captured

/-- `stop`, in `onCommandExit`. -/
theorem SinkInvariant.stop (hsink : SinkInvariant sink holds warned none queued ran) :
    SinkInvariant sink.stop holds sink.reading (some sink.stop.buf) queued ran := by
  have hstop : sink.stop = { sink with reading := false } := by
    unfold Sink.stop
    cases hreading : sink.reading with
    | false =>
      rw [if_neg (by simp)]
      simp [← hreading]
    | true => simp
  rw [hstop]
  exact {
    content := hsink.content
    added := hsink.added
    once := hsink.once
    reading := by
      intro hreading
      cases hreading
    opened := hsink.opened
    closed := hsink.closed
    destroyed := hsink.destroyed
    unwarned := by
      intro hnone
      cases hnone
    quiet := by
      intro _
      cases hreading : sink.reading with
      | true => exact Or.inl rfl
      | false =>
        have hwarned := hsink.unwarned rfl
        have hquiet := hsink.quiet hreading
        rw [hwarned] at hquiet
        exact hquiet
    captured := by
      rintro bytes ⟨⟩
      rfl }

/-- `delayedClose` is run. -/
theorem SinkInvariant.delayedClose
    (hsink : SinkInvariant sink holds warned output (queued + 1) ran) :
    SinkInvariant { sink with added := false, fd := none } holds warned output queued (ran + 1) :=
  have hreading : sink.reading = false := by
    cases hreading : sink.reading with
    | false => rfl
    | true =>
      have hnone := (hsink.reading hreading).1
      omega
  { content := hsink.content
    added := rfl
    once := by
      have honce := hsink.once
      omega
    reading := by
      intro htrue
      rw [hreading] at htrue
      cases htrue
    opened := by
      intro hpositive
      have honce := hsink.once
      omega
    closed := fun _ ↦ rfl
    destroyed := by
      have hnot := hsink.not_destroyed (Or.inr (Or.inl (Nat.succ_pos queued)))
      simp [hnot]
    unwarned := hsink.unwarned
    quiet := hsink.quiet
    captured := hsink.captured }

/-- A reference that is released was not the last one. -/
theorem SinkInvariant.release {fewer : ℕ} {pointer : Bool}
    (hsink : SinkInvariant sink holds warned output queued ran) (hfewer : fewer ≤ ran)
    (hpointer : pointer = true → holds = true)
    (hreading : sink.reading = true → pointer = true)
    (hreferred : pointer = true ∨ 0 < queued ∨ 0 < fewer) :
    SinkInvariant sink pointer warned output queued fewer where
  content := hsink.content
  added := hsink.added
  once := by
    have honce := hsink.once
    omega
  reading := by
    intro htrue
    obtain ⟨hqueued, hran, hfd, -, houtput⟩ := hsink.reading htrue
    exact ⟨hqueued, by omega, hfd, hreading htrue, houtput⟩
  opened := hsink.opened
  closed := fun hpositive ↦ hsink.closed (by omega)
  destroyed := by
    have hold : holds = true ∨ 0 < queued ∨ 0 < ran := by
      rcases hreferred with htrue | hqueued | hran
      · exact Or.inl (hpointer htrue)
      · exact Or.inr (Or.inl hqueued)
      · exact Or.inr (Or.inr (by omega))
    rw [hsink.not_destroyed hold]
    constructor
    · intro hfalse
      cases hfalse
    · rintro ⟨hfalse, hqueued, hran⟩
      rcases hreferred with htrue | hpositive | hpositive
      · rw [hfalse] at htrue
        cases htrue
      · omega
      · omega
  unwarned := hsink.unwarned
  quiet := hsink.quiet
  captured := hsink.captured

/-- The last reference is released. -/
theorem SinkInvariant.destroy (hsink : SinkInvariant sink holds warned output 0 ran)
    (hreading : sink.reading = false) :
    SinkInvariant { sink with added := sink.added && sink.fd.isNone, destroyed := true } false
      warned output 0 0 where
  content := hsink.content
  added := by
    have hadded := hsink.added
    cases hfd : sink.fd with
    | none =>
      simp only [hfd] at hadded ⊢
      simpa using hadded
    | some fd => simp
  once := Nat.zero_le 1
  reading := by
    intro htrue
    rw [hreading] at htrue
    cases htrue
  opened := fun hpositive ↦ by omega
  closed := fun hpositive ↦ by omega
  destroyed := by simp
  unwarned := hsink.unwarned
  quiet := hsink.quiet
  captured := hsink.captured

end Sink

/-! ### Without a read -/

/-- Nothing was read, and the sink reads no more than before. -/
structure Sink.Quieter (sink next : Sink) : Prop where
  buf : next.buf = sink.buf
  maxLength : next.maxLength = sink.maxLength
  reading : next.reading = true → sink.reading = true

theorem Sink.Quieter.refl (sink : Sink) : sink.Quieter sink :=
  ⟨rfl, rfl, id⟩

theorem Sink.Quieter.trans {sink next last : Sink} (hfirst : sink.Quieter next)
    (hsecond : next.Quieter last) : sink.Quieter last :=
  ⟨hsecond.buf.trans hfirst.buf, hsecond.maxLength.trans hfirst.maxLength,
    fun hreading ↦ hfirst.reading (hsecond.reading hreading)⟩

theorem quieter_stop (sink : Sink) : sink.Quieter sink.stop := by
  unfold Sink.stop
  split_ifs
  · exact ⟨rfl, rfl, fun hreading ↦ by cases hreading⟩
  · exact .refl sink

theorem quieter_setSink {process : CommandProcess} {which : Which} {sink : Sink}
    (hquieter : (process.sink which).Quieter sink) (any : Which) :
    (process.sink any).Quieter ((process.setSink which sink).sink any) := by
  by_cases hany : any = which
  · subst hany
    rwa [CommandProcess.setSink_self]
  · rw [process.setSink_of_ne hany]
    exact .refl _

end MuduoProtorpc.Zurg
