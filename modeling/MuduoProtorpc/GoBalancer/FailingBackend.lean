import MuduoProtorpc.GoBalancer.Isolation

/-!
# A backend whose connection fails

The reading goroutine of a backend connection that fails to decode closes the request channel and
goes on: it looks up the identifier of the message that the failed `Decode` left behind, and then
decodes again. `HandlesFailure` is what a failing backend should come to: the replies before the
failure are handled, nothing after it, no goroutine panics, and the request channel `dispatch` is
about to use is open.

`not_handlesFailure` is that it never comes to this, whatever the replies before the failure, the
kind of the failure and the outstanding requests: the lookup panics, or takes a request for answered
that is not.
-/

set_option autoImplicit false
set_option relaxedAutoImplicit false

namespace MuduoProtorpc.GoBalancer

open Foundation

/-- What a stream decodes to is any number of replies and then an error: the end of the stream, a
truncated frame, or a frame with a bad length, marker or checksum or a body that is no message. -/
inductive StreamFails (unmarshal : Bytes → RpcMessage × Option String) : Stream → Prop
  | failed {stream rest : Stream} {error : DecodeError} {left : RpcMessage} :
      decode unmarshal stream = .failed error left rest → StreamFails unmarshal stream
  | reply {stream rest : Stream} {resp : RpcMessage} :
      decode unmarshal stream = .message resp rest → StreamFails unmarshal rest →
        StreamFails unmarshal stream

/-- The reading goroutine of a backend connection is in front of a `Decode` that fails. -/
def AtFailure (unmarshal : Bytes → RpcMessage × Option String) (backend : BackendConn) : Prop :=
  backend.receiver = .decoding ∧
    ∃ error left rest, decode unmarshal backend.stream = .failed error left rest

/-- A stream that has ended fails, sooner or later. -/
theorem streamFails_of_ended {unmarshal : Bytes → RpcMessage × Option String} {stream : Stream}
    (hended : stream.ended = true) : StreamFails unmarshal stream := by
  induction hlength : stream.available.length using Nat.strong_induction_on generalizing stream with
  | _ length ih =>
    cases hdecode : decode unmarshal stream with
    | message resp rest =>
      obtain ⟨hshorter, hsame⟩ := length_of_decodeGeneral hdecode
      exact .reply hdecode (ih _ (hlength ▸ hshorter) (hsame.trans hended) rfl)
    | failed error left rest => exact .failed hdecode
    | blocked => exact absurd hdecode (decode_ne_blocked hended)
    | panic text => exact absurd hdecode (decode_ne_panic text)

/-! ### Clients that stay connected -/

/-- A client connection whose goroutines are both in their loops, and whose output channel is open
and has a buffer. -/
def Connected (client : ClientConn) : Prop :=
  (∃ delivered, Attended client delivered) ∧ 0 < client.output.capacity

section Connected

variable {unmarshal : Bytes → RpcMessage × Option String} {count : ℕ} {balancer next : Balancer}
  {action : Action}

/-- A client that stays is connected, whatever the backends do. -/
theorem Connected.step (hconnected : ∀ index, Connected (balancer.clients index))
    (hstay : ClientsStay action) (hmoved : BalancerMoved unmarshal count balancer action next)
    (index : ℕ) : Connected (next.clients index) := by
  have hbefore := hconnected index
  obtain ⟨⟨delivered, hattended⟩, hcapacity⟩ := hconnected index
  cases hmoved with
  | @client moving event moved hclient =>
    by_cases heq : index = moving
    · subst heq
      simp only [Balancer.setClient, Function.update_self]
      exact ⟨⟨delivered, hattended.step hstay hclient⟩, by rwa [hclient.capacity_eq]⟩
    · simpa [Balancer.setClient, heq] using hbefore
  | @enqueue sending msg requests hphase hsend =>
    by_cases heq : index = sending
    · subst heq
      simp only [Balancer.setClient, Function.update_self]
      exact ⟨⟨delivered, ⟨by simp, by simp⟩, hattended.writing, hattended.outputOpen,
        hattended.written⟩, hcapacity⟩
    · simpa [Balancer.setClient, heq] using hbefore
  | @deliver backend output resp channel hreceiver hsend =>
    obtain ⟨-, hopen, -, hsame⟩ := Channel.send_eq_done hsend
    by_cases heq : index = output
    · subst heq
      simp only [Balancer.setBackend, Balancer.setClient, Function.update_self]
      exact ⟨⟨_, hattended.reading, hattended.writing, hopen, rfl⟩, by rwa [hsame]⟩
    · simpa [Balancer.setBackend, Balancer.setClient, heq] using hbefore
  | dispatchTake hhand hreceive => exact hbefore
  | dispatchSend hhand hidx hsend => exact hbefore
  | backend hindex hbackend => exact hbefore

theorem connected_initial (index : ℕ) : Connected (Balancer.initial.clients index) :=
  ⟨⟨[], ⟨by simp [Balancer.initial, ClientConn.initial],
    by simp [Balancer.initial, ClientConn.initial]⟩, rfl, rfl, rfl⟩, Nat.zero_lt_succ 9⟩

/-- Clients that are connected and stay are connected, after any run. -/
theorem connected_of_run {permitted : Balancer → Action → Prop} {actions : List Action}
    {start : Balancer}
    (hrun : ((balancerSystem unmarshal count).startingAt start).RunWhen permitted actions balancer)
    (hstay : ∀ balancer action, permitted balancer action → ClientsStay action)
    (hstart : ∀ index, Connected (start.clients index)) (index : ℕ) :
    Connected (balancer.clients index) := by
  revert index
  apply hrun.invariant hstart
  intro state action next hpermitted hstep hbefore
  obtain ⟨-, hmoved | ⟨text, -, rfl⟩⟩ := balancer_cases hstep
  · exact Connected.step hbefore (hstay _ _ hpermitted) hmoved
  · exact hbefore

end Connected

/-! ### A backend connection that fails -/

/-- What can happen while a backend fails: the clients stay, and no backend sends a reply that is
none. -/
def DuringFailure (unmarshal : Bytes → RpcMessage × Option String) (balancer : Balancer)
    (action : Action) : Prop :=
  ClientsStay action ∧ BackendsAnswer unmarshal balancer action

instance (unmarshal : Bytes → RpcMessage × Option String) (balancer : Balancer)
    (action : Action) : Decidable (DuringFailure unmarshal balancer action) :=
  inferInstanceAs (Decidable (_ ∧ _))

/-- What should come of a backend connection that fails. -/
structure HandlesFailure (unmarshal : Bytes → RpcMessage × Option String) (count : ℕ)
    (balancer : Balancer) (index : ℕ) : Prop where
  /-- The reading goroutine can handle the replies before the failure. -/
  handles : ∃ actions later, ((balancerSystem unmarshal count).startingAt balancer).RunWhen
    (DuringFailure unmarshal) actions later ∧ AtFailure unmarshal (later.backends index)
  /-- It handles no reply after the failure. -/
  noFurtherReply : ∀ before failed after later,
    ((balancerSystem unmarshal count).startingAt balancer).RunWhen (DuringFailure unmarshal) before
      failed → AtFailure unmarshal (failed.backends index) →
        ((balancerSystem unmarshal count).startingAt failed).RunWhen (DuringFailure unmarshal)
          after later → (later.backends index).handled = (failed.backends index).handled
  /-- No goroutine panics. -/
  noPanic : ∀ actions later, ((balancerSystem unmarshal count).startingAt balancer).RunWhen
    (DuringFailure unmarshal) actions later → later.panicked = none
  /-- The request channel that is next in turn is open. -/
  dispatches : ∀ actions later, ((balancerSystem unmarshal count).startingAt balancer).RunWhen
    (DuringFailure unmarshal) actions later →
      (later.backends later.idx).requests.closed = false

section Failure

variable {unmarshal : Bytes → RpcMessage × Option String} {count : ℕ} {balancer : Balancer}
  {index : ℕ}

/-- A run while a backend fails, and a step more. -/
theorem duringFailure_step {start next : Balancer} {actions : List Action} {action : Action}
    (hrun : ((balancerSystem unmarshal count).startingAt start).RunWhen (DuringFailure unmarshal)
      actions balancer) (hstep : balancerStep unmarshal count balancer action = some next)
    (hpermitted : DuringFailure unmarshal balancer action) :
    ((balancerSystem unmarshal count).startingAt start).RunWhen (DuringFailure unmarshal)
      (actions ++ [action]) next :=
  .step hrun hpermitted hstep

variable (unmarshal) in
/-- The lookup of a reply panics, or hands it over for delivery. -/
theorem lookup_step (hpanicked : balancer.panicked = none) (hindex : index < count)
    {resp : RpcMessage} (hreceiver : (balancer.backends index).receiver = .looking resp) :
    ∃ next, balancerStep unmarshal count balancer (.backend index .lookup) = some next ∧
      (next.panicked ≠ none ∨ (next.panicked = none ∧
        (next.backends index).handled = (balancer.backends index).handled + 1 ∧
          (next.backends index).stream = (balancer.backends index).stream ∧
            ∃ delivered output,
              (next.backends index).receiver = .delivering delivered output)) := by
  cases hfind : (balancer.backends index).outstanding.find resp.getId with
  | none =>
    refine ⟨{ balancer with panicked := some "What's wrong?" }, ?_, Or.inl (by simp)⟩
    simp [balancerStep, hpanicked, hindex, backendStep, hreceiver, hfind, Balancer.after]
  | some r =>
    refine ⟨balancer.setBackend index { balancer.backends index with
      outstanding := (balancer.backends index).outstanding.erase resp.getId
      receiver := .delivering { resp with id := some r.origId } r.output
      handled := (balancer.backends index).handled + 1 }, ?_, Or.inr ⟨hpanicked, ?_, ?_, ?_⟩⟩
    · simp [balancerStep, hpanicked, hindex, backendStep, hreceiver, hfind, Balancer.after]
    · simp [Balancer.setBackend]
    · simp [Balancer.setBackend]
    · exact ⟨{ resp with id := some r.origId }, r.output, by simp [Balancer.setBackend]⟩

/-- Reading goes on to the failure, or to a panic. -/
theorem StreamFails.reaches {start : Balancer} {stream : Stream}
    (hfails : StreamFails unmarshal stream) {actions : List Action}
    (hrun : ((balancerSystem unmarshal count).startingAt start).RunWhen (DuringFailure unmarshal)
      actions balancer) (hclients : ∀ index, Connected (start.clients index))
    (hindex : index < count) (hpanicked : balancer.panicked = none)
    (hreceiver : (balancer.backends index).receiver = .decoding)
    (hstream : (balancer.backends index).stream = stream) :
    ∃ more later, ((balancerSystem unmarshal count).startingAt start).RunWhen
        (DuringFailure unmarshal) more later ∧
      (later.panicked ≠ none ∨ AtFailure unmarshal (later.backends index)) := by
  induction hfails generalizing actions balancer with
  | @failed stream rest error left hdecode =>
    exact ⟨actions, balancer, hrun, Or.inr ⟨hreceiver, error, left, rest,
      by rw [hstream, hdecode]⟩⟩
  | @reply stream rest resp hdecode hrest ih =>
    let read := balancer.setBackend index
      { balancer.backends index with stream := rest, receiver := .looking resp }
    have hdecoded : balancerStep unmarshal count balancer (.backend index .decode) = some read := by
      simp [balancerStep, hpanicked, hindex, backendStep, hreceiver, hstream, hdecode,
        Balancer.after, read]
    have hread := duringFailure_step hrun hdecoded ⟨trivial, trivial⟩
    have hlooking : (read.backends index).receiver = .looking resp := by
      simp [read, Balancer.setBackend]
    obtain ⟨found, hlookup, hpanics | ⟨hnone, -, hsame, delivered, output, hdelivering⟩⟩ :=
      lookup_step unmarshal (show read.panicked = none from hpanicked) hindex hlooking
    · exact ⟨_, found, duringFailure_step hread hlookup ⟨trivial, trivial⟩, Or.inl hpanics⟩
    · have hfound := duringFailure_step hread hlookup ⟨trivial, trivial⟩
      obtain ⟨⟨_, hattended⟩, hcapacity⟩ :=
        connected_of_run hfound (fun _ _ hpermitted ↦ hpermitted.1) hclients output
      obtain ⟨more, later, hmore, -, hlater, -, hbackend⟩ := exists_deliver hfound
        (fun _ _ _ ↦ ⟨⟨trivial, trivial⟩, ⟨trivial, trivial⟩⟩) hnone hdelivering
          hattended.outputOpen hattended.writing hcapacity
      apply ih hmore hlater
      · rw [hbackend]
      · rw [hbackend, hsame]
        simp [read, Balancer.setBackend]

/-- A failure ends in a panic, or in a reply that is handled after it. -/
theorem AtFailure.goes_on (hfailure : AtFailure unmarshal (balancer.backends index))
    (hpanicked : balancer.panicked = none) (hindex : index < count) :
    ∃ more later, ((balancerSystem unmarshal count).startingAt balancer).RunWhen
        (DuringFailure unmarshal) more later ∧
      (later.panicked ≠ none ∨
        (later.backends index).handled = (balancer.backends index).handled + 1) := by
  obtain ⟨hreceiver, error, left, rest, hdecode⟩ := hfailure
  cases hclose : (balancer.backends index).requests.close with
  | blocked =>
    unfold Channel.close at hclose
    split_ifs at hclose
  | panic text =>
    -- an earlier failure has closed the request channel
    have hclosed : balancerStep unmarshal count balancer (.backend index .decode) =
        some { balancer with panicked := some text } := by
      simp [balancerStep, hpanicked, hindex, backendStep, hreceiver, hdecode, hclose,
        Balancer.after]
    exact ⟨_, _, duringFailure_step .start hclosed ⟨trivial, trivial⟩, Or.inl (by simp)⟩
  | done requests =>
    let failed := balancer.setBackend index { balancer.backends index with
      requests := requests
      stream := rest
      receiver := .looking left }
    have hfailed : balancerStep unmarshal count balancer (.backend index .decode) =
        some failed := by
      simp [balancerStep, hpanicked, hindex, backendStep, hreceiver, hdecode, hclose,
        Balancer.after, failed]
    have hrun := duringFailure_step .start hfailed ⟨trivial, trivial⟩
    have hlooking : (failed.backends index).receiver = .looking left := by
      simp [failed, Balancer.setBackend]
    obtain ⟨later, hlookup, hlater⟩ :=
      lookup_step unmarshal (show failed.panicked = none from hpanicked) hindex hlooking
    refine ⟨_, later, duringFailure_step hrun hlookup ⟨trivial, trivial⟩, ?_⟩
    rcases hlater with hpanics | ⟨-, hhandled, -⟩
    · exact Or.inl hpanics
    · refine Or.inr (hhandled.trans ?_)
      simp [failed, Balancer.setBackend]

/-- However a backend connection fails, its failure is not handled: the goroutine that reads its
replies panics, or handles a reply after the failure. -/
theorem not_handlesFailure {actions : List Action} (hindex : index < count)
    (hrun : (balancerSystem unmarshal count).RunWhen (fun _ action ↦ ClientsStay action)
      actions balancer)
    (hreceiver : (balancer.backends index).receiver = .decoding)
    (hfails : StreamFails unmarshal (balancer.backends index).stream) :
    ¬ HandlesFailure unmarshal count balancer index := by
  intro hhandles
  have hclients : ∀ index, Connected (balancer.clients index) := by
    have hsame : ((balancerSystem unmarshal count).startingAt Balancer.initial).RunWhen
        (fun _ action ↦ ClientsStay action) actions balancer := hrun
    exact connected_of_run hsame (fun _ _ hpermitted ↦ hpermitted) connected_initial
  have hpanicked : balancer.panicked = none := hhandles.noPanic [] balancer .start
  obtain ⟨before, failed, hbefore, hreached⟩ :=
    hfails.reaches .start hclients hindex hpanicked hreceiver rfl
  have hnone := hhandles.noPanic before failed hbefore
  rcases hreached with hpanics | hfailure
  · exact hpanics hnone
  · obtain ⟨after, later, hafter, hpanics | hhandled⟩ := hfailure.goes_on hnone hindex
    · exact hpanics (hhandles.noPanic _ later (hbefore.trans hafter))
    · have hsame := hhandles.noFurtherReply before failed after later hbefore hfailure hafter
      omega

end Failure

/-! ### A backend that hangs up -/

/-- A backend that answers one request and hangs up. -/
theorem not_handlesFailure_hungUp : ∃ balancer : Balancer,
    (balancerSystem parseTypeAndId 1).RunWhen (fun _ action ↦ ClientsStay action)
      (oneForwarded ++ [.backend 0 (.reply firstAnswer), .backend 0 .hangUp]) balancer ∧
    (balancer.backends 0).registered.length = 1 ∧
      ¬ HandlesFailure parseTypeAndId 1 balancer 0 := by
  have hexecutes : ((balancerSystem parseTypeAndId 1).executeWhen (fun _ action ↦
      ClientsStay action) Balancer.initial (oneForwarded ++ [.backend 0 (.reply firstAnswer),
        .backend 0 .hangUp])).map (fun balancer ↦ ((balancer.backends 0).registered.length,
          (balancer.backends 0).receiver, (balancer.backends 0).stream.ended)) =
            some (1, .decoding, true) := by
    decide +kernel
  obtain ⟨balancer, hexecute, hbackend⟩ := Option.map_eq_some_iff.mp hexecutes
  obtain ⟨hregistered, hreceiver, hended⟩ :
      (balancer.backends 0).registered.length = 1 ∧
        (balancer.backends 0).receiver = .decoding ∧
          (balancer.backends 0).stream.ended = true := by
    simpa using hbackend
  have hrun := TransitionSystem.RunWhen.extend .start (fun _ _ ↦ id) hexecute
  rw [List.nil_append] at hrun
  exact ⟨balancer, hrun, hregistered,
    not_handlesFailure (by decide) hrun hreceiver (streamFails_of_ended hended)⟩

/-- A backend that hangs up at once takes the balancer down. -/
theorem not_handlesFailure_of_hangUp :
    ¬ ∀ (actions : List Action) (balancer : Balancer) (index : ℕ), index < 1 →
      (balancerSystem parseTypeAndId 1).RunWhen (fun _ action ↦ ClientsStay action)
        actions balancer →
          (balancer.backends index).receiver = .decoding →
            StreamFails parseTypeAndId (balancer.backends index).stream →
              HandlesFailure parseTypeAndId 1 balancer index := by
  intro hall
  let hungUp : Balancer := Balancer.initial.setBackend 0 { BackendConn.initial with
    stream := { available := [], ended := true } }
  have hrun : (balancerSystem parseTypeAndId 1).RunWhen (fun _ action ↦ ClientsStay action)
      [.backend 0 .hangUp] hungUp := .step .start trivial rfl
  have hhandles := hall _ hungUp 0 (by decide) hrun rfl (streamFails_of_ended rfl)
  have hexecutes : (((balancerSystem parseTypeAndId 1).startingAt hungUp).executeWhen
      (DuringFailure parseTypeAndId) hungUp [.backend 0 .decode, .backend 0 .lookup]).map
        Balancer.panicked = some (some "What's wrong?") := by
    decide +kernel
  obtain ⟨later, hexecute, hpanicked⟩ := Option.map_eq_some_iff.mp hexecutes
  have hnone := hhandles.noPanic _ later (.extend .start (fun _ _ ↦ id) hexecute)
  rw [hnone] at hpanicked
  cases hpanicked

end MuduoProtorpc.GoBalancer
