import MuduoProtorpc.GoBalancer.Delivery

/-!
# Clients that leave the balancer

A client may leave at any moment: its read loop ends and closes its output channel, or its writer
stops. The replies to its requests are still put into that channel. `Quiet` says that nothing of a
client's is under way, from the hand of its read loop to the reply about to be delivered.

As long as clients leave only when they are quiet, no goroutine panics and no other client notices
(`isolation_of_run`). A client that leaves while a request of its is outstanding takes the balancer
down (`not_isolation_of_early_leave`).
-/

set_option autoImplicit false
set_option relaxedAutoImplicit false

namespace MuduoProtorpc.GoBalancer

open Foundation

/-! ### Quiet clients -/

/-- Nothing of a client's is under way at a backend. -/
structure QuietAt (index : ℕ) (backend : BackendConn) : Prop where
  given : ∀ request ∈ backend.sender.hand ++ backend.requests.queue, request.output ≠ index
  outstanding : ∀ id r, backend.outstanding.find id = some r → r.output ≠ index
  delivering : ∀ resp output, backend.receiver = .delivering resp output → output ≠ index

/-- Nothing of a client's is under way. -/
structure Quiet (balancer : Balancer) (index : ℕ) : Prop where
  phase : (balancer.clients index).phase.hand = []
  queued : ∀ request ∈ balancer.requests.queue, request.output ≠ index
  inHand : ∀ request ∈ balancer.hand, request.output ≠ index
  backends : ∀ backend, QuietAt index (balancer.backends backend)

/-- The read loop of a client has ended, or its writer has stopped. -/
def ClientConn.Left (client : ClientConn) : Prop :=
  client.phase = .leaving ∨ client.phase = .returned ∨ client.writing = false

/-- A client leaves only when nothing of it is under way, and sends no request after its writer has
stopped. -/
def LeavesQuiet (balancer : Balancer) : Action → Prop
  | .client index (.message msg) =>
    if msg.getType = .request then (balancer.clients index).writing = true
    else Quiet balancer index
  | .client index .failure => Quiet balancer index
  | .client index .writeFailure => Quiet balancer index
  | _ => True

section Steps

variable {unmarshal : Bytes → RpcMessage × Option String} {count : ℕ} {balancer next : Balancer}
  {action : Action} {index : ℕ}

/-- A step of a backend connection puts nothing of a quiet client under way. -/
theorem QuietAt.step {backend moved : BackendConn} {event : BackendEvent}
    (hquiet : QuietAt index backend) (hmoved : BackendMoved unmarshal backend event moved) :
    QuietAt index moved := by
  have hgiven := hquiet.given
  cases hmoved with
  | take hsender hreceive =>
    obtain ⟨hqueue, -, -⟩ := Channel.receive_eq_value hreceive
    rw [hsender, hqueue] at hgiven
    exact ⟨hgiven, hquiet.outstanding, hquiet.delivering⟩
  | finish hsender hreceive =>
    rw [hsender] at hgiven
    exact ⟨hgiven, hquiet.outstanding, hquiet.delivering⟩
  | @register request hsender =>
    rw [hsender] at hgiven
    refine ⟨fun other hother ↦ hgiven other (List.mem_append_right _ hother), ?_,
      hquiet.delivering⟩
    intro id r hfind
    rcases Table.find_insert_eq_some.mp hfind with ⟨-, rfl⟩ | ⟨-, hold⟩
    · exact hgiven request (List.mem_append_left _ (List.mem_singleton_self _))
    · exact hquiet.outstanding id r hold
  | send hsender =>
    rw [hsender] at hgiven
    exact ⟨hgiven, hquiet.outstanding, hquiet.delivering⟩
  | reply hended => exact ⟨hgiven, hquiet.outstanding, hquiet.delivering⟩
  | hangUp => exact ⟨hgiven, hquiet.outstanding, hquiet.delivering⟩
  | decode hreceiver hdecode =>
    exact ⟨hgiven, hquiet.outstanding, fun _ _ hdelivering ↦ by cases hdelivering⟩
  | decodeFailed hreceiver hdecode hclose =>
    obtain ⟨-, -, hqueue, -⟩ := Channel.close_eq_done hclose
    rw [← hqueue] at hgiven
    exact ⟨hgiven, hquiet.outstanding, fun _ _ hdelivering ↦ by cases hdelivering⟩
  | lookup hreceiver hfind =>
    refine ⟨hgiven, fun id r hfound ↦ ?_, fun resp output hdelivering ↦ ?_⟩
    · exact hquiet.outstanding id r (Table.find_erase_eq_some.mp hfound).2
    · obtain ⟨-, rfl⟩ := ReplyPhase.delivering.inj hdelivering
      exact hquiet.outstanding _ _ hfind

/-- A request of another client in its channel leaves a backend connection quiet. -/
theorem QuietAt.send {backend : BackendConn} {requests : Channel Request} {r : Request}
    (hquiet : QuietAt index backend) (hsend : backend.requests.send r = .done requests)
    (hother : r.output ≠ index) : QuietAt index { backend with requests := requests } := by
  obtain ⟨-, -, hqueue, -⟩ := Channel.send_eq_done hsend
  refine ⟨fun request hrequest ↦ ?_, hquiet.outstanding, hquiet.delivering⟩
  rw [hqueue, ← List.append_assoc] at hrequest
  rcases List.mem_append.mp hrequest with hold | hnew
  · exact hquiet.given request hold
  · rwa [List.mem_singleton.mp hnew]

/-- A step of a client connection by which it sends no request leaves its hand empty. -/
theorem ClientMoved.hand_eq_nil {client moved : ClientConn} {event : ClientEvent}
    (hmoved : ClientMoved client event moved) (hhand : client.phase.hand = [])
    (hsilent : ∀ msg, event = .message msg → msg.getType ≠ .request) :
    moved.phase.hand = [] := by
  cases hmoved with
  | request hphase htype hinitialized => exact absurd htype (hsilent _ rfl)
  | write hwriting hreceive => exact hhand
  | writeFailure hwriting hreceive => exact hhand
  | writerDone hwriting hreceive => exact hhand
  | _ => rfl

/-- A step by which a quiet client sends no request leaves it quiet. -/
theorem Quiet.step (hquiet : Quiet balancer index)
    (hsilent : ∀ msg, action = .client index (.message msg) → msg.getType ≠ .request)
    (hmoved : BalancerMoved unmarshal count balancer action next) : Quiet next index := by
  cases hmoved with
  | @client moving event moved hclient =>
    refine ⟨?_, hquiet.queued, hquiet.inHand, hquiet.backends⟩
    by_cases heq : index = moving
    · subst heq
      simp only [Balancer.setClient, Function.update_self]
      exact hclient.hand_eq_nil hquiet.phase fun msg hmsg ↦ hsilent msg (by rw [hmsg])
    · simpa [Balancer.setClient, heq] using hquiet.phase
  | @enqueue sending msg requests hphase hsend =>
    have hne : sending ≠ index := by
      rintro rfl
      have hhand := hquiet.phase
      rw [hphase] at hhand
      cases hhand
    obtain ⟨-, -, hqueue, -⟩ := Channel.send_eq_done hsend
    refine ⟨?_, ?_, hquiet.inHand, hquiet.backends⟩
    · simpa [Balancer.setClient, Function.update_of_ne hne.symm] using hquiet.phase
    · intro request hrequest
      rw [hqueue] at hrequest
      rcases List.mem_append.mp hrequest with hold | hnew
      · exact hquiet.queued request hold
      · rw [List.mem_singleton.mp hnew]
        exact hne
  | dispatchTake hhand hreceive =>
    obtain ⟨hqueue, -, -⟩ := Channel.receive_eq_value hreceive
    have hqueued := hquiet.queued
    rw [hqueue] at hqueued
    refine ⟨hquiet.phase, fun request hrequest ↦ ?_, fun request hrequest ↦ ?_, hquiet.backends⟩
    · exact hqueued request (List.mem_cons_of_mem _ hrequest)
    · rw [← Option.some.inj hrequest]
      exact hqueued _ List.mem_cons_self
  | @dispatchSend r requests hhand hidx hsend =>
    have hother : r.output ≠ index := hquiet.inHand r hhand
    refine ⟨hquiet.phase, hquiet.queued, (fun request hrequest ↦ by cases hrequest),
      fun backend ↦ ?_⟩
    by_cases heq : backend = balancer.idx
    · subst heq
      simpa [Balancer.setBackend] using (hquiet.backends balancer.idx).send hsend hother
    · simpa [Balancer.setBackend, heq] using hquiet.backends backend
  | @backend moving event moved hindex hbackend =>
    refine ⟨hquiet.phase, hquiet.queued, hquiet.inHand, fun backend ↦ ?_⟩
    by_cases heq : backend = moving
    · subst heq
      simpa [Balancer.setBackend] using (hquiet.backends backend).step hbackend
    · simpa [Balancer.setBackend, heq] using hquiet.backends backend
  | @deliver moving output resp channel hreceiver hsend =>
    refine ⟨?_, hquiet.queued, hquiet.inHand, fun backend ↦ ?_⟩
    · by_cases heq : index = output
      · subst heq
        simpa [Balancer.setBackend, Balancer.setClient] using hquiet.phase
      · simpa [Balancer.setBackend, Balancer.setClient, heq] using hquiet.phase
    · have hbefore := hquiet.backends backend
      by_cases heq : backend = moving
      · subst heq
        simp only [Balancer.setBackend, Function.update_self]
        exact ⟨hbefore.given, hbefore.outstanding, fun _ _ hdelivering ↦ by cases hdelivering⟩
      · simpa [Balancer.setBackend, Balancer.setClient, heq] using hbefore

end Steps

/-! ### The invariant -/

/-- What holds while clients leave quietly. -/
structure IsolationInvariant (unmarshal : Bytes → RpcMessage × Option String) (count : ℕ)
    (balancer : Balancer) : Prop where
  backends : BackendsInvariant unmarshal count balancer
  left : ∀ index, (balancer.clients index).Left → Quiet balancer index
  closed : ∀ index, (balancer.clients index).output.closed = true →
    (balancer.clients index).phase = .returned
  room : ∀ index, 0 < (balancer.clients index).output.capacity
  noPanic : balancer.panicked = none

section Invariant

variable {unmarshal : Bytes → RpcMessage × Option String} {count : ℕ} {balancer next : Balancer}
  {action : Action} {index : ℕ}

/-- A client connection that has left after a step had left before it, or left by an event that
needs it to be quiet. -/
theorem ClientMoved.left_or {client moved : ClientConn} {event : ClientEvent}
    (hmoved : ClientMoved client event moved) (hleft : moved.Left)
    (hclosed : client.output.closed = true → client.phase = .returned) :
    client.Left ∨ event = .failure ∨ event = .writeFailure ∨
      ∃ msg, event = .message msg ∧ msg.getType ≠ .request := by
  cases hmoved with
  | wrongType hphase htype => exact Or.inr (Or.inr (Or.inr ⟨_, rfl, htype⟩))
  | request hphase htype hinitialized =>
    rcases hleft with hleaving | hreturned | hwriting
    · cases hleaving
    · cases hreturned
    · exact Or.inl (Or.inr (Or.inr hwriting))
  | failure hphase => exact Or.inr (Or.inl rfl)
  | closeOutput hphase hclose => exact Or.inl (Or.inl hphase)
  | write hwriting hreceive => exact Or.inl hleft
  | writeFailure hwriting hreceive => exact Or.inr (Or.inr (Or.inl rfl))
  | writerDone hwriting hreceive =>
    exact Or.inl (Or.inr (Or.inl (hclosed (Channel.receive_eq_drained hreceive).1)))

/-- A client that has left after a step sends no request by it. -/
theorem BalancerMoved.silent_of_left (hmoved : BalancerMoved unmarshal count balancer action next)
    (hpermitted : LeavesQuiet balancer action) (hleft : (next.clients index).Left)
    (msg : RpcMessage) (haction : action = .client index (.message msg)) :
    msg.getType ≠ .request := by
  intro htype
  subst haction
  simp only [LeavesQuiet, htype, if_true] at hpermitted
  cases hmoved with
  | client hclient =>
    simp only [Balancer.setClient, Function.update_self] at hleft
    cases hclient with
    | wrongType hphase hother => exact hother htype
    | request hphase hsame hinitialized =>
      rcases hleft with hleaving | hreturned | hwriting
      · cases hleaving
      · cases hreturned
      · simp [hpermitted] at hwriting

/-- A client that has left after a step is quiet before it. -/
theorem IsolationInvariant.quiet_before (hinvariant : IsolationInvariant unmarshal count balancer)
    (hpermitted : LeavesQuiet balancer action)
    (hmoved : BalancerMoved unmarshal count balancer action next)
    (hleft : (next.clients index).Left) : Quiet balancer index := by
  cases hmoved with
  | @client moving event moved hclient =>
    by_cases heq : index = moving
    · subst heq
      simp only [Balancer.setClient, Function.update_self] at hleft
      rcases hclient.left_or hleft (hinvariant.closed index) with
        hbefore | rfl | rfl | ⟨msg, rfl, htype⟩
      · exact hinvariant.left index hbefore
      · exact hpermitted
      · exact hpermitted
      · simpa only [LeavesQuiet, if_neg htype] using hpermitted
    · apply hinvariant.left index
      simpa [Balancer.setClient, heq] using hleft
  | @enqueue sending msg requests hphase hsend =>
    apply hinvariant.left index
    by_cases heq : index = sending
    · subst heq
      simp only [Balancer.setClient, Function.update_self] at hleft
      rcases hleft with hleaving | hreturned | hwriting
      · cases hleaving
      · cases hreturned
      · exact Or.inr (Or.inr hwriting)
    · simpa [Balancer.setClient, heq] using hleft
  | @deliver moving output resp channel hreceiver hsend =>
    apply hinvariant.left index
    by_cases heq : index = output
    · subst heq
      simpa [Balancer.setBackend, Balancer.setClient, ClientConn.Left] using hleft
    · simpa [Balancer.setBackend, Balancer.setClient, heq] using hleft
  | dispatchTake hhand hreceive => exact hinvariant.left index hleft
  | dispatchSend hhand hidx hsend => exact hinvariant.left index hleft
  | backend hindex hbackend => exact hinvariant.left index hleft

/-- An output channel is closed when its read loop returns, and keeps its capacity. -/
theorem IsolationInvariant.output_step (hinvariant : IsolationInvariant unmarshal count balancer)
    (hmoved : BalancerMoved unmarshal count balancer action next) (index : ℕ) :
    ((next.clients index).output.closed = true → (next.clients index).phase = .returned) ∧
      0 < (next.clients index).output.capacity := by
  have hclosed := hinvariant.closed index
  have hroom := hinvariant.room index
  cases hmoved with
  | @client moving event moved hclient =>
    by_cases heq : index = moving
    · subst heq
      simp only [Balancer.setClient, Function.update_self]
      cases hclient with
      | wrongType hphase htype =>
        refine ⟨fun houtput ↦ ?_, hroom⟩
        cases hphase.symm.trans (hclosed houtput)
      | request hphase htype hinitialized =>
        refine ⟨fun houtput ↦ ?_, hroom⟩
        cases hphase.symm.trans (hclosed houtput)
      | failure hphase =>
        refine ⟨fun houtput ↦ ?_, hroom⟩
        cases hphase.symm.trans (hclosed houtput)
      | closeOutput hphase hclose =>
        obtain ⟨-, -, -, hcapacity⟩ := Channel.close_eq_done hclose
        exact ⟨fun _ ↦ rfl, by rwa [hcapacity]⟩
      | write hwriting hreceive =>
        obtain ⟨-, hsame, hcapacity⟩ := Channel.receive_eq_value hreceive
        exact ⟨by rwa [hsame], by rwa [hcapacity]⟩
      | writeFailure hwriting hreceive =>
        obtain ⟨-, hsame, hcapacity⟩ := Channel.receive_eq_value hreceive
        exact ⟨by rwa [hsame], by rwa [hcapacity]⟩
      | writerDone hwriting hreceive => exact ⟨hclosed, hroom⟩
    · simpa [Balancer.setClient, heq] using ⟨hclosed, hroom⟩
  | @enqueue sending msg requests hphase hsend =>
    by_cases heq : index = sending
    · subst heq
      simp only [Balancer.setClient, Function.update_self]
      refine ⟨fun houtput ↦ ?_, hroom⟩
      cases hphase.symm.trans (hclosed houtput)
    · simpa [Balancer.setClient, heq] using ⟨hclosed, hroom⟩
  | @deliver moving output resp channel hreceiver hsend =>
    obtain ⟨-, hopen, -, hcapacity⟩ := Channel.send_eq_done hsend
    by_cases heq : index = output
    · subst heq
      simp only [Balancer.setBackend, Balancer.setClient, Function.update_self]
      refine ⟨fun houtput ↦ ?_, by rwa [hcapacity]⟩
      rw [hopen] at houtput
      cases houtput
    · simpa [Balancer.setBackend, Balancer.setClient, heq] using ⟨hclosed, hroom⟩
  | dispatchTake hhand hreceive => exact ⟨hclosed, hroom⟩
  | dispatchSend hhand hidx hsend => exact ⟨hclosed, hroom⟩
  | backend hindex hbackend => exact ⟨hclosed, hroom⟩

/-- A reply about to be delivered goes to a client that has not left. -/
theorem IsolationInvariant.not_left_of_delivering
    (hinvariant : IsolationInvariant unmarshal count balancer) {backend : ℕ} {resp : RpcMessage}
    (hreceiver : (balancer.backends backend).receiver = .delivering resp index) :
    ¬ (balancer.clients index).Left :=
  fun hleft ↦ ((hinvariant.left index hleft).backends backend).delivering resp index hreceiver rfl

/-- Every step keeps the invariant while clients leave quietly. -/
theorem IsolationInvariant.step (hinvariant : IsolationInvariant unmarshal count balancer)
    (hcount : 0 < count) (hpermitted : LeavesQuiet balancer action)
    (hanswers : BackendsAnswer unmarshal balancer action)
    (hstep : balancerStep unmarshal count balancer action = some next) :
    IsolationInvariant unmarshal count next := by
  have hrouting := hinvariant.backends.routing.step hstep
  obtain ⟨hnone, hmoved | ⟨text, hpanics, -⟩⟩ := balancer_cases hstep
  · refine ⟨hinvariant.backends.step hanswers hrouting hmoved, fun index hleft ↦ ?_,
      fun index ↦ (hinvariant.output_step hmoved index).1,
      fun index ↦ (hinvariant.output_step hmoved index).2, ?_⟩
    · exact (hinvariant.quiet_before hpermitted hmoved hleft).step
        (hmoved.silent_of_left hpermitted hleft) hmoved
    · cases hmoved <;> exact hnone
  · obtain ⟨index, hclosed, hleaving | ⟨backend, resp, hreceiver⟩⟩ :=
      hinvariant.backends.panics hcount hanswers hpanics
    · cases hleaving.symm.trans (hinvariant.closed index hclosed)
    · exact absurd (Or.inr (Or.inl (hinvariant.closed index hclosed)))
        (hinvariant.not_left_of_delivering hreceiver)

theorem isolationInvariant_initial : IsolationInvariant unmarshal count Balancer.initial where
  backends := backendsInvariant_initial
  left := fun index hleft ↦ by
    rcases hleft with hleaving | hreturned | hwriting
    · cases hleaving
    · cases hreturned
    · cases hwriting
  closed := fun index hclosed ↦ by cases hclosed
  room := fun _ ↦ Nat.zero_lt_succ 9
  noPanic := rfl

end Invariant

/-! ### What the remaining clients see -/

/-- No client takes the balancer down, and the others are served. -/
structure Isolation (unmarshal : Bytes → RpcMessage × Option String) (count : ℕ)
    (balancer : Balancer) : Prop where
  /-- No goroutine panics. -/
  noPanic : balancer.panicked = none
  /-- No message is sent on an output channel that was closed. -/
  outputOpen : ∀ backend resp output,
    (balancer.backends backend).receiver = .delivering resp output →
      (balancer.clients output).output.closed = false
  /-- A reply that was looked up can be delivered, after a write of the client's writer if its
  channel is full. -/
  answered : ∀ backend resp output,
    (balancer.backends backend).receiver = .delivering resp output →
      ∃ actions next,
        ((balancerSystem unmarshal count).startingAt balancer).Run actions next ∧
          { backend := backend, output := output, resp := resp } ∈ next.delivered
  /-- Every request accepted is dispatched, in the hand of `dispatch` or queued, and the requests
  are dispatched to the backends in turn. -/
  routed : balancer.accepted =
      balancer.dispatched ++ balancer.hand.toList ++ balancer.requests.queue ∧
    ∀ index < count, ∀ round : ℕ,
      (balancer.backends index).given[round]? = balancer.dispatched[round * count + index]?
  /-- When no goroutine can do anything, every REQUEST of a client is dispatched and sent. -/
  atRest : AtRest unmarshal count balancer → NothingKept count balancer

section Isolation

variable {unmarshal : Bytes → RpcMessage × Option String} {count : ℕ} {balancer : Balancer}

/-- A step leaves the writers of the clients running, and the capacities as they are. -/
def KeepsWriters (balancer next : Balancer) : Prop :=
  ∀ index, (next.clients index).writing = (balancer.clients index).writing ∧
    (next.clients index).output.capacity = (balancer.clients index).output.capacity

variable (unmarshal count) in
/-- A reply can be put into an open channel with room. -/
theorem deliver_step (hpanicked : balancer.panicked = none) {backend output : ℕ}
    {resp : RpcMessage} (hreceiver : (balancer.backends backend).receiver =
      .delivering resp output) (hopen : (balancer.clients output).output.closed = false)
    (hroom : (balancer.clients output).output.queue.length <
      (balancer.clients output).output.capacity) :
    ∃ next, balancerStep unmarshal count balancer (.deliver backend) = some next ∧
      { backend := backend, output := output, resp := resp } ∈ next.delivered ∧
        next.panicked = none ∧ KeepsWriters balancer next ∧ next.backends backend =
          { balancer.backends backend with receiver := .decoding } := by
  obtain ⟨channel, hsend⟩ := Channel.exists_send_eq_done hopen hroom resp
  obtain ⟨-, -, -, hcapacity⟩ := Channel.send_eq_done hsend
  let delivered : Balancer := { (balancer.setClient output { balancer.clients output with
      output := channel }).setBackend backend
        { balancer.backends backend with receiver := .decoding } with
    delivered := balancer.delivered ++ [
      { backend := backend, output := output, resp := resp }] }
  refine ⟨delivered, ?_, by simp [delivered], hpanicked, fun index ↦ ?_, ?_⟩
  · simp [balancerStep, hpanicked, hreceiver, Balancer.after, hsend, delivered]
  · by_cases heq : index = output
    · subst heq
      simp [delivered, Balancer.setBackend, Balancer.setClient, hcapacity]
    · simp [delivered, Balancer.setBackend, Balancer.setClient, heq]
  · simp [delivered, Balancer.setBackend]

variable (unmarshal count) in
/-- A writer that runs takes a reply out of its channel. -/
theorem write_step (hpanicked : balancer.panicked = none) {output : ℕ} {msg : RpcMessage}
    {rest : List RpcMessage} (hwriting : (balancer.clients output).writing = true)
    (hqueue : (balancer.clients output).output.queue = msg :: rest) :
    ∃ next, balancerStep unmarshal count balancer (.client output .write) = some next ∧
      next.panicked = none ∧ KeepsWriters balancer next ∧ next.backends = balancer.backends ∧
        (next.clients output).output.queue = rest ∧
          (next.clients output).output.closed = (balancer.clients output).output.closed := by
  obtain ⟨channel, hreceive, hrest⟩ := Channel.exists_receive_eq_value hqueue
  obtain ⟨-, hclosed, hcapacity⟩ := Channel.receive_eq_value hreceive
  let written := balancer.setClient output { balancer.clients output with
    output := channel
    written := (balancer.clients output).written ++ [msg] }
  refine ⟨written, ?_, hpanicked, fun index ↦ ?_, rfl, ?_, ?_⟩
  · simp [balancerStep, hpanicked, clientStep, hwriting, hreceive, Balancer.after, written]
  · by_cases heq : index = output
    · subst heq
      simp [written, Balancer.setClient, hcapacity]
    · simp [written, Balancer.setClient, heq]
  · simpa [written, Balancer.setClient] using hrest
  · simpa [written, Balancer.setClient] using hclosed

/-- A reply to a client whose writer runs and whose channel is open can be delivered, after a write
if the channel is full. -/
theorem exists_deliver {permitted : Balancer → Action → Prop} {actions : List Action}
    {start : Balancer}
    (hrun : ((balancerSystem unmarshal count).startingAt start).RunWhen permitted actions balancer)
    (hpermitted : ∀ state backend output, permitted state (.deliver backend) ∧
      permitted state (.client output .write))
    (hpanicked : balancer.panicked = none) {backend output : ℕ} {resp : RpcMessage}
    (hreceiver : (balancer.backends backend).receiver = .delivering resp output)
    (hopen : (balancer.clients output).output.closed = false)
    (hwriting : (balancer.clients output).writing = true)
    (hcapacity : 0 < (balancer.clients output).output.capacity) :
    ∃ more next, ((balancerSystem unmarshal count).startingAt start).RunWhen permitted more next ∧
      { backend := backend, output := output, resp := resp } ∈ next.delivered ∧
        next.panicked = none ∧ KeepsWriters balancer next ∧ next.backends backend =
          { balancer.backends backend with receiver := .decoding } := by
  by_cases hroom : (balancer.clients output).output.queue.length <
      (balancer.clients output).output.capacity
  · obtain ⟨next, hstep, hdelivered⟩ := deliver_step unmarshal count hpanicked hreceiver hopen hroom
    exact ⟨_, next, .step hrun (hpermitted _ backend output).1 hstep, hdelivered⟩
  · have hfull := (balancer.clients output).output.bounded
    obtain ⟨msg, rest, hqueue⟩ : ∃ msg rest,
        (balancer.clients output).output.queue = msg :: rest := by
      apply List.exists_cons_of_length_pos
      omega
    obtain ⟨written, hwrite, hnone, hkeeps, hbackends, hrest, hclosed⟩ :=
      write_step unmarshal count hpanicked hwriting hqueue
    have hless : (written.clients output).output.queue.length <
        (written.clients output).output.capacity := by
      rw [hqueue, List.length_cons] at hfull
      rw [hrest, (hkeeps output).2]
      omega
    obtain ⟨next, hstep, hmem, hnextNone, hnextKeeps, hnextBackend⟩ :=
      deliver_step unmarshal count hnone
      (by rw [hbackends]; exact hreceiver) (hclosed.trans hopen) hless
    refine ⟨_, next, .step (.step hrun (hpermitted _ backend output).2 hwrite)
      (hpermitted _ backend output).1 hstep, hmem, hnextNone, fun index ↦ ?_, ?_⟩
    · exact ⟨(hnextKeeps index).1.trans (hkeeps index).1,
        (hnextKeeps index).2.trans (hkeeps index).2⟩
    · rw [hnextBackend, hbackends]

/-- While clients leave only when nothing of them is under way, and the backends stay up and answer
each identifier at most once, no goroutine panics and the other clients are served. -/
theorem isolation_of_run {actions : List Action} (hcount : 0 < count)
    (hrun : (balancerSystem unmarshal count).RunWhen (fun balancer action ↦
      LeavesQuiet balancer action ∧ BackendsAnswer unmarshal balancer action)
        actions balancer) : Isolation unmarshal count balancer := by
  have hinvariant : IsolationInvariant unmarshal count balancer :=
    hrun.invariant isolationInvariant_initial fun _ _ _ hpermitted hstep hbefore ↦
      hbefore.step hcount hpermitted.1 hpermitted.2 hstep
  have hopen : ∀ backend resp output,
      (balancer.backends backend).receiver = .delivering resp output →
        (balancer.clients output).output.closed = false := by
    intro backend resp output hreceiver
    rw [← Bool.not_eq_true]
    intro hclosed
    exact hinvariant.not_left_of_delivering hreceiver
      (Or.inr (Or.inl (hinvariant.closed output hclosed)))
  have hrouting := hinvariant.backends.routing
  exact {
    noPanic := hinvariant.noPanic
    outputOpen := hopen
    answered := fun backend resp output hreceiver ↦ by
      have hwriting : (balancer.clients output).writing = true := by
        rw [← Bool.not_eq_false]
        exact fun hstopped ↦ hinvariant.not_left_of_delivering hreceiver
          (Or.inr (Or.inr hstopped))
      have hstart : ((balancerSystem unmarshal count).startingAt balancer).Run [] balancer :=
        .start
      obtain ⟨more, next, hmore, hmem, -⟩ := exists_deliver hstart
        (fun _ _ _ ↦ ⟨trivial, trivial⟩) hinvariant.noPanic hreceiver
          (hopen backend resp output hreceiver) hwriting (hinvariant.room output)
      exact ⟨more, next, hmore, hmem⟩
    routed := by
      refine ⟨hrouting.conserved, fun index hindex round ↦ ?_⟩
      rw [hrouting.dealt index hindex]
      exact getElem?_share hindex _ round
    atRest := fun hquiet ↦
      hquiet.nothingKept hinvariant.backends hinvariant.noPanic hcount }

end Isolation

/-! ### A client that leaves after its reply, and one that leaves before -/

/-- A client leaves. -/
def clientLeft (index : ℕ) : List Action :=
  [.client index .failure, .client index .closeOutput]

/-- The balancer after one client has left at once. -/
def afterClientLeft : Balancer :=
  let leaving := Balancer.initial.setClient 1 { ClientConn.initial with phase := .leaving }
  leaving.setClient 1 { ClientConn.initial with
    phase := .returned
    output := { Channel.make 10 with closed := true } }

/-- The event is of a client whose writer has not stopped. -/
def ActsWhileWriting (balancer : Balancer) : Action → Prop
  | .client index _ => (balancer.clients index).writing = true
  | _ => True

instance (balancer : Balancer) (action : Action) :
    Decidable (ActsWhileWriting balancer action) :=
  match action with
  | .client index _ => instDecidableEqBool (balancer.clients index).writing true
  | .enqueue _ | .dispatchTake | .dispatchSend | .backend _ _ | .deliver _ => .isTrue trivial

/-- A client that stays leaves at no time. -/
theorem leavesQuiet_of_clientsStay {balancer : Balancer} {action : Action}
    (hstay : ClientsStay action) (hwriting : ActsWhileWriting balancer action) :
    LeavesQuiet balancer action := by
  rcases action with ⟨index, event⟩ | _ | _ | _ | _ | _
  · cases event with
    | message msg =>
      have htype : msg.getType = .request := hstay
      simp only [LeavesQuiet, htype, if_true]
      exact hwriting
    | failure => exact hstay.elim
    | writeFailure => exact hstay.elim
    | _ => trivial
  all_goals trivial

/-- A run in which one client leaves at once, and the request of another is answered. -/
theorem isolation_clientLeft : ∃ balancer,
    (balancerSystem parseTypeAndId 1).RunWhen (fun balancer action ↦
      LeavesQuiet balancer action ∧ BackendsAnswer parseTypeAndId balancer action)
        (clientLeft 1 ++ (oneForwarded ++ oneAnswered)) balancer ∧
      (balancer.clients 1).phase = .returned ∧
        (balancer.clients 0).written = [{ type := some .response, id := some 7 }] ∧
          Isolation parseTypeAndId 1 balancer := by
  have hquiet : Quiet Balancer.initial 1 := by
    refine ⟨rfl, ?_, ?_, fun backend ↦ ⟨?_, ?_, ?_⟩⟩
    · intro request hrequest
      cases hrequest
    · intro request hrequest
      cases hrequest
    · intro request hrequest
      cases hrequest
    · intro id r hfind
      cases hfind
    · intro resp output hdelivering
      cases hdelivering
  have hleft : (balancerSystem parseTypeAndId 1).RunWhen (fun balancer action ↦
      LeavesQuiet balancer action ∧ BackendsAnswer parseTypeAndId balancer action)
        (clientLeft 1) afterClientLeft :=
    .step (.step .start ⟨hquiet, trivial⟩ rfl) ⟨trivial, trivial⟩ rfl
  have hexecutes : ((balancerSystem parseTypeAndId 1).executeWhen (fun balancer action ↦
      ClientsStay action ∧ ActsWhileWriting balancer action ∧
        BackendsAnswer parseTypeAndId balancer action) afterClientLeft
          (oneForwarded ++ oneAnswered)).map
          (fun balancer ↦ ((balancer.clients 1).phase, (balancer.clients 0).written)) =
            some (.returned, [{ type := some .response, id := some 7 }]) := by
    decide +kernel
  obtain ⟨balancer, hexecute, hlast⟩ := Option.map_eq_some_iff.mp hexecutes
  obtain ⟨hphase, hwritten⟩ := Prod.mk.inj hlast
  have hrun := hleft.extend (fun state action hdecided ↦
    ⟨leavesQuiet_of_clientsStay hdecided.1 hdecided.2.1, hdecided.2.2⟩) hexecute
  exact ⟨balancer, hrun, hphase, hwritten, isolation_of_run (by decide) hrun⟩

/-- A client that leaves while its request is outstanding takes the balancer down. -/
theorem not_isolation_of_early_leave :
    ¬ ∀ (actions : List Action) (balancer : Balancer),
      (balancerSystem parseTypeAndId 1).RunWhen (BackendsAnswer parseTypeAndId) actions balancer →
        Isolation parseTypeAndId 1 balancer := by
  intro hall
  have hexecutes : ((balancerSystem parseTypeAndId 1).executeWhen (BackendsAnswer parseTypeAndId)
      Balancer.initial (oneForwarded ++ clientLeft 0 ++ [.backend 0 (.reply firstAnswer),
        .backend 0 .decode, .backend 0 .lookup, .deliver 0])).map Balancer.panicked =
          some (some "send on closed channel") := by
    decide +kernel
  obtain ⟨balancer, hexecute, hpanicked⟩ := Option.map_eq_some_iff.mp hexecutes
  have hisolation := hall _ balancer (.extend .start (fun _ _ ↦ id) hexecute)
  rw [hisolation.noPanic] at hpanicked
  cases hpanicked

end MuduoProtorpc.GoBalancer
