import MuduoProtorpc.Foundation.RoundRobin
import MuduoProtorpc.GoBalancer.Steps

/-!
# Where the requests of the balancer go

`RoutingInvariant` holds in every reachable state, whatever happens on the connections: the requests
of each client reach the request channel in order, `dispatch` deals them to the backends in turn,
and what a backend is sent are its requests in order, each under the next identifier. A panic stops
everything where it is, so it keeps the invariant, too.
-/

set_option autoImplicit false
set_option relaxedAutoImplicit false

namespace MuduoProtorpc.GoBalancer

open Foundation

/-! ### What is in hand -/

/-- The REQUEST a read loop has decoded and not yet passed on. -/
def ReadPhase.hand : ReadPhase → List RpcMessage
  | .sending msg => [msg]
  | _ => []

/-- The request a sending loop has received and not yet given an identifier. -/
def SendPhase.hand : SendPhase → List Request
  | .registering request => [request]
  | _ => []

/-- The message a sending loop is about to send. -/
def SendPhase.message : SendPhase → List RpcMessage
  | .sending msg => [msg]
  | _ => []

/-- The requests a backend connection was given: those with an identifier, the one in hand, and
those in its channel. -/
def BackendConn.given (backend : BackendConn) : List Request :=
  backend.registered ++ backend.sender.hand ++ backend.requests.queue

/-- The message that forwards the request at a position: the client's, under another identifier. -/
def forward (position : ℕ) (request : Request) : RpcMessage :=
  { request.msg with id := some (drawnId 100 position) }

/-- The identifiers of a backend connection are consecutive, and it is sent its requests in order,
each under its identifier. -/
structure ForwardInvariant (backend : BackendConn) : Prop where
  counter : backend.nextId = drawnId 100 backend.registered.length
  forwarded : backend.sent ++ backend.sender.message = backend.registered.mapIdx forward

/-- The way of the requests from the clients to the backends. -/
structure RoutingInvariant (count : ℕ) (balancer : Balancer) : Prop where
  received : ∀ index, (balancer.clients index).received =
    (balancer.accepted.filter fun request ↦ request.output = index).map Request.msg ++
      (balancer.clients index).phase.hand
  conserved : balancer.accepted =
    balancer.dispatched ++ balancer.hand.toList ++ balancer.requests.queue
  requestsOpen : balancer.requests.closed = false
  turn : balancer.idx = balancer.dispatched.length % count
  dealt : ∀ index < count,
    (balancer.backends index).given = share count index balancer.dispatched
  forwarded : ∀ index, ForwardInvariant (balancer.backends index)

/-! ### Every step keeps the invariant -/

section Steps

variable {unmarshal : Bytes → RpcMessage × Option String} {count : ℕ}
  {balancer next : Balancer}

theorem forwardInvariant_initial : ForwardInvariant BackendConn.initial where
  counter := (drawnId_zero 100).symm
  forwarded := rfl

/-- A step of a backend connection keeps the order of its requests. -/
theorem BackendMoved.given_eq {backend moved : BackendConn} {event : BackendEvent}
    (hmoved : BackendMoved unmarshal backend event moved) : moved.given = backend.given := by
  cases hmoved with
  | take hsender hreceive =>
    obtain ⟨hqueue, -, -⟩ := Channel.receive_eq_value hreceive
    simp [BackendConn.given, SendPhase.hand, hsender, hqueue]
  | finish hsender hreceive => simp [BackendConn.given, SendPhase.hand, hsender]
  | register hsender => simp [BackendConn.given, SendPhase.hand, hsender]
  | send hsender => simp [BackendConn.given, SendPhase.hand, hsender]
  | decodeFailed hreceiver hdecode hclose =>
    obtain ⟨-, -, hqueue, -⟩ := Channel.close_eq_done hclose
    simp [BackendConn.given, hqueue]
  | _ => rfl

/-- A step of a backend connection keeps the identifiers consecutive. -/
theorem ForwardInvariant.step {backend moved : BackendConn} {event : BackendEvent}
    (hinvariant : ForwardInvariant backend) (hmoved : BackendMoved unmarshal backend event moved) :
    ForwardInvariant moved := by
  have hforwarded := hinvariant.forwarded
  cases hmoved with
  | take hsender hreceive =>
    exact ⟨hinvariant.counter, by simpa [SendPhase.message, hsender] using hforwarded⟩
  | finish hsender hreceive =>
    exact ⟨hinvariant.counter, by simpa [SendPhase.message, hsender] using hforwarded⟩
  | register hsender =>
    constructor
    · show backend.nextId + 1 = _
      rw [hinvariant.counter, List.length_append, List.length_singleton, drawnId_succ]
    · have hsent : backend.sent = backend.registered.mapIdx forward := by
        simpa [SendPhase.message, hsender] using hforwarded
      simp [SendPhase.message, hsent, List.mapIdx_append, forward, hinvariant.counter]
  | send hsender =>
    exact ⟨hinvariant.counter, by simpa [SendPhase.message, hsender] using hforwarded⟩
  | _ => exact ⟨hinvariant.counter, hforwarded⟩

/-- A step of a client connection decodes a REQUEST into the hand of its read loop, or leaves the
two as they are. -/
theorem ClientMoved.received_eq {client moved : ClientConn} {event : ClientEvent}
    (hmoved : ClientMoved client event moved) :
    ∃ decoded, moved.received = client.received ++ decoded ∧
      moved.phase.hand = client.phase.hand ++ decoded := by
  cases hmoved with
  | wrongType hphase htype => exact ⟨[], by simp, by simp [ReadPhase.hand, hphase]⟩
  | @request msg hphase htype hinitialized =>
    exact ⟨[msg], rfl, by simp [ReadPhase.hand, hphase]⟩
  | failure hphase => exact ⟨[], by simp, by simp [ReadPhase.hand, hphase]⟩
  | closeOutput hphase hclose => exact ⟨[], by simp, by simp [ReadPhase.hand, hphase]⟩
  | _ => exact ⟨[], by simp, by simp⟩

/-- A new state of one backend connection, with the requests it was given before. -/
theorem RoutingInvariant.setBackend (hinvariant : RoutingInvariant count balancer) {index : ℕ}
    {backend : BackendConn} (hgiven : backend.given = (balancer.backends index).given)
    (hforwarded : ForwardInvariant backend) :
    RoutingInvariant count (balancer.setBackend index backend) where
  received := hinvariant.received
  conserved := hinvariant.conserved
  requestsOpen := hinvariant.requestsOpen
  turn := hinvariant.turn
  dealt := fun other hother ↦ by
    by_cases heq : other = index
    · subst heq
      simpa [Balancer.setBackend, hgiven] using hinvariant.dealt other hother
    · simpa [Balancer.setBackend, heq] using hinvariant.dealt other hother
  forwarded := fun other ↦ by
    by_cases heq : other = index
    · subst heq
      simpa [Balancer.setBackend] using hforwarded
    · simpa [Balancer.setBackend, heq] using hinvariant.forwarded other

/-- A new state of one client connection, which has decoded what it newly has in hand. -/
theorem RoutingInvariant.setClient (hinvariant : RoutingInvariant count balancer) {index : ℕ}
    {client : ClientConn} (hclient : ∃ decoded,
      client.received = (balancer.clients index).received ++ decoded ∧
        client.phase.hand = (balancer.clients index).phase.hand ++ decoded) :
    RoutingInvariant count (balancer.setClient index client) where
  received := fun other ↦ by
    by_cases heq : other = index
    · subst heq
      obtain ⟨decoded, hreceived, hhand⟩ := hclient
      have hbefore := hinvariant.received other
      simp only [Balancer.setClient, Function.update_self]
      rw [hreceived, hhand, hbefore, List.append_assoc]
    · simpa [Balancer.setClient, heq] using hinvariant.received other
  conserved := hinvariant.conserved
  requestsOpen := hinvariant.requestsOpen
  turn := hinvariant.turn
  dealt := hinvariant.dealt
  forwarded := hinvariant.forwarded

/-- Passing a decoded REQUEST on to the request channel keeps the invariant. -/
theorem RoutingInvariant.enqueue (hinvariant : RoutingInvariant count balancer) {index : ℕ}
    {msg : RpcMessage} {requests : Channel Request}
    (hphase : (balancer.clients index).phase = .sending msg)
    (hsend : balancer.requests.send { msg := msg, output := index } = .done requests) :
    RoutingInvariant count
      { balancer.setClient index { balancer.clients index with phase := .reading } with
        requests := requests
        accepted := balancer.accepted ++ [{ msg := msg, output := index }] } where
  received := fun other ↦ by
    by_cases heq : other = index
    · subst heq
      have hbefore := hinvariant.received other
      simpa [Balancer.setClient, ReadPhase.hand, hphase] using hbefore
    · have hne : index ≠ other := fun hindex ↦ heq hindex.symm
      simpa [Balancer.setClient, heq, hne] using hinvariant.received other
  conserved := by
    obtain ⟨-, -, hqueue, -⟩ := Channel.send_eq_done hsend
    have hbefore := hinvariant.conserved
    simp only [Balancer.setClient]
    rw [hqueue, hbefore]
    simp
  requestsOpen := (Channel.send_eq_done hsend).2.1
  turn := hinvariant.turn
  dealt := hinvariant.dealt
  forwarded := hinvariant.forwarded

/-- Passing a request on to the backend whose turn it is keeps the invariant. -/
theorem RoutingInvariant.dispatchSend (hinvariant : RoutingInvariant count balancer) {r : Request}
    {requests : Channel Request} (hhand : balancer.hand = some r) (hidx : balancer.idx < count)
    (hsend : (balancer.backends balancer.idx).requests.send r = .done requests) :
    RoutingInvariant count
      { balancer.setBackend balancer.idx
          { balancer.backends balancer.idx with requests := requests } with
        hand := none
        idx := if count ≤ balancer.idx + 1 then 0 else balancer.idx + 1
        dispatched := balancer.dispatched ++ [r] } where
  received := hinvariant.received
  conserved := by
    have hbefore := hinvariant.conserved
    rw [hhand] at hbefore
    simpa [Balancer.setBackend] using hbefore
  requestsOpen := hinvariant.requestsOpen
  turn := by
    have hturn := hinvariant.turn
    simp only [List.length_append, List.length_singleton]
    rw [Nat.add_mod, ← hturn]
    split_ifs with hlast
    · have hcount : balancer.idx + 1 = count := by omega
      rcases Nat.eq_or_lt_of_le (Nat.one_le_of_lt hidx) with hone | hmore
      · subst hone
        simp [Nat.mod_one]
      · rw [Nat.mod_eq_of_lt hmore, hcount, Nat.mod_self]
    · rw [Nat.mod_eq_of_lt (show 1 < count by omega), Nat.mod_eq_of_lt (by omega)]
  dealt := fun index hindex ↦ by
    obtain ⟨-, -, hqueue, -⟩ := Channel.send_eq_done hsend
    have hbefore := hinvariant.dealt index hindex
    rw [share_append_singleton, ← hinvariant.turn]
    by_cases heq : index = balancer.idx
    · subst heq
      rw [if_pos rfl, ← hbefore]
      simp [Balancer.setBackend, BackendConn.given, hqueue]
    · have hne : balancer.idx ≠ index := fun hidx ↦ heq hidx.symm
      rw [if_neg hne]
      simpa [Balancer.setBackend, heq] using hbefore
  forwarded := fun index ↦ by
    have hbefore := hinvariant.forwarded index
    by_cases heq : index = balancer.idx
    · subst heq
      simp only [Balancer.setBackend, Function.update_self]
      exact ⟨hbefore.counter, hbefore.forwarded⟩
    · simpa [Balancer.setBackend, heq] using hbefore

/-- Every step keeps the invariant. -/
theorem RoutingInvariant.step (hinvariant : RoutingInvariant count balancer) {action : Action}
    (hstep : balancerStep unmarshal count balancer action = some next) :
    RoutingInvariant count next := by
  obtain ⟨-, hmoved | ⟨text, -, rfl⟩⟩ := balancer_cases hstep
  · cases hmoved with
    | client hclient => exact hinvariant.setClient hclient.received_eq
    | enqueue hphase hsend => exact hinvariant.enqueue hphase hsend
    | dispatchTake hhand hreceive =>
      obtain ⟨hqueue, hclosed, -⟩ := Channel.receive_eq_value hreceive
      have hbefore := hinvariant.conserved
      exact {
        received := hinvariant.received
        conserved := by simpa [hhand, hqueue] using hbefore
        requestsOpen := hclosed.trans hinvariant.requestsOpen
        turn := hinvariant.turn
        dealt := hinvariant.dealt
        forwarded := hinvariant.forwarded }
    | dispatchSend hhand hidx hsend => exact hinvariant.dispatchSend hhand hidx hsend
    | backend hindex hbackend =>
      exact hinvariant.setBackend hbackend.given_eq ((hinvariant.forwarded _).step hbackend)
    | @deliver index output resp channel hreceiver hsend =>
      have hclient : RoutingInvariant count (balancer.setClient output
          { balancer.clients output with output := channel }) :=
        hinvariant.setClient ⟨[], by simp, by simp⟩
      have hforwarded := hinvariant.forwarded index
      have hbackend : RoutingInvariant count ((balancer.setClient output
          { balancer.clients output with output := channel }).setBackend index
            { balancer.backends index with receiver := .decoding }) :=
        hclient.setBackend rfl ⟨hforwarded.counter, hforwarded.forwarded⟩
      exact ⟨hbackend.received, hbackend.conserved, hbackend.requestsOpen, hbackend.turn,
        hbackend.dealt, hbackend.forwarded⟩
  · exact ⟨hinvariant.received, hinvariant.conserved, hinvariant.requestsOpen, hinvariant.turn,
      hinvariant.dealt, hinvariant.forwarded⟩

theorem routingInvariant_initial : RoutingInvariant count Balancer.initial where
  received := fun _ ↦ rfl
  conserved := rfl
  requestsOpen := rfl
  turn := (Nat.zero_mod count).symm
  dealt := fun _ _ ↦ rfl
  forwarded := fun _ ↦ forwardInvariant_initial

end Steps

end MuduoProtorpc.GoBalancer
