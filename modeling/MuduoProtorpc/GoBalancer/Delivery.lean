import MuduoProtorpc.GoBalancer.Backends

/-!
# What the balancer guarantees while all connections stay up

`ServingInvariant` puts the routing of the requests, the replies of each backend and the output
channels of the clients together. It is kept by every step as long as the clients and the backends
stay up, each backend answers each identifier at most once, and no backend is sent more than
`2 ^ 64` requests; `routingGuarantees_of_run` reads off what the clients and the backends see.

The identifiers of a backend connection are 64 bits wide, and
`not_routingGuarantees_of_wrapped_id` is what happens after `2 ^ 64` requests: two outstanding
requests share an identifier.
-/

set_option autoImplicit false
set_option relaxedAutoImplicit false

namespace MuduoProtorpc.GoBalancer

open Foundation

/-! ### Delivering replies -/

/-- The reply that a reading goroutine has looked up and not yet delivered. -/
def ReplyPhase.hand (index : ℕ) : ReplyPhase → List Delivery
  | .delivering resp output => [{ backend := index, output := output, resp := resp }]
  | _ => []

/-- What a reply is delivered as: to the client of the request it answers, under the identifier the
client gave that request, and otherwise unchanged. -/
def deliveryOf (index : ℕ) (registered : List Request) (answer : Answer) : Option Delivery :=
  registered[answer.position]?.map fun request ↦ {
    backend := index
    output := request.output
    resp := { answer.message with id := some request.msg.getId } }

/-- The replies looked up are those delivered and the one in hand, each once and in order. -/
def DeliversAll (index : ℕ) (backend : BackendConn) (delivered : List Delivery) : Prop :=
  (delivered ++ backend.receiver.hand index).map some =
    (backend.answers.take backend.handled).map (deliveryOf index backend.registered)

section DeliversAll

variable {unmarshal : Bytes → RpcMessage × Option String} {backend moved : BackendConn}
  {index : ℕ} {delivered : List Delivery}

/-- A step of the connection keeps it. -/
theorem DeliversAll.step (hdelivers : DeliversAll index backend delivered)
    (htable : TableInvariant backend) (hinvariant : ReplyInvariant unmarshal backend)
    {event : BackendEvent}
    (hmoved : BackendMoved unmarshal backend event moved) :
    DeliversAll index moved delivered := by
  unfold DeliversAll at hdelivers ⊢
  cases hmoved with
  | register hsender =>
    show (delivered ++ backend.receiver.hand index).map some = _
    rw [hdelivers]
    refine List.map_congr_left fun answer hanswer ↦ ?_
    have hposition := (hinvariant.genuine answer (List.mem_of_mem_take hanswer)).2.1
    simp only [deliveryOf]
    rw [List.getElem?_append_left hposition]
  | reply hended =>
    show (delivered ++ backend.receiver.hand index).map some =
      ((backend.answers ++ [_]).take backend.handled).map _
    rw [List.take_append_of_le_length hinvariant.handled]
    exact hdelivers
  | decode hreceiver hdecode => simpa [ReplyPhase.hand, hreceiver] using hdelivers
  | decodeFailed hreceiver hdecode hclose => simpa [ReplyPhase.hand, hreceiver] using hdelivers
  | lookup hreceiver hfind =>
    obtain ⟨answer, request, hanswer, rfl, -, hrequest, hfound⟩ :=
      htable.find_looking hinvariant hreceiver
    rw [hfind] at hfound
    obtain rfl := Option.some.inj hfound
    show (delivered ++ [_]).map some =
      (backend.answers.take (backend.handled + 1)).map (deliveryOf index backend.registered)
    rw [take_succ_of_getElem? hanswer, List.map_append, List.map_append, ← hdelivers]
    simp [ReplyPhase.hand, hreceiver, deliveryOf, hrequest]
  | _ => exact hdelivers

end DeliversAll

/-! ### Clients that stay -/

/-- The client stays up and sends nothing but REQUESTs. -/
def ClientsStay : Action → Prop
  | .client _ (.message msg) => msg.getType = .request
  | .client _ .failure => False
  | .client _ .writeFailure => False
  | _ => True

instance (action : Action) : Decidable (ClientsStay action) := by
  rcases action with ⟨_, event⟩ | _ | _ | _ | _ | _
  · cases event <;> dsimp only [ClientsStay] <;> infer_instance
  all_goals
    dsimp only [ClientsStay]
    infer_instance

/-- A client connection that is served: both its goroutines are in their loops, and what was put
into its output channel was written or is in the buffer. -/
structure Attended (client : ClientConn) (delivered : List RpcMessage) : Prop where
  reading : client.phase ≠ .leaving ∧ client.phase ≠ .returned
  writing : client.writing = true
  outputOpen : client.output.closed = false
  written : delivered = client.written ++ client.output.queue

/-- A client that stays is served. -/
theorem Attended.step {client moved : ClientConn} {delivered : List RpcMessage}
    (hattended : Attended client delivered) {index : ℕ} {event : ClientEvent}
    (hstay : ClientsStay (.client index event)) (hmoved : ClientMoved client event moved) :
    Attended moved delivered := by
  cases hmoved with
  | wrongType hphase htype => exact absurd hstay htype
  | request hphase htype hinitialized =>
    exact ⟨⟨by simp, by simp⟩, hattended.writing, hattended.outputOpen, hattended.written⟩
  | failure hphase => exact hstay.elim
  | closeOutput hphase hclose => exact absurd hphase hattended.reading.1
  | write hwriting hreceive =>
    obtain ⟨hqueue, hclosed, -⟩ := Channel.receive_eq_value hreceive
    refine ⟨hattended.reading, hattended.writing, hclosed.trans hattended.outputOpen, ?_⟩
    rw [hattended.written, hqueue]
    simp
  | writeFailure hwriting hreceive => exact hstay.elim
  | writerDone hwriting hreceive =>
    have hclosed := (Channel.receive_eq_drained hreceive).1
    rw [hattended.outputOpen] at hclosed
    cases hclosed

/-! ### The invariant of the balancer -/

/-- The replies put into the output channel of a client. -/
def Balancer.deliveredTo (balancer : Balancer) (index : ℕ) : List RpcMessage :=
  (balancer.delivered.filter fun delivery ↦ delivery.output = index).map Delivery.resp

/-- The invariant while everything stays up. -/
structure ServingInvariant (unmarshal : Bytes → RpcMessage × Option String) (count : ℕ)
    (balancer : Balancer) : Prop where
  backends : BackendsInvariant unmarshal count balancer
  tables : ∀ index, TableInvariant (balancer.backends index) ∧
    DeliversAll index (balancer.backends index) (balancer.deliveredBy index)
  attended : ∀ index, Attended (balancer.clients index) (balancer.deliveredTo index)
  noPanic : balancer.panicked = none

section Balancer

variable {unmarshal : Bytes → RpcMessage × Option String} {count : ℕ} {balancer next : Balancer}
  {action : Action}

/-- Every step that goes through keeps the tables exact and the replies delivered. -/
theorem ServingInvariant.tables_step (hinvariant : ServingInvariant unmarshal count balancer)
    (hids : BackendsIdsLast balancer action)
    (hmoved : BalancerMoved unmarshal count balancer action next) :
    ∀ index, TableInvariant (next.backends index) ∧
      DeliversAll index (next.backends index) (next.deliveredBy index) := by
  refine hmoved.backends_of (fun index backend delivered ↦
    TableInvariant backend ∧ DeliversAll index backend delivered) hinvariant.tables ?_ ?_ ?_
  · intro index requests r hsend
    obtain ⟨htable, hdelivers⟩ := hinvariant.tables index
    exact ⟨⟨htable.outstanding, htable.idsLast⟩, hdelivers⟩
  · rintro index event moved rfl hbackend
    obtain ⟨htable, hdelivers⟩ := hinvariant.tables index
    have hreplies := hinvariant.backends.replies index
    exact ⟨htable.step hreplies (hinvariant.backends.routing.forwarded index) hids hbackend,
      hdelivers.step htable hreplies hbackend⟩
  · intro index resp output hreceiver
    obtain ⟨htable, hdelivers⟩ := hinvariant.tables index
    refine ⟨⟨htable.outstanding, htable.idsLast⟩, ?_⟩
    simpa [DeliversAll, ReplyPhase.hand, hreceiver] using hdelivers

/-- Every step that goes through keeps the clients served. -/
theorem ServingInvariant.attended_step (hinvariant : ServingInvariant unmarshal count balancer)
    (hstay : ClientsStay action) (hmoved : BalancerMoved unmarshal count balancer action next)
    (index : ℕ) : Attended (next.clients index) (next.deliveredTo index) := by
  have hbefore := hinvariant.attended index
  cases hmoved with
  | @client moving event moved hclient =>
    by_cases heq : index = moving
    · subst heq
      simp only [Balancer.setClient, Function.update_self]
      exact hbefore.step hstay hclient
    · simpa [Balancer.setClient, Balancer.deliveredTo, heq] using hbefore
  | @enqueue sending msg requests hphase hsend =>
    by_cases heq : index = sending
    · subst heq
      simp only [Balancer.setClient, Function.update_self]
      exact ⟨⟨by simp, by simp⟩, hbefore.writing, hbefore.outputOpen, hbefore.written⟩
    · simpa [Balancer.setClient, Balancer.deliveredTo, heq] using hbefore
  | @deliver backend output resp channel hreceiver hsend =>
    obtain ⟨-, hopen, hqueue, -⟩ := Channel.send_eq_done hsend
    by_cases heq : index = output
    · subst heq
      refine ⟨?_, ?_, ?_, ?_⟩
      · simpa [Balancer.setBackend, Balancer.setClient] using hbefore.reading
      · simpa [Balancer.setBackend, Balancer.setClient] using hbefore.writing
      · simpa [Balancer.setBackend, Balancer.setClient] using hopen
      · have hwritten := hbefore.written
        simp only [Balancer.deliveredTo] at hwritten
        simp [Balancer.deliveredTo, Balancer.setBackend, Balancer.setClient, hwritten, hqueue]
    · have hne : output ≠ index := fun houtput ↦ heq houtput.symm
      simpa [Balancer.setBackend, Balancer.setClient, Balancer.deliveredTo, heq, hne] using hbefore
  | dispatchTake hhand hreceive => exact hbefore
  | dispatchSend hhand hidx hsend => exact hbefore
  | backend hindex hbackend => exact hbefore

/-- Every step keeps the invariant while everything stays up. -/
theorem ServingInvariant.step (hinvariant : ServingInvariant unmarshal count balancer)
    (hcount : 0 < count) (hstay : ClientsStay action)
    (hanswers : BackendsAnswer unmarshal balancer action) (hids : BackendsIdsLast balancer action)
    (hstep : balancerStep unmarshal count balancer action = some next) :
    ServingInvariant unmarshal count next := by
  have hrouting := hinvariant.backends.routing.step hstep
  obtain ⟨hnone, hmoved | ⟨text, hpanics, -⟩⟩ := balancer_cases hstep
  · refine ⟨hinvariant.backends.step hanswers hrouting hmoved,
      hinvariant.tables_step hids hmoved, hinvariant.attended_step hstay hmoved, ?_⟩
    cases hmoved <;> exact hnone
  · obtain ⟨index, hclosed, -⟩ := hinvariant.backends.panics hcount hanswers hpanics
    rw [(hinvariant.attended index).outputOpen] at hclosed
    cases hclosed

theorem servingInvariant_initial : ServingInvariant unmarshal count Balancer.initial where
  backends := backendsInvariant_initial
  tables := fun _ ↦ ⟨tableInvariant_initial, rfl⟩
  attended := fun _ ↦ ⟨⟨by simp [Balancer.initial, ClientConn.initial],
    by simp [Balancer.initial, ClientConn.initial]⟩, rfl, rfl, rfl⟩
  noPanic := rfl

end Balancer

/-! ### What the clients and the backends see -/

/-- A request of a backend that was given an identifier and whose reply was not looked up. -/
def Outstanding (backend : BackendConn) (position : ℕ) : Prop :=
  position < backend.registered.length ∧
    position ∉ (backend.answers.take backend.handled).map Answer.position

/-- What a balancer with `count` backends guarantees while everything stays up. -/
structure RoutingGuarantees (unmarshal : Bytes → RpcMessage × Option String) (count : ℕ)
    (balancer : Balancer) : Prop where
  /-- Every REQUEST of a client is accepted once, in the client's order. -/
  accepted : ∀ index, (balancer.clients index).received =
    (balancer.accepted.filter fun request ↦ request.output = index).map Request.msg ++
      (balancer.clients index).phase.hand
  /-- Every request accepted is dispatched, in the hand of `dispatch` or queued, in the order of
  acceptance and only one of these. -/
  dispatched : balancer.accepted =
    balancer.dispatched ++ balancer.hand.toList ++ balancer.requests.queue
  /-- When no goroutine can do anything, every REQUEST of a client is dispatched and sent. -/
  atRest : AtRest unmarshal count balancer → NothingKept count balancer
  /-- The requests are dispatched to the backends in turn. -/
  inTurn : ∀ index < count, ∀ round : ℕ,
    (balancer.backends index).given[round]? = balancer.dispatched[round * count + index]?
  /-- A backend is sent its requests in order, each once and under its identifier. -/
  forwarded : ∀ index < count,
    (balancer.backends index).sent ++ (balancer.backends index).sender.message =
      (balancer.backends index).registered.mapIdx forward
  /-- Two outstanding requests of a backend have different identifiers. -/
  idsDistinct : ∀ index < count, ∀ first second, Outstanding (balancer.backends index) first →
    Outstanding (balancer.backends index) second →
      (drawnId 100 first : BitVec 64) = drawnId 100 second → first = second
  /-- Every reply that was looked up is delivered once, as `deliveryOf` says. -/
  delivered : ∀ index < count,
    DeliversAll index (balancer.backends index) (balancer.deliveredBy index)
  /-- Every other reply is still on the connection, or is the one about to be looked up. -/
  unread : ∀ index < count, (balancer.backends index).stream.available =
      frames ((balancer.backends index).answers.drop
        ((balancer.backends index).handled + (balancer.backends index).receiver.ahead)) ∧
    ∀ resp, (balancer.backends index).receiver = .looking resp →
      ∃ answer, (balancer.backends index).answers[(balancer.backends index).handled]? =
        some answer ∧ resp = answer.message
  /-- What is delivered to a client is written to it, or in the buffer of its channel. -/
  written : ∀ index, balancer.deliveredTo index =
    (balancer.clients index).written ++ (balancer.clients index).output.queue
  /-- No goroutine panics; in particular every lookup finds its entry. -/
  noPanic : balancer.panicked = none
  /-- The table holds the outstanding requests, each with its client's identifier and channel. -/
  outstanding : ∀ index < count, ∀ id r, (balancer.backends index).outstanding.find id = some r ↔
    ∃ position request, (balancer.backends index).registered[position]? = some request ∧
      Outstanding (balancer.backends index) position ∧ id = drawnId 100 position ∧
        r = { origId := request.msg.getId, output := request.output }

section Guarantees

variable {unmarshal : Bytes → RpcMessage × Option String} {count : ℕ} {balancer : Balancer}

/-- The invariant gives the guarantees. -/
theorem ServingInvariant.guarantees (hinvariant : ServingInvariant unmarshal count balancer)
    (hcount : 0 < count) : RoutingGuarantees unmarshal count balancer where
  accepted := hinvariant.backends.routing.received
  dispatched := hinvariant.backends.routing.conserved
  atRest := fun hquiet ↦ hquiet.nothingKept hinvariant.backends hinvariant.noPanic hcount
  inTurn := fun index hindex round ↦ by
    rw [hinvariant.backends.routing.dealt index hindex]
    exact getElem?_share hindex _ round
  forwarded := fun index _ ↦ (hinvariant.backends.routing.forwarded index).forwarded
  idsDistinct := fun index _ first second hfirst hsecond heq ↦ by
    have hids := (hinvariant.tables index).1.idsLast
    exact drawnId_inj 100 (hfirst.1.trans_le hids) (hsecond.1.trans_le hids) heq
  delivered := fun index _ ↦ (hinvariant.tables index).2
  unread := fun index _ ↦ by
    have hreplies := hinvariant.backends.replies index
    exact ⟨by rw [hreplies.unread], hreplies.looking⟩
  written := fun index ↦ (hinvariant.attended index).written
  noPanic := hinvariant.noPanic
  outstanding := fun index _ id r ↦ by
    rw [(hinvariant.tables index).1.outstanding]
    constructor
    · rintro ⟨position, request, hrequest, hfresh, hid, hr⟩
      have hlt := (List.getElem?_eq_some_iff.mp hrequest).1
      exact ⟨position, request, hrequest, ⟨hlt, hfresh⟩, hid, hr⟩
    · rintro ⟨position, request, hrequest, ⟨-, hfresh⟩, hid, hr⟩
      exact ⟨position, request, hrequest, hfresh, hid, hr⟩

/-- While the clients and the backends stay up, each backend answers each identifier at most once,
and no backend is sent more than `2 ^ 64` requests: each request is forwarded once, to the backend
whose turn it is and under an identifier of its own; each reply is delivered once, to the client
whose request it answers and under the client's identifier; and no lookup fails. -/
theorem routingGuarantees_of_run {actions : List Action} (hcount : 0 < count)
    (hrun : (balancerSystem unmarshal count).RunWhen (fun balancer action ↦ ClientsStay action ∧
      BackendsAnswer unmarshal balancer action ∧ BackendsIdsLast balancer action)
        actions balancer) : RoutingGuarantees unmarshal count balancer := by
  have hinvariant : ServingInvariant unmarshal count balancer :=
    hrun.invariant servingInvariant_initial fun _ _ _ hpermitted hstep hbefore ↦
      hbefore.step hcount hpermitted.1 hpermitted.2.1 hpermitted.2.2 hstep
  exact hinvariant.guarantees hcount

end Guarantees

/-! ### One request, and an identifier that comes around again -/

/-- What the protobuf parser makes of a message with a type and an identifier and nothing else. -/
def parseTypeAndId : Bytes → RpcMessage × Option String
  | [0x08, type, 0x11, b0, b1, b2, b3, b4, b5, b6, b7] =>
    let id : BitVec 64 := BitVec.ofNat 64 (uint32 [b7, b6, b5, b4] * 2 ^ 32 +
      uint32 [b3, b2, b1, b0])
    if type = 1 then ({ type := some .request, id := some id }, none)
    else if type = 2 then ({ type := some .response, id := some id }, none)
    else if type = 3 then ({ type := some .error, id := some id }, none)
    else ({ id := some id }, some "unknown type")
  | _ => ({}, some "not a type and an identifier")

/-- The RESPONSE to the first request a backend is sent. -/
def firstAnswer : Answer where
  position := 0
  message := { type := some .response, id := some 100 }
  frame := frameOf [0x08, 0x02, 0x11, 100, 0, 0, 0, 0, 0, 0, 0]

/-- A REQUEST of a client. -/
def oneRequest : RpcMessage :=
  { type := some .request, id := some 7 }

/-- Its way to the backend. -/
def oneForwarded : List Action :=
  [.client 0 (.message oneRequest), .enqueue 0, .dispatchTake,
    .dispatchSend, .backend 0 .take, .backend 0 .register, .backend 0 .send]

/-- The way of its reply. -/
def oneAnswered : List Action :=
  [.backend 0 (.reply firstAnswer), .backend 0 .decode, .backend 0 .lookup, .deliver 0,
    .client 0 .write]

/-- The guarantees of a run in which that request is forwarded and its reply delivered. -/
theorem routingGuarantees_oneAnswered : ∃ balancer,
    (balancerSystem parseTypeAndId 1).RunWhen (fun balancer action ↦ ClientsStay action ∧
      BackendsAnswer parseTypeAndId balancer action ∧ BackendsIdsLast balancer action)
        (oneForwarded ++ oneAnswered) balancer ∧
      (balancer.clients 0).written = [{ type := some .response, id := some 7 }] ∧
        RoutingGuarantees parseTypeAndId 1 balancer := by
  have hexecutes : ((balancerSystem parseTypeAndId 1).executeWhen (fun balancer action ↦
      ClientsStay action ∧ BackendsAnswer parseTypeAndId balancer action ∧
        BackendsIdsLast balancer action) Balancer.initial (oneForwarded ++ oneAnswered)).map
          (fun balancer ↦ (balancer.clients 0).written) =
            some [{ type := some .response, id := some 7 }] := by
    decide +kernel
  obtain ⟨balancer, hexecute, hwritten⟩ := Option.map_eq_some_iff.mp hexecutes
  have hrun := TransitionSystem.RunWhen.extend .start (fun _ _ ↦ id) hexecute
  rw [List.nil_append] at hrun
  exact ⟨balancer, hrun, hwritten, routingGuarantees_of_run (by decide) hrun⟩

/-- The one backend was sent this many requests and has answered none, and nothing else is going
on. -/
structure Idle (registered : ℕ) (balancer : Balancer) : Prop where
  phase : (balancer.clients 0).phase = .reading
  requests : balancer.requests.queue = [] ∧ balancer.requests.closed = false ∧
    balancer.requests.capacity = 1024
  dispatch : balancer.hand = none ∧ balancer.idx = 0 ∧ balancer.panicked = none
  backend : (balancer.backends 0).requests.queue = [] ∧
    (balancer.backends 0).requests.closed = false ∧
      (balancer.backends 0).requests.capacity = 10 ∧ (balancer.backends 0).sender = .receiving
  registered : (balancer.backends 0).registered.length = registered
  answers : (balancer.backends 0).answers = []

/-- A value goes through an empty open channel. -/
theorem exists_send_receive {Value : Type} {channel : Channel Value} {capacity : ℕ}
    (hchannel : channel.queue = [] ∧ channel.closed = false ∧ channel.capacity = capacity)
    (hcapacity : 0 < capacity) (value : Value) :
    ∃ sent received, channel.send value = .done sent ∧ sent.receive = .value value received ∧
      received.queue = [] ∧ received.closed = false ∧ received.capacity = capacity := by
  obtain ⟨hqueue, hopen, rfl⟩ := hchannel
  obtain ⟨sent, hsend⟩ := Channel.exists_send_eq_done hopen (by rwa [hqueue]) value
  obtain ⟨-, hsentOpen, hsentQueue, hsentCapacity⟩ := Channel.send_eq_done hsend
  rw [hqueue, List.nil_append] at hsentQueue
  obtain ⟨received, hreceive, hreceived⟩ := Channel.exists_receive_eq_value hsentQueue
  obtain ⟨-, hclosed, hsame⟩ := Channel.receive_eq_value hreceive
  exact ⟨sent, received, hsend, hreceive, hreceived, hclosed.trans hsentOpen,
    hsame.trans hsentCapacity⟩

/-- One more request is sent to the backend. -/
theorem Idle.forward {registered : ℕ} {balancer : Balancer} (hidle : Idle registered balancer) :
    ∃ next, (balancerSystem parseTypeAndId 1).executeWhen (fun balancer action ↦
        ClientsStay action ∧ BackendsAnswer parseTypeAndId balancer action) balancer oneForwarded =
          some next ∧ Idle (registered + 1) next := by
  obtain ⟨hhand, hidx, hpanicked⟩ := hidle.dispatch
  obtain ⟨hqueue, hopen, hcapacity, hsender⟩ := hidle.backend
  let request : Request := { msg := oneRequest, output := 0 }
  have htype : oneRequest.getType = .request := rfl
  have hinitialized : oneRequest.isInitialized = true := rfl
  obtain ⟨sent, received, hsend, hreceive, hrequests⟩ :=
    exists_send_receive hidle.requests (by decide) request
  obtain ⟨given, taken, hgive, htake, htakenQueue, htakenOpen, htakenCapacity⟩ :=
    exists_send_receive ⟨hqueue, hopen, hcapacity⟩ (by decide) request
  let client : ClientConn := { balancer.clients 0 with
    received := (balancer.clients 0).received ++ [oneRequest] }
  let backend : BackendConn := { balancer.backends 0 with
    requests := taken
    outstanding := (balancer.backends 0).outstanding.insert (balancer.backends 0).nextId
      { origId := oneRequest.getId, output := 0 }
    nextId := (balancer.backends 0).nextId + 1
    registered := (balancer.backends 0).registered ++ [request]
    sent := (balancer.backends 0).sent ++
      [{ oneRequest with id := some (balancer.backends 0).nextId }] }
  let next : Balancer := { balancer with
    requests := received
    clients := Function.update balancer.clients 0 client
    backends := Function.update balancer.backends 0 backend
    accepted := balancer.accepted ++ [request]
    dispatched := balancer.dispatched ++ [request] }
  refine ⟨next, ?_, ?_⟩
  · simp [oneForwarded, TransitionSystem.executeWhen, balancerSystem, balancerStep, hpanicked,
      ClientsStay, BackendsAnswer, AnswersWell, clientStep, hidle.phase, Balancer.after,
      Balancer.setClient, Balancer.setBackend, htype, hinitialized, hsend, hreceive, hhand, hidx,
      hgive, backendStep, hsender, htake, next, client, backend,
      request]
  · exact {
      phase := by simpa [next, client] using hidle.phase
      requests := hrequests
      dispatch := ⟨hhand, hidx, hpanicked⟩
      backend := by simpa [next, backend] using ⟨htakenQueue, htakenOpen, htakenCapacity, hsender⟩
      registered := by simpa [next, backend] using hidle.registered
      answers := by simpa [next, backend] using hidle.answers }

/-- Any number of requests can be sent to a backend that answers none. -/
theorem exists_idle (registered : ℕ) : ∃ actions balancer,
    (balancerSystem parseTypeAndId 1).RunWhen (fun balancer action ↦
        ClientsStay action ∧ BackendsAnswer parseTypeAndId balancer action) actions balancer ∧
      Idle registered balancer := by
  induction registered with
  | zero =>
    refine ⟨[], _, .start, ?_⟩
    exact ⟨rfl, ⟨rfl, rfl, rfl⟩, ⟨rfl, rfl, rfl⟩, ⟨rfl, rfl, rfl, rfl⟩, rfl, rfl⟩
  | succ registered ih =>
    obtain ⟨actions, balancer, hrun, hidle⟩ := ih
    obtain ⟨next, hexecute, hnext⟩ := hidle.forward
    exact ⟨_, next, hrun.extend (fun _ _ ↦ id) hexecute, hnext⟩

/-- After `2 ^ 64` requests of a backend an identifier comes around again. If the first request
with it is not answered yet, two outstanding requests share it. -/
theorem not_routingGuarantees_of_wrapped_id :
    ¬ ∀ (actions : List Action) (balancer : Balancer),
      (balancerSystem parseTypeAndId 1).RunWhen (fun balancer action ↦
          ClientsStay action ∧ BackendsAnswer parseTypeAndId balancer action) actions balancer →
        RoutingGuarantees parseTypeAndId 1 balancer := by
  intro hall
  obtain ⟨actions, balancer, hrun, hidle⟩ := exists_idle (2 ^ 64 + 1)
  have houtstanding : ∀ position < 2 ^ 64 + 1, Outstanding (balancer.backends 0) position := by
    intro position hposition
    refine ⟨by rwa [hidle.registered], ?_⟩
    rw [hidle.answers]
    simp
  have hsame := (hall actions balancer hrun).idsDistinct 0 (by decide) 0 (2 ^ 64)
    (houtstanding _ (by omega)) (houtstanding _ (by omega))
    (by rw [drawnId_wrap, drawnId_zero])
  omega

end MuduoProtorpc.GoBalancer
