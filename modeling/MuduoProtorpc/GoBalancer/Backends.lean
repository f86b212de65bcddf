import MuduoProtorpc.GoBalancer.Replies

/-!
# What the balancer does as long as its backends stay up

`BackendsInvariant` holds whatever the clients do, as long as the backends stay up and answer each
identifier at most once. The goroutines between a client and a backend wait for each other: a read
loop for room in the request channel, `dispatch` for room at the backend whose turn it is. This
holds nothing back: when no goroutine can do anything, every request that was received is
dispatched, and sent to its backend (`AtRest.nothingKept`).
-/

set_option autoImplicit false
set_option relaxedAutoImplicit false

namespace MuduoProtorpc.GoBalancer

open Foundation

/-! ### The invariant -/

/-- The replies of a backend that were put into an output channel. -/
def Balancer.deliveredBy (balancer : Balancer) (index : ℕ) : List Delivery :=
  balancer.delivered.filter fun delivery ↦ delivery.backend = index

/-- A backend connection that can go on: its channel has a buffer, its sending loop has not ended,
and its replies are to requests that were sent. -/
structure BackendReady (backend : BackendConn) : Prop where
  room : 0 < backend.requests.capacity
  running : backend.sender ≠ .finished
  answered : ∀ answer ∈ backend.answers, answer.position < backend.sent.length

/-- The part of the invariant that needs the backends to stay up, and nothing else. -/
structure BackendsInvariant (unmarshal : Bytes → RpcMessage × Option String) (count : ℕ)
    (balancer : Balancer) : Prop where
  routing : RoutingInvariant count balancer
  replies : ∀ index, ReplyInvariant unmarshal (balancer.backends index)
  room : 0 < balancer.requests.capacity
  ready : ∀ index, BackendReady (balancer.backends index)

section Balancer

variable {unmarshal : Bytes → RpcMessage × Option String} {count : ℕ} {balancer next : Balancer}
  {backend moved : BackendConn} {action : Action}

theorem BackendReady.step (hready : BackendReady backend)
    (hreplies : ReplyInvariant unmarshal backend) {event : BackendEvent}
    (hanswers : AnswersWell unmarshal backend event)
    (hmoved : BackendMoved unmarshal backend event moved) : BackendReady moved := by
  cases hmoved with
  | take hsender hreceive =>
    obtain ⟨-, -, hcapacity⟩ := Channel.receive_eq_value hreceive
    exact ⟨by rw [hcapacity]; exact hready.room, by simp, hready.answered⟩
  | finish hsender hreceive =>
    have hclosed := (Channel.receive_eq_drained hreceive).1
    rw [hreplies.requestsOpen] at hclosed
    cases hclosed
  | register hsender => exact ⟨hready.room, by simp, hready.answered⟩
  | send hsender =>
    refine ⟨hready.room, by simp, fun answer hanswer ↦ ?_⟩
    rw [List.length_append]
    exact (hready.answered answer hanswer).trans_le (Nat.le_add_right _ _)
  | @reply answer hended =>
    refine ⟨hready.room, hready.running, fun other hother ↦ ?_⟩
    rcases List.mem_append.mp hother with hold | hnew
    · exact hready.answered other hold
    · obtain rfl := List.mem_singleton.mp hnew
      obtain ⟨msg, hsent, -⟩ := Option.map_eq_some_iff.mp hanswers.2.2.1
      exact (List.getElem?_eq_some_iff.mp hsent).1
  | hangUp => exact hanswers.elim
  | decode hreceiver hdecode => exact ⟨hready.room, hready.running, hready.answered⟩
  | decodeFailed hreceiver hdecode hclose =>
    obtain ⟨-, -, -, hcapacity⟩ := Channel.close_eq_done hclose
    exact ⟨by rw [hcapacity]; exact hready.room, hready.running, hready.answered⟩
  | lookup hreceiver hfind => exact ⟨hready.room, hready.running, hready.answered⟩

/-- What holds of every backend connection, and is kept by the steps of one, by a request more in
its channel and by the delivery of the reply in hand, holds after every step. -/
theorem BalancerMoved.backends_of (holds : ℕ → BackendConn → List Delivery → Prop)
    (hmoved : BalancerMoved unmarshal count balancer action next)
    (hbefore : ∀ index, holds index (balancer.backends index) (balancer.deliveredBy index))
    (hrequests : ∀ index requests r, (balancer.backends index).requests.send r = .done requests →
      holds index { balancer.backends index with requests := requests }
        (balancer.deliveredBy index))
    (hbackend : ∀ index event moved, action = .backend index event →
      BackendMoved unmarshal (balancer.backends index) event moved →
        holds index moved (balancer.deliveredBy index))
    (hdeliver : ∀ index resp output,
      (balancer.backends index).receiver = .delivering resp output →
        holds index { balancer.backends index with receiver := .decoding }
          (balancer.deliveredBy index ++ [
            { backend := index, output := output, resp := resp }])) :
    ∀ index, holds index (next.backends index) (next.deliveredBy index) := by
  intro other
  cases hmoved with
  | @dispatchSend r requests hhand hidx hsend =>
    by_cases heq : other = balancer.idx
    · subst heq
      simpa [Balancer.setBackend, Balancer.deliveredBy] using
        hrequests balancer.idx requests r hsend
    · simpa [Balancer.setBackend, Balancer.deliveredBy, heq] using hbefore other
  | @backend index event moved hindex hmoved =>
    by_cases heq : other = index
    · subst heq
      simpa [Balancer.setBackend, Balancer.deliveredBy] using hbackend other event moved rfl hmoved
    · simpa [Balancer.setBackend, Balancer.deliveredBy, heq] using hbefore other
  | @deliver index output resp channel hreceiver hsend =>
    by_cases heq : other = index
    · subst heq
      simpa [Balancer.setBackend, Balancer.setClient, Balancer.deliveredBy] using
        hdeliver other resp output hreceiver
    · have hne : index ≠ other := fun hindex ↦ heq hindex.symm
      simpa [Balancer.setBackend, Balancer.setClient, Balancer.deliveredBy, heq, hne] using
        hbefore other
  | _ => exact hbefore other

theorem BackendsInvariant.ready_step (hinvariant : BackendsInvariant unmarshal count balancer)
    (hanswers : BackendsAnswer unmarshal balancer action)
    (hmoved : BalancerMoved unmarshal count balancer action next) :
    ∀ index, BackendReady (next.backends index) := by
  refine hmoved.backends_of (fun _ backend _ ↦ BackendReady backend) hinvariant.ready ?_ ?_ ?_
  · intro index requests r hsend
    have hbefore := hinvariant.ready index
    obtain ⟨-, -, -, hcapacity⟩ := Channel.send_eq_done hsend
    exact ⟨by rw [hcapacity]; exact hbefore.room, hbefore.running, hbefore.answered⟩
  · rintro index event moved rfl hbackend
    exact (hinvariant.ready index).step (hinvariant.replies index) hanswers hbackend
  · intro index resp output hreceiver
    have hbefore := hinvariant.ready index
    exact ⟨hbefore.room, hbefore.running, hbefore.answered⟩

theorem BackendsInvariant.room_step (hinvariant : BackendsInvariant unmarshal count balancer)
    (hmoved : BalancerMoved unmarshal count balancer action next) :
    0 < next.requests.capacity := by
  have hbefore := hinvariant.room
  cases hmoved with
  | enqueue hphase hsend =>
    obtain ⟨-, -, -, hcapacity⟩ := Channel.send_eq_done hsend
    rwa [← hcapacity] at hbefore
  | dispatchTake hhand hreceive =>
    obtain ⟨-, -, hcapacity⟩ := Channel.receive_eq_value hreceive
    rwa [← hcapacity] at hbefore
  | _ => exact hbefore

/-- Every step that goes through keeps the backends' part. -/
theorem BackendsInvariant.step (hinvariant : BackendsInvariant unmarshal count balancer)
    (hanswers : BackendsAnswer unmarshal balancer action) (hrouting : RoutingInvariant count next)
    (hmoved : BalancerMoved unmarshal count balancer action next) :
    BackendsInvariant unmarshal count next := by
  refine ⟨hrouting, hmoved.backends_of (fun _ backend _ ↦ ReplyInvariant unmarshal backend)
    hinvariant.replies ?_ ?_ ?_, hinvariant.room_step hmoved, hinvariant.ready_step hanswers hmoved⟩
  · intro index requests r hsend
    have hbefore := hinvariant.replies index
    exact ⟨hbefore.genuine, hbefore.once, hbefore.present, hbefore.unread, hbefore.looking,
      hbefore.handled, (Channel.send_eq_done hsend).2.1⟩
  · rintro index event moved rfl hbackend
    exact (hinvariant.replies index).step (hinvariant.routing.forwarded index) hanswers hbackend
  · intro index resp output hreceiver
    have hbefore := hinvariant.replies index
    have hunread := hbefore.unread
    rw [hreceiver] at hunread
    exact ⟨hbefore.genuine, hbefore.once, hbefore.present, hunread,
      (fun resp hlooking ↦ by cases hlooking), hbefore.handled, hbefore.requestsOpen⟩

theorem backendsInvariant_initial : BackendsInvariant unmarshal count Balancer.initial where
  routing := routingInvariant_initial
  replies := fun _ ↦ replyInvariant_initial
  room := Nat.succ_pos 1023
  ready := fun _ ↦ ⟨Nat.succ_pos 9, by simp [Balancer.initial, BackendConn.initial],
    fun _ hanswer ↦ by cases hanswer⟩

/-- The panics left when the backends stay up: those of an output channel that was closed. -/
theorem BackendsInvariant.panics (hinvariant : BackendsInvariant unmarshal count balancer)
    (hcount : 0 < count) (hanswers : BackendsAnswer unmarshal balancer action) {text : String}
    (hpanics : BalancerPanics unmarshal count balancer action text) :
    ∃ index, (balancer.clients index).output.closed = true ∧
      ((balancer.clients index).phase = .leaving ∨
        ∃ backend resp, (balancer.backends backend).receiver = .delivering resp index) := by
  cases hpanics with
  | @closeOutput index event text hphase hclosed => exact ⟨index, hclosed, Or.inl hphase⟩
  | enqueue hclosed =>
    rw [hinvariant.routing.requestsOpen] at hclosed
    cases hclosed
  | noBackend hidx =>
    have hlt := Nat.mod_lt balancer.dispatched.length hcount
    rw [← hinvariant.routing.turn] at hlt
    omega
  | dispatchSend hidx hclosed =>
    rw [(hinvariant.replies _).requestsOpen] at hclosed
    cases hclosed
  | backend hindex hbackend => exact absurd hbackend ((hinvariant.replies _).not_panics hanswers)
  | @deliver index output resp text hreceiver hclosed =>
    exact ⟨output, hclosed, Or.inr ⟨index, resp, hreceiver⟩⟩

end Balancer

/-! ### Nothing is kept back -/

/-- What a client, a backend or the network does. -/
def FromOutside : Action → Prop
  | .client _ (.message _) | .client _ .failure | .client _ .writeFailure => True
  | .backend _ (.reply _) | .backend _ .hangUp | .backend _ (.sendFailure _) => True
  | _ => False

/-- No goroutine of the balancer can do anything. -/
def AtRest (unmarshal : Bytes → RpcMessage × Option String) (count : ℕ) (balancer : Balancer) :
    Prop :=
  ∀ action, balancerStep unmarshal count balancer action ≠ none → FromOutside action

/-- What the clients have sent is dispatched, and what was dispatched to a backend is sent to it. -/
structure NothingKept (count : ℕ) (balancer : Balancer) : Prop where
  received : ∀ index, (balancer.clients index).received =
    (balancer.accepted.filter fun request ↦ request.output = index).map Request.msg
  dispatched : balancer.dispatched = balancer.accepted
  sent : ∀ index < count, (balancer.backends index).sent =
    (share count index balancer.accepted).mapIdx forward

section AtRest

variable {unmarshal : Bytes → RpcMessage × Option String} {count : ℕ} {balancer : Balancer}

theorem backend_step_ne_none (hnone : balancer.panicked = none) {index : ℕ} (hindex : index < count)
    {event : BackendEvent} {moved : BackendConn}
    (hbackend : backendStep unmarshal (balancer.backends index) event = .done moved) :
    balancerStep unmarshal count balancer (.backend index event) ≠ none := by
  simp [balancerStep, hnone, hindex, hbackend, Balancer.after]

/-- What a backend connection was given is sent. -/
theorem AtRest.sender_eq (hquiet : AtRest unmarshal count balancer)
    (hinvariant : BackendsInvariant unmarshal count balancer) (hnone : balancer.panicked = none)
    {index : ℕ} (hindex : index < count) :
    (balancer.backends index).sender = .receiving ∧
      (balancer.backends index).requests.queue = [] := by
  have hstuck : ∀ event moved, backendStep unmarshal (balancer.backends index) event = .done moved →
      FromOutside (.backend index event) := fun event moved hmoved ↦
    hquiet _ (backend_step_ne_none hnone hindex hmoved)
  cases hsender : (balancer.backends index).sender with
  | receiving =>
    refine ⟨rfl, ?_⟩
    cases hqueue : (balancer.backends index).requests.queue with
    | nil => rfl
    | cons request rest =>
      obtain ⟨requests, hreceive, -⟩ := Channel.exists_receive_eq_value hqueue
      exact (hstuck .take _ (by simp only [backendStep, hsender, hreceive]; rfl)).elim
  | registering request =>
    exact (hstuck .register _ (by simp only [backendStep, hsender]; rfl)).elim
  | sending msg => exact (hstuck .send _ (by simp only [backendStep, hsender]; rfl)).elim
  | finished => exact absurd hsender (hinvariant.ready index).running

/-- What `dispatch` has in hand, or can take, is passed on. -/
theorem AtRest.dispatch_eq (hquiet : AtRest unmarshal count balancer)
    (hinvariant : BackendsInvariant unmarshal count balancer) (hnone : balancer.panicked = none)
    (hcount : 0 < count) :
    balancer.hand = none ∧ balancer.requests.queue = [] := by
  cases hhand : balancer.hand with
  | some r =>
    have hidx : balancer.idx < count := by
      rw [hinvariant.routing.turn]
      exact Nat.mod_lt _ hcount
    have hroom : (balancer.backends balancer.idx).requests.queue.length <
        (balancer.backends balancer.idx).requests.capacity := by
      rw [(hquiet.sender_eq hinvariant hnone hidx).2]
      exact (hinvariant.ready balancer.idx).room
    obtain ⟨requests, hsend⟩ := Channel.exists_send_eq_done
      (hinvariant.replies balancer.idx).requestsOpen hroom r
    have hstep : balancerStep unmarshal count balancer .dispatchSend ≠ none := by
      simp [balancerStep, hnone, hhand, Nat.not_le.mpr hidx, hsend, Balancer.after]
    exact (hquiet _ hstep).elim
  | none =>
    refine ⟨rfl, ?_⟩
    cases hqueue : balancer.requests.queue with
    | nil => rfl
    | cons request rest =>
      obtain ⟨requests, hreceive, -⟩ := Channel.exists_receive_eq_value hqueue
      have hstep : balancerStep unmarshal count balancer .dispatchTake ≠ none := by
        simp [balancerStep, hnone, hhand, hreceive]
      exact (hquiet _ hstep).elim

/-- What a read loop has in hand is in the request channel. -/
theorem AtRest.hand_eq (hquiet : AtRest unmarshal count balancer)
    (hinvariant : BackendsInvariant unmarshal count balancer) (hnone : balancer.panicked = none)
    (hcount : 0 < count) (index : ℕ) : (balancer.clients index).phase.hand = [] := by
  cases hphase : (balancer.clients index).phase with
  | sending msg =>
    have hroom : balancer.requests.queue.length < balancer.requests.capacity := by
      rw [(hquiet.dispatch_eq hinvariant hnone hcount).2]
      exact hinvariant.room
    obtain ⟨requests, hsend⟩ := Channel.exists_send_eq_done
      hinvariant.routing.requestsOpen hroom { msg := msg, output := index }
    have hstep : balancerStep unmarshal count balancer (.enqueue index) ≠ none := by
      simp [balancerStep, hnone, hphase, hsend, Balancer.after]
    exact (hquiet _ hstep).elim
  | _ => rfl

/-- When no goroutine can do anything, no request is kept back. -/
theorem AtRest.nothingKept (hquiet : AtRest unmarshal count balancer)
    (hinvariant : BackendsInvariant unmarshal count balancer) (hnone : balancer.panicked = none)
    (hcount : 0 < count) : NothingKept count balancer := by
  obtain ⟨hhand, hqueue⟩ := hquiet.dispatch_eq hinvariant hnone hcount
  have hdispatched : balancer.dispatched = balancer.accepted := by
    rw [hinvariant.routing.conserved, hhand, hqueue, Option.toList, List.append_nil,
      List.append_nil]
  refine ⟨fun index ↦ ?_, hdispatched, fun index hindex ↦ ?_⟩
  · rw [hinvariant.routing.received index, hquiet.hand_eq hinvariant hnone hcount, List.append_nil]
  · obtain ⟨hsender, hrequests⟩ := hquiet.sender_eq hinvariant hnone hindex
    have hdealt := hinvariant.routing.dealt index hindex
    have hsent := (hinvariant.routing.forwarded index).forwarded
    have hhand : SendPhase.receiving.hand = [] := rfl
    have hmessage : SendPhase.receiving.message = [] := rfl
    rw [BackendConn.given, hsender, hrequests, hdispatched, hhand, List.append_nil,
      List.append_nil] at hdealt
    rw [hsender, hmessage, List.append_nil, hdealt] at hsent
    exact hsent

end AtRest

end MuduoProtorpc.GoBalancer
