import MuduoProtorpc.Foundation.Termination
import MuduoProtorpc.GoBalancer.Delivery

/-!
# The balancer comes to rest

While all connections stay up, a message of a client takes part in twelve steps at most: it is
decoded, put into the request channel, taken and passed on by `dispatch`, taken, registered and sent
by a backend connection, answered, and its reply is decoded, looked up, delivered and written. Every
step of the balancer is one of these, so a run is no longer than its requests allow
(`length_le_of_requests`).
-/

set_option autoImplicit false
set_option relaxedAutoImplicit false

namespace MuduoProtorpc.GoBalancer

open Foundation

/-! ### What keeps the balancer going -/

/-- Everything stays up, each backend answers each identifier at most once, and no backend is sent
more than `2 ^ 64` requests. -/
def StaysUp (unmarshal : Bytes → RpcMessage × Option String) (balancer : Balancer)
    (action : Action) : Prop :=
  ClientsStay action ∧ BackendsAnswer unmarshal balancer action ∧ BackendsIdsLast balancer action

instance (unmarshal : Bytes → RpcMessage × Option String) (balancer : Balancer)
    (action : Action) : Decidable (StaysUp unmarshal balancer action) :=
  inferInstanceAs (Decidable (_ ∧ _ ∧ _))

/-- What holds of a balancer with `count` backends while everything stays up. -/
structure ProgressInvariant (unmarshal : Bytes → RpcMessage × Option String) (count : ℕ)
    (balancer : Balancer) : Prop extends ServingInvariant unmarshal count balancer where
  outputs : ∀ index, 0 < (balancer.clients index).output.capacity
  others : ∀ index, count ≤ index → (balancer.backends index).receiver = .decoding
  delivered : ∀ delivery ∈ balancer.delivered, delivery.backend < count

section Invariant

variable {unmarshal : Bytes → RpcMessage × Option String} {count : ℕ} {balancer next : Balancer}
  {backend moved : BackendConn} {action : Action}

theorem ProgressInvariant.outputs_step (hinvariant : ProgressInvariant unmarshal count balancer)
    (hmoved : BalancerMoved unmarshal count balancer action next) (index : ℕ) :
    0 < (next.clients index).output.capacity := by
  have hbefore := hinvariant.outputs index
  cases hmoved with
  | @client moving event client hclient =>
    by_cases heq : index = moving
    · subst heq
      simpa [Balancer.setClient, hclient.capacity_eq] using hbefore
    · simpa [Balancer.setClient, heq] using hbefore
  | @enqueue sending msg requests hphase hsend =>
    by_cases heq : index = sending
    · subst heq
      simpa [Balancer.setClient] using hbefore
    · simpa [Balancer.setClient, heq] using hbefore
  | @deliver backend output resp channel hreceiver hsend =>
    obtain ⟨-, -, -, hcapacity⟩ := Channel.send_eq_done hsend
    by_cases heq : index = output
    · subst heq
      simpa [Balancer.setBackend, Balancer.setClient, hcapacity] using hbefore
    · simpa [Balancer.setBackend, Balancer.setClient, heq] using hbefore
  | _ => exact hbefore

/-- Only the backends that there are move. -/
theorem ProgressInvariant.others_step (hinvariant : ProgressInvariant unmarshal count balancer)
    (hmoved : BalancerMoved unmarshal count balancer action next) {index : ℕ}
    (hindex : count ≤ index) : (next.backends index).receiver = .decoding := by
  have hbefore := hinvariant.others index hindex
  cases hmoved with
  | dispatchSend hhand hidx hsend =>
    have hne : index ≠ balancer.idx := by omega
    simpa [Balancer.setBackend, hne] using hbefore
  | @backend moving event backend hmoving hbackend =>
    have hne : index ≠ moving := by omega
    simpa [Balancer.setBackend, hne] using hbefore
  | @deliver moving output resp channel hreceiver hsend =>
    by_cases heq : index = moving
    · subst heq
      simp [Balancer.setBackend]
    · simpa [Balancer.setBackend, Balancer.setClient, heq] using hbefore
  | _ => exact hbefore

theorem ProgressInvariant.delivered_step (hinvariant : ProgressInvariant unmarshal count balancer)
    (hmoved : BalancerMoved unmarshal count balancer action next) :
    ∀ delivery ∈ next.delivered, delivery.backend < count := by
  have hbefore := hinvariant.delivered
  cases hmoved with
  | @deliver index output resp channel hreceiver hsend =>
    intro delivery hdelivery
    rcases List.mem_append.mp hdelivery with hold | hnew
    · exact hbefore delivery hold
    · obtain rfl := List.mem_singleton.mp hnew
      by_contra hbeyond
      have hdecoding := hinvariant.others index (Nat.le_of_not_lt hbeyond)
      rw [hreceiver] at hdecoding
      cases hdecoding
  | _ => exact hbefore

/-- No step panics, and every step keeps the invariant. -/
theorem ProgressInvariant.step (hinvariant : ProgressInvariant unmarshal count balancer)
    (hcount : 0 < count) (hstays : StaysUp unmarshal balancer action)
    (hstep : balancerStep unmarshal count balancer action = some next) :
    BalancerMoved unmarshal count balancer action next ∧
      ProgressInvariant unmarshal count next := by
  obtain ⟨hclients, hanswers, hids⟩ := hstays
  have hserving := hinvariant.toServingInvariant.step hcount hclients hanswers hids hstep
  obtain ⟨-, hmoved | ⟨text, -, rfl⟩⟩ := balancer_cases hstep
  · exact ⟨hmoved, hserving, hinvariant.outputs_step hmoved,
      fun _ ↦ hinvariant.others_step hmoved, hinvariant.delivered_step hmoved⟩
  · exact absurd hserving.noPanic (by simp)

theorem progressInvariant_initial : ProgressInvariant unmarshal count Balancer.initial where
  toServingInvariant := servingInvariant_initial
  outputs := fun _ ↦ Nat.succ_pos 9
  others := fun _ _ ↦ rfl
  delivered := fun _ hdelivery ↦ by cases hdelivery

theorem progressInvariant_of_run {actions : List Action} (hcount : 0 < count)
    (hrun : (balancerSystem unmarshal count).RunWhen (StaysUp unmarshal) actions balancer) :
    ProgressInvariant unmarshal count balancer :=
  hrun.invariant progressInvariant_initial fun _ _ _ hstays hstep hbefore ↦
    (hbefore.step hcount hstays hstep).2

end Invariant

/-! ### How many steps there are -/

/-- How many replies a reading goroutine is about to deliver. -/
def ReplyPhase.inHand : ReplyPhase → ℕ
  | .delivering .. => 1
  | _ => 0

/-- What the requests and the replies at a client can still cause. -/
def ClientConn.work (client : ClientConn) : ℕ :=
  11 * client.phase.hand.length + client.output.queue.length

/-- What the requests and the replies at a backend can still cause: being taken, registered, sent,
answered, decoded, looked up, delivered and written. -/
def BackendConn.work (backend : BackendConn) : ℕ :=
  8 * backend.requests.queue.length + 7 * backend.sender.hand.length +
    6 * backend.sender.message.length + 5 * (backend.sent.length - backend.answers.length) +
      4 * (backend.answers.length - backend.handled - backend.receiver.ahead) +
        3 * backend.receiver.ahead + 2 * backend.receiver.inHand

/-- What can still happen without a new request, for the clients below a bound. -/
def Balancer.work (bound count : ℕ) (balancer : Balancer) : ℕ :=
  ∑ index ∈ Finset.range bound, (balancer.clients index).work +
    10 * balancer.requests.queue.length + 9 * balancer.hand.toList.length +
      ∑ index ∈ Finset.range count, (balancer.backends index).work

/-- A client has sent something. -/
def IsRequest : Action → Bool
  | .client _ (.message _) => true
  | _ => false

/-- The client that moves is below a bound. -/
def Below (bound : ℕ) : Action → Prop
  | .client index _ | .enqueue index => index < bound
  | _ => True

section Work

variable {unmarshal : Bytes → RpcMessage × Option String} {count bound : ℕ}
  {balancer next : Balancer} {backend moved : BackendConn} {action : Action}

/-- No request is answered twice. -/
theorem nodup_positions (hreplies : ReplyInvariant unmarshal backend) :
    (backend.answers.map Answer.position).Nodup := by
  refine List.Nodup.of_map (fun position ↦ some (drawnId (100 : BitVec 64) position)) ?_
  rw [List.map_map]
  have hids : backend.answers.map (fun answer ↦ answer.message.id) = backend.answers.map
      ((fun position ↦ some (drawnId (100 : BitVec 64) position)) ∘ Answer.position) :=
    List.map_congr_left fun answer hanswer ↦ (hreplies.genuine answer hanswer).2.2
  rw [← hids]
  exact hreplies.once

/-- No more replies than requests sent. -/
theorem length_answers_le (hready : BackendReady backend)
    (hreplies : ReplyInvariant unmarshal backend) :
    backend.answers.length ≤ backend.sent.length := by
  have hnodup := nodup_positions hreplies
  have hsubset : backend.answers.map Answer.position ⊆ List.range backend.sent.length := by
    intro position hposition
    obtain ⟨answer, hanswer, rfl⟩ := List.mem_map.mp hposition
    exact List.mem_range.mpr (hready.answered answer hanswer)
  have hlength := (hnodup.subperm hsubset).length_le
  rwa [List.length_map, List.length_range] at hlength

/-- A step of a backend connection leaves one thing less to do. -/
theorem BackendMoved.work_lt {event : BackendEvent}
    (hmoved : BackendMoved unmarshal backend event moved)
    (hready : BackendReady backend) (hreplies : ReplyInvariant unmarshal backend)
    (hmovedReady : BackendReady moved) (hmovedReplies : ReplyInvariant unmarshal moved)
    (hanswers : AnswersWell unmarshal backend event) : moved.work + 1 ≤ backend.work := by
  have hle := length_answers_le hready hreplies
  have hmovedLe := length_answers_le hmovedReady hmovedReplies
  cases hmoved with
  | take hsender hreceive =>
    obtain ⟨hqueue, -, -⟩ := Channel.receive_eq_value hreceive
    simp only [BackendConn.work, hsender, hqueue, SendPhase.hand, SendPhase.message,
      List.length_cons, List.length_nil]
    omega
  | finish hsender hreceive => exact absurd rfl hmovedReady.running
  | register hsender =>
    simp only [BackendConn.work, hsender, SendPhase.hand, SendPhase.message, List.length_cons,
      List.length_nil]
    omega
  | send hsender =>
    simp only [BackendConn.work, hsender, SendPhase.hand, SendPhase.message, List.length_cons,
      List.length_nil, List.length_append]
    omega
  | reply hended =>
    have hhandled := hmovedReplies.handled
    have hahead : backend.handled + backend.receiver.ahead ≤ backend.answers.length := by
      cases hreceiver : backend.receiver with
      | looking resp =>
        obtain ⟨answer, hanswer, -⟩ := hreplies.looking resp hreceiver
        exact (List.getElem?_eq_some_iff.mp hanswer).1
      | _ => exact hreplies.handled
    simp only [List.length_append, List.length_singleton] at hmovedLe
    simp only [BackendConn.work, List.length_append, List.length_singleton]
    omega
  | hangUp => exact hanswers.elim
  | decode hreceiver hdecode =>
    obtain ⟨answer, hanswer, -⟩ := hmovedReplies.looking _ rfl
    have hlt := (List.getElem?_eq_some_iff.mp hanswer).1
    simp only [BackendConn.work, hreceiver, ReplyPhase.ahead, ReplyPhase.inHand] at hlt ⊢
    omega
  | decodeFailed hreceiver hdecode hclose =>
    obtain ⟨-, hclosed, -, -⟩ := Channel.close_eq_done hclose
    have hopen := hmovedReplies.requestsOpen
    exact absurd (hclosed.symm.trans hopen) (by decide)
  | lookup hreceiver hfind =>
    obtain ⟨answer, hanswer, -⟩ := hreplies.looking _ hreceiver
    have hlt := (List.getElem?_eq_some_iff.mp hanswer).1
    simp only [BackendConn.work, hreceiver, ReplyPhase.ahead, ReplyPhase.inHand]
    omega

/-- A client's request is eleven steps more; every other step of a client that stays is one of the
steps to be done. -/
theorem ClientMoved.work_le {client other : ClientConn} {event : ClientEvent}
    (hmoved : ClientMoved client event other) (hphase : other.phase ≠ .leaving)
    (hwriting : other.writing = true) (hrunning : client.phase ≠ .leaving) :
    (∃ msg, event = .message msg ∧ other.work = client.work + 11) ∨
      other.work + 1 ≤ client.work := by
  cases hmoved with
  | wrongType hreading htype => exact absurd rfl hphase
  | @request msg hreading htype hinitialized =>
    refine Or.inl ⟨msg, rfl, ?_⟩
    simp only [ClientConn.work, hreading, ReadPhase.hand, List.length_cons, List.length_nil]
    omega
  | failure hreading => exact absurd rfl hphase
  | closeOutput hleaving hclose => exact absurd hleaving hrunning
  | write hwriting hreceive =>
    obtain ⟨hqueue, -, -⟩ := Channel.receive_eq_value hreceive
    refine Or.inr ?_
    simp only [ClientConn.work, hqueue, List.length_cons]
    omega
  | writeFailure hwriting hreceive => cases hwriting
  | writerDone hwriting hreceive => cases hwriting

/-- A request is twelve steps, and every step is one of them. -/
theorem BalancerMoved.work_le (hmoved : BalancerMoved unmarshal count balancer action next)
    (hbefore : ProgressInvariant unmarshal count balancer)
    (hafter : ProgressInvariant unmarshal count next)
    (hanswers : BackendsAnswer unmarshal balancer action) (hbelow : Below bound action) :
    next.work bound count + 1 ≤ balancer.work bound count + if IsRequest action then 12 else 0 := by
  cases hmoved with
  | @client index event client hclient =>
    have hsum := sum_weight_update (Finset.mem_range.mpr hbelow) balancer.clients client
      ClientConn.work
    have hattended := hafter.attended index
    simp only [Balancer.setClient, Function.update_self] at hattended
    have hwork := hclient.work_le hattended.reading.1 hattended.writing
      (hbefore.attended index).reading.1
    simp only [Balancer.work, Balancer.setClient]
    rcases hwork with ⟨msg, rfl, hmore⟩ | hless
    · simp only [IsRequest, if_true]
      omega
    · omega
  | @enqueue index msg requests hphase hsend =>
    have hsum := sum_weight_update (Finset.mem_range.mpr hbelow) balancer.clients
      { balancer.clients index with phase := .reading } ClientConn.work
    obtain ⟨-, -, hqueue, -⟩ := Channel.send_eq_done hsend
    have hold : (balancer.clients index).work =
        11 + (balancer.clients index).output.queue.length := by
      simp [ClientConn.work, hphase, ReadPhase.hand]
    have hnew : ClientConn.work { balancer.clients index with phase := .reading } =
        (balancer.clients index).output.queue.length := by
      simp [ClientConn.work, ReadPhase.hand]
    dsimp only at hsum hnew
    simp only [Balancer.work, Balancer.setClient, hqueue, List.length_append, List.length_singleton]
    omega
  | dispatchTake hhand hreceive =>
    obtain ⟨hqueue, -, -⟩ := Channel.receive_eq_value hreceive
    simp only [Balancer.work, hhand, hqueue, Option.toList, List.length_cons, List.length_nil]
    omega
  | @dispatchSend r requests hhand hidx hsend =>
    have hsum := sum_weight_update (Finset.mem_range.mpr hidx) balancer.backends
      { balancer.backends balancer.idx with requests := requests } BackendConn.work
    obtain ⟨-, -, hqueue, -⟩ := Channel.send_eq_done hsend
    have hmore : BackendConn.work { balancer.backends balancer.idx with requests := requests } =
        (balancer.backends balancer.idx).work + 8 := by
      simp only [BackendConn.work, hqueue, List.length_append, List.length_singleton]
      omega
    dsimp only at hsum hmore
    simp only [Balancer.work, Balancer.setBackend, hhand, Option.toList, List.length_cons,
      List.length_nil]
    omega
  | @backend index event backend hindex hbackend =>
    have hsum := sum_weight_update (Finset.mem_range.mpr hindex) balancer.backends backend
      BackendConn.work
    have hready := hafter.backends.ready index
    have hreplies := hafter.backends.replies index
    simp only [Balancer.setBackend, Function.update_self] at hready hreplies
    have hless := hbackend.work_lt (hbefore.backends.ready index)
      (hbefore.backends.replies index) hready hreplies hanswers
    simp only [Balancer.work, Balancer.setBackend]
    omega
  | @deliver index output resp channel hreceiver hsend =>
    have hindex : index < count := by
      by_contra hbeyond
      have hdecoding := hbefore.others index (Nat.le_of_not_lt hbeyond)
      rw [hreceiver] at hdecoding
      cases hdecoding
    have hbackends := sum_weight_update (Finset.mem_range.mpr hindex) balancer.backends
      { balancer.backends index with receiver := .decoding } BackendConn.work
    have hless : BackendConn.work { balancer.backends index with receiver := .decoding } + 2 =
        (balancer.backends index).work := by
      simp only [BackendConn.work, hreceiver, ReplyPhase.ahead, ReplyPhase.inHand]
    obtain ⟨-, -, hqueue, -⟩ := Channel.send_eq_done hsend
    have hclients : ∑ other ∈ Finset.range bound, (Function.update balancer.clients output
        { balancer.clients output with output := channel } other).work ≤
          ∑ other ∈ Finset.range bound, (balancer.clients other).work + 1 := by
      by_cases hlt : output < bound
      · have hsum := sum_weight_update (Finset.mem_range.mpr hlt) balancer.clients
          { balancer.clients output with output := channel } ClientConn.work
        have hmore : ClientConn.work { balancer.clients output with output := channel } =
            (balancer.clients output).work + 1 := by
          simp only [ClientConn.work, hqueue, List.length_append, List.length_singleton]
          omega
        omega
      · refine (Finset.sum_congr rfl fun other hother ↦ ?_).le.trans (Nat.le_succ _)
        have hne : other ≠ output := by
          rintro rfl
          exact hlt (Finset.mem_range.mp hother)
        rw [Function.update_of_ne hne]
    dsimp only at hbackends hless hclients
    simp only [Balancer.work, Balancer.setBackend, Balancer.setClient]
    omega

/-- What has happened and what can still happen is twelve steps a request at most. -/
theorem length_add_work_le {actions : List Action} (hcount : 0 < count)
    (hbelow : ∀ action ∈ actions, Below bound action)
    (hrun : (balancerSystem unmarshal count).RunWhen (StaysUp unmarshal) actions balancer) :
    actions.length + balancer.work bound count ≤ 12 * actions.countP IsRequest := by
  induction hrun with
  | start =>
    simp [Balancer.work, balancerSystem, Balancer.initial, ClientConn.work, BackendConn.work,
      ClientConn.initial, BackendConn.initial, Channel.make, ReadPhase.hand, SendPhase.hand,
      SendPhase.message, ReplyPhase.ahead, ReplyPhase.inHand]
  | @step actions state next action hrun hstays hstep ih =>
    have hbefore := progressInvariant_of_run hcount hrun
    obtain ⟨hmoved, hafter⟩ := hbefore.step hcount hstays hstep
    have hearlier := ih fun other hother ↦ hbelow other (List.mem_append_left _ hother)
    have hwork := hmoved.work_le hbefore hafter hstays.2.1 (hbelow action (by simp))
    rw [List.length_append, List.length_singleton, List.countP_append, List.countP_singleton]
    split_ifs at hwork ⊢ <;> omega

theorem Below.mono {other : ℕ} (hle : bound ≤ other) (hbelow : Below bound action) :
    Below other action := by
  cases action with
  | client index event => exact Nat.lt_of_lt_of_le hbelow hle
  | enqueue index => exact Nat.lt_of_lt_of_le hbelow hle
  | _ => trivial

theorem exists_below (actions : List Action) : ∃ bound, ∀ action ∈ actions, Below bound action := by
  induction actions with
  | nil => exact ⟨0, fun _ haction ↦ by cases haction⟩
  | cons first rest ih =>
    obtain ⟨bound, hrest⟩ := ih
    obtain ⟨own, hfirst⟩ : ∃ own, Below own first := by
      cases first with
      | client index event => exact ⟨index + 1, Nat.lt_succ_self index⟩
      | enqueue index => exact ⟨index + 1, Nat.lt_succ_self index⟩
      | _ => exact ⟨0, trivial⟩
    refine ⟨max own bound, fun action haction ↦ ?_⟩
    rcases List.mem_cons.mp haction with rfl | hlater
    · exact hfirst.mono (Nat.le_max_left own bound)
    · exact (hrest action hlater).mono (Nat.le_max_right own bound)

/-- While everything stays up, a run has at most twelve steps for each message from a client. -/
theorem length_le_of_requests {actions : List Action} (hcount : 0 < count)
    (hrun : (balancerSystem unmarshal count).RunWhen (StaysUp unmarshal) actions balancer) :
    actions.length ≤ 12 * actions.countP IsRequest := by
  obtain ⟨bound, hbelow⟩ := exists_below actions
  exact (Nat.le_add_right _ _).trans (length_add_work_le hcount hbelow hrun)

end Work

end MuduoProtorpc.GoBalancer
