import MuduoProtorpc.GoBalancer.Routing

/-!
# Where the replies of the backends go

`ReplyInvariant` holds of a backend connection as long as it stays up, the backend answers each
identifier it received at most once, and the identifiers last, which they do for `2 ^ 64` requests.
The table then holds exactly the requests that were given an identifier and whose reply was not
looked up, what is on the connection decodes to the replies that were not read, and every reply that
is read finds its entry.

`DeliveryInvariant` relates the replies that were looked up to what was put into output channels:
each is delivered once, in order, to the client of the request it answers, under the client's own
identifier.
-/

set_option autoImplicit false
set_option relaxedAutoImplicit false

namespace MuduoProtorpc.GoBalancer

open Foundation

/-! ### Backends that answer -/

/-- The frame is a RESPONSE or an ERROR to a request that was sent, under an identifier that was not
answered before. -/
def AnswersOnce (unmarshal : Bytes → RpcMessage × Option String) (backend : BackendConn)
    (answer : Answer) : Prop :=
  decode unmarshal { available := answer.frame, ended := false } =
      .message answer.message { available := [], ended := false } ∧
    (answer.message.type = some .response ∨ answer.message.type = some .error) ∧
      backend.sent[answer.position]?.map RpcMessage.id = some answer.message.id ∧
        ∀ earlier ∈ backend.answers, earlier.message.id ≠ answer.message.id

/-- The connection stays up, and the backend answers each identifier at most once. -/
def AnswersWell (unmarshal : Bytes → RpcMessage × Option String) (backend : BackendConn) :
    BackendEvent → Prop
  | .reply answer => AnswersOnce unmarshal backend answer
  | .hangUp => False
  | .sendFailure _ => False
  | _ => True

/-- No identifier is drawn after `2 ^ 64` others. -/
def IdsLast (backend : BackendConn) : BackendEvent → Prop
  | .register => backend.registered.length < 2 ^ 64
  | _ => True

/-- Every backend stays up and answers each identifier at most once. -/
def BackendsAnswer (unmarshal : Bytes → RpcMessage × Option String) (balancer : Balancer) :
    Action → Prop
  | .backend index event => AnswersWell unmarshal (balancer.backends index) event
  | _ => True

/-- No backend is sent more than `2 ^ 64` requests. -/
def BackendsIdsLast (balancer : Balancer) : Action → Prop
  | .backend index event => IdsLast (balancer.backends index) event
  | _ => True

instance (unmarshal : Bytes → RpcMessage × Option String) (backend : BackendConn)
    (event : BackendEvent) : Decidable (AnswersWell unmarshal backend event) := by
  cases event <;> dsimp only [AnswersWell, AnswersOnce] <;> infer_instance

instance (backend : BackendConn) (event : BackendEvent) : Decidable (IdsLast backend event) := by
  cases event <;> dsimp only [IdsLast] <;> infer_instance

instance (unmarshal : Bytes → RpcMessage × Option String) (balancer : Balancer)
    (action : Action) : Decidable (BackendsAnswer unmarshal balancer action) := by
  cases action <;> dsimp only [BackendsAnswer] <;> infer_instance

instance (balancer : Balancer) (action : Action) :
    Decidable (BackendsIdsLast balancer action) := by
  cases action <;> dsimp only [BackendsIdsLast] <;> infer_instance

/-! ### The invariant of one backend connection -/

/-- How many replies a reading goroutine has read and not yet looked up. -/
def ReplyPhase.ahead : ReplyPhase → ℕ
  | .looking _ => 1
  | _ => 0

/-- A reply to a request that was given an identifier, in one frame. -/
def Genuine (unmarshal : Bytes → RpcMessage × Option String) (registered : List Request)
    (answer : Answer) : Prop :=
  decode unmarshal { available := answer.frame, ended := false } =
      .message answer.message { available := [], ended := false } ∧
    answer.position < registered.length ∧ answer.message.id = some (drawnId 100 answer.position)

/-- The bytes of some replies. -/
def frames (answers : List Answer) : Bytes :=
  (answers.map Answer.frame).flatten

/-- What holds of a backend connection that stays up. -/
structure ReplyInvariant (unmarshal : Bytes → RpcMessage × Option String)
    (backend : BackendConn) : Prop where
  genuine : ∀ answer ∈ backend.answers, Genuine unmarshal backend.registered answer
  once : (backend.answers.map fun answer ↦ answer.message.id).Nodup
  present : ∀ position < backend.registered.length,
    (∀ answer ∈ backend.answers.take backend.handled,
      answer.message.id ≠ some (drawnId 100 position)) →
        (backend.outstanding.find (drawnId 100 position)).isSome
  unread : backend.stream = {
    available := frames (backend.answers.drop (backend.handled + backend.receiver.ahead))
    ended := false }
  looking : ∀ resp, backend.receiver = .looking resp →
    ∃ answer, backend.answers[backend.handled]? = some answer ∧ resp = answer.message
  handled : backend.handled ≤ backend.answers.length
  requestsOpen : backend.requests.closed = false

section Reply

variable {unmarshal : Bytes → RpcMessage × Option String} {backend moved : BackendConn}

theorem replyInvariant_initial : ReplyInvariant unmarshal BackendConn.initial where
  genuine := fun answer hanswer ↦ by cases hanswer
  once := List.nodup_nil
  present := fun position hposition ↦ absurd hposition (Nat.not_lt_zero position)
  unread := rfl
  looking := fun resp hlooking ↦ by cases hlooking
  handled := Nat.le_refl 0
  requestsOpen := rfl

/-- On a connection that stays up, `Decode` waits or returns the next reply. -/
theorem ReplyInvariant.decode_stream (hinvariant : ReplyInvariant unmarshal backend)
    (hreceiver : backend.receiver = .decoding) :
    decode unmarshal backend.stream = .blocked ∨
      ∃ answer, backend.answers[backend.handled]? = some answer ∧
        decode unmarshal backend.stream = .message answer.message
          { available := frames (backend.answers.drop (backend.handled + 1)), ended := false } := by
  have hunread := hinvariant.unread
  simp only [hreceiver, ReplyPhase.ahead, Nat.add_zero] at hunread
  by_cases hend : backend.handled < backend.answers.length
  · obtain ⟨answer, hanswer⟩ : ∃ answer, backend.answers[backend.handled]? = some answer :=
      ⟨_, List.getElem?_eq_getElem hend⟩
    have hdrop : backend.answers.drop backend.handled =
        answer :: backend.answers.drop (backend.handled + 1) := by
      rw [List.drop_eq_getElem_cons hend]
      rw [List.getElem?_eq_getElem hend] at hanswer
      rw [Option.some.inj hanswer]
    have hgenuine := (hinvariant.genuine answer (List.mem_of_getElem? hanswer)).1
    have hgrown := decodeGeneral_grow hgenuine
      (frames (backend.answers.drop (backend.handled + 1))) false
    refine Or.inr ⟨answer, hanswer, ?_⟩
    rw [hunread, hdrop]
    exact hgrown
  · have hdrop : backend.answers.drop backend.handled = [] :=
      List.drop_eq_nil_of_le (Nat.le_of_not_lt hend)
    rw [hunread, hdrop]
    exact Or.inl rfl

/-- The reply about to be looked up is under an identifier that was not looked up before. -/
theorem ReplyInvariant.ne_of_handled (hinvariant : ReplyInvariant unmarshal backend)
    {answer : Answer} (hanswer : backend.answers[backend.handled]? = some answer) :
    ∀ earlier ∈ backend.answers.take backend.handled, earlier.message.id ≠ answer.message.id := by
  obtain ⟨hlt, hget⟩ := List.getElem?_eq_some_iff.mp hanswer
  have honce := hinvariant.once
  rw [← List.take_append_drop backend.handled backend.answers, List.map_append,
    List.drop_eq_getElem_cons hlt, hget, List.map_cons] at honce
  intro earlier hearlier
  exact (List.nodup_append.mp honce).2.2 _ (List.mem_map_of_mem hearlier) _ List.mem_cons_self

/-- The reply about to be looked up finds an entry. -/
theorem ReplyInvariant.find_looking (hinvariant : ReplyInvariant unmarshal backend)
    {resp : RpcMessage} (hreceiver : backend.receiver = .looking resp) :
    ∃ answer r, backend.answers[backend.handled]? = some answer ∧ resp = answer.message ∧
      resp.getId = drawnId 100 answer.position ∧ answer.position < backend.registered.length ∧
        backend.outstanding.find resp.getId = some r := by
  obtain ⟨answer, hanswer, rfl⟩ := hinvariant.looking resp hreceiver
  obtain ⟨-, hposition, hid⟩ := hinvariant.genuine answer (List.mem_of_getElem? hanswer)
  have hgetId : answer.message.getId = drawnId 100 answer.position := by
    rw [RpcMessage.getId, hid, Option.getD_some]
  have hpresent := hinvariant.present answer.position hposition
    (by rw [← hid]; exact hinvariant.ne_of_handled hanswer)
  obtain ⟨r, hr⟩ := Option.isSome_iff_exists.mp hpresent
  exact ⟨answer, r, hanswer, rfl, hgetId, hposition, by rw [hgetId, hr]⟩

/-- Registering a request keeps what was present, and its own entry is present. -/
theorem ReplyInvariant.register (hinvariant : ReplyInvariant unmarshal backend)
    (hforward : ForwardInvariant backend) (request : Request) :
    ReplyInvariant unmarshal { backend with
      outstanding := backend.outstanding.insert backend.nextId
        { origId := request.msg.getId, output := request.output }
      nextId := backend.nextId + 1
      sender := .sending { request.msg with id := some backend.nextId }
      registered := backend.registered ++ [request] } where
  genuine := fun answer hanswer ↦ by
    obtain ⟨hdecode, hposition, hid⟩ := hinvariant.genuine answer hanswer
    refine ⟨hdecode, ?_, hid⟩
    rw [List.length_append]
    omega
  once := hinvariant.once
  present := fun position hposition hunanswered ↦ by
    rw [Table.find_insert]
    split_ifs with heq
    · rfl
    · apply hinvariant.present position _ hunanswered
      rw [List.length_append, List.length_singleton] at hposition
      have hne : position ≠ backend.registered.length := by
        rintro rfl
        exact heq hforward.counter.symm
      omega
  unread := hinvariant.unread
  looking := hinvariant.looking
  handled := hinvariant.handled
  requestsOpen := hinvariant.requestsOpen

/-- A request that was sent was given an identifier before, under which it was sent. -/
theorem ForwardInvariant.registered_of_sent (hforward : ForwardInvariant backend) {position : ℕ}
    {msg : RpcMessage} (hsent : backend.sent[position]? = some msg) :
    ∃ request, backend.registered[position]? = some request ∧ msg = forward position request := by
  have hlt := (List.getElem?_eq_some_iff.mp hsent).1
  have hforwarded : (backend.registered.mapIdx forward)[position]? = some msg := by
    rw [← hforward.forwarded, List.getElem?_append_left hlt, hsent]
  rw [List.getElem?_mapIdx] at hforwarded
  obtain ⟨request, hrequest, rfl⟩ := Option.map_eq_some_iff.mp hforwarded
  exact ⟨request, hrequest, rfl⟩

/-- A reply put on the connection is one more to read. -/
theorem ReplyInvariant.reply (hinvariant : ReplyInvariant unmarshal backend)
    (hforward : ForwardInvariant backend) {answer : Answer}
    (hanswers : AnswersOnce unmarshal backend answer) :
    ReplyInvariant unmarshal { backend with
      stream := backend.stream.grow answer.frame false
      answers := backend.answers ++ [answer] } := by
  obtain ⟨hdecode, -, hsentId, hfirst⟩ := hanswers
  obtain ⟨msg, hsent, hid⟩ := Option.map_eq_some_iff.mp hsentId
  obtain ⟨request, hrequest, rfl⟩ := hforward.registered_of_sent hsent
  have hgenuine : Genuine unmarshal backend.registered answer :=
    ⟨hdecode, (List.getElem?_eq_some_iff.mp hrequest).1, hid.symm⟩
  have htake : (backend.answers ++ [answer]).take backend.handled =
      backend.answers.take backend.handled := List.take_append_of_le_length hinvariant.handled
  have hahead : backend.handled + backend.receiver.ahead ≤ backend.answers.length := by
    cases hreceiver : backend.receiver with
    | decoding => exact hinvariant.handled
    | delivering resp output => exact hinvariant.handled
    | looking resp =>
      obtain ⟨next, hnext, -⟩ := hinvariant.looking resp hreceiver
      exact (List.getElem?_eq_some_iff.mp hnext).1
  exact {
    genuine := fun other hother ↦ by
      rcases List.mem_append.mp hother with hold | hnew
      · exact hinvariant.genuine other hold
      · rwa [List.mem_singleton.mp hnew]
    once := by
      rw [List.map_append]
      refine List.nodup_append.mpr ⟨hinvariant.once, List.nodup_singleton _, ?_⟩
      intro id hid other hother
      obtain ⟨earlier, hearlier, rfl⟩ := List.mem_map.mp hid
      obtain rfl := List.mem_singleton.mp hother
      exact hfirst earlier hearlier
    present := fun position hposition hunanswered ↦ by
      simp only [htake] at hunanswered
      exact hinvariant.present position hposition hunanswered
    unread := by
      rw [hinvariant.unread, List.drop_append_of_le_length hahead]
      simp [Stream.grow, frames]
    looking := fun resp hlooking ↦ by
      obtain ⟨next, hnext, hresp⟩ := hinvariant.looking resp hlooking
      have hlt := (List.getElem?_eq_some_iff.mp hnext).1
      exact ⟨next, by rw [List.getElem?_append_left hlt, hnext], hresp⟩
    handled := by
      rw [List.length_append]
      exact Nat.le_add_right_of_le hinvariant.handled
    requestsOpen := hinvariant.requestsOpen }

/-- The replies looked up after one more. -/
theorem take_succ_of_getElem? {answers : List Answer} {handled : ℕ} {answer : Answer}
    (hanswer : answers[handled]? = some answer) :
    answers.take (handled + 1) = answers.take handled ++ [answer] := by
  obtain ⟨hlt, hget⟩ := List.getElem?_eq_some_iff.mp hanswer
  rw [← hget, List.take_concat_get' _ _ hlt]

/-- Looking a reply up takes its entry out of the table, and no other. -/
theorem ReplyInvariant.lookup (hinvariant : ReplyInvariant unmarshal backend) {resp : RpcMessage}
    (hreceiver : backend.receiver = .looking resp) (delivered : RpcMessage) (output : ℕ) :
    ReplyInvariant unmarshal { backend with
      outstanding := backend.outstanding.erase resp.getId
      receiver := .delivering delivered output
      handled := backend.handled + 1 } := by
  obtain ⟨answer, -, hanswer, rfl, hid, -, -⟩ := hinvariant.find_looking hreceiver
  have hgenuine := (hinvariant.genuine answer (List.mem_of_getElem? hanswer)).2.2
  exact {
    genuine := hinvariant.genuine
    once := hinvariant.once
    present := fun position hposition hunanswered ↦ by
      simp only [take_succ_of_getElem? hanswer, List.mem_append, List.mem_singleton] at hunanswered
      have hne := hunanswered answer (Or.inr rfl)
      rw [hgenuine, Ne, Option.some.injEq] at hne
      rw [Table.find_erase_of_ne _ (by rw [hid]; exact fun heq ↦ hne heq.symm)]
      exact hinvariant.present position hposition fun other hother ↦
        hunanswered other (Or.inl hother)
    unread := by
      have hunread := hinvariant.unread
      rw [hreceiver] at hunread
      exact hunread
    looking := fun other hother ↦ by cases hother
    handled := (List.getElem?_eq_some_iff.mp hanswer).1
    requestsOpen := hinvariant.requestsOpen }

/-- Every step of a connection that stays up keeps the invariant. -/
theorem ReplyInvariant.step (hinvariant : ReplyInvariant unmarshal backend)
    (hforward : ForwardInvariant backend) {event : BackendEvent}
    (hanswers : AnswersWell unmarshal backend event)
    (hmoved : BackendMoved unmarshal backend event moved) : ReplyInvariant unmarshal moved := by
  cases hmoved with
  | take hsender hreceive =>
    obtain ⟨-, hclosed, -⟩ := Channel.receive_eq_value hreceive
    exact ⟨hinvariant.genuine, hinvariant.once, hinvariant.present, hinvariant.unread,
      hinvariant.looking, hinvariant.handled, hclosed.trans hinvariant.requestsOpen⟩
  | finish hsender hreceive =>
    exact ⟨hinvariant.genuine, hinvariant.once, hinvariant.present, hinvariant.unread,
      hinvariant.looking, hinvariant.handled, hinvariant.requestsOpen⟩
  | register hsender => exact hinvariant.register hforward _
  | send hsender =>
    exact ⟨hinvariant.genuine, hinvariant.once, hinvariant.present, hinvariant.unread,
      hinvariant.looking, hinvariant.handled, hinvariant.requestsOpen⟩
  | reply hended => exact hinvariant.reply hforward hanswers
  | hangUp => exact hanswers.elim
  | decode hreceiver hdecode =>
    rcases hinvariant.decode_stream hreceiver with hblocked | ⟨answer, hanswer, hmessage⟩
    · rw [hblocked] at hdecode
      cases hdecode
    · rw [hmessage] at hdecode
      obtain ⟨rfl, rfl⟩ := Decoded.message.inj hdecode
      exact {
        genuine := hinvariant.genuine
        once := hinvariant.once
        present := hinvariant.present
        unread := rfl
        looking := fun resp hlooking ↦ ⟨answer, hanswer, (ReplyPhase.looking.inj hlooking).symm⟩
        handled := hinvariant.handled
        requestsOpen := hinvariant.requestsOpen }
  | decodeFailed hreceiver hdecode hclose =>
    rcases hinvariant.decode_stream hreceiver with hblocked | ⟨answer, hanswer, hmessage⟩
    · rw [hblocked] at hdecode
      cases hdecode
    · rw [hmessage] at hdecode
      cases hdecode
  | lookup hreceiver hfind => exact hinvariant.lookup hreceiver _ _

/-- No goroutine of a connection that stays up panics. -/
theorem ReplyInvariant.not_panics (hinvariant : ReplyInvariant unmarshal backend)
    {event : BackendEvent} {text : String} (hanswers : AnswersWell unmarshal backend event) :
    ¬ BackendPanics unmarshal backend event text := by
  intro hpanics
  cases hpanics with
  | sendFailure => exact hanswers
  | closedTwice hreceiver hdecode =>
    rcases hinvariant.decode_stream hreceiver with hblocked | ⟨answer, hanswer, hmessage⟩
    · rw [hblocked] at hdecode
      cases hdecode
    · rw [hmessage] at hdecode
      cases hdecode
  | whatsWrong hlooking hnone =>
    obtain ⟨answer, r, -, -, -, -, hfind⟩ := hinvariant.find_looking hlooking
    rw [hnone] at hfind
    cases hfind

end Reply

/-! ### The table, while the identifiers last -/

/-- A request that was given this identifier, and whose reply was not looked up, expects its reply
as `r` says. -/
def Waiting (backend : BackendConn) (id : BitVec 64) (r : Response) : Prop :=
  ∃ (position : ℕ) (request : Request), backend.registered[position]? = some request ∧
    position ∉ (backend.answers.take backend.handled).map Answer.position ∧
      id = drawnId 100 position ∧ r = { origId := request.msg.getId, output := request.output }

/-- The table holds exactly the requests that wait. -/
structure TableInvariant (backend : BackendConn) : Prop where
  outstanding : ∀ id r, backend.outstanding.find id = some r ↔ Waiting backend id r
  idsLast : backend.registered.length ≤ 2 ^ 64

section Table

variable {unmarshal : Bytes → RpcMessage × Option String} {backend moved : BackendConn}

theorem tableInvariant_initial : TableInvariant BackendConn.initial where
  outstanding := fun id r ↦ by simp [BackendConn.initial, Waiting]
  idsLast := Nat.zero_le _

/-- The reply about to be looked up finds the entry of the request it answers. -/
theorem TableInvariant.find_looking (htable : TableInvariant backend)
    (hinvariant : ReplyInvariant unmarshal backend) {resp : RpcMessage}
    (hreceiver : backend.receiver = .looking resp) :
    ∃ answer request, backend.answers[backend.handled]? = some answer ∧ resp = answer.message ∧
      resp.getId = drawnId 100 answer.position ∧
        backend.registered[answer.position]? = some request ∧
          backend.outstanding.find resp.getId =
            some { origId := request.msg.getId, output := request.output } := by
  obtain ⟨answer, -, hanswer, rfl, hid, hposition, -⟩ := hinvariant.find_looking hreceiver
  have hrequest : backend.registered[answer.position]? =
      some backend.registered[answer.position] := List.getElem?_eq_getElem hposition
  refine ⟨answer, _, hanswer, rfl, hid, hrequest, ?_⟩
  rw [htable.outstanding, hid]
  refine ⟨answer.position, _, hrequest, ?_, rfl, rfl⟩
  intro hmem
  obtain ⟨earlier, hearlier, hsame⟩ := List.mem_map.mp hmem
  apply hinvariant.ne_of_handled hanswer earlier hearlier
  rw [(hinvariant.genuine earlier (List.mem_of_mem_take hearlier)).2.2,
    (hinvariant.genuine answer (List.mem_of_getElem? hanswer)).2.2, hsame]

/-- A new identifier is not in the table yet, and its request waits. -/
theorem TableInvariant.register (htable : TableInvariant backend)
    (hinvariant : ReplyInvariant unmarshal backend) (hforward : ForwardInvariant backend)
    (request : Request) (hids : backend.registered.length < 2 ^ 64) :
    TableInvariant { backend with
      outstanding := backend.outstanding.insert backend.nextId
        { origId := request.msg.getId, output := request.output }
      nextId := backend.nextId + 1
      sender := .sending { request.msg with id := some backend.nextId }
      registered := backend.registered ++ [request] } where
  outstanding := fun id r ↦ by
    simp only [Table.find_insert_eq_some, htable.outstanding, hforward.counter, Waiting]
    constructor
    · rintro (⟨rfl, rfl⟩ | ⟨hne, position, old, hold, hrest⟩)
      · refine ⟨backend.registered.length, request, List.getElem?_concat_length, ?_, rfl, rfl⟩
        intro hmem
        obtain ⟨answer, hanswer, hposition⟩ := List.mem_map.mp hmem
        have hlt := (hinvariant.genuine answer (List.mem_of_mem_take hanswer)).2.1
        omega
      · have hlt := (List.getElem?_eq_some_iff.mp hold).1
        exact ⟨position, old, by rw [List.getElem?_append_left hlt, hold], hrest⟩
    · rintro ⟨position, found, hfound, hfresh, rfl, rfl⟩
      rcases Nat.lt_or_ge position backend.registered.length with hlt | hge
      · rw [List.getElem?_append_left hlt] at hfound
        refine Or.inr ⟨fun heq ↦ ?_, position, found, hfound, hfresh, rfl, rfl⟩
        have hsame := drawnId_inj 100 (hlt.trans hids) hids heq
        omega
      · have hlast : position = backend.registered.length := by
          have hlt := (List.getElem?_eq_some_iff.mp hfound).1
          rw [List.length_append, List.length_singleton] at hlt
          omega
        subst hlast
        rw [List.getElem?_concat_length] at hfound
        obtain rfl := Option.some.inj hfound
        exact Or.inl ⟨rfl, rfl⟩
  idsLast := by
    rw [List.length_append, List.length_singleton]
    omega

/-- A request whose reply is looked up waits no longer, and every other one still does. -/
theorem TableInvariant.lookup (htable : TableInvariant backend)
    (hinvariant : ReplyInvariant unmarshal backend) {resp : RpcMessage}
    (hreceiver : backend.receiver = .looking resp) (delivered : RpcMessage) (output : ℕ) :
    TableInvariant { backend with
      outstanding := backend.outstanding.erase resp.getId
      receiver := .delivering delivered output
      handled := backend.handled + 1 } := by
  obtain ⟨answer, -, hanswer, rfl, hid, hposition, -⟩ := hinvariant.find_looking hreceiver
  refine ⟨fun id r ↦ ?_, htable.idsLast⟩
  simp only [Table.find_erase_eq_some, htable.outstanding, Waiting, hid,
    take_succ_of_getElem? hanswer, List.map_append, List.map_singleton, List.mem_append,
    List.mem_singleton, not_or]
  constructor
  · rintro ⟨hne, position, found, hfound, hfresh, rfl, rfl⟩
    exact ⟨position, found, hfound, ⟨hfresh, fun heq ↦ hne (by rw [heq])⟩, rfl, rfl⟩
  · rintro ⟨position, found, hfound, ⟨hfresh, hne⟩, rfl, rfl⟩
    have hlt := (List.getElem?_eq_some_iff.mp hfound).1
    refine ⟨fun heq ↦ hne ?_, position, found, hfound, hfresh, rfl, rfl⟩
    exact drawnId_inj 100 (hlt.trans_le htable.idsLast) (hposition.trans_le htable.idsLast) heq

/-- Every step of a connection that stays up keeps the table exact while the identifiers last. -/
theorem TableInvariant.step (htable : TableInvariant backend)
    (hinvariant : ReplyInvariant unmarshal backend) (hforward : ForwardInvariant backend)
    {event : BackendEvent} (hids : IdsLast backend event)
    (hmoved : BackendMoved unmarshal backend event moved) : TableInvariant moved := by
  cases hmoved with
  | register hsender => exact htable.register hinvariant hforward _ hids
  | reply hended =>
    refine ⟨fun id r ↦ ?_, htable.idsLast⟩
    rw [htable.outstanding, Waiting, Waiting]
    simp only [List.take_append_of_le_length hinvariant.handled]
  | lookup hreceiver hfind => exact htable.lookup hinvariant hreceiver _ _
  | _ => exact ⟨htable.outstanding, htable.idsLast⟩

end Table

end MuduoProtorpc.GoBalancer
