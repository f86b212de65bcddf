import MuduoProtorpc.GoBalancer.Balancer

/-!
# What each step of the balancer does

`ClientMoved`, `BackendMoved` and `BalancerMoved` list the steps that go through, one constructor
for each branch of `clientStep`, `backendStep` and `balancerStep`, with the condition under which it
is taken; `BackendPanics` and `BalancerPanics` list the panics. `client_cases`, `backend_cases` and
`balancer_cases` say that a step is one of these. The invariants go by cases of them and do not
unfold the steps again.
-/

set_option autoImplicit false
set_option relaxedAutoImplicit false

namespace MuduoProtorpc.GoBalancer

open Foundation

/-! ### Client connections -/

/-- The steps of a client connection. -/
inductive ClientMoved (client : ClientConn) : ClientEvent → ClientConn → Prop
  | wrongType {msg : RpcMessage} : client.phase = .reading → msg.getType ≠ .request →
      ClientMoved client (.message msg) { client with phase := .leaving }
  | request {msg : RpcMessage} : client.phase = .reading → msg.getType = .request →
      msg.isInitialized = true → ClientMoved client (.message msg)
        { client with phase := .sending msg, received := client.received ++ [msg] }
  | failure : client.phase = .reading →
      ClientMoved client .failure { client with phase := .leaving }
  | closeOutput {output : Channel RpcMessage} : client.phase = .leaving →
      client.output.close = .done output →
        ClientMoved client .closeOutput { client with phase := .returned, output := output }
  | write {msg : RpcMessage} {rest : Channel RpcMessage} : client.writing = true →
      client.output.receive = .value msg rest → ClientMoved client .write
        { client with output := rest, written := client.written ++ [msg] }
  | writeFailure {msg : RpcMessage} {rest : Channel RpcMessage} : client.writing = true →
      client.output.receive = .value msg rest →
        ClientMoved client .writeFailure { client with output := rest, writing := false }
  | writerDone : client.writing = true → client.output.receive = .drained →
      ClientMoved client .writerDone { client with writing := false }

/-- A step of a client connection keeps the buffer of its output channel. -/
theorem ClientMoved.capacity_eq {client other : ClientConn} {event : ClientEvent}
    (hmoved : ClientMoved client event other) :
    other.output.capacity = client.output.capacity := by
  cases hmoved with
  | closeOutput hphase hclose => exact (Channel.close_eq_done hclose).2.2.2
  | write hwriting hreceive => exact (Channel.receive_eq_value hreceive).2.2
  | writeFailure hwriting hreceive => exact (Channel.receive_eq_value hreceive).2.2
  | _ => rfl

/-- A step of a client connection is one of these, or closes an output channel again. -/
theorem client_cases {client : ClientConn} {event : ClientEvent} :
    (∀ next, clientStep client event = .done next → ClientMoved client event next) ∧
      ∀ text, clientStep client event = .panic text → client.phase = .leaving ∧
        client.output.closed = true := by
  cases event with
  | message msg =>
    simp only [clientStep]
    split_ifs with henabled htype
    · exact ⟨fun next hnext ↦ by cases hnext; exact .wrongType henabled.1 htype, by simp⟩
    · refine ⟨fun next hnext ↦ ?_, by simp⟩
      cases hnext
      exact .request henabled.1 (not_not.mp htype) henabled.2
    · simp
  | failure =>
    simp only [clientStep]
    split_ifs with hphase
    · exact ⟨fun next hnext ↦ by cases hnext; exact .failure hphase, by simp⟩
    · simp
  | closeOutput =>
    simp only [clientStep]
    split_ifs with hphase
    · split
      · rename_i output hclose
        exact ⟨fun next hnext ↦ by cases hnext; exact .closeOutput hphase hclose, by simp⟩
      · simp
      · rename_i text hclose
        refine ⟨by simp, fun _ _ ↦ ⟨hphase, ?_⟩⟩
        unfold Channel.close at hclose
        split_ifs at hclose with hclosed
        exact hclosed
    · simp
  | write =>
    simp only [clientStep]
    split_ifs with hwriting
    · split
      · rename_i msg rest hreceive
        exact ⟨fun next hnext ↦ by cases hnext; exact .write hwriting hreceive, by simp⟩
      · simp
    · simp
  | writeFailure =>
    simp only [clientStep]
    split_ifs with hwriting
    · split
      · rename_i msg rest hreceive
        exact ⟨fun next hnext ↦ by cases hnext; exact .writeFailure hwriting hreceive, by simp⟩
      · simp
    · simp
  | writerDone =>
    simp only [clientStep]
    split_ifs with hwriting
    · split
      · rename_i hreceive
        exact ⟨fun next hnext ↦ by cases hnext; exact .writerDone hwriting hreceive, by simp⟩
      · simp
    · simp

/-! ### Backend connections -/

/-- The steps of a backend connection. -/
inductive BackendMoved (unmarshal : Bytes → RpcMessage × Option String) (backend : BackendConn) :
    BackendEvent → BackendConn → Prop
  | take {request : Request} {rest : Channel Request} : backend.sender = .receiving →
      backend.requests.receive = .value request rest → BackendMoved unmarshal backend .take
        { backend with requests := rest, sender := .registering request }
  | finish : backend.sender = .receiving → backend.requests.receive = .drained →
      BackendMoved unmarshal backend .take { backend with sender := .finished }
  | register {request : Request} : backend.sender = .registering request →
      BackendMoved unmarshal backend .register { backend with
        outstanding := backend.outstanding.insert backend.nextId
          { origId := request.msg.getId, output := request.output }
        nextId := backend.nextId + 1
        sender := .sending { request.msg with id := some backend.nextId }
        registered := backend.registered ++ [request] }
  | send {msg : RpcMessage} : backend.sender = .sending msg →
      BackendMoved unmarshal backend .send
        { backend with sender := .receiving, sent := backend.sent ++ [msg] }
  | reply {answer : Answer} : backend.stream.ended = false →
      BackendMoved unmarshal backend (.reply answer) { backend with
        stream := backend.stream.grow answer.frame false
        answers := backend.answers ++ [answer] }
  | hangUp : BackendMoved unmarshal backend .hangUp
      { backend with stream := backend.stream.grow [] true }
  | decode {resp : RpcMessage} {rest : Stream} : backend.receiver = .decoding →
      MuduoProtorpc.decode unmarshal backend.stream = .message resp rest →
        BackendMoved unmarshal backend .decode
          { backend with stream := rest, receiver := .looking resp }
  | decodeFailed {error : DecodeError} {left : RpcMessage} {rest : Stream}
      {requests : Channel Request} : backend.receiver = .decoding →
      MuduoProtorpc.decode unmarshal backend.stream = .failed error left rest →
        backend.requests.close = .done requests → BackendMoved unmarshal backend .decode
          { backend with requests := requests, stream := rest, receiver := .looking left }
  | lookup {resp : RpcMessage} {r : Response} : backend.receiver = .looking resp →
      backend.outstanding.find resp.getId = some r → BackendMoved unmarshal backend .lookup
        { backend with
          outstanding := backend.outstanding.erase resp.getId
          receiver := .delivering { resp with id := some r.origId } r.output
          handled := backend.handled + 1 }

/-- The panics of a backend connection's goroutines. -/
inductive BackendPanics (unmarshal : Bytes → RpcMessage × Option String) (backend : BackendConn) :
    BackendEvent → String → Prop
  | sendFailure {text : String} : BackendPanics unmarshal backend (.sendFailure text) text
  | closedTwice {error : DecodeError} {left : RpcMessage} {rest : Stream} :
      backend.receiver = .decoding →
        MuduoProtorpc.decode unmarshal backend.stream = .failed error left rest →
          BackendPanics unmarshal backend .decode "close of closed channel"
  | whatsWrong {resp : RpcMessage} : backend.receiver = .looking resp →
      backend.outstanding.find resp.getId = none →
        BackendPanics unmarshal backend .lookup "What's wrong?"

/-- A step of a backend connection is one of these. -/
theorem backend_cases {unmarshal : Bytes → RpcMessage × Option String} {backend : BackendConn}
    {event : BackendEvent} :
    (∀ next, backendStep unmarshal backend event = .done next →
      BackendMoved unmarshal backend event next) ∧
        ∀ text, backendStep unmarshal backend event = .panic text →
          BackendPanics unmarshal backend event text := by
  cases event with
  | take =>
    simp only [backendStep]
    split
    · rename_i hsender
      split
      · rename_i request rest hreceive
        exact ⟨fun next hnext ↦ by cases hnext; exact .take hsender hreceive, by simp⟩
      · rename_i hreceive
        exact ⟨fun next hnext ↦ by cases hnext; exact .finish hsender hreceive, by simp⟩
      · simp
    · simp
  | register =>
    simp only [backendStep]
    split
    · rename_i request hsender
      exact ⟨fun next hnext ↦ by cases hnext; exact .register hsender, by simp⟩
    · simp
  | send =>
    simp only [backendStep]
    split
    · rename_i msg hsender
      exact ⟨fun next hnext ↦ by cases hnext; exact .send hsender, by simp⟩
    · simp
  | sendFailure text =>
    simp only [backendStep]
    split
    · exact ⟨by simp, fun other hother ↦ by cases hother; exact .sendFailure⟩
    · simp
  | reply answer =>
    simp only [backendStep]
    split_ifs with hended
    · simp
    · exact ⟨fun next hnext ↦ by cases hnext; exact .reply (by simpa using hended), by simp⟩
  | hangUp =>
    simp only [backendStep]
    exact ⟨fun next hnext ↦ by cases hnext; exact .hangUp, by simp⟩
  | decode =>
    simp only [backendStep]
    split
    · rename_i hreceiver
      split
      · rename_i resp rest hdecode
        exact ⟨fun next hnext ↦ by cases hnext; exact .decode hreceiver hdecode, by simp⟩
      · rename_i error left rest hdecode
        split
        · rename_i requests hclose
          refine ⟨fun next hnext ↦ ?_, by simp⟩
          cases hnext
          exact .decodeFailed hreceiver hdecode hclose
        · simp
        · rename_i text hclose
          refine ⟨by simp, fun other hother ↦ ?_⟩
          cases hother
          unfold Channel.close at hclose
          split_ifs at hclose
          obtain rfl := Outcome.panic.inj hclose
          exact .closedTwice hreceiver hdecode
      · simp
      · rename_i text hdecode
        exact absurd hdecode (decode_ne_panic text)
    · simp
  | lookup =>
    simp only [backendStep]
    split
    · rename_i resp hreceiver
      split
      · rename_i r hfind
        exact ⟨fun next hnext ↦ by cases hnext; exact .lookup hreceiver hfind, by simp⟩
      · rename_i hfind
        refine ⟨by simp, fun text htext ↦ ?_⟩
        cases htext
        exact .whatsWrong hreceiver hfind
    · simp

/-! ### The balancer -/

/-- The steps of the balancer. -/
inductive BalancerMoved (unmarshal : Bytes → RpcMessage × Option String) (count : ℕ)
    (balancer : Balancer) : Action → Balancer → Prop
  | client {index : ℕ} {event : ClientEvent} {client : ClientConn} :
      ClientMoved (balancer.clients index) event client →
        BalancerMoved unmarshal count balancer (.client index event)
          (balancer.setClient index client)
  | enqueue {index : ℕ} {msg : RpcMessage} {requests : Channel Request} :
      (balancer.clients index).phase = .sending msg →
        balancer.requests.send { msg := msg, output := index } = .done requests →
          BalancerMoved unmarshal count balancer (.enqueue index)
            { balancer.setClient index { balancer.clients index with phase := .reading } with
              requests := requests
              accepted := balancer.accepted ++ [{ msg := msg, output := index }] }
  | dispatchTake {req : Request} {rest : Channel Request} : balancer.hand = none →
      balancer.requests.receive = .value req rest →
        BalancerMoved unmarshal count balancer .dispatchTake
          { balancer with requests := rest, hand := some req }
  | dispatchSend {r : Request} {requests : Channel Request} : balancer.hand = some r →
      balancer.idx < count → (balancer.backends balancer.idx).requests.send r = .done requests →
        BalancerMoved unmarshal count balancer .dispatchSend
          { balancer.setBackend balancer.idx
              { balancer.backends balancer.idx with requests := requests } with
            hand := none
            idx := if count ≤ balancer.idx + 1 then 0 else balancer.idx + 1
            dispatched := balancer.dispatched ++ [r] }
  | backend {index : ℕ} {event : BackendEvent} {backend : BackendConn} : index < count →
      BackendMoved unmarshal (balancer.backends index) event backend →
        BalancerMoved unmarshal count balancer (.backend index event)
          (balancer.setBackend index backend)
  | deliver {index output : ℕ} {resp : RpcMessage} {channel : Channel RpcMessage} :
      (balancer.backends index).receiver = .delivering resp output →
        (balancer.clients output).output.send resp = .done channel →
          BalancerMoved unmarshal count balancer (.deliver index)
            { (balancer.setClient output
                { balancer.clients output with output := channel }).setBackend index
                { balancer.backends index with receiver := .decoding } with
              delivered := balancer.delivered ++ [
                { backend := index, output := output, resp := resp }] }

/-- The panics of the balancer's goroutines. -/
inductive BalancerPanics (unmarshal : Bytes → RpcMessage × Option String) (count : ℕ)
    (balancer : Balancer) : Action → String → Prop
  | closeOutput {index : ℕ} {event : ClientEvent} {text : String} :
      (balancer.clients index).phase = .leaving → (balancer.clients index).output.closed = true →
        BalancerPanics unmarshal count balancer (.client index event) text
  | enqueue {index : ℕ} {text : String} : balancer.requests.closed = true →
      BalancerPanics unmarshal count balancer (.enqueue index) text
  | noBackend {text : String} : count ≤ balancer.idx →
      BalancerPanics unmarshal count balancer .dispatchSend text
  | dispatchSend {text : String} : balancer.idx < count →
      (balancer.backends balancer.idx).requests.closed = true →
        BalancerPanics unmarshal count balancer .dispatchSend text
  | backend {index : ℕ} {event : BackendEvent} {text : String} : index < count →
      BackendPanics unmarshal (balancer.backends index) event text →
        BalancerPanics unmarshal count balancer (.backend index event) text
  | deliver {index output : ℕ} {resp : RpcMessage} {text : String} :
      (balancer.backends index).receiver = .delivering resp output →
        (balancer.clients output).output.closed = true →
          BalancerPanics unmarshal count balancer (.deliver index) text

/-- What a goroutine tried has gone through or panicked. -/
theorem Balancer.after_eq_some {Value : Type} {balancer last : Balancer} {outcome : Outcome Value}
    {next : Value → Balancer} (hafter : balancer.after outcome next = some last) :
    (∃ value, outcome = .done value ∧ last = next value) ∨
      ∃ text, outcome = .panic text ∧ last = { balancer with panicked := some text } := by
  unfold Balancer.after at hafter
  split at hafter
  · exact Or.inl ⟨_, rfl, (Option.some.inj hafter).symm⟩
  · cases hafter
  · exact Or.inr ⟨_, rfl, (Option.some.inj hafter).symm⟩

/-- A step of the balancer is one of these. -/
theorem balancer_cases {unmarshal : Bytes → RpcMessage × Option String} {count : ℕ}
    {balancer next : Balancer} {action : Action}
    (hstep : balancerStep unmarshal count balancer action = some next) :
    balancer.panicked = none ∧ (BalancerMoved unmarshal count balancer action next ∨
      ∃ text, BalancerPanics unmarshal count balancer action text ∧
        next = { balancer with panicked := some text }) := by
  unfold balancerStep at hstep
  by_cases hpanicked : balancer.panicked.isSome
  · rw [if_pos hpanicked] at hstep
    cases hstep
  rw [if_neg hpanicked] at hstep
  refine ⟨by simpa using hpanicked, ?_⟩
  cases action with
  | client index event =>
    rcases Balancer.after_eq_some hstep with ⟨client, hclient, rfl⟩ | ⟨text, hpanic, rfl⟩
    · exact Or.inl (.client (client_cases.1 client hclient))
    · obtain ⟨hphase, hclosed⟩ := client_cases.2 text hpanic
      exact Or.inr ⟨text, .closeOutput hphase hclosed, rfl⟩
  | enqueue index =>
    dsimp only at hstep
    split at hstep
    · rename_i msg hphase
      rcases Balancer.after_eq_some hstep with ⟨requests, hsend, rfl⟩ | ⟨text, hpanic, rfl⟩
      · exact Or.inl (.enqueue hphase hsend)
      · exact Or.inr ⟨text, .enqueue (Channel.send_eq_panic hpanic).1, rfl⟩
    · cases hstep
  | dispatchTake =>
    dsimp only at hstep
    split at hstep
    · rename_i req rest hhand hreceive
      obtain rfl := Option.some.inj hstep
      exact Or.inl (.dispatchTake hhand hreceive)
    · cases hstep
  | dispatchSend =>
    dsimp only at hstep
    split at hstep
    · cases hstep
    · rename_i r hhand
      by_cases hcount : count ≤ balancer.idx
      · rw [if_pos hcount] at hstep
        obtain rfl := Option.some.inj hstep
        exact Or.inr ⟨_, .noBackend hcount, rfl⟩
      · rw [if_neg hcount] at hstep
        have hlt : balancer.idx < count := by omega
        rcases Balancer.after_eq_some hstep with ⟨requests, hsend, rfl⟩ | ⟨text, hpanic, rfl⟩
        · exact Or.inl (.dispatchSend hhand hlt hsend)
        · exact Or.inr ⟨text, .dispatchSend hlt (Channel.send_eq_panic hpanic).1, rfl⟩
  | backend index event =>
    dsimp only at hstep
    split_ifs at hstep with hindex
    rcases Balancer.after_eq_some hstep with ⟨backend, hbackend, rfl⟩ | ⟨text, hpanic, rfl⟩
    · exact Or.inl (.backend hindex (backend_cases.1 backend hbackend))
    · exact Or.inr ⟨text, .backend hindex (backend_cases.2 text hpanic), rfl⟩
  | deliver index =>
    dsimp only at hstep
    split at hstep
    · rename_i resp output hreceiver
      rcases Balancer.after_eq_some hstep with ⟨channel, hsend, rfl⟩ | ⟨text, hpanic, rfl⟩
      · exact Or.inl (.deliver hreceiver hsend)
      · exact Or.inr ⟨text, .deliver hreceiver (Channel.send_eq_panic hpanic).1, rfl⟩
    · cases hstep

end MuduoProtorpc.GoBalancer
