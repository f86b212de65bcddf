import MuduoProtorpc.Foundation.BufferedChannel
import MuduoProtorpc.Foundation.PendingTable
import MuduoProtorpc.Foundation.TransitionSystem
import MuduoProtorpc.Wire.GoCodec

/-!
# The Go balancer

`go/balancer/main.go` as a transition system. A client connection has the read loop of `ServeConn`
and the goroutine that writes its output channel; a backend connection has the loop of `run` that
sends requests and the goroutine that reads replies; between them `dispatch` moves requests in turn
to the backends. Every step is what one of these goroutines does between two points where another
can run, or something that happens on a connection.

`clientStep` and `backendStep` are the steps of one connection, `balancerStep` puts them together
with the steps that use two of them. A step that blocks is not enabled. A panic in any goroutine
ends the process, so nothing happens after it.

An output channel is represented by the number of its client connection. A connection that was not
accepted yet is one that has done nothing. The fields below the line of a comment are history: no
goroutine looks at them.
-/

set_option autoImplicit false
set_option relaxedAutoImplicit false

namespace MuduoProtorpc.GoBalancer

open Foundation

/-! ### Client connections -/

/-- A client's request, and the output channel of the client. -/
structure Request where
  msg : RpcMessage
  output : ℕ
  deriving DecidableEq, Repr

/-- Where the read loop of `ServeConn` stands: in `Decode`, in front of `b.requests <- req`, behind
the loop, or behind the deferred `close(output)`. -/
inductive ReadPhase
  | reading
  | sending (msg : RpcMessage)
  | leaving
  | returned
  deriving DecidableEq

/-- A client connection. -/
structure ClientConn where
  phase : ReadPhase
  output : Channel RpcMessage
  writing : Bool
  -- the REQUESTs decoded and the messages sent
  received : List RpcMessage
  written : List RpcMessage

/-- A client connection just accepted. -/
def ClientConn.initial : ClientConn where
  phase := .reading
  output := Channel.make 10
  writing := true
  received := []
  written := []

/-- What can happen on a client connection without another goroutine. -/
inductive ClientEvent
  | message (msg : RpcMessage)
  | failure
  | closeOutput
  | write
  | writeFailure
  | writerDone

/-- One step of a client connection. `Decode` returns a message with its required fields set, or an
error for whatever reason (`failure`). A writer that fails closes the connection, which its read
loop then meets as a failure. -/
def clientStep (client : ClientConn) : ClientEvent → Outcome ClientConn
  | .message msg =>
    if client.phase = .reading ∧ msg.isInitialized then
      if msg.getType ≠ .request then .done { client with phase := .leaving }
      else .done { client with phase := .sending msg, received := client.received ++ [msg] }
    else .blocked
  | .failure =>
    if client.phase = .reading then .done { client with phase := .leaving } else .blocked
  | .closeOutput =>
    if client.phase = .leaving then
      match client.output.close with
      | .done output => .done { client with phase := .returned, output := output }
      | .blocked => .blocked
      | .panic text => .panic text
    else .blocked
  | .write =>
    if client.writing then
      match client.output.receive with
      | .value msg rest =>
        .done { client with output := rest, written := client.written ++ [msg] }
      | _ => .blocked
    else .blocked
  | .writeFailure =>
    if client.writing then
      match client.output.receive with
      | .value _ rest => .done { client with output := rest, writing := false }
      | _ => .blocked
    else .blocked
  | .writerDone =>
    if client.writing then
      match client.output.receive with
      | .drained => .done { client with writing := false }
      | _ => .blocked
    else .blocked

/-! ### Backend connections -/

/-- `response`: where the reply to a forwarded request goes, and under which id. -/
structure Response where
  origId : BitVec 64
  output : ℕ
  deriving DecidableEq, Repr

/-- Where the sending loop of `run` stands: in front of the next request, of the mutex, of `Send`,
or behind the loop. -/
inductive SendPhase
  | receiving
  | registering (request : Request)
  | sending (msg : RpcMessage)
  | finished
  deriving DecidableEq

/-- Where the reading goroutine of `run` stands: in `Decode`, in front of the mutex, or in front of
`r.output <- resp`. -/
inductive ReplyPhase
  | decoding
  | looking (resp : RpcMessage)
  | delivering (resp : RpcMessage) (output : ℕ)
  deriving DecidableEq

/-- A frame that a backend puts on its connection: its bytes, the message in them, and the position
of the request it answers among those the backend was sent. -/
structure Answer where
  position : ℕ
  message : RpcMessage
  frame : Bytes

/-- A connection to a backend. -/
structure BackendConn where
  requests : Channel Request
  outstanding : Table (BitVec 64) Response
  nextId : BitVec 64
  sender : SendPhase
  stream : Stream
  receiver : ReplyPhase
  -- the requests that were given an id, the messages sent, the replies put on the connection, and
  -- the number of replies looked up
  registered : List Request
  sent : List RpcMessage
  answers : List Answer
  handled : ℕ

/-- A backend connection after `newBackend`, at the start of `run`. -/
def BackendConn.initial : BackendConn where
  requests := Channel.make 10
  outstanding := Table.empty
  nextId := 100
  sender := .receiving
  stream := { available := [], ended := false }
  receiver := .decoding
  registered := []
  sent := []
  answers := []
  handled := 0

/-- What can happen on a backend connection without another goroutine. -/
inductive BackendEvent
  | take
  | register
  | send
  | sendFailure (text : String)
  | reply (answer : Answer)
  | hangUp
  | decode
  | lookup

/-- One step of a backend connection. A failed `Decode` closes the request channel and goes on with
the message it left behind. -/
def backendStep (unmarshal : Bytes → RpcMessage × Option String) (backend : BackendConn) :
    BackendEvent → Outcome BackendConn
  | .take =>
    match backend.sender with
    | .receiving =>
      match backend.requests.receive with
      | .value request rest =>
        .done { backend with requests := rest, sender := .registering request }
      | .drained => .done { backend with sender := .finished }
      | .blocked => .blocked
    | _ => .blocked
  | .register =>
    match backend.sender with
    | .registering request =>
      .done { backend with
        outstanding := backend.outstanding.insert backend.nextId
          { origId := request.msg.getId, output := request.output }
        nextId := backend.nextId + 1
        sender := .sending { request.msg with id := some backend.nextId }
        registered := backend.registered ++ [request] }
    | _ => .blocked
  | .send =>
    match backend.sender with
    | .sending msg => .done { backend with sender := .receiving, sent := backend.sent ++ [msg] }
    | _ => .blocked
  | .sendFailure text =>
    match backend.sender with
    | .sending _ => .panic text
    | _ => .blocked
  | .reply answer =>
    if backend.stream.ended then .blocked
    else .done { backend with
      stream := backend.stream.grow answer.frame false
      answers := backend.answers ++ [answer] }
  | .hangUp => .done { backend with stream := backend.stream.grow [] true }
  | .decode =>
    match backend.receiver with
    | .decoding =>
      match MuduoProtorpc.decode unmarshal backend.stream with
      | .message resp rest => .done { backend with stream := rest, receiver := .looking resp }
      | .failed _ left rest =>
        match backend.requests.close with
        | .done requests =>
          .done { backend with requests := requests, stream := rest, receiver := .looking left }
        | .blocked => .blocked
        | .panic text => .panic text
      | .blocked => .blocked
      | .panic text => .panic text
    | _ => .blocked
  | .lookup =>
    match backend.receiver with
    | .looking resp =>
      match backend.outstanding.find resp.getId with
      | some r => .done { backend with
          outstanding := backend.outstanding.erase resp.getId
          receiver := .delivering { resp with id := some r.origId } r.output
          handled := backend.handled + 1 }
      | none => .panic "What's wrong?"
    | _ => .blocked

/-! ### The balancer -/

/-- A reply put into an output channel. -/
structure Delivery where
  backend : ℕ
  output : ℕ
  resp : RpcMessage
  deriving DecidableEq, Repr

/-- The balancer with all its connections. `hand` is the request that `dispatch` has received and
not yet passed on. -/
structure Balancer where
  requests : Channel Request
  idx : ℕ
  hand : Option Request
  clients : ℕ → ClientConn
  backends : ℕ → BackendConn
  panicked : Option String
  -- the requests put into the request channel, those passed on to backends, the replies delivered
  accepted : List Request
  dispatched : List Request
  delivered : List Delivery

/-- `NewBalancer`. -/
def Balancer.initial : Balancer where
  requests := Channel.make 1024
  idx := 0
  hand := none
  clients := fun _ ↦ ClientConn.initial
  backends := fun _ ↦ BackendConn.initial
  panicked := none
  accepted := []
  dispatched := []
  delivered := []

/-- What can happen next. -/
inductive Action
  | client (client : ℕ) (event : ClientEvent)
  | enqueue (client : ℕ)
  | dispatchTake
  | dispatchSend
  | backend (backend : ℕ) (event : BackendEvent)
  | deliver (backend : ℕ)

/-- The balancer after a goroutine has tried something: it has done it, it has panicked, or it still
waits. -/
def Balancer.after {Value : Type} (balancer : Balancer) (outcome : Outcome Value)
    (next : Value → Balancer) : Option Balancer :=
  match outcome with
  | .done value => some (next value)
  | .blocked => none
  | .panic text => some { balancer with panicked := some text }

/-- A balancer with one client connection changed. -/
def Balancer.setClient (balancer : Balancer) (index : ℕ) (client : ClientConn) : Balancer :=
  { balancer with clients := Function.update balancer.clients index client }

/-- A balancer with one backend connection changed. -/
def Balancer.setBackend (balancer : Balancer) (index : ℕ) (backend : BackendConn) : Balancer :=
  { balancer with backends := Function.update balancer.backends index backend }

/-- One step of a balancer with `count` backends that has not panicked. -/
def balancerStep (unmarshal : Bytes → RpcMessage × Option String) (count : ℕ)
    (balancer : Balancer) (action : Action) : Option Balancer :=
  if balancer.panicked.isSome then none
  else
    match action with
    | .client index event =>
      balancer.after (clientStep (balancer.clients index) event) fun client ↦
        balancer.setClient index client
    | .enqueue index =>
      match (balancer.clients index).phase with
      | .sending msg =>
        let req : Request := { msg := msg, output := index }
        balancer.after (balancer.requests.send req) fun requests ↦
          { balancer.setClient index { balancer.clients index with phase := .reading } with
            requests := requests
            accepted := balancer.accepted ++ [req] }
      | _ => none
    | .dispatchTake =>
      match balancer.hand, balancer.requests.receive with
      | none, .value req rest => some { balancer with requests := rest, hand := some req }
      | _, _ => none
    | .dispatchSend =>
      match balancer.hand with
      | none => none
      | some r =>
        if count ≤ balancer.idx then
          some { balancer with panicked := some "index out of range" }
        else
          let backend := balancer.backends balancer.idx
          balancer.after (backend.requests.send r) fun requests ↦
            { balancer.setBackend balancer.idx { backend with requests := requests } with
              hand := none
              idx := if count ≤ balancer.idx + 1 then 0 else balancer.idx + 1
              dispatched := balancer.dispatched ++ [r] }
    | .backend index event =>
      if index < count then
        balancer.after (backendStep unmarshal (balancer.backends index) event) fun backend ↦
          balancer.setBackend index backend
      else none
    | .deliver index =>
      match (balancer.backends index).receiver with
      | .delivering resp output =>
        let client := balancer.clients output
        balancer.after (client.output.send resp) fun channel ↦
          { (balancer.setClient output { client with output := channel }).setBackend index
              { balancer.backends index with receiver := .decoding } with
            delivered := balancer.delivered ++ [
              { backend := index, output := output, resp := resp }] }
      | _ => none

/-- A balancer with `count` backends. -/
def balancerSystem (unmarshal : Bytes → RpcMessage × Option String) (count : ℕ) :
    TransitionSystem Balancer Action where
  start := Balancer.initial
  step := balancerStep unmarshal count

end MuduoProtorpc.GoBalancer
