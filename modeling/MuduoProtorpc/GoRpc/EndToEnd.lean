import MuduoProtorpc.GoRpc.ClientCodec
import MuduoProtorpc.GoRpc.GeneratedNames
import MuduoProtorpc.GoRpc.ServerCodec

/-!
# A Go client and a Go server on one connection

The client of `net/rpc` on a `ClientCodec` and the server of `net/rpc` on a `ServerCodec`, with what
either writes arriving at the other: a call is registered under `client.mutex`, and its request
written, while `client.reqMutex` is held; the two loops and the methods go on at any time
(`rpcLinkSystem`). The connection stays up.

`Carries` says that a stream is the frames of some messages and nothing else. `Travels` is what a
message needs so that it comes out of such a stream as it went in.
-/

set_option autoImplicit false
set_option relaxedAutoImplicit false

namespace MuduoProtorpc.GoRpc

open Foundation

variable {Method Message : Type}

/-! ### The transition system -/

/-- `rpc.Call`, as it is handed to `client.send`: the arguments, if they are a `proto.Message`, and
what the reply is unmarshalled into, unless that is none. -/
structure Call (Message : Type) where
  serviceMethod : String
  args : Option Message
  reply : Option (Bytes → Message × Option String)

/-- `client.pending[seq] = call`. -/
def PendingCalls.insert (pending : PendingCalls Message) (call : PendingCall Message) :
    PendingCalls Message where
  calls := (pending.delete call.seq).calls ++ [call]
  nodup := by
    rw [List.map_append, List.nodup_append]
    refine ⟨(pending.delete call.seq).nodup, List.nodup_singleton _, ?_⟩
    intro seq hseq other hother
    obtain ⟨old, hold, rfl⟩ := List.mem_map.mp hseq
    rw [List.map_singleton, List.mem_singleton] at hother
    rw [hother]
    exact (PendingCalls.mem_delete.mp hold).2

/-- A client and a server: `client.seq`, the calls that got a number, the one whose request is being
written under `client.reqMutex`, and those that were refused with `ErrShutdown`. -/
structure RpcLink (Method Message : Type) where
  seq : BitVec 64
  calls : List (Call Message)
  sending : Option (BitVec 64 × Call Message)
  refused : List (Call Message)
  client : RpcClient Message
  server : RpcServer Method Message

/-- What can happen next: a call gets its number, its request is written, a step of the client's
loop, or a step of the server. -/
inductive RpcLinkAction (Message : Type)
  | register (call : Call Message)
  | write
  | input (action : ClientAction)
  | serve (action : ServerAction Message)

/-- A codec whose connection got more bytes. -/
def Codec.receive (codec : Codec) (bytes : Bytes) : Codec :=
  { codec with stream := codec.stream.grow bytes codec.stream.ended }

/-- The bytes of the replies that were written last. -/
def writtenBytes (environment : ServerEnvironment Method Message)
    (replies : List (ℕ × RpcMessage)) : Bytes :=
  replies.flatMap fun reply ↦
    match encode environment.marshalMessage reply.2 with
    | .ok wire => wire
    | .error _ => []

/-- `client.send` up to the unlocking of `client.mutex`. -/
def RpcLink.register (link : RpcLink Method Message) (call : Call Message) :
    Option (RpcLink Method Message) :=
  match link.sending with
  | some _ => none
  | none =>
    match link.client.phase with
    | .terminated _ => some { link with refused := link.refused ++ [call] }
    | _ => some { link with
        seq := link.seq + 1
        calls := link.calls ++ [call]
        sending := some (link.seq, call)
        client := { link.client with
          pending := link.client.pending.insert { seq := link.seq, reply := call.reply } } }

/-- A request that could not be written: its call is done with the error, if it is pending still. -/
def RpcLink.fail (link : RpcLink Method Message) (seq : BitVec 64) (err : String) :
    RpcLink Method Message :=
  { link with
    sending := none
    client := { link.client with
      pending := link.client.pending.delete seq
      completed := link.client.completed ++ (link.client.pending.find seq).toList.map fun call ↦
        { seq := call.seq, result := .error err, cause := none } } }

/-- The rest of `client.send`. -/
def RpcLink.write (environment : ServerEnvironment Method Message)
    (link : RpcLink Method Message) : Option (RpcLink Method Message) :=
  match link.sending with
  | none => none
  | some (seq, call) =>
    match writeRequest environment.marshal
        { serviceMethod := call.serviceMethod, seq := seq } call.args with
    | .sent msg =>
      match encode environment.marshalMessage msg with
      | .ok wire => some { link with
          sending := none
          server := { link.server with codec := link.server.codec.receive wire } }
      | .error err => some (link.fail seq err)
    | .error err => some (link.fail seq err)
    | .panic text => some { link with client := { link.client with panicked := some text } }

/-- One step of a client and a server. -/
def rpcLinkStep (stops : Bool) (environment : ServerEnvironment Method Message)
    (link : RpcLink Method Message) : RpcLinkAction Message → Option (RpcLink Method Message)
  | .register call => if link.client.panicked.isSome then none else link.register call
  | .write => if link.client.panicked.isSome then none else link.write environment
  | .input action =>
    (clientStep stops environment.unmarshal link.client action).map fun client ↦
      { link with client := client }
  | .serve action =>
    (serverStep environment link.server action).map fun server ↦ { link with
      server := server
      client := { link.client with
        codec := link.client.codec.receive
          (writtenBytes environment (server.written.drop link.server.written.length)) } }

/-- A client and a server on a new connection. -/
def rpcLinkSystem (stops : Bool) (environment : ServerEnvironment Method Message) :
    TransitionSystem (RpcLink Method Message) (RpcLinkAction Message) where
  start := {
    seq := 0
    calls := []
    sending := none
    refused := []
    client := RpcClient.initial { calls := [], nodup := List.nodup_nil }
      { available := [], ended := false }
    server := RpcServer.initial { available := [], ended := false } }
  step := rpcLinkStep stops environment

/-! ### Messages that travel -/

/-- The message can be encoded, is not too long, and is unmarshalled as it was. -/
def Travels (environment : ServerEnvironment Method Message) (msg : RpcMessage) : Prop :=
  ∃ body, environment.marshalMessage msg = .ok body ∧ environment.unmarshal body = (msg, none) ∧
    8 + body.length ≤ 64 * 1024 * 1024

/-- The stream is the frames of the messages, nothing else, and goes on. -/
inductive Carries (environment : ServerEnvironment Method Message) :
    Stream → List RpcMessage → Prop
  | nil : Carries environment { available := [], ended := false } []
  | cons {rest : Bytes} {msg : RpcMessage} {msgs : List RpcMessage} {body : Bytes} :
      environment.marshalMessage msg = .ok body → environment.unmarshal body = (msg, none) →
        8 + body.length ≤ 64 * 1024 * 1024 →
          Carries environment { available := rest, ended := false } msgs →
            Carries environment { available := frameOf body ++ rest, ended := false } (msg :: msgs)

section Streams

variable {environment : ServerEnvironment Method Message} {stream : Stream} {msg : RpcMessage}
  {msgs : List RpcMessage}

/-- Where no message is left, `Decode` waits. -/
theorem Carries.decode_nil (hcarries : Carries environment stream []) :
    decode environment.unmarshal stream = .blocked := by
  cases hcarries
  rfl

/-- The first message is what `Decode` returns. -/
theorem Carries.decode_cons (hcarries : Carries environment stream (msg :: msgs)) :
    ∃ rest, decode environment.unmarshal stream = .message msg rest ∧
      Carries environment rest msgs := by
  cases hcarries with
  | cons hmarshal hunmarshal hlength hrest =>
    exact ⟨_, decode_frameOf hlength hunmarshal _ _, hrest⟩

/-- A message that travels is put behind the others. -/
theorem Carries.append (hcarries : Carries environment stream msgs)
    (htravels : Travels environment msg) :
    ∃ wire, encode environment.marshalMessage msg = .ok wire ∧
      Carries environment (stream.grow wire stream.ended) (msgs ++ [msg]) := by
  obtain ⟨body, hmarshal, hunmarshal, hlength⟩ := htravels
  refine ⟨frameOf body, encode_eq hmarshal, ?_⟩
  induction hcarries with
  | nil =>
    have hlast := Carries.cons hmarshal hunmarshal hlength .nil
    rwa [List.append_nil] at hlast
  | cons hfirst hsame hshort _ ih =>
    have hmore := Carries.cons hfirst hsame hshort ih
    rwa [← List.append_assoc] at hmore

end Streams

/-! ### Good calls and good replies -/

/-- The message of a request. -/
def requestMessage (service method : String) (seq : BitVec 64) (bytes : Bytes) : RpcMessage where
  type := some .request
  id := some seq
  service := some service
  method := some method
  request := some bytes

/-- The message of a reply. -/
def responseMessage (seq : BitVec 64) (bytes : Bytes) : RpcMessage where
  type := some .response
  id := some seq
  response := some bytes

/-- The server has the method of the call, which gets this argument. -/
structure Reaches (environment : ServerEnvironment Method Message) (call : Call Message)
    (procedure : Method) (argument : Message) : Prop where
  route : route environment.services call.serviceMethod = .ok procedure
  parses : ∃ args bytes unmarshal, call.args = some args ∧ environment.marshal args = .ok bytes ∧
    environment.services.argument procedure = some unmarshal ∧ unmarshal bytes = (argument, none)

/-- The reply of the method is what the call gets in the end. -/
structure Returns (environment : ServerEnvironment Method Message) (call : Call Message)
    (reply result : Message) : Prop where
  parses : ∃ bytes unmarshal, environment.marshal reply = .ok bytes ∧
    call.reply = some unmarshal ∧ unmarshal bytes = (result, none)

/-- The number of the call at a position. -/
def seqOf (index : ℕ) : BitVec 64 :=
  BitVec.ofNat 64 index

/-- The call is for a method that the server has, with arguments that it understands, and its
request travels. -/
def GoodCall (environment : ServerEnvironment Method Message) (call : Call Message)
    (seq : BitVec 64) : Prop :=
  ∃ service name procedure argument, call.serviceMethod = service ++ "." ++ name ∧
    '.' ∉ name.toList ∧ Reaches environment call procedure argument ∧
      ∀ args bytes, call.args = some args → environment.marshal args = .ok bytes →
        Travels environment (requestMessage service name seq bytes)

/-- The reply is one that the call understands, and it travels. -/
def GoodReply (environment : ServerEnvironment Method Message) (call : Call Message)
    (seq : BitVec 64) (reply : Message) : Prop :=
  (∃ result, Returns environment call reply result) ∧
    ∀ bytes, environment.marshal reply = .ok bytes →
      Travels environment (responseMessage seq bytes)

/-- Calls are good, and fewer than there are numbers; a method returns no error and a good reply. -/
def Cooperates (environment : ServerEnvironment Method Message) (link : RpcLink Method Message) :
    RpcLinkAction Message → Prop
  | .register call => GoodCall environment call link.seq ∧ link.calls.length < 2 ^ 64
  | .serve (.finish index errmsg reply) => errmsg = "" ∧ ∃ call message,
      link.calls[index]? = some call ∧ reply = some message ∧
        GoodReply environment call (seqOf index) message
  | _ => True

/-! ### What the calls are guaranteed -/

/-- What the calls of a client are guaranteed: no codec panics; the method that runs for a call is
its own, with its own arguments; and a call that is done is done once, with what that method has
returned. -/
structure RpcGuarantees (environment : ServerEnvironment Method Message)
    (link : RpcLink Method Message) : Prop where
  clientSafe : link.client.panicked = none
  serverSafe : link.server.panicked = none
  invoked : ∀ (index : ℕ) (request : ReadRequest Method Message) (procedure : Method)
    (argument : Message), link.server.requests[index]? = some request →
      request.progress = .calling procedure argument →
        ∃ call, link.calls[index]? = some call ∧ Reaches environment call procedure argument
  once : (link.client.completed.map Completion.seq).Nodup
  result : ∀ completion ∈ link.client.completed, ∃ (index : ℕ) (call : Call Message)
    (request : ReadRequest Method Message) (reply result : Message),
      link.calls[index]? = some call ∧ completion.seq = seqOf index ∧
        link.server.requests[index]? = some request ∧
          request.progress = .returned "" (some reply) ∧
            Returns environment call reply result ∧ completion.result = .ok result

/-- Nothing but a new call can happen: every method has returned. -/
def RpcQuiet (stops : Bool) (environment : ServerEnvironment Method Message)
    (link : RpcLink Method Message) : Prop :=
  ∀ action, (∀ call, action ≠ .register call) → rpcLinkStep stops environment link action = none

end MuduoProtorpc.GoRpc
