import MuduoProtorpc.Foundation.TransitionSystem
import MuduoProtorpc.Wire.PythonCodec

/-!
# The Python channels

`SyncRpcChannel` and `ServerRpcChannel` of `examples/zurg/client/rpc.py`, at the two ends of one
connection. A client that calls a method sends its request and waits for the response; the server
reads a request, calls the method and sends what it returns.

`sendall` puts the bytes of a message on the connection in pieces of any size, and `recv` waits for
as many bytes as it was asked for. The exceptions are told apart by a text: that of the assertion,
or the name of the exception. The protobuf runtime is a parameter, and a parse that raises an error
is `none`.
-/

set_option autoImplicit false
set_option relaxedAutoImplicit false

namespace MuduoProtorpc.Python

open Foundation

/-! ### The two ends -/

/-- The method that `method_descriptor` describes. -/
structure MethodDescriptor where
  containingService : String
  name : String
  deriving DecidableEq, Repr

/-- The protobuf runtime, with the classes of the requests and the responses of each method. -/
structure Runtime (Message : Type) where
  serializeRpc : RpcMessage → Bytes
  parseRpc : Bytes → Option RpcMessage
  serializeToString : Message → Bytes
  parseRequest : MethodDescriptor → Bytes → Option Message
  parseResponse : MethodDescriptor → Bytes → Option Message

/-- A service of a server: its full name and its methods. -/
structure Service where
  fullName : String
  methods : List String
  deriving DecidableEq, Repr

/-- What a client calls. -/
structure Call (Message : Type) where
  method : MethodDescriptor
  request : Message
  deriving DecidableEq, Repr

/-- Where `CallMethod` stands: it was not called, it sends, it waits for the response to a message,
or it has raised an exception. -/
inductive ClientPhase
  | idle
  | sending (message : RpcMessage) (method : MethodDescriptor) (rest : Bytes)
  | receiving (message : RpcMessage) (method : MethodDescriptor)
  | raised (exception : String)
  deriving DecidableEq

/-- Where `serveOneClient` stands: it reads, it calls a method for a request with an identifier, it
sends, it has closed the connection, or it has raised an exception. -/
inductive ServerPhase
  | decoding
  | calling (id : BitVec 64)
  | replying (rest : Bytes)
  | closed
  | raised (exception : String)
  deriving DecidableEq

/-- A client and a server, and the bytes on their connection. The fields below the comment are
history. -/
structure Link (Message : Type) where
  count : ℕ := 0
  client : ClientPhase := .idle
  toServer : Stream := { available := [], ended := false }
  server : ServerPhase := .decoding
  toClient : Stream := { available := [], ended := false }
  -- what was called, what the service was called with and what it returned, and what the calls have
  -- returned
  calls : List (Call Message) := []
  invocations : List (Call Message) := []
  returned : List Message := []
  results : List Message := []
  deriving DecidableEq

variable {Message : Type}

/-! ### The client -/

/-- The message of a call. -/
def requestMessage (runtime : Runtime Message) (id : BitVec 64) (call : Call Message) :
    RpcMessage where
  type := some .request
  id := some id
  service := some call.method.containingService
  method := some call.method.name
  request := some (runtime.serializeToString call.request)

/-- `CallMethod`, up to `sendall`. An identifier that is no `fixed64` raises an exception, and so
does a message that is too long. -/
def callMethod (runtime : Runtime Message) (link : Link Message) (call : Call Message) :
    Link Message :=
  let count := link.count + 1
  let link := { link with count := count, calls := link.calls ++ [call] }
  if 2 ^ 64 ≤ count then { link with client := .raised "ValueError" }
  else
    let message := requestMessage runtime (BitVec.ofNat 64 count) call
    match pythonEncode runtime.serializeRpc message with
    | none => { link with client := .raised "struct.error" }
    | some wire => { link with client := .sending message call.method wire }

/-- `sendall` goes on by some bytes. -/
def clientSend (link : Link Message) (size : ℕ) : Option (Link Message) :=
  match link.client with
  | .sending message method rest =>
    if 0 < size ∧ size ≤ rest.length then
      some { link with
        toServer := link.toServer.grow (rest.take size) link.toServer.ended
        client := if rest.drop size = [] then .receiving message method
          else .sending message method (rest.drop size) }
    else none
  | _ => none

/-- `CallMethod`, from `decode`. Without a message, `responseMessage` is `None`. -/
def clientDecode (runtime : Runtime Message) (link : Link Message) : Option (Link Message) :=
  match link.client with
  | .receiving message method =>
    match pythonDecode runtime.parseRpc link.toClient with
    | .blocked => none
    | .nothing => some { link with client := .raised "AttributeError" }
    | .assertionError assertion => some { link with client := .raised assertion }
    | .decodeError => some { link with client := .raised "DecodeError" }
    | .message responseMessage rest =>
      let link := { link with toClient := rest }
      if responseMessage.getType ≠ .response then
        some { link with client := .raised "responseMessage.type == rpc_pb2.RESPONSE" }
      else if responseMessage.getId ≠ message.getId then
        some { link with client := .raised "responseMessage.id == message.id" }
      else
        match runtime.parseResponse method responseMessage.getResponse with
        | none => some { link with client := .raised "DecodeError" }
        | some response => some { link with
            client := .idle
            results := link.results ++ [response] }
  | _ => none

/-! ### The server -/

/-- The message of a response. -/
def responseMessage (runtime : Runtime Message) (id : BitVec 64) (response : Message) :
    RpcMessage where
  type := some .response
  id := some id
  response := some (runtime.serializeToString response)

/-- `serveOneClient`, from `decode` to the call of the method. There is no class for the request of
a method that is not found. -/
def serverDecode (runtime : Runtime Message) (service : Service) (link : Link Message) :
    Option (Link Message) :=
  match link.server with
  | .decoding =>
    match pythonDecode runtime.parseRpc link.toServer with
    | .blocked => none
    | .nothing => some { link with
        server := .closed
        toClient := link.toClient.grow [] true }
    | .assertionError assertion => some { link with server := .raised assertion }
    | .decodeError => some { link with server := .raised "DecodeError" }
    | .message message rest =>
      let link := { link with toServer := rest }
      let method : MethodDescriptor := {
        containingService := message.getService
        name := message.getMethod }
      if message.getType ≠ .request then
        some { link with server := .raised "message.type == rpc_pb2.REQUEST" }
      else if message.getService ≠ service.fullName then
        some { link with
          server := .raised "message.service == service.GetDescriptor().full_name" }
      else if message.getMethod ∉ service.methods then
        some { link with server := .raised "GetRequestClass" }
      else
        match runtime.parseRequest method message.getRequest with
        | none => some { link with server := .raised "DecodeError" }
        | some request => some { link with
            server := .calling message.getId
            invocations := link.invocations ++ [{ method := method, request := request }] }
  | _ => none

/-- `sendall` on what `encode` has returned, which raises an exception for a message that is too
long. -/
def reply (link : Link Message) : Option Bytes → Link Message
  | none => { link with server := .raised "struct.error" }
  | some wire => { link with server := .replying wire }

/-- The method returns, and its response is about to be sent. -/
def respond (runtime : Runtime Message) (link : Link Message) (response : Message) :
    Option (Link Message) :=
  match link.server with
  | .calling id =>
    some (reply { link with returned := link.returned ++ [response] }
      (pythonEncode runtime.serializeRpc (responseMessage runtime id response)))
  | _ => none

/-- `sendall` goes on by some bytes. -/
def serverSend (link : Link Message) (size : ℕ) : Option (Link Message) :=
  match link.server with
  | .replying rest =>
    if 0 < size ∧ size ≤ rest.length then
      some { link with
        toClient := link.toClient.grow (rest.take size) link.toClient.ended
        server := if rest.drop size = [] then .decoding else .replying (rest.drop size) }
    else none
  | _ => none

/-! ### The connection -/

/-- What can happen: the client calls a method, or closes the connection instead; it sends, or
decodes; and the server decodes, its service returns a response, or it sends. -/
inductive Action (Message : Type)
  | call (call : Call Message)
  | close
  | clientSend (size : ℕ)
  | clientDecode
  | serverDecode
  | respond (response : Message)
  | serverSend (size : ℕ)

/-- One step of the two ends. -/
def linkStep (runtime : Runtime Message) (service : Service) (link : Link Message) :
    Action Message → Option (Link Message)
  | .call call =>
    if link.client = .idle ∧ link.toServer.ended = false then some (callMethod runtime link call)
    else none
  | .close =>
    if link.client = .idle ∧ link.toServer.ended = false then
      some { link with toServer := link.toServer.grow [] true }
    else none
  | .clientSend size => clientSend link size
  | .clientDecode => clientDecode runtime link
  | .serverDecode => serverDecode runtime service link
  | .respond response => respond runtime link response
  | .serverSend size => serverSend link size

/-- A client that has just connected. -/
def linkSystem (runtime : Runtime Message) (service : Service) :
    TransitionSystem (Link Message) (Action Message) where
  start := {}
  step := linkStep runtime service

end MuduoProtorpc.Python
