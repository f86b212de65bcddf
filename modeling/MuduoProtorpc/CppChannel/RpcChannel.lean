import MuduoProtorpc.Foundation.PendingTable
import MuduoProtorpc.Wire.RpcMessage

/-!
# The C++ RpcChannel

`muduo/protorpc2/RpcChannel.cc` and the service table of `RpcServer.cc`, one definition for each
piece of code that runs without another thread in between.

A channel is used from two sides. As a client, any number of threads are inside `CallMethod`, whose
steps are `Client.callMethodId` (draw the next id and build the REQUEST), `Client.callMethodInsert`
(store the call in `outstandings_` under the mutex) and `Client.callMethodSend` (hand the REQUEST to
the codec). The I/O thread handles a RESPONSE in two steps: `Client.onResponse` takes the entry out
of the table under the mutex, and `Client.runDone` parses the body and runs the callback after the
mutex is released. As a server, the channel answers a REQUEST by `callServiceMethod`, which may
invoke a service method, and sends what the service passes to its callback by `doneCallback`.

The protobuf runtime is a parameter (`Protobuf`). `ParseFromString` returns a success flag next to
the object it leaves behind; the channel ignores the flag.
-/

set_option autoImplicit false
set_option relaxedAutoImplicit false

namespace MuduoProtorpc.CppChannel

open Foundation

/-- The part of the protobuf runtime the channel calls. A `Prototype` is a message type, as given by
a descriptor or a default instance; a `Message` is an object of some type. -/
structure Protobuf (Prototype Message : Type) where
  descriptor : Message → Prototype
  serializeAsString : Message → Bytes
  parseFromString : Prototype → Bytes → Message × Bool

/-- A protobuf runtime with one type and one object. -/
def unitProtobuf : Protobuf Unit Unit where
  descriptor := fun _ ↦ ()
  serializeAsString := fun _ ↦ []
  parseFromString := fun _ _ ↦ ((), true)

/-- What `message MethodDescriptor` the channel reads: the full name of its service, its own name,
and its two message types. -/
structure MethodDescriptor (Prototype : Type) where
  service : String
  name : String
  inputType : Prototype
  outputType : Prototype
  deriving DecidableEq

/-! ### The client side -/

/-- `RpcChannel::OutstandingCall`. Both fields may be null. -/
structure OutstandingCall (Prototype Done : Type) where
  response : Option Prototype
  done : Option Done
  deriving DecidableEq

/-- Where a thread stands in `CallMethod`. -/
inductive CallPhase
  | idTaken
  | inserted
  | sent
  deriving DecidableEq

/-- One activation of `CallMethod`: its arguments, the REQUEST it built, and where it stands. -/
structure CallFrame (Prototype Message Done : Type) where
  method : MethodDescriptor Prototype
  request : Message
  message : RpcMessage
  out : OutstandingCall Prototype Done
  phase : CallPhase

/-- The id of a call. -/
def CallFrame.id {Prototype Message Done : Type} (call : CallFrame Prototype Message Done) :
    BitVec 64 :=
  call.message.getId

/-- What the I/O thread holds between taking an entry out of the table and running its callback. -/
structure Received (Prototype Done : Type) where
  id : BitVec 64
  out : OutstandingCall Prototype Done
  body : Bytes

/-- One run of a callback: the id its entry was found under, the callback, and the object it was
given. -/
structure DoneRun (Message Done : Type) where
  id : BitVec 64
  done : Done
  response : Message
  deriving DecidableEq

/-- The client side of an `RpcChannel`, with the activations of `CallMethod` and of the handling of
a RESPONSE, and a record of what it has sent and of the callbacks it has run. -/
structure Client (Prototype Message Done Connection : Type) where
  id : BitVec 64
  outstandings : Table (BitVec 64) (OutstandingCall Prototype Done)
  connection : Connection
  calls : List (CallFrame Prototype Message Done)
  handling : List (Received Prototype Done)
  sent : List (Connection × RpcMessage)
  runs : List (DoneRun Message Done)

namespace Client

variable {Prototype Message Done Connection : Type}

/-- A channel just constructed on a connection. -/
def initial (connection : Connection) : Client Prototype Message Done Connection where
  id := 0
  outstandings := Table.empty
  connection := connection
  calls := []
  handling := []
  sent := []
  runs := []

/-- The REQUEST that `CallMethod` builds. -/
def requestMessage (protobuf : Protobuf Prototype Message) (method : MethodDescriptor Prototype)
    (request : Message) (id : BitVec 64) : RpcMessage where
  type := some .request
  id := some id
  service := some method.service
  method := some method.name
  request := some (protobuf.serializeAsString request)

/-- `CallMethod` up to the mutex: draws the next id and builds the message and the table entry. -/
def callMethodId (protobuf : Protobuf Prototype Message) (method : MethodDescriptor Prototype)
    (request : Message) (response : Option Prototype) (done : Option Done)
    (client : Client Prototype Message Done Connection) :
    Client Prototype Message Done Connection :=
  let id := client.id + 1
  { client with
    id := id
    calls := client.calls ++ [{
      method := method
      request := request
      message := requestMessage protobuf method request id
      out := { response := response, done := done }
      phase := .idTaken }] }

/-- An activation moved to its next phase. -/
def advance (client : Client Prototype Message Done Connection) (index : ℕ) (phase : CallPhase) :
    List (CallFrame Prototype Message Done) :=
  client.calls.modify index fun call ↦ { call with phase := phase }

/-- `outstandings_[id] = out` under the mutex, for an activation that has drawn its id. -/
def callMethodInsert (index : ℕ) (client : Client Prototype Message Done Connection) :
    Option (Client Prototype Message Done Connection) :=
  match client.calls[index]? with
  | none => none
  | some call =>
    if call.phase = .idTaken then
      some { client with
        outstandings := client.outstandings.insert call.id call.out
        calls := client.advance index .inserted }
    else none

/-- `codec_.send(conn_, message)`, for an activation that has stored its entry. -/
def callMethodSend (index : ℕ) (client : Client Prototype Message Done Connection) :
    Option (Client Prototype Message Done Connection) :=
  match client.calls[index]? with
  | none => none
  | some call =>
    if call.phase = .inserted then
      some { client with
        sent := client.sent ++ [(client.connection, call.message)]
        calls := client.advance index .sent }
    else none

/-- `setConnection`. -/
def setConnection (connection : Connection) (client : Client Prototype Message Done Connection) :
    Client Prototype Message Done Connection :=
  { client with connection := connection }

/-- `onRpcMessage` for a RESPONSE, up to the release of the mutex: takes the entry of its id out of
the table, if there is one. -/
def onResponse (message : RpcMessage) (client : Client Prototype Message Done Connection) :
    Client Prototype Message Done Connection :=
  match client.outstandings.find message.getId with
  | none => client
  | some out =>
    { client with
      outstandings := client.outstandings.erase message.getId
      handling := client.handling ++
        [{ id := message.getId, out := out, body := message.getResponse }] }

/-- The rest of `onRpcMessage` for a RESPONSE whose entry was found: parses the body into a new
object of the prototype and runs the callback, unless one of the two is null. -/
def runDone (protobuf : Protobuf Prototype Message) (index : ℕ)
    (client : Client Prototype Message Done Connection) :
    Option (Client Prototype Message Done Connection) :=
  match client.handling[index]? with
  | none => none
  | some received =>
    let rest := { client with handling := client.handling.eraseIdx index }
    match received.out.response, received.out.done with
    | some prototype, some done =>
      some { rest with
        runs := rest.runs ++ [{
          id := received.id
          done := done
          response := (protobuf.parseFromString prototype received.body).1 }] }
    | _, _ => some rest

end Client

/-! ### The server side -/

/-- The methods of all services in the `.proto` files both peers are compiled from. A method is
determined by the full name of its service and its own name. -/
structure Schema (Prototype : Type) where
  methods : List (MethodDescriptor Prototype)
  unique : ∀ first ∈ methods, ∀ second ∈ methods, first.service = second.service →
    first.name = second.name → first = second

/-- A `Service` object: the full name and the methods of its descriptor, which are methods the
schema declares for that service. -/
structure Service {Prototype : Type} (schema : Schema Prototype) where
  fullName : String
  methods : List (MethodDescriptor Prototype)
  declared : ∀ method ∈ methods, method ∈ schema.methods ∧ method.service = fullName

section Server

variable {Prototype Message : Type} {schema : Schema Prototype}

/-- `RpcChannel::ServiceMap`, as `RpcServer` fills it: a service is found under its full name. -/
structure ServiceMap (schema : Schema Prototype) where
  entries : Table String (Service schema)
  keyed : ∀ name service, entries.find name = some service → service.fullName = name

/-- The service map before any registration. -/
def ServiceMap.empty : ServiceMap schema where
  entries := Table.empty
  keyed := fun _ _ hnone ↦ by cases hnone

/-- `RpcServer::registerService`. A service registered later under the same name replaces it. -/
def registerService (services : ServiceMap schema) (service : Service schema) :
    ServiceMap schema where
  entries := services.entries.insert service.fullName service
  keyed := by
    intro name found hfound
    rcases Table.find_insert_eq_some.mp hfound with ⟨rfl, rfl⟩ | ⟨_, hold⟩
    · rfl
    · exact services.keyed name found hold

/-- The service map of a server that registered services in this order. -/
def registered (services : List (Service schema)) : ServiceMap schema :=
  services.foldl registerService ServiceMap.empty

/-- `FindMethodByName`. -/
def Service.findMethodByName (service : Service schema) (name : String) :
    Option (MethodDescriptor Prototype) :=
  service.methods.find? fun method ↦ method.name = name

/-- What `callServiceMethod` passes to `service->CallMethod`: the service, the method, the request
object, and the id its `doneCallback` captures. -/
structure ServiceCall (schema : Schema Prototype) (Message : Type) where
  service : Service schema
  method : MethodDescriptor Prototype
  request : Message
  id : BitVec 64

/-- `RpcChannel::callServiceMethod`: nothing happens without a service map, without the service or
without the method; the parse's success flag is not looked at. -/
def callServiceMethod (protobuf : Protobuf Prototype Message)
    (services : Option (ServiceMap schema)) (message : RpcMessage) :
    Option (ServiceCall schema Message) :=
  match services with
  | none => none
  | some services =>
    match services.entries.find message.getService with
    | none => none
    | some service =>
      match service.findMethodByName message.getMethod with
      | none => none
      | some method => some {
          service := service
          method := method
          request := (protobuf.parseFromString method.inputType message.getRequest).1
          id := message.getId }

/-- The RESPONSE that `RpcChannel::doneCallback` builds. -/
def doneCallback (protobuf : Protobuf Prototype Message) (response : Message) (id : BitVec 64) :
    RpcMessage where
  type := some .response
  id := some id
  response := some (protobuf.serializeAsString response)

/-- A REQUEST for a method of the schema invokes that method, of the service registered under the
full name of its service, with what its request bytes parse to. -/
theorem callServiceMethod_requestMessage {protobuf : Protobuf Prototype Message}
    {services : Option (ServiceMap schema)} {method : MethodDescriptor Prototype}
    {request : Message} {id : BitVec 64} {call : ServiceCall schema Message}
    (hmethod : method ∈ schema.methods)
    (hcall : callServiceMethod protobuf services
      (Client.requestMessage protobuf method request id) = some call) :
    (∃ map, services = some map ∧ map.entries.find method.service = some call.service) ∧
      call.service.fullName = method.service ∧ call.method = method ∧
        call.request = (protobuf.parseFromString method.inputType
          (protobuf.serializeAsString request)).1 ∧ call.id = id := by
  unfold callServiceMethod at hcall
  split at hcall
  · cases hcall
  · rename_i map
    split at hcall
    · cases hcall
    · rename_i service hservice
      split at hcall
      · cases hcall
      · rename_i found hfound
        have hname : service.fullName = method.service := map.keyed _ _ hservice
        have hdeclared := service.declared found (List.mem_of_find?_eq_some hfound)
        have hfoundName := List.find?_some hfound
        obtain rfl : found = method := by
          refine schema.unique found hdeclared.1 method hmethod (hdeclared.2.trans hname) ?_
          exact of_decide_eq_true hfoundName
        obtain rfl := Option.some.inj hcall
        exact ⟨⟨map, rfl, hservice⟩, hname, rfl, rfl, rfl⟩

end Server

end MuduoProtorpc.CppChannel
