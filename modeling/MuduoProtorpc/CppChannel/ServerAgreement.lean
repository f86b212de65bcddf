import MuduoProtorpc.CppChannel.RpcChannel
import MuduoProtorpc.JavaChannel.RpcChannel

/-!
# The C++ and the Java server on one request

Both servers look a request up by the name of its service and the name of its method, parse it as
the request type of the method, and invoke the service with what they get. Java does so only if the
bytes parse; C++ does not look at what `ParseFromString` returns, and passes on the object that a
failed parse leaves behind.

For services registered in the same order the two do the same, unless the service and the method
exist and the bytes do not parse (`sameInvocations_iff`).
-/

set_option autoImplicit false
set_option relaxedAutoImplicit false

namespace MuduoProtorpc

open Foundation CppChannel

variable {Prototype Message : Type} {schema : Schema Prototype}

/-! ### The services of the Java server -/

namespace JavaChannel

/-- The part of the Java protobuf runtime that a server calls; `mergeFrom` is
`prototype.toBuilder().mergeFrom(bytes).build()`. -/
structure JavaProtobuf (Prototype Message : Type) where
  mergeFrom : Prototype → Bytes → Except String Message
  toByteString : Message → Bytes

/-- `RpcPeer.registerService`. -/
def registerService (services : Table String (CppChannel.Service schema))
    (service : CppChannel.Service schema) : Table String (CppChannel.Service schema) :=
  services.insert service.fullName service

/-- The services of a server that registered them in this order. -/
def registered (protobuf : JavaProtobuf Prototype Message)
    (services : List (CppChannel.Service schema)) :
    Services (CppChannel.Service schema) (MethodDescriptor Prototype) Message where
  get := (services.foldl registerService Table.empty).find
  findMethodByName := CppChannel.Service.findMethodByName
  mergeFrom := fun _ method ↦ protobuf.mergeFrom method.inputType
  toByteString := protobuf.toByteString

theorem fromByteString_eq_some_iff {mergeFrom : Bytes → Except String Message} {bytes : Bytes}
    {message : Message} :
    fromByteString mergeFrom bytes = some message ↔ mergeFrom bytes = .ok message := by
  rw [fromByteString]
  cases hmerge : mergeFrom bytes with
  | ok parsed => simp
  | error text => simp

/-- A service is invoked with what the bytes of a request parse to. -/
theorem doRequest_eq_invoked_iff {Service Method : Type}
    {services : Services Service Method Message} {message : RpcMessage} {service : Service}
    {method : Method} {request : Message} {id : BitVec 64} :
    doRequest services message = .invoked service method request id ↔
      services.get message.getService = some service ∧
        services.findMethodByName service message.getMethod = some method ∧
          fromByteString (services.mergeFrom service method) message.getRequest = some request ∧
            message.getId = id := by
  have hwrite : ∀ errorBuilder, (writeError errorBuilder : Handled Service Method Message) ≠
      .invoked service method request id := by
    intro errorBuilder
    rw [writeError]
    split
    · intro hequal
      cases hequal
    · intro hequal
      cases hequal
  rw [doRequest]
  constructor
  · intro hinvoked
    split at hinvoked
    · rename_i found hservice
      split at hinvoked
      · rename_i named hmethod
        split at hinvoked
        · rename_i parsed hrequest
          obtain ⟨rfl, rfl, rfl, rfl⟩ := Handled.invoked.inj hinvoked
          exact ⟨hservice, hmethod, hrequest, rfl⟩
        · exact absurd hinvoked (hwrite _)
      · exact absurd hinvoked (hwrite _)
    · exact absurd hinvoked (hwrite _)
  · rintro ⟨hservice, hmethod, hrequest, hid⟩
    simp only [hservice, hmethod, hrequest, hid]

end JavaChannel

/-! ### Invocations -/

/-- The two protobuf runtimes parse the same bytes, and make the same of them. -/
def SameParse (protobuf : Protobuf Prototype Message)
    (javaProtobuf : JavaChannel.JavaProtobuf Prototype Message) : Prop :=
  ∀ prototype bytes message, javaProtobuf.mergeFrom prototype bytes = .ok message ↔
    protobuf.parseFromString prototype bytes = (message, true)

/-- The C++ and the Java server invoke the same method of the same service with the same request,
or both none; and none is invoked with a request that failed to parse. -/
structure SameInvocations (protobuf : Protobuf Prototype Message)
    (javaProtobuf : JavaChannel.JavaProtobuf Prototype Message)
    (services : List (Service schema)) (message : RpcMessage) : Prop where
  same : ∀ service method request id,
    callServiceMethod protobuf (some (registered services)) message =
        some { service := service, method := method, request := request, id := id } ↔
      JavaChannel.doRequest (JavaChannel.registered javaProtobuf services) message =
        .invoked service method request id
  cpp_parsed : ∀ call, callServiceMethod protobuf (some (registered services)) message = some call →
    protobuf.parseFromString call.method.inputType message.getRequest = (call.request, true)
  java_parsed : ∀ service method request id,
    JavaChannel.doRequest (JavaChannel.registered javaProtobuf services) message =
        .invoked service method request id →
      javaProtobuf.mergeFrom method.inputType message.getRequest = .ok request

section Invocations

variable {protobuf : Protobuf Prototype Message}
  {javaProtobuf : JavaChannel.JavaProtobuf Prototype Message} {services : List (Service schema)}
  {message : RpcMessage}

/-- Both servers find a service under a name, or neither. -/
theorem find_registered (services : List (Service schema)) :
    (registered services).entries = services.foldl JavaChannel.registerService Table.empty := by
  rw [registered]
  induction services using List.reverseRecOn with
  | nil => rfl
  | append_singleton earlier last ih =>
    rw [List.foldl_append, List.foldl_append]
    exact congrArg (fun entries : Table String (Service schema) ↦
      entries.insert last.fullName last) ih

/-- What C++ invokes. -/
theorem callServiceMethod_eq_some_iff {call : ServiceCall schema Message} :
    callServiceMethod protobuf (some (registered services)) message = some call ↔
      (registered services).entries.find message.getService = some call.service ∧
        call.service.findMethodByName message.getMethod = some call.method ∧
          (protobuf.parseFromString call.method.inputType message.getRequest).1 = call.request ∧
            message.getId = call.id := by
  rw [callServiceMethod]
  constructor
  · intro hcall
    split at hcall
    · cases hcall
    · rename_i service hservice
      split at hcall
      · cases hcall
      · rename_i method hmethod
        rw [← Option.some.inj hcall]
        exact ⟨hservice, hmethod, rfl, rfl⟩
  · rintro ⟨hservice, hmethod, hrequest, hid⟩
    simp only [hservice, hmethod, hrequest, hid]

/-- What Java invokes. -/
theorem doRequest_eq_invoked_iff {service : Service schema} {method : MethodDescriptor Prototype}
    {request : Message} {id : BitVec 64} :
    JavaChannel.doRequest (JavaChannel.registered javaProtobuf services) message =
        .invoked service method request id ↔
      (registered services).entries.find message.getService = some service ∧
        service.findMethodByName message.getMethod = some method ∧
          javaProtobuf.mergeFrom method.inputType message.getRequest = .ok request ∧
            message.getId = id := by
  rw [find_registered, JavaChannel.doRequest_eq_invoked_iff, JavaChannel.fromByteString_eq_some_iff]
  rfl

/-- Where the bytes parse the servers do the same. -/
theorem sameInvocations_of_parsed (hsame : SameParse protobuf javaProtobuf)
    (hparsed : ∀ service method,
      (registered services).entries.find message.getService = some service →
        service.findMethodByName message.getMethod = some method →
          (protobuf.parseFromString method.inputType message.getRequest).2 = true) :
    SameInvocations protobuf javaProtobuf services message := by
  have hcpp : ∀ call : ServiceCall schema Message,
      callServiceMethod protobuf (some (registered services)) message = some call →
        protobuf.parseFromString call.method.inputType message.getRequest =
          (call.request, true) := by
    intro call hcall
    obtain ⟨hservice, hmethod, hrequest, -⟩ := callServiceMethod_eq_some_iff.mp hcall
    exact Prod.ext hrequest (hparsed _ _ hservice hmethod)
  constructor
  · intro service method request id
    rw [callServiceMethod_eq_some_iff, doRequest_eq_invoked_iff]
    constructor
    · rintro ⟨hservice, hmethod, hrequest, hid⟩
      refine ⟨hservice, hmethod, ?_, hid⟩
      rw [hsame]
      exact Prod.ext hrequest (hparsed _ _ hservice hmethod)
    · rintro ⟨hservice, hmethod, hrequest, hid⟩
      rw [hsame] at hrequest
      exact ⟨hservice, hmethod, congrArg Prod.fst hrequest, hid⟩
  · exact hcpp
  · intro service method request id hinvoked
    exact (doRequest_eq_invoked_iff.mp hinvoked).2.2.1

/-- C++ invokes the method if the bytes do not parse, too. -/
theorem parsed_of_sameInvocations
    (hinvocations : SameInvocations protobuf javaProtobuf services message)
    {service : Service schema} {method : MethodDescriptor Prototype}
    (hservice : (registered services).entries.find message.getService = some service)
    (hmethod : service.findMethodByName message.getMethod = some method) :
    (protobuf.parseFromString method.inputType message.getRequest).2 = true := by
  have hcall := hinvocations.cpp_parsed
    { service := service
      method := method
      request := (protobuf.parseFromString method.inputType message.getRequest).1
      id := message.getId }
    (callServiceMethod_eq_some_iff.mpr ⟨hservice, hmethod, rfl, rfl⟩)
  exact congrArg Prod.snd hcall

end Invocations

/-- The two servers do the same with a message exactly if its bytes parse, or there is no service or
no method for it. -/
theorem sameInvocations_iff {protobuf : Protobuf Prototype Message}
    {javaProtobuf : JavaChannel.JavaProtobuf Prototype Message}
    (hsame : SameParse protobuf javaProtobuf) (services : List (Service schema))
    (message : RpcMessage) :
    SameInvocations protobuf javaProtobuf services message ↔
      ∀ service method, (registered services).entries.find message.getService = some service →
        service.findMethodByName message.getMethod = some method →
          (protobuf.parseFromString method.inputType message.getRequest).2 = true := by
  constructor
  · intro hinvocations service method hservice hmethod
    exact parsed_of_sameInvocations hinvocations hservice hmethod
  · intro hparsed
    exact sameInvocations_of_parsed hsame hparsed

/-! ### A service with one method -/

/-- A method that takes a message without fields. -/
def pingMethod : MethodDescriptor Unit where
  service := "Ping"
  name := "ping"
  inputType := ()
  outputType := ()

def pingSchema : Schema Unit where
  methods := [pingMethod]
  unique := by
    intro first hfirst second hsecond _ _
    rw [List.mem_singleton.mp hfirst, List.mem_singleton.mp hsecond]

def pingService : Service pingSchema where
  fullName := "Ping"
  methods := [pingMethod]
  declared := by
    intro method hmethod
    rw [List.mem_singleton.mp hmethod]
    exact ⟨List.mem_singleton_self _, rfl⟩

/-- A message without fields is the bytes that it does not know. It does not parse from a byte that
begins a number and does not end it. -/
def emptyProtobuf : Protobuf Unit Bytes where
  descriptor := fun _ ↦ ()
  serializeAsString := id
  parseFromString := fun _ bytes ↦ if bytes = [0xff] then ([], false) else (bytes, true)

def emptyJavaProtobuf : JavaChannel.JavaProtobuf Unit Bytes where
  mergeFrom := fun _ bytes ↦
    if bytes = [0xff] then .error "InvalidProtocolBufferException" else .ok bytes
  toByteString := id

theorem sameParse_empty : SameParse emptyProtobuf emptyJavaProtobuf := by
  intro prototype bytes message
  simp only [emptyProtobuf, emptyJavaProtobuf]
  by_cases hbytes : bytes = [0xff]
  · simp [hbytes]
  · simp [hbytes]

/-- A request of the method. -/
def pingRequest (bytes : Bytes) : RpcMessage :=
  { type := some .request, id := some 1, service := some "Ping", method := some "ping",
    request := some bytes }

theorem sameInvocations_ping :
    SameInvocations emptyProtobuf emptyJavaProtobuf [pingService] (pingRequest []) :=
  (sameInvocations_iff sameParse_empty [pingService] (pingRequest [])).mpr
    (fun _ _ _ _ ↦ rfl)

/-- The request does not parse, and only Java refuses it. -/
theorem not_sameInvocations_ping :
    SameParse emptyProtobuf emptyJavaProtobuf ∧
      ¬ SameInvocations emptyProtobuf emptyJavaProtobuf [pingService] (pingRequest [0xff]) := by
  refine ⟨sameParse_empty, ?_⟩
  intro hinvocations
  have hservice : (registered [pingService]).entries.find (pingRequest [0xff]).getService =
      some pingService :=
    Table.find_insert_self _ _ _
  have hmethod : pingService.findMethodByName (pingRequest [0xff]).getMethod = some pingMethod :=
    rfl
  have hparsed := parsed_of_sameInvocations hinvocations hservice hmethod
  cases hparsed

end MuduoProtorpc
