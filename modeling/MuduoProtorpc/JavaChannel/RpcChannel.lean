import Mathlib.Data.List.Basic
import MuduoProtorpc.Wire.RpcMessage

/-!
# The Java channel

What the methods of `RpcChannel.java` do with one message: `doRequest` with a request, `done` with
the response of a service, `fromByteString` with the bytes of either. The messages they write are
made by the protobuf builder, whose `build()` throws when a required field is missing.

The protobuf runtime and the services are parameters (`Services`): which service goes by a name,
which method of it by another, what bytes parse to, and what a message serializes to.
-/

set_option autoImplicit false
set_option relaxedAutoImplicit false

namespace MuduoProtorpc.JavaChannel

/-! ### Building and parsing messages -/

/-- The required fields that are not set. -/
def missingFields (builder : RpcMessage) : List String :=
  (if builder.type.isSome then [] else ["type"]) ++ if builder.id.isSome then [] else ["id"]

/-- `RpcMessage.Builder.build`; the error is the exception it throws. -/
def build (builder : RpcMessage) : Except String RpcMessage :=
  if builder.isInitialized then .ok builder
  else .error ("Message missing required fields: " ++ ", ".intercalate (missingFields builder))

theorem build_of_isInitialized {builder : RpcMessage} (hbuilder : builder.isInitialized = true) :
    build builder = .ok builder := by
  rw [build, if_pos hbuilder]

/-- `fromByteString`, where `mergeFrom` is `prototype.toBuilder().mergeFrom(bytes).build()`. -/
def fromByteString {Message : Type} (mergeFrom : Bytes → Except String Message) (bytes : Bytes) :
    Option Message :=
  match mergeFrom bytes with
  | .ok message => some message
  | .error _ => none

/-! ### Services -/

/-- The service map of a channel, with what `doRequest` asks the services in it: the method with a
name, and the message that bytes are for a method; and how their responses are serialized. -/
structure Services (Service Method Message : Type) where
  get : String → Option Service
  findMethodByName : Service → String → Option Method
  mergeFrom : Service → Method → Bytes → Except String Message
  toByteString : Message → Bytes

variable {Service Method Message : Type}

/-- What comes of a request: a service is invoked, with a callback for an id; a message is written;
or an exception is thrown. -/
inductive Handled (Service Method Message : Type)
  | invoked (service : Service) (method : Method) (request : Message) (id : BitVec 64)
  | wrote (resp : RpcMessage)
  | threw (text : String)

/-- The end of `doRequest` when no service was invoked. -/
def writeError (errorBuilder : RpcMessage) : Handled Service Method Message :=
  match build errorBuilder with
  | .ok resp => .wrote resp
  | .error text => .threw text

/-- `doRequest`. The error builder is given a type and an error code, and no id. -/
def doRequest (services : Services Service Method Message) (message : RpcMessage) :
    Handled Service Method Message :=
  let errorBuilder : RpcMessage := { type := some .error }
  match services.get message.getService with
  | some service =>
    match services.findMethodByName service message.getMethod with
    | some method =>
      match fromByteString (services.mergeFrom service method) message.getRequest with
      | some request => .invoked service method request message.getId
      | none => writeError { errorBuilder with error := some .invalidRequest }
    | none => writeError { errorBuilder with error := some .noMethod }
  | none => writeError { errorBuilder with error := some .noService }

/-- `done`: the message for the response of a service, which may be null. -/
def done (services : Services Service Method Message) (response : Option Message)
    (id : BitVec 64) : Except String RpcMessage :=
  match response with
  | some response =>
    build {
      type := some .response
      id := some id
      response := some (services.toByteString response) }
  | none =>
    build {
      type := some .error
      id := some id
      error := some .invalidResponse }

/-- The service and the method exist, and the bytes parse as the request type of the method. -/
def Callable (services : Services Service Method Message) (message : RpcMessage) : Prop :=
  ∃ service method request, services.get message.getService = some service ∧
    services.findMethodByName service message.getMethod = some method ∧
      fromByteString (services.mergeFrom service method) message.getRequest = some request

section DoRequest

variable {services : Services Service Method Message} {message : RpcMessage}

/-- An error builder throws, since it has no id. -/
theorem writeError_eq_threw {errorBuilder : RpcMessage} (hid : errorBuilder.id = none) :
    ∃ text, (writeError errorBuilder : Handled Service Method Message) = .threw text := by
  refine ⟨"Message missing required fields: " ++ ", ".intercalate (missingFields errorBuilder), ?_⟩
  simp [writeError, build, RpcMessage.isInitialized, hid]

/-- A request that is callable has its service invoked, any other throws. -/
theorem doRequest_cases (services : Services Service Method Message) (message : RpcMessage) :
    (Callable services message ∧ ∃ service method request,
        doRequest services message = .invoked service method request message.getId) ∨
      (¬ Callable services message ∧ ∃ text, doRequest services message = .threw text) := by
  unfold Callable doRequest
  cases hservice : services.get message.getService with
  | none => exact Or.inr ⟨by simp, writeError_eq_threw rfl⟩
  | some service =>
    cases hmethod : services.findMethodByName service message.getMethod with
    | none => exact Or.inr ⟨by simp [hmethod], by simpa [hmethod] using writeError_eq_threw rfl⟩
    | some method =>
      cases hrequest : fromByteString (services.mergeFrom service method) message.getRequest with
      | none =>
        refine Or.inr ⟨by simp [hmethod, hrequest], ?_⟩
        simpa [hmethod, hrequest] using writeError_eq_threw rfl
      | some request =>
        refine Or.inl ⟨⟨service, method, request, rfl, hmethod, hrequest⟩, service, method, request,
          ?_⟩
        simp [hmethod, hrequest]

end DoRequest

end MuduoProtorpc.JavaChannel
