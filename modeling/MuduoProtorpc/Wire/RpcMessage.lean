import Mathlib.Data.BitVec

/-!
# The RPC message

`RpcMessage` is the protobuf message every implementation of the repository puts on the wire, with
the fields of the generated Go copy (`go/muduorpc/rpc.pb.go`). A field that is not set is `none`, as
the nil pointers of the Go struct and the unset fields of a Java builder; the getters return the
default of an unset field. `type` and `id` are required: `isInitialized` is what a protobuf parser
and a Java `build()` check.
-/

set_option autoImplicit false
set_option relaxedAutoImplicit false

namespace MuduoProtorpc

/-- The bytes of a protobuf `bytes` field, of a Go `[]byte`, of a buffer. -/
abbrev Bytes : Type := List UInt8

inductive MessageType
  | request
  | response
  | error
  deriving DecidableEq, Repr

inductive ErrorCode
  | noError
  | wrongProto
  | noService
  | noMethod
  | invalidRequest
  | invalidResponse
  deriving DecidableEq, Repr

/-- `RpcMessage`, each field possibly unset; `type` and `id` are `required`, the rest `optional`,
and `unrecognized` holds the fields the parser does not know. The identifier is a `fixed64`: C++ and
Java read its 64 bits as a signed number, which no comparison for equality can tell. -/
structure RpcMessage where
  type : Option MessageType := none
  id : Option (BitVec 64) := none
  service : Option String := none
  method : Option String := none
  request : Option Bytes := none
  response : Option Bytes := none
  error : Option ErrorCode := none
  unrecognized : Bytes := []
  deriving DecidableEq, Repr

namespace RpcMessage

/-- `type()` and `getType()`; the default of an enumeration is its first value. -/
def getType (message : RpcMessage) : MessageType :=
  message.type.getD .request

/-- `id()`, `getId()`, `GetId()`; the getters of the other fields are named alike. -/
def getId (message : RpcMessage) : BitVec 64 :=
  message.id.getD 0

def getService (message : RpcMessage) : String :=
  message.service.getD ""

def getMethod (message : RpcMessage) : String :=
  message.method.getD ""

def getRequest (message : RpcMessage) : Bytes :=
  message.request.getD []

def getResponse (message : RpcMessage) : Bytes :=
  message.response.getD []

/-- Both required fields are set. -/
def isInitialized (message : RpcMessage) : Bool :=
  message.type.isSome && message.id.isSome

end RpcMessage

end MuduoProtorpc
