import MuduoProtorpc.Wire.GoCodec

/-!
# The codecs of Go's `net/rpc`

`ServerCodec` and `ClientCodec` of `go/muduorpc`: what their methods do to the reader of the
connection and to the payload slot, through which the header of a frame leaves its body to the
method that is called next. The two read methods of the one codec are those of the other but for the
type of message and the fields they look at, so both are `readHeader` and `readBody` applied.

A Go `interface{}` handed to a codec is the `proto.Message` it holds, if it holds one: something to
unmarshal into, or something to marshal.
-/

set_option autoImplicit false
set_option relaxedAutoImplicit false

namespace MuduoProtorpc.GoRpc

/-- `ServerCodec` and `ClientCodec`: the reader, and the payload slot, which may be nil. -/
structure Codec where
  stream : Stream
  payload : Option Bytes

/-- What a read method of a codec does: it returns a value, or an error; it waits for the peer; or
it panics. -/
inductive Returned (Value : Type)
  | ok (value : Value) (codec : Codec)
  | error (text : String) (codec : Codec)
  | blocked
  | panic (text : String)

/-- What the Go runtime panics with when a nil pointer is dereferenced. -/
def nilDereference : String :=
  "runtime error: invalid memory address or nil pointer dereference"

/-- `rpc.Request`. -/
structure RequestHeader where
  serviceMethod : String
  seq : BitVec 64
  deriving DecidableEq, Repr

/-- `rpc.Response`. -/
structure ResponseHeader where
  seq : BitVec 64
  error : String
  deriving DecidableEq, Repr

/-! ### Reading headers -/

/-- A header method: `fields` are the fields of the message that it dereferences, and the new
payload; it is `none` when one of them is nil. -/
def readHeader {Header : Type} (unmarshal : Bytes → RpcMessage × Option String)
    (expected : MessageType) (fields : RpcMessage → Option (Header × Option Bytes))
    (codec : Codec) : Returned Header :=
  if codec.payload.isSome then .panic "payload is not nil"
  else
    match decode unmarshal codec.stream with
    | .message msg rest =>
      match msg.type with
      | some type =>
        if type ≠ expected then .error "Wrong message type." { codec with stream := rest }
        else
          match fields msg with
          | some (header, payload) => .ok header { stream := rest, payload := payload }
          | none => .panic nilDereference
      | none => .panic nilDereference
    | .failed error _ rest => .error error.text { codec with stream := rest }
    | .blocked => .blocked
    | .panic text => .panic text

/-- The fields that `ServerCodec.ReadRequestHeader` dereferences. -/
def requestFields (msg : RpcMessage) : Option (RequestHeader × Option Bytes) :=
  match msg.service, msg.method, msg.id with
  | some service, some method, some id =>
    some ({ serviceMethod := service ++ "." ++ method, seq := id }, msg.request)
  | _, _, _ => none

/-- `ServerCodec.ReadRequestHeader`. -/
def readRequestHeader (unmarshal : Bytes → RpcMessage × Option String) :
    Codec → Returned RequestHeader :=
  readHeader unmarshal .request requestFields

/-- The field that `ClientCodec.ReadResponseHeader` dereferences. The `Error` of the header stays
empty. -/
def responseFields (msg : RpcMessage) : Option (ResponseHeader × Option Bytes) :=
  match msg.id with
  | some id => some ({ seq := id, error := "" }, msg.response)
  | none => none

/-- `ClientCodec.ReadResponseHeader`. -/
def readResponseHeader (unmarshal : Bytes → RpcMessage × Option String) :
    Codec → Returned ResponseHeader :=
  readHeader unmarshal .response responseFields

/-! ### Reading bodies -/

/-- A body method. `body` is what the bytes are unmarshalled into, unless it is nil or no
`proto.Message`. -/
def readBody {Message : Type} (codec : Codec)
    (body : Option (Bytes → Message × Option String)) : Returned Message :=
  match codec.payload with
  | none => .panic "payload is nil"
  | some payload =>
    match body with
    | none => .error "body is not a protobuf Message" codec
    | some unmarshal =>
      match unmarshal payload with
      | (message, none) => .ok message { codec with payload := none }
      | (_, some text) => .error text codec

/-- `ServerCodec.ReadRequestBody`. -/
def readRequestBody {Message : Type} :
    Codec → Option (Bytes → Message × Option String) → Returned Message :=
  readBody

/-- `ClientCodec.ReadResponseBody`. -/
def readResponseBody {Message : Type} :
    Codec → Option (Bytes → Message × Option String) → Returned Message :=
  readBody

/-! ### Writing responses -/

/-- `ServerCodec.WriteResponse`, up to the bytes that `Send` writes to the connection, and the
message they are. It does not look at the `Error` of the header. -/
def writeResponse {Message : Type} (marshal : Message → Except String Bytes)
    (marshalMessage : RpcMessage → Except String Bytes) (header : ResponseHeader)
    (body : Option Message) : Except String (RpcMessage × Bytes) :=
  match body with
  | none => .error "not a protobuf Message"
  | some body => do
    let bytes ← marshal body
    let msg : RpcMessage := {
      type := some .response
      id := some header.seq
      response := some bytes }
    let wire ← encode marshalMessage msg
    return (msg, wire)

/-! ### What the methods do -/

section Reading

variable {Header Message : Type} {unmarshal : Bytes → RpcMessage × Option String}
  {expected : MessageType} {fields : RpcMessage → Option (Header × Option Bytes)} {codec : Codec}
  {msg : RpcMessage} {rest : Stream}

/-- A header method that finds the payload slot empty, and a message with the expected type. -/
theorem readHeader_of_message (hpayload : codec.payload = none)
    (hdecode : decode unmarshal codec.stream = .message msg rest)
    (htype : msg.type = some expected) : readHeader unmarshal expected fields codec =
      match fields msg with
      | some (header, payload) => .ok header { stream := rest, payload := payload }
      | none => .panic nilDereference := by
  simp only [readHeader, hpayload, hdecode, htype]
  rw [if_neg (by simp), if_neg (by simp)]

/-- A header method that finds the payload slot empty, and a message with another type. -/
theorem readHeader_of_wrong_type (hpayload : codec.payload = none)
    (hdecode : decode unmarshal codec.stream = .message msg rest) {type : MessageType}
    (htype : msg.type = some type) (hne : type ≠ expected) :
    readHeader unmarshal expected fields codec =
      .error "Wrong message type." { codec with stream := rest } := by
  simp only [readHeader, hpayload, hdecode, htype, if_pos hne]
  rfl

/-- A header method that finds the payload slot empty, and no message. -/
theorem readHeader_of_failed (hpayload : codec.payload = none) {error : DecodeError}
    {left : RpcMessage} (hdecode : decode unmarshal codec.stream = .failed error left rest) :
    readHeader unmarshal expected fields codec =
      .error error.text { codec with stream := rest } := by
  simp only [readHeader, hpayload, hdecode]
  rfl

/-- A header method that waits for the peer. -/
theorem readHeader_of_blocked (hpayload : codec.payload = none)
    (hdecode : decode unmarshal codec.stream = .blocked) :
    readHeader unmarshal expected fields codec = .blocked := by
  simp only [readHeader, hpayload, hdecode]
  rfl

/-- Unmarshalling the bytes into the body succeeds. -/
def Parses (body : Option (Bytes → Message × Option String)) (bytes : Bytes) : Prop :=
  ∃ unmarshal message, body = some unmarshal ∧ unmarshal bytes = (message, none)

/-- A body method that finds a payload empties the slot if and only if the payload parses. -/
theorem readBody_cases {payload : Bytes} (hpayload : codec.payload = some payload)
    (body : Option (Bytes → Message × Option String)) :
    (Parses body payload ∧ ∃ message, readBody codec body =
        .ok message { codec with payload := none }) ∨
      (¬ Parses body payload ∧ ∃ text, readBody codec body = .error text codec) := by
  cases body with
  | none =>
    refine Or.inr ⟨?_, "body is not a protobuf Message", by simp only [readBody, hpayload]⟩
    rintro ⟨unmarshal, message, hbody, -⟩
    cases hbody
  | some unmarshal =>
    rcases hresult : unmarshal payload with ⟨message, _ | text⟩
    · refine Or.inl ⟨⟨unmarshal, message, rfl, hresult⟩, message, ?_⟩
      simp only [readBody, hpayload, hresult]
    · refine Or.inr ⟨?_, text, by simp only [readBody, hpayload, hresult]⟩
      rintro ⟨other, found, hbody, hfound⟩
      obtain rfl := Option.some.inj hbody
      rw [hresult] at hfound
      cases hfound

theorem readBody_of_none (hpayload : codec.payload = none)
    (body : Option (Bytes → Message × Option String)) :
    readBody codec body = .panic "payload is nil" := by
  simp only [readBody, hpayload]

end Reading

/-! ### Sequences of frames -/

/-- The stream is the frames of the messages, and after them nothing that passes `Decode`: the end
of the connection or an error, or nothing at all. -/
inductive DecodesTo (unmarshal : Bytes → RpcMessage × Option String) :
    Stream → List RpcMessage → Prop
  | ended {stream rest : Stream} {error : DecodeError} {left : RpcMessage} :
      decode unmarshal stream = .failed error left rest → DecodesTo unmarshal stream []
  | waiting {stream : Stream} : decode unmarshal stream = .blocked → DecodesTo unmarshal stream []
  | frame {stream rest : Stream} {msg : RpcMessage} {messages : List RpcMessage} :
      decode unmarshal stream = .message msg rest → DecodesTo unmarshal rest messages →
        DecodesTo unmarshal stream (msg :: messages)

end MuduoProtorpc.GoRpc
