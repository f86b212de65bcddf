import MuduoProtorpc.Wire.RpcMessage
import Mathlib.Data.List.Basic

/-!
# The Go wire codec

`go/muduorpc/codec.go`. A frame is a big-endian length, then that many bytes: a tag, a serialized
message, and the Adler-32 checksum of these two. `decodeGeneral` reads one frame from a connection;
what it does depends on the bytes that have arrived and on whether more can come (`Stream`), so it
may also wait. Its slices can panic for a tag of four gigabytes or a tag of fewer than four bytes;
`decode`, whose tag is `RPC0`, never panics.

The protobuf runtime is a parameter: `unmarshal` gives the message it leaves behind and an error, if
any.
-/

set_option autoImplicit false
set_option relaxedAutoImplicit false

namespace MuduoProtorpc

/-! ### Checksums and big-endian numbers -/

/-- One byte more of an Adler-32 checksum, as the pair of its running sums. -/
def adlerStep (sums : ℕ × ℕ) (byte : UInt8) : ℕ × ℕ :=
  let low := (sums.1 + byte.toNat) % 65521
  (low, (sums.2 + low) % 65521)

/-- `adler32.Checksum`. -/
def adler32 (data : Bytes) : ℕ :=
  let sums := data.foldl adlerStep (1, 0)
  sums.2 * 65536 + sums.1

/-- `binary.BigEndian.PutUint32`, of a number taken modulo `2 ^ 32`. -/
def putUint32 (number : ℕ) : Bytes :=
  [UInt8.ofNat (number / 16777216), UInt8.ofNat (number / 65536), UInt8.ofNat (number / 256),
    UInt8.ofNat number]

/-- `binary.BigEndian.Uint32`. -/
def uint32 (bytes : Bytes) : ℕ :=
  bytes.foldl (fun number byte ↦ number * 256 + byte.toNat) 0

/-- The tag of an `RpcMessage`, the four bytes of `RPC0`. -/
def rpcTag : Bytes :=
  [0x52, 0x50, 0x43, 0x30]

/-! ### Reading from a connection -/

/-- What has arrived on a connection and was not read yet, and whether its end has arrived too. -/
structure Stream where
  available : Bytes
  ended : Bool
  deriving DecidableEq, Repr

/-- A stream after more bytes arrived, and perhaps its end. -/
def Stream.grow (stream : Stream) (more : Bytes) (ended : Bool) : Stream where
  available := stream.available ++ more
  ended := ended

/-- The errors of `DecodeGeneral`. -/
inductive DecodeError
  | eof
  | unexpectedEof
  | invalidLength (length : ℕ)
  | wrongMarker
  | wrongChecksum
  | unmarshal (text : String)
  deriving DecidableEq, Repr

/-- The text of an error. -/
def DecodeError.text : DecodeError → String
  | .eof => "EOF"
  | .unexpectedEof => "unexpected EOF"
  | .invalidLength length => "Invalid length " ++ toString length
  | .wrongMarker => "Wrong marker"
  | .wrongChecksum => "Wrong checksum"
  | .unmarshal text => text

/-- What `io.ReadFull` does. -/
inductive ReadFull
  | full (bytes : Bytes) (rest : Stream)
  | short (error : DecodeError)
  | waiting

/-- `io.ReadFull` into a buffer of `size` bytes. -/
def readFull (stream : Stream) (size : ℕ) : ReadFull :=
  if size ≤ stream.available.length then
    .full (stream.available.take size)
      { available := stream.available.drop size, ended := stream.ended }
  else if stream.ended then
    .short (if stream.available = [] then .eof else .unexpectedEof)
  else .waiting

/-! ### Decoding and encoding -/

/-- What `DecodeGeneral` does. With an error it leaves a message behind, too. -/
inductive Decoded (Message : Type)
  | message (message : Message) (rest : Stream)
  | failed (error : DecodeError) (left : Message) (rest : Stream)
  | blocked
  | panic (text : String)
  deriving DecidableEq

/-- The check and the unmarshalling of a frame that was read in full. -/
def decodePayload {Message : Type} (unmarshal : Bytes → Message × Option String) (fresh : Message)
    (tag payload : Bytes) (rest : Stream) : Decoded Message :=
  if payload.length < tag.length then .panic "slice bounds out of range"
  else if payload.take tag.length ≠ tag then .failed .wrongMarker fresh rest
  else if payload.length < 4 then .panic "slice bounds out of range"
  else if adler32 (payload.take (payload.length - 4)) ≠
      uint32 (payload.drop (payload.length - 4)) then
    .failed .wrongChecksum fresh rest
  else if payload.length < 8 then .panic "slice bounds out of range"
  else
    match unmarshal ((payload.take (payload.length - 4)).drop 4) with
    | (message, none) => .message message rest
    | (message, some text) => .failed (.unmarshal text) message rest

/-- `DecodeGeneral`, into the message `fresh`. -/
def decodeGeneral {Message : Type} (unmarshal : Bytes → Message × Option String) (fresh : Message)
    (tag : Bytes) (stream : Stream) : Decoded Message :=
  match readFull stream 4 with
  | .waiting => .blocked
  | .short error => .failed error fresh { available := [], ended := true }
  | .full header rest =>
    if 64 * 1024 * 1024 < uint32 header ∨ uint32 header < (tag.length + 4) % 2 ^ 32 then
      .failed (.invalidLength (uint32 header)) fresh rest
    else
      match readFull rest (uint32 header) with
      | .waiting => .blocked
      | .short error => .failed error fresh { available := [], ended := true }
      | .full payload rest => decodePayload unmarshal fresh tag payload rest

/-- `Decode`. -/
def decode (unmarshal : Bytes → RpcMessage × Option String) (stream : Stream) :
    Decoded RpcMessage :=
  decodeGeneral unmarshal {} rpcTag stream

/-- `encode`. -/
def encode (marshal : RpcMessage → Except String Bytes) (message : RpcMessage) :
    Except String Bytes := do
  let payload ← marshal message
  return putUint32 (8 + payload.length) ++ rpcTag ++ payload ++
    putUint32 (adler32 (rpcTag ++ payload))

/-- The frame with this body. -/
def frameOf (body : Bytes) : Bytes :=
  putUint32 (8 + body.length) ++ rpcTag ++ body ++ putUint32 (adler32 (rpcTag ++ body))

/-- What `encode` returns is the frame of the serialized message. -/
theorem encode_eq {marshal : RpcMessage → Except String Bytes} {message : RpcMessage}
    {body : Bytes} (hmarshal : marshal message = .ok body) :
    encode marshal message = .ok (frameOf body) := by
  rw [encode, hmarshal]
  rfl

/-! ### Decoding a frame -/

theorem length_putUint32 (number : ℕ) : (putUint32 number).length = 4 :=
  rfl

/-- A number of 32 bits is read back. -/
theorem uint32_putUint32 {number : ℕ} (hnumber : number < 2 ^ 32) :
    uint32 (putUint32 number) = number := by
  simp only [uint32, putUint32, List.foldl_cons, List.foldl_nil, UInt8.toNat_ofNat']
  omega

/-- Four bytes are a number of 32 bits. -/
theorem uint32_lt {bytes : Bytes} (hlength : bytes.length = 4) : uint32 bytes < 2 ^ 32 := by
  match bytes, hlength with
  | [first, second, third, fourth], _ =>
    have hfirst := first.toNat_lt
    have hsecond := second.toNat_lt
    have hthird := third.toNat_lt
    have hfourth := fourth.toNat_lt
    simp only [uint32, List.foldl_cons, List.foldl_nil]
    omega

/-- A checksum has 32 bits. -/
theorem adler32_lt (data : Bytes) : adler32 data < 2 ^ 32 := by
  have hsums : ∀ (sums : ℕ × ℕ), sums.1 < 65536 ∧ sums.2 < 65536 →
      (data.foldl adlerStep sums).1 < 65536 ∧ (data.foldl adlerStep sums).2 < 65536 := by
    induction data with
    | nil => exact fun _ hsums ↦ hsums
    | cons byte rest ih =>
      intro sums hsums
      apply ih
      simp only [adlerStep]
      omega
  obtain ⟨hlow, hhigh⟩ := hsums (1, 0) (by decide)
  simp only [adler32]
  omega

/-- Bytes that are there are read. -/
theorem readFull_append (bytes more : Bytes) (ended : Bool) :
    readFull { available := bytes ++ more, ended := ended } bytes.length =
      .full bytes { available := more, ended := ended } := by
  simp [readFull]

/-- The frame with this body under a tag. -/
def taggedFrame (tag body : Bytes) : Bytes :=
  putUint32 (tag.length + body.length + 4) ++
    (tag ++ body ++ putUint32 (adler32 (tag ++ body)))

/-- What `proto.Unmarshal` makes of a body. -/
def unmarshalled {Message : Type} (unmarshal : Bytes → Message × Option String) (body : Bytes)
    (rest : Stream) : Decoded Message :=
  match unmarshal body with
  | (message, none) => .message message rest
  | (message, some text) => .failed (.unmarshal text) message rest

section Frames

variable {Message : Type} {unmarshal : Bytes → Message × Option String} {fresh : Message}
  {tag body payload more : Bytes} {stream rest : Stream}

/-- The message is cut out behind the first four bytes. -/
theorem decodePayload_frame :
    decodePayload unmarshal fresh tag (tag ++ body ++ putUint32 (adler32 (tag ++ body))) rest =
      if tag.length + body.length < 4 then .panic "slice bounds out of range"
      else unmarshalled unmarshal ((tag ++ body).drop 4) rest := by
  have hsize : (tag ++ body ++ putUint32 (adler32 (tag ++ body))).length =
      tag.length + body.length + 4 := by
    simp only [List.length_append, length_putUint32]
  have hstem : (tag ++ body).length = tag.length + body.length + 4 - 4 := by
    rw [List.length_append, Nat.add_sub_cancel]
  have hmarker : (tag ++ body ++ putUint32 (adler32 (tag ++ body))).take tag.length = tag := by
    rw [List.append_assoc, List.take_left]
  rw [decodePayload, hsize, if_neg (by omega), hmarker, if_neg (not_not_intro rfl),
    if_neg (by omega), List.take_left' hstem, List.drop_left' hstem,
    uint32_putUint32 (adler32_lt _), if_neg (not_not_intro rfl)]
  by_cases hshort : tag.length + body.length < 4
  · rw [if_pos hshort, if_pos (by omega)]
  · rw [if_neg hshort, if_neg (by omega)]
    rfl

/-- What has arrived in full is read. -/
theorem decodeGeneral_payload (hupper : payload.length ≤ 64 * 1024 * 1024)
    (hlower : (tag.length + 4) % 2 ^ 32 ≤ payload.length)
    (hstream : stream.available = putUint32 payload.length ++ (payload ++ more)) :
    decodeGeneral unmarshal fresh tag stream =
      decodePayload unmarshal fresh tag payload
        { available := more, ended := stream.ended } := by
  have hheader := readFull_append (putUint32 payload.length) (payload ++ more) stream.ended
  have hpayload := readFull_append payload more stream.ended
  rw [← hstream, length_putUint32] at hheader
  rw [decodeGeneral, hheader]
  simp only [uint32_putUint32 (show payload.length < 2 ^ 32 by omega)]
  rw [if_neg (by omega), hpayload]

end Frames

/-- A frame that is not too long decodes to the message that was serialized, and leaves what comes
after it. -/
theorem decode_frameOf {unmarshal : Bytes → RpcMessage × Option String} {body : Bytes}
    {message : RpcMessage} (hlength : 8 + body.length ≤ 64 * 1024 * 1024)
    (hunmarshal : unmarshal body = (message, none)) (more : Bytes) (ended : Bool) :
    decode unmarshal { available := frameOf body ++ more, ended := ended } =
      .message message { available := more, ended := ended } := by
  have htag : rpcTag.length = 4 := rfl
  have hsize : (rpcTag ++ body ++ putUint32 (adler32 (rpcTag ++ body))).length =
      8 + body.length := by
    simp only [List.length_append, length_putUint32, htag]
    omega
  have hframe : frameOf body ++ more =
      putUint32 (rpcTag ++ body ++ putUint32 (adler32 (rpcTag ++ body))).length ++
        (rpcTag ++ body ++ putUint32 (adler32 (rpcTag ++ body)) ++ more) := by
    rw [hsize]
    simp [frameOf]
  rw [decode, decodeGeneral_payload (by omega) (by rw [htag, hsize]; omega) hframe,
    decodePayload_frame, if_neg (by omega), List.drop_left' htag, unmarshalled, hunmarshal]

/-! ### What has been read does not depend on what comes later -/

section Reading

variable {Message : Type} {unmarshal : Bytes → Message × Option String} {fresh message : Message}
  {tag payload bytes : Bytes} {stream rest : Stream} {size : ℕ}

theorem readFull_eq_full (hread : readFull stream size = .full bytes rest) :
    size ≤ stream.available.length ∧ bytes = stream.available.take size ∧
      rest = { available := stream.available.drop size, ended := stream.ended } := by
  unfold readFull at hread
  split_ifs at hread with hsize
  obtain ⟨rfl, rfl⟩ := ReadFull.full.inj hread
  exact ⟨hsize, rfl, rfl⟩

/-- Bytes that could be read are read when more follow them. -/
theorem readFull_grow (hread : readFull stream size = .full bytes rest) (more : Bytes)
    (ended : Bool) :
    readFull (stream.grow more ended) size = .full bytes (rest.grow more ended) := by
  obtain ⟨hsize, rfl, rfl⟩ := readFull_eq_full hread
  have hlonger : size ≤ (stream.available ++ more).length := by
    rw [List.length_append]
    omega
  simp only [readFull, Stream.grow, if_pos hlonger, List.take_append_of_le_length hsize,
    List.drop_append_of_le_length hsize]

/-- On a stream that has ended nothing waits. -/
theorem readFull_ne_waiting (hended : stream.ended = true) : readFull stream size ≠ .waiting := by
  unfold readFull
  split_ifs <;> simp

/-- What a frame decodes to does not depend on what follows it. -/
theorem decodePayload_eq_message {left : Stream}
    (hdecode : decodePayload unmarshal fresh tag payload rest = .message message left) :
    left = rest ∧
      ∀ other, decodePayload unmarshal fresh tag payload other = .message message other := by
  unfold decodePayload at hdecode ⊢
  split_ifs at hdecode with hlength htag hfour hchecksum height
  · split at hdecode
    · rename_i found hfound
      obtain ⟨rfl, rfl⟩ := Decoded.message.inj hdecode
      refine ⟨rfl, fun other ↦ ?_⟩
      simp only [hlength, htag, hfour, hchecksum, height, if_false]
    · cases hdecode

/-- A frame that is refused was taken off the stream all the same. -/
theorem decodePayload_eq_failed {error : DecodeError} {left : Stream}
    (hdecode : decodePayload unmarshal fresh tag payload rest = .failed error message left) :
    left = rest := by
  unfold decodePayload at hdecode
  split_ifs at hdecode
  · obtain ⟨-, -, rfl⟩ := Decoded.failed.inj hdecode
    rfl
  · obtain ⟨-, -, rfl⟩ := Decoded.failed.inj hdecode
    rfl
  · split at hdecode
    · cases hdecode
    · obtain ⟨-, -, rfl⟩ := Decoded.failed.inj hdecode
      rfl

/-- A message that could be decoded is decoded when more follows it. -/
theorem decodeGeneral_grow
    (hdecode : decodeGeneral unmarshal fresh tag stream = .message message rest) (more : Bytes)
    (ended : Bool) : decodeGeneral unmarshal fresh tag (stream.grow more ended) =
      .message message (rest.grow more ended) := by
  unfold decodeGeneral at hdecode ⊢
  cases hheader : readFull stream 4 with
  | waiting => simp [hheader] at hdecode
  | short error => simp [hheader] at hdecode
  | full header body =>
    simp only [hheader] at hdecode
    simp only [readFull_grow hheader more ended]
    split_ifs at hdecode ⊢ with hlength
    cases hpayload : readFull body (uint32 header) with
    | waiting => simp [hpayload] at hdecode
    | short error => simp [hpayload] at hdecode
    | full payload left =>
      simp only [hpayload] at hdecode
      simp only [readFull_grow hpayload more ended]
      obtain ⟨rfl, hany⟩ := decodePayload_eq_message hdecode
      exact hany _

/-- A frame takes its bytes off the stream. -/
theorem length_of_decodeGeneral
    (hdecode : decodeGeneral unmarshal fresh tag stream = .message message rest) :
    rest.available.length < stream.available.length ∧ rest.ended = stream.ended := by
  unfold decodeGeneral at hdecode
  cases hheader : readFull stream 4 with
  | waiting => simp [hheader] at hdecode
  | short error => simp [hheader] at hdecode
  | full header body =>
    simp only [hheader] at hdecode
    split_ifs at hdecode with hlength
    cases hpayload : readFull body (uint32 header) with
    | waiting => simp [hpayload] at hdecode
    | short error => simp [hpayload] at hdecode
    | full payload left =>
      simp only [hpayload] at hdecode
      obtain ⟨rfl, -⟩ := decodePayload_eq_message hdecode
      obtain ⟨hfour, -, rfl⟩ := readFull_eq_full hheader
      obtain ⟨-, -, rfl⟩ := readFull_eq_full hpayload
      simp only [List.length_drop]
      exact ⟨by omega, trivial⟩

end Reading

section Decode

variable {unmarshal : Bytes → RpcMessage × Option String} {stream rest : Stream}
  {message : RpcMessage}

/-- Nothing of a frame that was read in full is waited for. -/
theorem decodePayload_ne_blocked {Message : Type} {unmarshal : Bytes → Message × Option String}
    {fresh : Message} {tag payload : Bytes} :
    decodePayload unmarshal fresh tag payload rest ≠ .blocked := by
  unfold decodePayload
  split_ifs
  any_goals simp
  split <;> simp

/-- A frame with room for a four-byte tag and the checksum is decoded without a panic. -/
theorem decodePayload_ne_panic {payload : Bytes} (hlength : 8 ≤ payload.length) (text : String) :
    decodePayload unmarshal {} rpcTag payload rest ≠ .panic text := by
  have htag : ¬ payload.length < rpcTag.length := by
    have hfour : rpcTag.length = 4 := rfl
    omega
  have hfour : ¬ payload.length < 4 := by omega
  have height : ¬ payload.length < 8 := by omega
  unfold decodePayload
  rw [if_neg htag, if_neg hfour, if_neg height]
  split_ifs
  · simp
  · simp
  · split <;> simp

/-- `Decode` never panics: a frame it reads in full has room for the tag and the checksum. -/
theorem decode_ne_panic (text : String) : decode unmarshal stream ≠ .panic text := by
  unfold decode decodeGeneral
  split
  · simp
  · simp
  · rename_i header body hheader
    by_cases hlength : 64 * 1024 * 1024 < uint32 header ∨
        uint32 header < (rpcTag.length + 4) % 2 ^ 32
    · rw [if_pos hlength]
      simp
    · rw [if_neg hlength]
      split
      · simp
      · simp
      · rename_i payload left hpayload
        obtain ⟨hsize, rfl, -⟩ := readFull_eq_full hpayload
        apply decodePayload_ne_panic
        rw [List.length_take_of_le hsize]
        have hshort : ¬ uint32 header < 8 := fun hlt ↦ hlength (Or.inr hlt)
        omega

/-- `Decode` on a stream that has ended does not wait. -/
theorem decode_ne_blocked (hended : stream.ended = true) :
    decode unmarshal stream ≠ .blocked := by
  unfold decode decodeGeneral
  split
  · rename_i hheader
    exact absurd hheader (readFull_ne_waiting hended)
  · simp
  · rename_i header body hheader
    split
    · simp
    · split
      · rename_i hpayload
        obtain ⟨-, -, rfl⟩ := readFull_eq_full hheader
        exact absurd hpayload (readFull_ne_waiting hended)
      · simp
      · exact decodePayload_ne_blocked

end Decode

end MuduoProtorpc
