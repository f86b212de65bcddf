import MuduoProtorpc.Wire.GoCodec

/-!
# The Python wire codec

`encode` and `decode` of `examples/zurg/client/rpc.py`, in Python 2: `zlib.adler32` returns a
checksum as a number of 32 bits with a sign, and the lengths and checksums are packed and unpacked
with the format `>l`, a big-endian number of 32 bits with a sign. `decode` returns a message or
`None`, fails on an assertion or in the protobuf runtime, or waits in `recv`.
-/

set_option autoImplicit false
set_option relaxedAutoImplicit false

namespace MuduoProtorpc

/-! ### Numbers with a sign -/

/-- `zlib.adler32`. -/
def zlibAdler32 (data : Bytes) : ℤ :=
  (BitVec.ofNat 32 (adler32 data)).toInt

/-- `struct.pack(">l", number)`, or `none` when it raises `struct.error`. -/
def structPack (number : ℤ) : Option Bytes :=
  if -2147483648 ≤ number ∧ number < 2147483648 then some (putUint32 (BitVec.ofInt 32 number).toNat)
  else none

/-- `struct.unpack(">l", bytes)` of four bytes. -/
def structUnpack (bytes : Bytes) : ℤ :=
  (BitVec.ofNat 32 (uint32 bytes)).toInt

/-! ### Encoding and decoding -/

/-- `encode`. -/
def pythonEncode (serializeToString : RpcMessage → Bytes) (message : RpcMessage) :
    Option Bytes := do
  let body := rpcTag ++ serializeToString message
  let length ← structPack (body.length + 4)
  let cksum ← structPack (zlibAdler32 body)
  return length ++ body ++ cksum

/-- `sock.recv(size, socket.MSG_WAITALL)`: the bytes, fewer only at the end of the connection; it is
`none` while it waits. -/
def recv (stream : Stream) (size : ℕ) : Option (Bytes × Stream) :=
  if size ≤ stream.available.length ∨ stream.ended = true then
    some (stream.available.take size,
      { available := stream.available.drop size, ended := stream.ended })
  else none

/-- What `decode` does. -/
inductive PythonDecoded
  | message (message : RpcMessage) (rest : Stream)
  | nothing
  | assertionError (assertion : String)
  | decodeError
  | blocked

/-- `decode` behind the length. `parseFromString` is `none` when it raises an error. -/
def pythonDecodeBody (parseFromString : Bytes → Option RpcMessage) (body : Bytes) (rest : Stream) :
    PythonDecoded :=
  if body.take 4 ≠ rpcTag then .assertionError "\"RPC0\" == body[:4]"
  else if structUnpack (body.drop (body.length - 4)) ≠
      zlibAdler32 (body.take (body.length - 4)) then
    .assertionError "cksum == cksum2"
  else
    match parseFromString ((body.take (body.length - 4)).drop 4) with
    | some message => .message message rest
    | none => .decodeError

/-- `decode`. -/
def pythonDecode (parseFromString : Bytes → Option RpcMessage) (stream : Stream) :
    PythonDecoded :=
  match recv stream 4 with
  | none => .blocked
  | some (head, rest) =>
    if head = [] then .nothing
    else if head.length ≠ 4 then .assertionError "len(head) == 4"
    else
      let length := structUnpack head
      if ¬ 8 < length then .assertionError "length > 8"
      else
        match recv rest length.toNat with
        | none => .blocked
        | some (body, rest) =>
          if body.length ≠ length then .assertionError "len(body) == length"
          else pythonDecodeBody parseFromString body rest

/-! ### What the codec does -/

/-- A number of 32 bits without a sign, seen as one with a sign, is packed like itself. -/
theorem structPack_toInt {number : ℕ} (hnumber : number < 2 ^ 32) :
    structPack (BitVec.ofNat 32 number).toInt = some (putUint32 number) := by
  have hlower := (BitVec.ofNat 32 number).le_toInt
  have hupper := (BitVec.ofNat 32 number).toInt_lt
  rw [structPack, if_pos ⟨by simpa using hlower, by simpa using hupper⟩, BitVec.ofInt_toInt,
    BitVec.toNat_ofNat, Nat.mod_eq_of_lt hnumber]

/-- A number below `2 ^ 31` is the same with a sign and without. -/
theorem toInt_of_lt {number : ℕ} (hnumber : number < 2 ^ 31) :
    (BitVec.ofNat 32 number).toInt = number := by
  rw [BitVec.toInt_eq_toNat_of_lt, BitVec.toNat_ofNat, Nat.mod_eq_of_lt (by omega)]
  rw [BitVec.toNat_ofNat, Nat.mod_eq_of_lt (by omega)]
  omega

/-- Two checksums with a sign are equal if and only if they are without. -/
theorem structUnpack_eq_iff {bytes : Bytes} (hlength : bytes.length = 4) (data : Bytes) :
    structUnpack bytes = zlibAdler32 data ↔ uint32 bytes = adler32 data := by
  have hread := uint32_lt hlength
  have hcomputed := adler32_lt data
  rw [structUnpack, zlibAdler32, BitVec.toInt_inj]
  constructor
  · intro hequal
    have hnat := congrArg BitVec.toNat hequal
    rwa [BitVec.toNat_ofNat, BitVec.toNat_ofNat, Nat.mod_eq_of_lt hread,
      Nat.mod_eq_of_lt hcomputed] at hnat
  · intro hequal
    rw [hequal]

/-- Bytes that have arrived are received. -/
theorem recv_append (bytes more : Bytes) (ended : Bool) :
    recv { available := bytes ++ more, ended := ended } bytes.length =
      some (bytes, { available := more, ended := ended }) := by
  simp [recv]

section Codec

variable {serializeToString : RpcMessage → Bytes} {parseFromString : Bytes → Option RpcMessage}
  {message : RpcMessage}

/-- What is on the wire is the frame of the serialized message, if its length fits. -/
theorem pythonEncode_eq (hlength : 8 + (serializeToString message).length < 2 ^ 31) :
    pythonEncode serializeToString message = some (frameOf (serializeToString message)) := by
  have htag : rpcTag.length = 4 := rfl
  have hsize : (rpcTag ++ serializeToString message).length + 4 =
      8 + (serializeToString message).length := by
    rw [List.length_append, htag]
    omega
  have hheader : structPack ((rpcTag ++ serializeToString message).length + 4) =
      some (putUint32 (8 + (serializeToString message).length)) := by
    have hpack := structPack_toInt (show 8 + (serializeToString message).length < 2 ^ 32 by omega)
    rw [toInt_of_lt hlength, ← hsize] at hpack
    rw [← hsize]
    exact_mod_cast hpack
  have htrailer : structPack (zlibAdler32 (rpcTag ++ serializeToString message)) =
      some (putUint32 (adler32 (rpcTag ++ serializeToString message))) :=
    structPack_toInt (adler32_lt _)
  rw [pythonEncode, hheader, htrailer, frameOf,
    List.append_assoc (putUint32 (8 + (serializeToString message).length))]
  simp only [Option.bind_eq_bind, Option.bind_some, Option.pure_def]

/-- The decoder on a frame with a marker, a body and a trailer. -/
theorem pythonDecode_eq {marker body trailer : Bytes} (hmarker : marker.length = 4)
    (hbody : 1 ≤ body.length) (htrailer : trailer.length = 4) (hlength : 8 + body.length < 2 ^ 31)
    (more : Bytes) (ended : Bool) :
    pythonDecode parseFromString {
        available := putUint32 (8 + body.length) ++ (marker ++ body ++ trailer) ++ more
        ended := ended } =
      if marker = rpcTag then
        if uint32 trailer = adler32 (marker ++ body) then
          match parseFromString body with
          | some message => .message message { available := more, ended := ended }
          | none => .decodeError
        else .assertionError "cksum == cksum2"
      else .assertionError "\"RPC0\" == body[:4]" := by
  have hsize : (marker ++ body ++ trailer).length = 8 + body.length := by
    simp only [List.length_append]
    omega
  have hstem : (marker ++ body).length = 8 + body.length - 4 := by
    rw [List.length_append]
    omega
  have hhead := recv_append (putUint32 (8 + body.length)) (marker ++ body ++ trailer ++ more) ended
  have hcontent := recv_append (marker ++ body ++ trailer) more ended
  have hunpack : structUnpack (putUint32 (8 + body.length)) = (8 + body.length : ℕ) := by
    rw [structUnpack, uint32_putUint32 (by omega), toInt_of_lt hlength]
  have hnonempty : putUint32 (8 + body.length) ≠ [] := by simp [putUint32]
  rw [length_putUint32] at hhead
  rw [hsize] at hcontent
  rw [pythonDecode, List.append_assoc, hhead]
  simp only [if_neg hnonempty, length_putUint32, hunpack, Int.toNat_natCast, hcontent, hsize]
  rw [if_neg (by simp), if_neg (by push_cast; omega), if_neg (by simp)]
  rw [pythonDecodeBody, hsize, List.take_left' hstem, List.drop_left' hstem, List.append_assoc,
    List.take_left' hmarker, List.drop_left' hmarker]
  simp only [structUnpack_eq_iff htrailer, ne_eq, ite_not]

end Codec

end MuduoProtorpc
