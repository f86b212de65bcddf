import MuduoProtorpc.Wire.GoCodec

/-!
# The Java wire codec

`RpcEncoder` and `RpcDecoder` of the Java implementation, between which and the connection stand
Netty's `LengthFieldPrepender` and `LengthFieldBasedFrameDecoder`. The codec works on a
`ChannelBuffer`: an array, into which the buffer may start at an offset, and a reader and a writer
index. Java's `int` is 32 bits with a sign, and a checksum is compared as an `int`.

The protobuf runtime is a parameter, as are the handlers of Netty (`FrameHandlers`) and the default
character set of the platform (`DefaultCharset`), with what their documentation says.
-/

set_option autoImplicit false
set_option relaxedAutoImplicit false

namespace MuduoProtorpc

/-! ### Buffers -/

/-- A `ChannelBuffer` on the heap: the bytes between the indices can be read. -/
structure ChannelBuffer where
  array : Bytes
  arrayOffset : ℕ
  readerIndex : ℕ
  writerIndex : ℕ
  readerIndex_le : readerIndex ≤ writerIndex
  writerIndex_le : arrayOffset + writerIndex ≤ array.length

namespace ChannelBuffer

def readableBytes (buffer : ChannelBuffer) : ℕ :=
  buffer.writerIndex - buffer.readerIndex

/-- The bytes from an index of the array on. -/
def arraySlice (buffer : ChannelBuffer) (start length : ℕ) : Bytes :=
  (buffer.array.drop start).take length

/-- The bytes that can be read. -/
def readable (buffer : ChannelBuffer) : Bytes :=
  buffer.arraySlice (buffer.arrayOffset + buffer.readerIndex) buffer.readableBytes

/-- The four bytes from an index of the buffer on, as `readInt` reads them. -/
def getInt (buffer : ChannelBuffer) (index : ℕ) : BitVec 32 :=
  BitVec.ofNat 32 (uint32 (buffer.arraySlice (buffer.arrayOffset + index) 4))

/-- The buffer when it has been read to its end. -/
def readToEnd (buffer : ChannelBuffer) : ChannelBuffer :=
  { buffer with
    readerIndex := buffer.writerIndex
    readerIndex_le := Nat.le_refl buffer.writerIndex }

/-- A buffer with these bytes and nothing else. -/
def ofBytes (bytes : Bytes) : ChannelBuffer where
  array := bytes
  arrayOffset := 0
  readerIndex := 0
  writerIndex := bytes.length
  readerIndex_le := Nat.zero_le bytes.length
  writerIndex_le := (Nat.zero_add bytes.length).le

theorem length_readable (buffer : ChannelBuffer) :
    buffer.readable.length = buffer.readableBytes := by
  have hreader := buffer.readerIndex_le
  have hwriter := buffer.writerIndex_le
  simp only [readable, arraySlice, readableBytes, List.length_take, List.length_drop]
  omega

/-- A slice of the array inside the readable bytes is a slice of them. -/
theorem arraySlice_eq (buffer : ChannelBuffer) {start length : ℕ}
    (hlength : start + length ≤ buffer.readableBytes) :
    buffer.arraySlice (buffer.arrayOffset + buffer.readerIndex + start) length =
      (buffer.readable.drop start).take length := by
  have hshorter : min length (buffer.readableBytes - start) = length := by omega
  rw [readable, arraySlice, arraySlice, List.drop_take, List.take_take, List.drop_drop, hshorter]

/-- The readable bytes of a buffer made of bytes. -/
theorem readable_ofBytes (bytes : Bytes) : (ofBytes bytes).readable = bytes := by
  simp [readable, arraySlice, readableBytes, ofBytes]

end ChannelBuffer

/-! ### What the codec is given -/

/-- The default character set of the platform, as far as `RPC0` goes: every character set with
ASCII in it. -/
structure DefaultCharset where
  encode : String → Bytes
  decode : Bytes → String
  encode_tag : encode "RPC0" = rpcTag
  decode_tag : ∀ bytes : Bytes, bytes.length = 4 → (decode bytes = "RPC0" ↔ bytes = rpcTag)

theorem ofUInt8_injective : Function.Injective Char.ofUInt8 := by
  intro first second hequal
  have hnat := congrArg (fun character : Char ↦ character.val.toNat) hequal
  exact UInt8.toNat_inj.mp hnat

/-- ISO-8859-1. -/
def latin1 : DefaultCharset where
  encode := fun text ↦ text.toList.map Char.toUInt8
  decode := fun bytes ↦ String.ofList (bytes.map Char.ofUInt8)
  encode_tag := by decide
  decode_tag := by
    intro bytes _
    have htag : String.ofList (rpcTag.map Char.ofUInt8) = "RPC0" := by decide
    constructor
    · intro hequal
      rw [← htag] at hequal
      exact ofUInt8_injective.list_map (String.ofList_injective hequal)
    · intro hequal
      rw [hequal, htag]

/-- The largest frame that the frame decoder of the pipeline lets through. -/
def maxFrameLength : ℕ :=
  16 * 1024 * 1024

/-- The handlers of Netty next to the connection. `LengthFieldPrepender(4)` writes the number of
readable bytes in front of them. `LengthFieldBasedFrameDecoder(16 * 1024 * 1024, 0, 4, 0, 4)` hands
on a buffer with the bytes of a frame behind its length, if the frame is not too long. -/
structure FrameHandlers where
  prepend : ChannelBuffer → Bytes
  extract : Bytes → Option ChannelBuffer
  prepend_eq : ∀ buffer, prepend buffer = putUint32 buffer.readableBytes ++ buffer.readable
  extract_eq : ∀ content more : Bytes, 4 + content.length ≤ maxFrameLength →
    ∃ buffer, extract (putUint32 content.length ++ content ++ more) = some buffer ∧
      buffer.readable = content

/-! ### Encoding and decoding -/

/-- `RpcEncoder.encode`, or `none` when it throws: the message has to fill what the marker and the
checksum leave of the buffer. -/
def rpcEncoderEncode (charset : DefaultCharset) (writeTo : RpcMessage → Bytes)
    (message : RpcMessage) : Option ChannelBuffer :=
  let size := (writeTo message).length
  let capacity := 4 + size + 4
  let marker := charset.encode "RPC0"
  if marker.length + size + 4 = capacity then
    let content := marker ++ writeTo message
    some (.ofBytes (content ++ putUint32 (adler32 content)))
  else none

/-- What `RpcDecoder.decode` returns: a message, or the buffer it was given; or it throws. -/
inductive DecoderOutput
  | message (message : RpcMessage)
  | buffer (buffer : ChannelBuffer)
  | exception

/-- `RpcDecoder.decode` on a buffer. `mergeFrom` is `none` when it or `build` throws. -/
def rpcDecoderDecode (charset : DefaultCharset) (mergeFrom : Bytes → Option RpcMessage)
    (buffer : ChannelBuffer) : DecoderOutput :=
  if 8 < buffer.readableBytes then
    let start := buffer.arrayOffset + buffer.readerIndex
    if charset.decode (buffer.arraySlice start 4) = "RPC0" then
      let checksum := adler32 (buffer.arraySlice start (buffer.readableBytes - 4))
      if buffer.getInt (buffer.writerIndex - 4) = BitVec.ofNat 32 checksum then
        match mergeFrom (buffer.arraySlice (start + 4) (buffer.readableBytes - 8)) with
        | some message => .message message
        | none => .exception
      else .buffer buffer.readToEnd
    else .buffer buffer
  else .buffer buffer

/-! ### What the codec does -/

section Codec

variable {charset : DefaultCharset} {writeTo : RpcMessage → Bytes}
  {mergeFrom : Bytes → Option RpcMessage} {message : RpcMessage}

/-- What is on the wire is the frame of the serialized message. -/
theorem prepend_rpcEncoderEncode (handlers : FrameHandlers) :
    (rpcEncoderEncode charset writeTo message).map handlers.prepend =
      some (frameOf (writeTo message)) := by
  have htag : rpcTag.length = 4 := rfl
  have hlength : (rpcTag ++ writeTo message ++
      putUint32 (adler32 (rpcTag ++ writeTo message))).length = 8 + (writeTo message).length := by
    simp only [List.length_append, length_putUint32, htag]
    omega
  simp only [rpcEncoderEncode, charset.encode_tag, htag, if_pos, Option.map_some,
    handlers.prepend_eq, ← ChannelBuffer.length_readable, ChannelBuffer.readable_ofBytes, hlength]
  simp only [frameOf, List.append_assoc]

/-- Two checksums are the same `int` if and only if they are the same number. -/
theorem int_eq_iff {bytes : Bytes} (hlength : bytes.length = 4) (data : Bytes) :
    BitVec.ofNat 32 (uint32 bytes) = BitVec.ofNat 32 (adler32 data) ↔
      uint32 bytes = adler32 data := by
  have hread := uint32_lt hlength
  have hcomputed := adler32_lt data
  constructor
  · intro hequal
    have hnat := congrArg BitVec.toNat hequal
    simp only [BitVec.toNat_ofNat] at hnat
    omega
  · intro hequal
    rw [hequal]

/-- The decoder on a buffer with a marker, a body and a trailer, wherever these start. -/
theorem rpcDecoderDecode_eq (buffer : ChannelBuffer) {marker body trailer : Bytes}
    (hbuffer : buffer.readable = marker ++ body ++ trailer) (hmarker : marker.length = 4)
    (hbody : 1 ≤ body.length) (htrailer : trailer.length = 4) :
    rpcDecoderDecode charset mergeFrom buffer =
      if marker = rpcTag then
        if uint32 trailer = adler32 (marker ++ body) then
          match mergeFrom body with
          | some message => .message message
          | none => .exception
        else .buffer buffer.readToEnd
      else .buffer buffer := by
  have hlength : buffer.readableBytes = 8 + body.length := by
    rw [← ChannelBuffer.length_readable, hbuffer]
    simp only [List.length_append]
    omega
  have hstem : (marker ++ body).length = buffer.readableBytes - 4 := by
    rw [List.length_append]
    omega
  -- the four slices of the array that the decoder looks at
  have hversion : buffer.arraySlice (buffer.arrayOffset + buffer.readerIndex) 4 = marker := by
    have hslice := buffer.arraySlice_eq (show 0 + 4 ≤ buffer.readableBytes by omega)
    rw [Nat.add_zero, List.drop_zero, hbuffer, List.append_assoc, List.take_left' hmarker] at hslice
    exact hslice
  have hchecked : buffer.arraySlice (buffer.arrayOffset + buffer.readerIndex)
      (buffer.readableBytes - 4) = marker ++ body := by
    have hslice := buffer.arraySlice_eq
      (show 0 + (buffer.readableBytes - 4) ≤ buffer.readableBytes by omega)
    rw [Nat.add_zero, List.drop_zero, hbuffer, List.take_left' hstem] at hslice
    exact hslice
  have hmessage : buffer.arraySlice (buffer.arrayOffset + buffer.readerIndex + 4)
      (buffer.readableBytes - 8) = body := by
    have hsize : body.length = buffer.readableBytes - 8 := by omega
    rw [buffer.arraySlice_eq (by omega), hbuffer, List.append_assoc, List.drop_left' hmarker,
      List.take_left' hsize]
  have htrailing : buffer.getInt (buffer.writerIndex - 4) = BitVec.ofNat 32 (uint32 trailer) := by
    have hindex : buffer.arrayOffset + (buffer.writerIndex - 4) =
        buffer.arrayOffset + buffer.readerIndex + (buffer.readableBytes - 4) := by
      have hreader := buffer.readerIndex_le
      simp only [ChannelBuffer.readableBytes] at hlength ⊢
      omega
    rw [ChannelBuffer.getInt, hindex, buffer.arraySlice_eq (by omega), hbuffer,
      List.drop_left' hstem, List.take_of_length_le htrailer.le]
  simp only [rpcDecoderDecode, if_pos (show 8 < buffer.readableBytes by omega), hversion, hchecked,
    hmessage, htrailing, charset.decode_tag marker hmarker, int_eq_iff htrailer]

end Codec

end MuduoProtorpc
