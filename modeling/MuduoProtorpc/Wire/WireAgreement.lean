import MuduoProtorpc.Wire.FrameStream
import MuduoProtorpc.Wire.JavaCodec
import MuduoProtorpc.Wire.PythonCodec

/-!
# One wire format, three implementations

The Go, the Java and the Python codec put the same bytes on the wire for a message whose serialized
form has at least one byte and fits the frame decoder of the Java pipeline; each of them gets this
form back out of the bytes; and none of them gets a message out of a frame with another marker or
another checksum (`wireAgreement`).
-/

set_option autoImplicit false
set_option relaxedAutoImplicit false

namespace MuduoProtorpc

/-- The serializers and parsers of the three protobuf runtimes, the handlers of Netty, and the
character set of the Java platform. -/
structure WireRuntimes where
  marshal : RpcMessage → Except String Bytes
  unmarshal : Bytes → RpcMessage × Option String
  writeTo : RpcMessage → Bytes
  mergeFrom : Bytes → Option RpcMessage
  serializeToString : RpcMessage → Bytes
  parseFromString : Bytes → Option RpcMessage
  handlers : FrameHandlers
  charset : DefaultCharset

/-- The three runtimes serialize the message to the body, and parse the body as the message. -/
structure Serialized (runtimes : WireRuntimes) (message : RpcMessage) (body : Bytes) : Prop where
  marshal : runtimes.marshal message = .ok body
  unmarshal : runtimes.unmarshal body = (message, none)
  writeTo : runtimes.writeTo message = body
  mergeFrom : runtimes.mergeFrom body = some message
  serializeToString : runtimes.serializeToString message = body
  parseFromString : runtimes.parseFromString body = some message

/-- The three encoders put these bytes on the wire. -/
structure SameWire (runtimes : WireRuntimes) (message : RpcMessage) (wire : Bytes) : Prop where
  go : encode runtimes.marshal message = .ok wire
  java : (rpcEncoderEncode runtimes.charset runtimes.writeTo message).map
    runtimes.handlers.prepend = some wire
  python : pythonEncode runtimes.serializeToString message = some wire

/-- A frame as the Java pipeline decodes it: behind the frame decoder, which hands on a buffer whose
reader index may be anything. -/
structure JavaDecodes (runtimes : WireRuntimes) (frame more : Bytes)
    (outcome : ChannelBuffer → DecoderOutput → Prop) : Prop where
  extracted : ∃ buffer, runtimes.handlers.extract (frame ++ more) = some buffer ∧
    buffer.readable = frame.drop 4
  decoded : ∀ buffer : ChannelBuffer, buffer.readable = frame.drop 4 →
    outcome buffer (rpcDecoderDecode runtimes.charset runtimes.mergeFrom buffer)

/-- The three decoders recover the message from the frame, whatever comes after it. -/
structure AllRecover (runtimes : WireRuntimes) (message : RpcMessage) (frame : Bytes) : Prop where
  go : ∀ more ended, decode runtimes.unmarshal { available := frame ++ more, ended := ended } =
    .message message { available := more, ended := ended }
  java : ∀ more, JavaDecodes runtimes frame more fun _ output ↦ output = .message message
  python : ∀ more ended,
    pythonDecode runtimes.parseFromString { available := frame ++ more, ended := ended } =
      .message message { available := more, ended := ended }

/-- None of the three decoders gets a message out of the frame. -/
structure NoneYields (runtimes : WireRuntimes) (frame : Bytes) : Prop where
  go : ∀ more ended message rest,
    decode runtimes.unmarshal { available := frame ++ more, ended := ended } ≠
      .message message rest
  java : ∀ more, JavaDecodes runtimes frame more fun _ output ↦
    ∀ message, output ≠ .message message
  python : ∀ more ended message rest,
    pythonDecode runtimes.parseFromString { available := frame ++ more, ended := ended } ≠
      .message message rest

/-! ### Frames with a marker, a body and a trailer -/

section Agreement

variable {runtimes : WireRuntimes} {message : RpcMessage} {body marker content trailer : Bytes}

/-- A frame with any marker and trailer. -/
def rawFrame (marker content trailer : Bytes) : Bytes :=
  putUint32 (8 + content.length) ++ (marker ++ content ++ trailer)

theorem frameOf_eq_rawFrame (body : Bytes) :
    frameOf body = rawFrame rpcTag body (putUint32 (adler32 (rpcTag ++ body))) := by
  simp only [frameOf, rawFrame, List.append_assoc]

theorem drop_rawFrame (marker content trailer : Bytes) :
    (rawFrame marker content trailer).drop 4 = marker ++ content ++ trailer :=
  List.drop_left' (length_putUint32 _)

/-- The frame decoder of Netty hands on what is behind the length. -/
theorem extract_rawFrame (hmarker : marker.length = 4) (htrailer : trailer.length = 4)
    (hlength : content.length + 12 ≤ maxFrameLength) (more : Bytes) :
    ∃ buffer, runtimes.handlers.extract (rawFrame marker content trailer ++ more) = some buffer ∧
      buffer.readable = (rawFrame marker content trailer).drop 4 := by
  have hsize : (marker ++ content ++ trailer).length = 8 + content.length := by
    simp only [List.length_append]
    omega
  obtain ⟨buffer, hextract, hreadable⟩ :=
    runtimes.handlers.extract_eq (marker ++ content ++ trailer) more (by omega)
  rw [hsize] at hextract
  exact ⟨buffer, hextract, by rw [hreadable, drop_rawFrame]⟩

/-- `Decode` gets a message only out of a frame with the right marker and checksum. -/
theorem decode_rawFrame (hmarker : marker.length = 4) (htrailer : trailer.length = 4)
    (hlength : 8 + content.length < 2 ^ 32) {more : Bytes} {ended : Bool} {rest : Stream}
    (hdecode : decode runtimes.unmarshal {
      available := rawFrame marker content trailer ++ more, ended := ended } =
        .message message rest) :
    marker = rpcTag ∧ uint32 trailer = adler32 (marker ++ content) := by
  obtain ⟨frame, ⟨header, payload, rfl, hfour, -, -, hpayload, htag, hchecksum, -⟩, hstream⟩ :=
    decode_eq_message_iff.mp hdecode
  have hbytes := congrArg Stream.available hstream
  simp only [rawFrame, List.append_assoc] at hbytes
  obtain ⟨hheader, hrest⟩ := List.append_inj hbytes (by rw [length_putUint32, hfour])
  rw [← hheader, uint32_putUint32 hlength] at hpayload
  have hsize : (marker ++ content ++ trailer).length = payload.length := by
    simp only [List.length_append]
    omega
  have hcontent : marker ++ content ++ trailer = payload := by
    rw [← List.append_assoc, ← List.append_assoc] at hrest
    exact (List.append_inj hrest hsize).1
  subst hcontent
  have hstem : (marker ++ content).length = (marker ++ content ++ trailer).length - 4 := by
    simp only [List.length_append]
    omega
  rw [List.append_assoc, List.take_left' hmarker] at htag
  rw [List.take_left' hstem, List.drop_left' hstem] at hchecksum
  exact ⟨htag, hchecksum⟩

/-- The three decoders recover the message from the frame of its serialized form. -/
theorem allRecover_frameOf (hserialized : Serialized runtimes message body)
    (hbody : 1 ≤ body.length) (hlength : body.length + 12 ≤ maxFrameLength) :
    AllRecover runtimes message (frameOf body) := by
  have hmax : maxFrameLength = 16777216 := rfl
  have htag : rpcTag.length = 4 := rfl
  have htrailer := length_putUint32 (adler32 (rpcTag ++ body))
  have hchecksum := uint32_putUint32 (adler32_lt (rpcTag ++ body))
  refine ⟨fun more ended ↦ ?_, fun more ↦ ⟨?_, fun buffer hbuffer ↦ ?_⟩, fun more ended ↦ ?_⟩
  · exact decode_frameOf (by omega) hserialized.unmarshal more ended
  · rw [frameOf_eq_rawFrame]
    exact extract_rawFrame htag htrailer hlength more
  · rw [frameOf_eq_rawFrame, drop_rawFrame] at hbuffer
    rw [rpcDecoderDecode_eq buffer hbuffer htag hbody htrailer, if_pos rfl, if_pos hchecksum,
      hserialized.mergeFrom]
  · rw [frameOf_eq_rawFrame, rawFrame,
      pythonDecode_eq htag hbody htrailer (by omega) more ended, if_pos rfl, if_pos hchecksum,
      hserialized.parseFromString]

/-- None of the three decoders gets a message out of a frame with another marker or checksum. -/
theorem noneYields_rawFrame (hmarker : marker.length = 4) (htrailer : trailer.length = 4)
    (hcontent : 1 ≤ content.length) (hlength : content.length + 12 ≤ maxFrameLength)
    (hwrong : marker ≠ rpcTag ∨ uint32 trailer ≠ adler32 (marker ++ content)) :
    NoneYields runtimes (rawFrame marker content trailer) := by
  have hmax : maxFrameLength = 16777216 := rfl
  have hboth : ¬ (marker = rpcTag ∧ uint32 trailer = adler32 (marker ++ content)) := by
    rintro ⟨htag, hchecksum⟩
    rcases hwrong with hother | hother
    · exact hother htag
    · exact hother hchecksum
  refine ⟨fun more ended message rest hdecode ↦ ?_, fun more ↦ ⟨?_, fun buffer hbuffer ↦ ?_⟩,
    fun more ended message rest ↦ ?_⟩
  · exact hboth (decode_rawFrame hmarker htrailer (by omega) hdecode)
  · exact extract_rawFrame hmarker htrailer hlength more
  · intro message
    rw [drop_rawFrame] at hbuffer
    rw [rpcDecoderDecode_eq buffer hbuffer hmarker hcontent htrailer]
    split_ifs with htag hchecksum
    · exact absurd ⟨htag, hchecksum⟩ hboth
    · simp
    · simp
  · rw [rawFrame, pythonDecode_eq hmarker hcontent htrailer (by omega) more ended]
    split_ifs with htag hchecksum
    · exact absurd ⟨htag, hchecksum⟩ hboth
    · simp
    · simp

/-- For a serialized message of at least one byte that fits the Java pipeline, the three encoders
put the same bytes on the wire; the three decoders recover it from them; and out of a frame of the
same length with another marker or another checksum none of them gets a message. -/
theorem wireAgreement (hserialized : Serialized runtimes message body) (hbody : 1 ≤ body.length)
    (hlength : body.length + 12 ≤ maxFrameLength) :
    SameWire runtimes message (frameOf body) ∧ AllRecover runtimes message (frameOf body) ∧
      ∀ marker content trailer : Bytes, marker.length = 4 → content.length = body.length →
        trailer.length = 4 →
          marker ≠ rpcTag ∨ uint32 trailer ≠ adler32 (marker ++ content) →
            NoneYields runtimes (rawFrame marker content trailer) := by
  have hmax : maxFrameLength = 16777216 := rfl
  refine ⟨⟨encode_eq hserialized.marshal, ?_, ?_⟩, allRecover_frameOf hserialized hbody hlength,
    fun marker content trailer hmarker hcontent htrailer hwrong ↦ ?_⟩
  · rw [prepend_rpcEncoderEncode, hserialized.writeTo]
  · rw [pythonEncode_eq (by rw [hserialized.serializeToString]; omega),
      hserialized.serializeToString]
  · exact noneYields_rawFrame hmarker htrailer (by omega) (by omega) hwrong

end Agreement

/-! ### A message in all three -/

/-- Handlers that frame and unframe as documented. The buffer handed on starts inside its array. -/
def plainHandlers : FrameHandlers where
  prepend := fun buffer ↦ putUint32 buffer.readableBytes ++ buffer.readable
  extract := fun bytes ↦
    let content := (bytes.drop 4).take (uint32 (bytes.take 4))
    if 4 + content.length ≤ maxFrameLength then some {
      array := 0 :: 0 :: content
      arrayOffset := 1
      readerIndex := 1
      writerIndex := content.length + 1
      readerIndex_le := by omega
      writerIndex_le := by
        simp only [List.length_cons]
        omega }
    else none
  prepend_eq := fun _ ↦ rfl
  extract_eq := by
    intro content more hlength
    have hmax : maxFrameLength = 16777216 := rfl
    have hfour : (putUint32 content.length).length = 4 := rfl
    have htaken : ((putUint32 content.length ++ content ++ more).drop 4).take
        (uint32 ((putUint32 content.length ++ content ++ more).take 4)) = content := by
      rw [List.append_assoc, List.take_left' hfour, List.drop_left' hfour,
        uint32_putUint32 (by omega), List.take_left' rfl]
    simp only [htaken, if_pos hlength]
    refine ⟨_, rfl, ?_⟩
    simp [ChannelBuffer.readable, ChannelBuffer.arraySlice, ChannelBuffer.readableBytes]

/-- Runtimes for messages with a type and an identifier. -/
def headerRuntimes : WireRuntimes where
  marshal := ChunkedReader.marshalHeader
  unmarshal := ChunkedReader.unmarshalHeader
  writeTo := fun message ↦ (ChunkedReader.marshalHeader message).toOption.getD []
  mergeFrom := fun bytes ↦
    if (ChunkedReader.unmarshalHeader bytes).2 = none then
      some (ChunkedReader.unmarshalHeader bytes).1
    else none
  serializeToString := fun message ↦ (ChunkedReader.marshalHeader message).toOption.getD []
  parseFromString := fun bytes ↦
    if (ChunkedReader.unmarshalHeader bytes).2 = none then
      some (ChunkedReader.unmarshalHeader bytes).1
    else none
  handlers := plainHandlers
  charset := latin1

/-- A request goes over the wire from each implementation to each. -/
theorem wireAgreement_request :
    SameWire headerRuntimes { type := some .request, id := some 7 }
        (frameOf [0x08, 1, 0x11, 7, 0, 0, 0, 0, 0, 0, 0]) ∧
      AllRecover headerRuntimes { type := some .request, id := some 7 }
        (frameOf [0x08, 1, 0x11, 7, 0, 0, 0, 0, 0, 0, 0]) := by
  have hserialized : Serialized headerRuntimes { type := some .request, id := some 7 }
      [0x08, 1, 0x11, 7, 0, 0, 0, 0, 0, 0, 0] := ⟨rfl, rfl, rfl, rfl, rfl, rfl⟩
  have hagreement := wireAgreement hserialized (by decide) (by decide)
  exact ⟨hagreement.1, hagreement.2.1⟩

end MuduoProtorpc
