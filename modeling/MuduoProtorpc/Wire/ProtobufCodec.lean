import MuduoProtorpc.Foundation.PendingTable
import MuduoProtorpc.Wire.JavaCodec

/-!
# The Java codec for any message

`ProtobufDecoder` reads a message that comes with the name of its type: the length of the name, the
name with a NUL behind it, the serialized message, and a checksum. A name is looked up in the map of
the known types.

A decoder that declines a buffer returns it, for the next handler in the pipeline. `RpcDecoder` has
read a buffer with a wrong checksum to its end by then, and `ProtobufDecoder` the name of a type it
does not know; all other buffers are returned as they were (`decoders_untouched_iff`).
-/

set_option autoImplicit false
set_option relaxedAutoImplicit false

namespace MuduoProtorpc

open Foundation

namespace ChannelBuffer

/-- `toString(index, length, charset)`. It throws for a length that is negative, or goes beyond the
array. -/
def toString (charset : DefaultCharset) (buffer : ChannelBuffer) (index : ℕ) (length : ℤ) :
    Option String :=
  if length = 0 then some ""
  else if 0 < length ∧ buffer.arrayOffset + index + length ≤ buffer.array.length then
    some (charset.decode (buffer.arraySlice (buffer.arrayOffset + index) length.toNat))
  else none

/-- `readerIndex(index)`. It throws for an index that is negative, or beyond the writer's. -/
def setReaderIndex (buffer : ChannelBuffer) (index : ℤ) : Option ChannelBuffer :=
  if hindex : 0 ≤ index ∧ index ≤ buffer.writerIndex then
    some { buffer with
      readerIndex := index.toNat
      readerIndex_le := by omega }
  else none

end ChannelBuffer

variable {Message : Type*}

/-- What `ProtobufDecoder.decode` returns: a message, or the buffer it was given; or it throws. -/
inductive ProtobufOutput (Message : Type*)
  | message (message : Message)
  | buffer (buffer : ChannelBuffer)
  | exception

/-- `ProtobufDecoder.addMessageType`. -/
def addMessageType (fullName : Message → String) (knownTypes : Table String Message)
    (message : Message) : Table String Message :=
  knownTypes.insert (fullName message) message

/-- `ProtobufDecoder.checksum`. The reader index is reset to where it was. -/
def protobufDecoderChecksum (buffer : ChannelBuffer) : Bool :=
  let checksum := adler32 (buffer.arraySlice (buffer.arrayOffset + buffer.readerIndex)
    (buffer.readableBytes - 4))
  buffer.getInt (buffer.writerIndex - 4) = BitVec.ofNat 32 checksum

/-- `prototype.newBuilderForType().mergeFrom(...).build()` on what is left but the checksum.
`mergeFrom` is `none` when it or `build` throws. -/
def mergeRest (mergeFrom : Message → Bytes → Option Message) (prototype : Message)
    (rest : ChannelBuffer) : ProtobufOutput Message :=
  -- a name that reaches into the checksum leaves a negative length
  if 4 ≤ rest.readableBytes then
    match mergeFrom prototype (rest.arraySlice (rest.arrayOffset + rest.readerIndex)
      (rest.readableBytes - 4)) with
    | some message => .message message
    | none => .exception
  else .exception

/-- `ProtobufDecoder.decode` on a buffer. -/
def protobufDecoderDecode (charset : DefaultCharset) (mergeFrom : Message → Bytes → Option Message)
    (knownTypes : Table String Message) (buffer : ChannelBuffer) : ProtobufOutput Message :=
  if 10 ≤ buffer.readableBytes ∧ protobufDecoderChecksum buffer = true then
    let nameLen := (buffer.getInt buffer.readerIndex).toInt
    let nameIndex := buffer.readerIndex + 4
    match buffer.toString charset nameIndex (nameLen - 1),
      buffer.setReaderIndex (nameIndex + nameLen) with
    | some typeName, some rest =>
      match knownTypes.find typeName with
      | some prototype => mergeRest mergeFrom prototype rest
      | none => .buffer rest
    | _, _ => .exception
  else .buffer buffer

/-! ### The parts of what can be read -/

/-- The last four bytes are the checksum of the others. -/
def ChecksumRight (content : Bytes) : Prop :=
  uint32 (content.drop (content.length - 4)) = adler32 (content.take (content.length - 4))

instance (content : Bytes) : Decidable (ChecksumRight content) :=
  inferInstanceAs (Decidable (_ = _))

/-- The length of the name, with its NUL. -/
def nameLenOf (content : Bytes) : ℤ :=
  (BitVec.ofNat 32 (uint32 (content.take 4))).toInt

/-- The name of the type. -/
def typeNameOf (charset : DefaultCharset) (content : Bytes) : String :=
  if nameLenOf content = 1 then ""
  else charset.decode ((content.drop 4).take (nameLenOf content - 1).toNat)

/-- There is a name, and it ends in what can be read. -/
def NameInside (content : Bytes) : Prop :=
  1 ≤ nameLenOf content ∧ 4 + nameLenOf content ≤ content.length

section Parts

variable {charset : DefaultCharset} {buffer : ChannelBuffer}

/-- The checksum that `readInt` reads is the last four of the readable bytes. -/
theorem getInt_trailer (hlength : 4 ≤ buffer.readableBytes) :
    buffer.getInt (buffer.writerIndex - 4) =
      BitVec.ofNat 32 (uint32 (buffer.readable.drop (buffer.readable.length - 4))) := by
  have hindex : buffer.arrayOffset + (buffer.writerIndex - 4) =
      buffer.arrayOffset + buffer.readerIndex + (buffer.readableBytes - 4) := by
    have hreader := buffer.readerIndex_le
    simp only [ChannelBuffer.readableBytes] at hlength ⊢
    omega
  have hsize : (buffer.readable.drop (buffer.readableBytes - 4)).length ≤ 4 := by
    rw [List.length_drop, buffer.length_readable]
    omega
  rw [ChannelBuffer.getInt, hindex, buffer.arraySlice_eq (by omega), buffer.length_readable,
    List.take_of_length_le hsize]

theorem protobufDecoderChecksum_iff (hlength : 4 ≤ buffer.readableBytes) :
    protobufDecoderChecksum buffer = true ↔ ChecksumRight buffer.readable := by
  have hstem := buffer.arraySlice_eq
    (show 0 + (buffer.readableBytes - 4) ≤ buffer.readableBytes by omega)
  have hsize : (buffer.readable.drop (buffer.readable.length - 4)).length = 4 := by
    rw [List.length_drop, buffer.length_readable]
    omega
  rw [Nat.add_zero, List.drop_zero] at hstem
  rw [protobufDecoderChecksum, decide_eq_true_iff, getInt_trailer hlength, hstem,
    int_eq_iff hsize, ChecksumRight, buffer.length_readable]

theorem getInt_readerIndex (hlength : 4 ≤ buffer.readableBytes) :
    (buffer.getInt buffer.readerIndex).toInt = nameLenOf buffer.readable := by
  have hslice := buffer.arraySlice_eq (show 0 + 4 ≤ buffer.readableBytes by omega)
  rw [Nat.add_zero, List.drop_zero] at hslice
  rw [ChannelBuffer.getInt, hslice, nameLenOf]

/-- The name that is read is that in the readable bytes. -/
theorem toString_name (hinside : NameInside buffer.readable) :
    buffer.toString charset (buffer.readerIndex + 4) (nameLenOf buffer.readable - 1) =
      some (typeNameOf charset buffer.readable) := by
  obtain ⟨hpos, hle⟩ := hinside
  rw [buffer.length_readable] at hle
  rw [ChannelBuffer.toString, typeNameOf]
  by_cases hone : nameLenOf buffer.readable = 1
  · rw [if_pos hone, if_pos (by omega)]
  · have hfits : 0 < nameLenOf buffer.readable - 1 ∧
        buffer.arrayOffset + (buffer.readerIndex + 4 : ℕ) + (nameLenOf buffer.readable - 1) ≤
          buffer.array.length := by
      have hwriter := buffer.writerIndex_le
      simp only [ChannelBuffer.readableBytes] at hle
      omega
    rw [if_neg hone, if_neg (by omega), if_pos hfits, ← Nat.add_assoc,
      buffer.arraySlice_eq (by omega)]

/-- Behind the name, when this is inside. -/
theorem exists_setReaderIndex (hinside : NameInside buffer.readable) :
    ∃ rest : ChannelBuffer,
      buffer.setReaderIndex ((buffer.readerIndex + 4 : ℕ) + nameLenOf buffer.readable) = some rest ∧
      (rest.readerIndex : ℤ) = buffer.readerIndex + 4 + nameLenOf buffer.readable ∧
      rest.readable = buffer.readable.drop (4 + (nameLenOf buffer.readable).toNat) := by
  obtain ⟨hpos, hle⟩ := hinside
  rw [buffer.length_readable, ChannelBuffer.readableBytes] at hle
  have hreader := buffer.readerIndex_le
  have hindex : ((buffer.readerIndex + 4 : ℕ) + nameLenOf buffer.readable).toNat =
      buffer.readerIndex + (4 + (nameLenOf buffer.readable).toNat) := by
    omega
  rw [ChannelBuffer.setReaderIndex, dif_pos (by omega)]
  refine ⟨_, rfl, ?_, ?_⟩
  · dsimp only
    omega
  · show (buffer.array.drop (buffer.arrayOffset +
        ((buffer.readerIndex + 4 : ℕ) + nameLenOf buffer.readable).toNat)).take
      (buffer.writerIndex - ((buffer.readerIndex + 4 : ℕ) + nameLenOf buffer.readable).toNat) = _
    rw [hindex, ← List.drop_drop, ← List.drop_drop, ← Nat.sub_sub, ← List.drop_take,
      List.drop_drop]
    rfl

/-- When there is no name that is inside, one of the calls throws. -/
theorem name_outside (hinside : ¬ NameInside buffer.readable) :
    buffer.toString charset (buffer.readerIndex + 4) (nameLenOf buffer.readable - 1) = none ∨
      buffer.setReaderIndex ((buffer.readerIndex + 4 : ℕ) + nameLenOf buffer.readable) = none := by
  rw [NameInside, buffer.length_readable, ChannelBuffer.readableBytes] at hinside
  have hreader := buffer.readerIndex_le
  by_cases hpos : 1 ≤ nameLenOf buffer.readable
  · right
    rw [ChannelBuffer.setReaderIndex, dif_neg (by omega)]
  · left
    rw [ChannelBuffer.toString, if_neg (by omega), if_neg (by omega)]

end Parts

/-! ### Buffers that are declined -/

/-- The next handler in the pipeline reads what this one could have read. -/
def Untouched (buffer returned : ChannelBuffer) : Prop :=
  returned.readerIndex = buffer.readerIndex ∧ returned.readable = buffer.readable

/-- The content that `RpcDecoder` reads to its end and then declines: a message whose checksum is
wrong. -/
structure WrongChecksum (content : Bytes) : Prop where
  length_lt : 8 < content.length
  marker : content.take 4 = rpcTag
  checksum : ¬ ChecksumRight content

/-- The content whose name `ProtobufDecoder` reads before it declines: a message of a type that is
not known. -/
structure UnknownType (charset : DefaultCharset) (knownTypes : Table String Message)
    (content : Bytes) : Prop where
  length_le : 10 ≤ content.length
  checksum : ChecksumRight content
  name : NameInside content
  unknown : knownTypes.find (typeNameOf charset content) = none

section Declined

variable {charset : DefaultCharset} {mergeFrom : Message → Bytes → Option Message}
  {mergeRpc : Bytes → Option RpcMessage} {knownTypes : Table String Message}
  {buffer returned : ChannelBuffer}

/-- The outcome of `RpcDecoder`, by what can be read. -/
theorem rpcDecoderDecode_readable (hlength : 8 < buffer.readable.length) :
    rpcDecoderDecode charset mergeRpc buffer =
      if buffer.readable.take 4 = rpcTag then
        if ChecksumRight buffer.readable then
          match mergeRpc ((buffer.readable.drop 4).take (buffer.readable.length - 8)) with
          | some message => .message message
          | none => .exception
        else .buffer buffer.readToEnd
      else .buffer buffer := by
  have hstem : buffer.readable.take 4 ++
      (buffer.readable.drop 4).take (buffer.readable.length - 8) =
        buffer.readable.take (buffer.readable.length - 4) := by
    rw [← List.take_add]
    congr 1
    omega
  have hsplit : buffer.readable = buffer.readable.take 4 ++
      (buffer.readable.drop 4).take (buffer.readable.length - 8) ++
        buffer.readable.drop (buffer.readable.length - 4) := by
    rw [hstem, List.take_append_drop]
  rw [rpcDecoderDecode_eq buffer hsplit (by rw [List.length_take]; omega)
    (by rw [List.length_take, List.length_drop]; omega) (by rw [List.length_drop]; omega), hstem]
  rfl

/-- A message with a wrong checksum has been read to its end. -/
theorem rpcDecoderDecode_of_wrongChecksum (hwrong : WrongChecksum buffer.readable) :
    rpcDecoderDecode charset mergeRpc buffer = .buffer buffer.readToEnd ∧
      buffer.readToEnd.readerIndex ≠ buffer.readerIndex := by
  have hlength := hwrong.length_lt
  constructor
  · rw [rpcDecoderDecode_readable hlength, if_pos hwrong.marker, if_neg hwrong.checksum]
  · show buffer.writerIndex ≠ buffer.readerIndex
    rw [buffer.length_readable, ChannelBuffer.readableBytes] at hlength
    omega

/-- All else that `RpcDecoder` returns is as it was. -/
theorem eq_of_rpcDecoderDecode (hright : ¬ WrongChecksum buffer.readable)
    (hreturned : rpcDecoderDecode charset mergeRpc buffer = .buffer returned) :
    returned = buffer := by
  by_cases hlength : 8 < buffer.readable.length
  · rw [rpcDecoderDecode_readable hlength] at hreturned
    by_cases hmarker : buffer.readable.take 4 = rpcTag
    · by_cases hchecksum : ChecksumRight buffer.readable
      · rw [if_pos hmarker, if_pos hchecksum] at hreturned
        split at hreturned
        · cases hreturned
        · cases hreturned
      · exact absurd ⟨hlength, hmarker, hchecksum⟩ hright
    · rw [if_neg hmarker] at hreturned
      exact (DecoderOutput.buffer.inj hreturned).symm
  · rw [buffer.length_readable] at hlength
    rw [rpcDecoderDecode, if_neg hlength] at hreturned
    exact (DecoderOutput.buffer.inj hreturned).symm

/-- The outcome of `ProtobufDecoder` on content with the right checksum and a name. -/
theorem protobufDecoderDecode_readable (hlength : 10 ≤ buffer.readable.length)
    (hchecksum : ChecksumRight buffer.readable) (hinside : NameInside buffer.readable) :
    ∃ rest : ChannelBuffer,
      (rest.readerIndex : ℤ) = buffer.readerIndex + 4 + nameLenOf buffer.readable ∧
      rest.readable = buffer.readable.drop (4 + (nameLenOf buffer.readable).toNat) ∧
      protobufDecoderDecode charset mergeFrom knownTypes buffer =
        match knownTypes.find (typeNameOf charset buffer.readable) with
        | some prototype => mergeRest mergeFrom prototype rest
        | none => .buffer rest := by
  rw [buffer.length_readable] at hlength
  obtain ⟨rest, hrest, hindex, hreadable⟩ := exists_setReaderIndex hinside
  refine ⟨rest, hindex, hreadable, ?_⟩
  rw [protobufDecoderDecode,
    if_pos ⟨hlength, (protobufDecoderChecksum_iff (by omega)).mpr hchecksum⟩]
  simp only [getInt_readerIndex (show 4 ≤ buffer.readableBytes by omega), toString_name hinside,
    hrest]

/-- It throws when there is no name that is inside. -/
theorem protobufDecoderDecode_outside (hlength : 10 ≤ buffer.readableBytes)
    (hchecksum : ChecksumRight buffer.readable) (hinside : ¬ NameInside buffer.readable) :
    protobufDecoderDecode charset mergeFrom knownTypes buffer = .exception := by
  rw [protobufDecoderDecode,
    if_pos ⟨hlength, (protobufDecoderChecksum_iff (by omega)).mpr hchecksum⟩]
  simp only [getInt_readerIndex (show 4 ≤ buffer.readableBytes by omega)]
  rcases name_outside hinside with hname | hindex
  · rw [hname]
  · rw [hindex]
    cases buffer.toString charset (buffer.readerIndex + 4) (nameLenOf buffer.readable - 1) with
    | none => rfl
    | some typeName => rfl

/-- The name of an unknown type has been read. -/
theorem protobufDecoderDecode_of_unknownType
    (hunknown : UnknownType charset knownTypes buffer.readable) :
    ∃ rest, protobufDecoderDecode charset mergeFrom knownTypes buffer = .buffer rest ∧
      rest.readerIndex ≠ buffer.readerIndex := by
  obtain ⟨rest, hindex, -, hdecode⟩ :=
    protobufDecoderDecode_readable hunknown.length_le hunknown.checksum hunknown.name
  rw [hunknown.unknown] at hdecode
  refine ⟨rest, hdecode, ?_⟩
  have hpos := hunknown.name.1
  omega

theorem mergeRest_ne_buffer (prototype : Message) (rest : ChannelBuffer) :
    mergeRest mergeFrom prototype rest ≠ .buffer returned := by
  intro hreturned
  rw [mergeRest] at hreturned
  split at hreturned
  · split at hreturned
    · cases hreturned
    · cases hreturned
  · cases hreturned

/-- All else that `ProtobufDecoder` returns is as it was. -/
theorem eq_of_protobufDecoderDecode (hknown : ¬ UnknownType charset knownTypes buffer.readable)
    (hreturned : protobufDecoderDecode charset mergeFrom knownTypes buffer = .buffer returned) :
    returned = buffer := by
  by_cases hread : 10 ≤ buffer.readableBytes ∧ protobufDecoderChecksum buffer = true
  · obtain ⟨hlength, hchecksum⟩ := hread
    rw [protobufDecoderChecksum_iff (by omega)] at hchecksum
    by_cases hinside : NameInside buffer.readable
    · rw [← buffer.length_readable] at hlength
      obtain ⟨rest, -, -, hdecode⟩ := protobufDecoderDecode_readable hlength hchecksum hinside
      rw [hdecode] at hreturned
      cases hfind : knownTypes.find (typeNameOf charset buffer.readable) with
      | none => exact absurd ⟨hlength, hchecksum, hinside, hfind⟩ hknown
      | some prototype =>
        rw [hfind] at hreturned
        exact absurd hreturned (mergeRest_ne_buffer prototype rest)
    · rw [protobufDecoderDecode_outside hlength hchecksum hinside] at hreturned
      cases hreturned
  · rw [protobufDecoderDecode, if_neg hread] at hreturned
    exact (ProtobufOutput.buffer.inj hreturned).symm

/-- A buffer that is returned is untouched unless it was moved. -/
theorem untouched_iff {Returns : ChannelBuffer → Prop} {Moved : Prop}
    (hmoved : Moved → ∃ rest, Returns rest ∧ rest.readerIndex ≠ buffer.readerIndex)
    (hkept : ¬ Moved → ∀ returned, Returns returned → returned = buffer) :
    (∀ returned, Returns returned → Untouched buffer returned) ↔ ¬ Moved := by
  constructor
  · intro huntouched hmove
    obtain ⟨rest, hreturns, hindex⟩ := hmoved hmove
    exact hindex (huntouched rest hreturns).1
  · intro hstay returned hreturns
    rw [hkept hstay returned hreturns]
    exact ⟨rfl, rfl⟩

end Declined

/-- A decoder leaves a buffer that it returns as it was, exactly if this is not a message with a
wrong checksum (`RpcDecoder`), or one of an unknown type (`ProtobufDecoder`). -/
theorem decoders_untouched_iff (charset : DefaultCharset)
    (mergeRpc : Bytes → Option RpcMessage) (mergeFrom : Message → Bytes → Option Message)
    (knownTypes : Table String Message) (buffer : ChannelBuffer) :
    ((∀ returned, rpcDecoderDecode charset mergeRpc buffer = .buffer returned →
        Untouched buffer returned) ↔ ¬ WrongChecksum buffer.readable) ∧
      ((∀ returned, protobufDecoderDecode charset mergeFrom knownTypes buffer = .buffer returned →
        Untouched buffer returned) ↔ ¬ UnknownType charset knownTypes buffer.readable) := by
  constructor
  · apply untouched_iff
    · intro hwrong
      exact ⟨_, rpcDecoderDecode_of_wrongChecksum hwrong⟩
    · intro hright returned hreturned
      exact eq_of_rpcDecoderDecode hright hreturned
  · apply untouched_iff
    · intro hunknown
      exact protobufDecoderDecode_of_unknownType hunknown
    · intro hknown returned hreturned
      exact eq_of_protobufDecoderDecode hknown hreturned

/-- A marker, one byte, and no checksum. -/
def noChecksum : ChannelBuffer :=
  .ofBytes (rpcTag ++ [0, 0, 0, 0, 0])

/-- A message without fields, of a type `X`. -/
def typeX : ChannelBuffer :=
  .ofBytes ([0, 0, 0, 2, 88, 0] ++ putUint32 (adler32 [0, 0, 0, 2, 88, 0]))

/-- Both decoders return a buffer that they have read from. -/
theorem not_untouched_noChecksum_typeX :
    (¬ ∀ returned, rpcDecoderDecode latin1 (fun _ ↦ none) noChecksum = .buffer returned →
        Untouched noChecksum returned) ∧
      ¬ ∀ returned, protobufDecoderDecode latin1 (fun _ _ ↦ none)
          (Table.empty : Table String Unit) typeX = .buffer returned →
        Untouched typeX returned := by
  constructor
  · intro huntouched
    have hwrong : WrongChecksum noChecksum.readable :=
      ⟨by decide, by decide, by decide⟩
    obtain ⟨hreturned, hindex⟩ := rpcDecoderDecode_of_wrongChecksum hwrong
    exact hindex (huntouched _ hreturned).1
  · intro huntouched
    have hunknown : UnknownType latin1 (Table.empty : Table String Unit) typeX.readable :=
      ⟨by decide, by decide, ⟨by decide, by decide⟩, rfl⟩
    obtain ⟨rest, hreturned, hindex⟩ := protobufDecoderDecode_of_unknownType hunknown
    exact hindex (huntouched rest hreturned).1

end MuduoProtorpc
