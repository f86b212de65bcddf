import MuduoProtorpc.Wire.ProtobufCodec

/-!
# `ProtobufDecoder` inverts `ProtobufEncoder`

`ProtobufEncoder` writes a message into a buffer of the size it needs: the length of the name of its
type, the name with a NUL behind it, the serialized message, and the checksum of these. The size is
an `int`, and that of a longer message cannot be allocated.

Whatever was read from a buffer before, `ProtobufDecoder` gets the message back out of the rest of
it (`decodesBack_iff`).
-/

set_option autoImplicit false
set_option relaxedAutoImplicit false

namespace MuduoProtorpc

open Foundation

/-! ### Writing -/

namespace ChannelBuffer

/-- `new BigEndianHeapChannelBuffer(length)`. The length of an array is an `int`. -/
def create (length : ℕ) : Option ChannelBuffer :=
  if length < 2 ^ 31 then some {
    array := List.replicate length 0
    arrayOffset := 0
    readerIndex := 0
    writerIndex := 0
    readerIndex_le := Nat.le_refl 0
    writerIndex_le := Nat.zero_le _ }
  else none

/-- `writeBytes(src)`. It throws if there is not enough room. -/
def writeBytes (buffer : ChannelBuffer) (bytes : Bytes) : Option ChannelBuffer :=
  let start := buffer.arrayOffset + buffer.writerIndex
  if hroom : start + bytes.length ≤ buffer.array.length then some { buffer with
    array := buffer.array.take start ++ (bytes ++ buffer.array.drop (start + bytes.length))
    writerIndex := buffer.writerIndex + bytes.length
    readerIndex_le := Nat.le_add_right_of_le buffer.readerIndex_le
    writerIndex_le := by
      simp only [List.length_append, List.length_take, List.length_drop]
      omega }
  else none

/-- `writeInt(value)`. -/
def writeInt (buffer : ChannelBuffer) (value : ℕ) : Option ChannelBuffer :=
  buffer.writeBytes (putUint32 value)

/-- `writeZero(length)`. -/
def writeZero (buffer : ChannelBuffer) (length : ℕ) : Option ChannelBuffer :=
  buffer.writeBytes (List.replicate length 0)

/-- A buffer after some bytes were written to it. -/
structure Wrote (buffer next : ChannelBuffer) (bytes : Bytes) : Prop where
  readable : next.readable = buffer.readable ++ bytes
  arrayOffset : next.arrayOffset = buffer.arrayOffset
  readerIndex : next.readerIndex = buffer.readerIndex
  writerIndex : next.writerIndex = buffer.writerIndex + bytes.length
  length_array : next.array.length = buffer.array.length

theorem exists_writeBytes {buffer : ChannelBuffer} {bytes : Bytes}
    (hroom : buffer.arrayOffset + buffer.writerIndex + bytes.length ≤ buffer.array.length) :
    ∃ next, buffer.writeBytes bytes = some next ∧ buffer.Wrote next bytes := by
  have hreader := buffer.readerIndex_le
  have hbefore : (buffer.array.take (buffer.arrayOffset + buffer.writerIndex)).drop
      (buffer.arrayOffset + buffer.readerIndex) = buffer.readable := by
    rw [List.drop_take, readable, arraySlice, readableBytes]
    congr 1
    omega
  have hwritten : buffer.writerIndex + bytes.length - buffer.readerIndex =
      buffer.readable.length + bytes.length := by
    rw [buffer.length_readable, readableBytes]
    omega
  rw [writeBytes, dif_pos hroom]
  refine ⟨_, rfl, ?_, rfl, rfl, rfl, ?_⟩
  · show (List.drop (buffer.arrayOffset + buffer.readerIndex) _).take
      (buffer.writerIndex + bytes.length - buffer.readerIndex) = _
    rw [List.drop_append_of_le_length (by rw [List.length_take]; omega), hbefore, hwritten,
      List.take_length_add_append, List.take_left]
  · simp only [List.length_append, List.length_take, List.length_drop]
    omega

/-- More bytes are written behind those that were. -/
theorem Wrote.exists_writeBytes {buffer next : ChannelBuffer} {written bytes : Bytes}
    (hwrote : buffer.Wrote next written)
    (hroom : buffer.arrayOffset + buffer.writerIndex + (written ++ bytes).length ≤
      buffer.array.length) :
    ∃ last, next.writeBytes bytes = some last ∧ buffer.Wrote last (written ++ bytes) := by
  have hmore : next.arrayOffset + next.writerIndex + bytes.length ≤ next.array.length := by
    rw [hwrote.arrayOffset, hwrote.writerIndex, hwrote.length_array]
    rw [List.length_append] at hroom
    omega
  obtain ⟨last, hlast, hwritten⟩ := ChannelBuffer.exists_writeBytes hmore
  refine ⟨last, hlast, ?_, ?_, ?_, ?_, ?_⟩
  · rw [hwritten.readable, hwrote.readable, List.append_assoc]
  · exact hwritten.arrayOffset.trans hwrote.arrayOffset
  · exact hwritten.readerIndex.trans hwrote.readerIndex
  · rw [hwritten.writerIndex, hwrote.writerIndex, List.length_append, Nat.add_assoc]
  · exact hwritten.length_array.trans hwrote.length_array

/-- Several pieces are written one behind the other. -/
theorem exists_foldlM_writeBytes {buffer : ChannelBuffer} (hnothing : buffer.Wrote buffer [])
    {pieces : List Bytes} (hroom : buffer.arrayOffset + buffer.writerIndex + pieces.flatten.length ≤
      buffer.array.length) :
    ∃ next, pieces.foldlM writeBytes buffer = some next ∧ buffer.Wrote next pieces.flatten := by
  induction pieces using List.reverseRecOn with
  | nil => exact ⟨buffer, rfl, hnothing⟩
  | append_singleton earlier piece ih =>
    rw [List.flatten_append, List.flatten_singleton] at hroom ⊢
    obtain ⟨next, hnext, hwrote⟩ := ih (by rw [List.length_append] at hroom; omega)
    obtain ⟨last, hlast, hwritten⟩ := hwrote.exists_writeBytes hroom
    refine ⟨last, ?_, hwritten⟩
    rw [List.foldlM_append, hnext, Option.bind_eq_bind, Option.bind_some, List.foldlM_cons, hlast]
    rfl

/-- A buffer that was just created. -/
theorem exists_create {length : ℕ} (hlength : length < 2 ^ 31) :
    ∃ buffer, create length = some buffer ∧ buffer.Wrote buffer [] ∧ buffer.readable = [] ∧
      buffer.arrayOffset = 0 ∧ buffer.readerIndex = 0 ∧ buffer.writerIndex = 0 ∧
        buffer.array.length = length := by
  rw [create, if_pos hlength]
  refine ⟨_, rfl, ⟨?_, rfl, rfl, rfl, rfl⟩, ?_, rfl, rfl, rfl, List.length_replicate⟩
  · exact (List.append_nil _).symm
  · rfl

end ChannelBuffer

/-! ### The encoder -/

/-- `String.length`, which counts UTF-16 code units. -/
def javaLength (text : String) : ℕ :=
  (text.toList.map fun char ↦ if char.val < 0x10000 then 1 else 2).sum

/-- What the codec uses of the protobuf runtime. `mergeFrom` is
`prototype.newBuilderForType().mergeFrom(...).build()`, or `none` when this throws. -/
structure MessageRuntime (Message Descriptor : Type*) where
  getDescriptorForType : Message → Descriptor
  getFullName : Descriptor → String
  toByteArray : Message → Bytes
  mergeFrom : Message → Bytes → Option Message

variable {Message Descriptor : Type*}

namespace MessageRuntime

variable (runtime : MessageRuntime Message Descriptor)

/-- `message.getDescriptorForType().getFullName()`. -/
def fullName (message : Message) : String :=
  runtime.getFullName (runtime.getDescriptorForType message)

/-- `4 + name.length() + 1 + size + 4`. -/
def capacity (message : Message) : ℕ :=
  4 + javaLength (runtime.fullName message) + 1 + (runtime.toByteArray message).length + 4

/-- `ProtobufEncoder.encode` in front of the checksum. -/
def writeContent (charset : DefaultCharset) (message : Message) : Option ChannelBuffer := do
  let name := runtime.fullName message
  let buffer ← ChannelBuffer.create (runtime.capacity message)
  let buffer ← buffer.writeInt (javaLength name + 1)
  let buffer ← buffer.writeBytes (charset.encode name)
  let buffer ← buffer.writeZero 1
  buffer.writeBytes (runtime.toByteArray message)

end MessageRuntime

/-- The bytes of which the encoder takes the checksum. -/
def summedByEncoder (buffer : ChannelBuffer) : Bytes :=
  buffer.arraySlice buffer.arrayOffset buffer.readableBytes

/-- The bytes of which the decoder takes the checksum. -/
def summedByDecoder (buffer : ChannelBuffer) : Bytes :=
  buffer.arraySlice (buffer.arrayOffset + buffer.readerIndex) (buffer.readableBytes - 4)

/-- `ProtobufEncoder.encode`, or `none` when it throws. -/
def MessageRuntime.encode (runtime : MessageRuntime Message Descriptor) (charset : DefaultCharset)
    (message : Message) : Option ChannelBuffer := do
  let buffer ← runtime.writeContent charset message
  buffer.writeInt (adler32 (summedByEncoder buffer))

/-- A decoder with the types that were added to it, one after the other. -/
def MessageRuntime.knownTypes (runtime : MessageRuntime Message Descriptor)
    (types : List Message) : Table String Message :=
  types.foldl (addMessageType runtime.fullName) Table.empty

/-! ### What is relied on -/

/-- A name as protobuf requires it. -/
structure MessageName (name : String) : Prop where
  ne_empty : name ≠ ""
  ascii : ∀ char ∈ name.toList, char.val < 128

/-- The default character set has one byte for each character of ASCII. -/
structure AsciiCharset (charset : DefaultCharset) : Prop where
  length_encode : ∀ text : String, (∀ char ∈ text.toList, char.val < 128) →
    (charset.encode text).length = text.toList.length
  decode_encode : ∀ text : String, (∀ char ∈ text.toList, char.val < 128) →
    charset.decode (charset.encode text) = text

/-- What is serialized is parsed as a message of the same type, and is the same. -/
def MessageRuntime.RoundTrips (runtime : MessageRuntime Message Descriptor) : Prop :=
  ∀ prototype message,
    runtime.getDescriptorForType message = runtime.getDescriptorForType prototype →
      runtime.mergeFrom prototype (runtime.toByteArray message) = some message

/-! ### The round trip -/

section RoundTrip

variable {runtime : MessageRuntime Message Descriptor} {charset : DefaultCharset}
  {types : List Message} {message prototype : Message}

theorem javaLength_of_ascii {text : String} (hascii : ∀ char ∈ text.toList, char.val < 128) :
    javaLength text = text.toList.length := by
  have hones : ∀ char ∈ text.toList, (if char.val < 0x10000 then 1 else 2) = 1 := by
    intro char hchar
    have hless := hascii char hchar
    rw [UInt32.lt_iff_toNat_lt] at hless
    apply if_pos
    rw [UInt32.lt_iff_toNat_lt]
    exact Nat.lt_trans hless (by decide)
  rw [javaLength, List.map_congr_left hones, List.map_const', List.sum_replicate_nat,
    Nat.mul_one]

/-- What is in front of the checksum. -/
def contentOf (runtime : MessageRuntime Message Descriptor) (charset : DefaultCharset)
    (message : Message) : Bytes :=
  putUint32 (javaLength (runtime.fullName message) + 1) ++
    charset.encode (runtime.fullName message) ++ [0] ++ runtime.toByteArray message

/-- The content of a message, and a checksum, fill the buffer of the encoder. -/
theorem length_contentOf (hcharset : AsciiCharset charset)
    (hname : MessageName (runtime.fullName message)) :
    (contentOf runtime charset message).length + 4 = runtime.capacity message := by
  have hencode := hcharset.length_encode _ hname.ascii
  rw [← javaLength_of_ascii hname.ascii] at hencode
  rw [contentOf, MessageRuntime.capacity]
  simp only [List.length_append, length_putUint32, hencode, List.length_singleton]

/-- What is written in front of the checksum. -/
def contentPieces (runtime : MessageRuntime Message Descriptor) (charset : DefaultCharset)
    (message : Message) : List Bytes :=
  [putUint32 (javaLength (runtime.fullName message) + 1),
    charset.encode (runtime.fullName message), List.replicate 1 0, runtime.toByteArray message]

theorem flatten_contentPieces (runtime : MessageRuntime Message Descriptor)
    (charset : DefaultCharset) (message : Message) :
    (contentPieces runtime charset message).flatten = contentOf runtime charset message := by
  simp [contentPieces, contentOf]

theorem writeContent_eq {created : ChannelBuffer}
    (hcreate : ChannelBuffer.create (runtime.capacity message) = some created) :
    runtime.writeContent charset message =
      (contentPieces runtime charset message).foldlM ChannelBuffer.writeBytes created := by
  simp only [MessageRuntime.writeContent, hcreate, ChannelBuffer.writeInt, ChannelBuffer.writeZero,
    contentPieces, List.foldlM_cons, List.foldlM_nil, Option.bind_eq_bind, Option.bind_some,
    Option.pure_def, Option.bind_fun_some]

/-- The encoder writes the content and takes its checksum. -/
theorem exists_writeContent (hcharset : AsciiCharset charset)
    (hname : MessageName (runtime.fullName message)) (hfits : runtime.capacity message < 2 ^ 31) :
    ∃ content encoded, runtime.writeContent charset message = some content ∧
      runtime.encode charset message = some encoded ∧
        summedByEncoder content = contentOf runtime charset message ∧
          encoded.readable = contentOf runtime charset message ++
            putUint32 (adler32 (contentOf runtime charset message)) := by
  have hlength := length_contentOf hcharset hname
  obtain ⟨created, hcreate, hnothing, hempty, hoffset, hreader, hwriter, hsize⟩ :=
    ChannelBuffer.exists_create hfits
  obtain ⟨content, hcontent, hwrote⟩ :=
    @ChannelBuffer.exists_foldlM_writeBytes created hnothing (contentPieces runtime charset message)
      (by rw [flatten_contentPieces]; omega)
  rw [flatten_contentPieces] at hwrote
  obtain ⟨encoded, hencoded, hlast⟩ := @ChannelBuffer.Wrote.exists_writeBytes created content _
    (putUint32 (adler32 (contentOf runtime charset message))) hwrote (by
      rw [List.length_append, length_putUint32]
      omega)
  have hsummed : summedByEncoder content = contentOf runtime charset message := by
    have hreadable := hwrote.readable
    rw [hempty, List.nil_append, ChannelBuffer.readable, hwrote.readerIndex, hreader,
      Nat.add_zero] at hreadable
    exact hreadable
  rw [← writeContent_eq hcreate] at hcontent
  refine ⟨content, encoded, hcontent, ?_, hsummed, ?_⟩
  · rw [MessageRuntime.encode, hcontent]
    simp only [Option.bind_eq_bind, Option.bind_some, hsummed]
    exact hencoded
  · rw [hlast.readable, hempty, List.nil_append]

/-- A message that does not fit into a buffer is not written. -/
theorem encode_eq_none (hsize : 2 ^ 31 ≤ runtime.capacity message) :
    runtime.encode charset message = none := by
  have hcreate : ChannelBuffer.create (runtime.capacity message) = none :=
    if_neg (Nat.not_lt.mpr hsize)
  simp only [MessageRuntime.encode, MessageRuntime.writeContent, hcreate, Option.bind_eq_bind,
    Option.bind_none]

/-- A type that was added is known under its name, if no other has this name. -/
theorem find_knownTypes (hdistinct : (types.map runtime.fullName).Nodup)
    (hprototype : prototype ∈ types) :
    (runtime.knownTypes types).find (runtime.fullName prototype) = some prototype := by
  induction types using List.reverseRecOn with
  | nil => exact absurd hprototype List.not_mem_nil
  | append_singleton earlier last ih =>
    rw [List.map_append, List.nodup_append] at hdistinct
    obtain ⟨hearlier, -, hother⟩ := hdistinct
    rw [MessageRuntime.knownTypes, List.foldl_append, List.foldl_cons, List.foldl_nil,
      addMessageType]
    rw [List.mem_append, List.mem_singleton] at hprototype
    rcases hprototype with hmem | hlast
    · have hne := hother _ (List.mem_map_of_mem hmem) _ (List.mem_singleton_self _)
      rw [Table.find_insert_of_ne _ _ hne]
      exact ih hearlier hmem
    · rw [hlast]
      exact Table.find_insert_self _ _ _

/-! ### Reading -/

theorem MessageName.length_pos {name : String} (hname : MessageName name) :
    0 < name.toList.length := by
  rw [List.length_pos_iff]
  intro hnil
  apply hname.ne_empty
  exact String.toList_injective hnil

/-- The length of the name is in front. -/
theorem nameLenOf_append {length : ℕ} (hlength : length < 2 ^ 31) (bytes : Bytes) :
    nameLenOf (putUint32 length ++ bytes) = length := by
  have hnumber : length < 2 ^ 32 := Nat.lt_trans hlength (by decide)
  rw [nameLenOf, List.take_left' (length_putUint32 length), uint32_putUint32 hnumber,
    BitVec.toInt_ofNat', Int.bmod_eq_of_le (by omega) (by omega)]

/-- The name is between its length and the NUL. -/
theorem typeNameOf_append (hcharset : AsciiCharset charset) {name : String}
    (hname : MessageName name) (hlength : name.toList.length + 1 < 2 ^ 31) (bytes : Bytes) :
    typeNameOf charset (putUint32 (name.toList.length + 1) ++ charset.encode name ++ bytes) =
      name := by
  have hencode := hcharset.length_encode name hname.ascii
  have hpositive := hname.length_pos
  rw [typeNameOf, List.append_assoc, nameLenOf_append hlength, if_neg (by omega),
    List.drop_left' (length_putUint32 _), List.take_left' (by rw [hencode]; omega)]
  exact hcharset.decode_encode name hname.ascii

/-- The checksum of a content, behind it. -/
theorem checksumRight_append (content : Bytes) :
    ChecksumRight (content ++ putUint32 (adler32 content)) := by
  rw [ChecksumRight, List.length_append, length_putUint32, Nat.add_sub_cancel,
    List.drop_left, List.take_left]
  exact uint32_putUint32 (adler32_lt content)

/-- What is summed is all in front of the checksum. -/
theorem summedByDecoder_eq {received : ChannelBuffer} {content trailer : Bytes}
    (hreceived : received.readable = content ++ trailer) (htrailer : trailer.length = 4) :
    summedByDecoder received = content := by
  have hlength := received.length_readable
  rw [hreceived, List.length_append, htrailer] at hlength
  have hslice := received.arraySlice_eq
    (show 0 + (received.readableBytes - 4) ≤ received.readableBytes by omega)
  rw [Nat.add_zero, List.drop_zero, hreceived] at hslice
  rw [summedByDecoder, hslice, List.take_left' (by omega)]

/-- The rest of a buffer with a body and a checksum is merged without the checksum. -/
theorem mergeRest_eq {mergeFrom : Message → Bytes → Option Message} {rest : ChannelBuffer}
    {body trailer : Bytes} (hrest : rest.readable = body ++ trailer) (htrailer : trailer.length = 4)
    (hmerge : mergeFrom prototype body = some message) :
    mergeRest mergeFrom prototype rest = .message message := by
  have hlength := rest.length_readable
  rw [hrest, List.length_append, htrailer] at hlength
  have hbody : rest.arraySlice (rest.arrayOffset + rest.readerIndex) (rest.readableBytes - 4) =
      body :=
    summedByDecoder_eq hrest htrailer
  rw [mergeRest, if_pos (by omega), hbody, hmerge]

/-- The decoder gets the message out of every buffer that has what was written left to read. -/
theorem protobufDecoderDecode_contentOf (hcharset : AsciiCharset charset)
    (htrips : runtime.RoundTrips) (hname : MessageName (runtime.fullName message))
    (hdistinct : (types.map runtime.fullName).Nodup) (hprototype : prototype ∈ types)
    (htype : runtime.getDescriptorForType message = runtime.getDescriptorForType prototype)
    (hfits : runtime.capacity message < 2 ^ 31) {received : ChannelBuffer}
    (hreceived : received.readable = contentOf runtime charset message ++
      putUint32 (adler32 (contentOf runtime charset message))) :
    protobufDecoderDecode charset runtime.mergeFrom (runtime.knownTypes types) received =
        .message message ∧
      10 ≤ received.readableBytes := by
  have hascii := javaLength_of_ascii hname.ascii
  have hencode := hcharset.length_encode _ hname.ascii
  have hcontent : received.readable = putUint32 ((runtime.fullName message).toList.length + 1) ++
      charset.encode (runtime.fullName message) ++ ([0] ++ (runtime.toByteArray message ++
        putUint32 (adler32 (contentOf runtime charset message)))) := by
    rw [hreceived, ← hascii, contentOf]
    simp only [List.append_assoc]
  have hlength : received.readable.length = runtime.capacity message := by
    rw [hreceived, List.length_append, length_putUint32, length_contentOf hcharset hname]
  have hcapacity : runtime.capacity message =
      10 + ((runtime.fullName message).toList.length - 1) +
        (runtime.toByteArray message).length := by
    have hpositive := hname.length_pos
    rw [MessageRuntime.capacity, hascii]
    omega
  have hnameLen : nameLenOf received.readable =
      ((runtime.fullName message).toList.length + 1 : ℕ) := by
    rw [hcontent, List.append_assoc]
    exact nameLenOf_append (by omega) _
  have hinside : NameInside received.readable := by
    constructor
    · rw [hnameLen]
      omega
    · rw [hnameLen, hlength]
      omega
  have hchecksum : ChecksumRight received.readable := by
    rw [hreceived]
    exact checksumRight_append _
  obtain ⟨rest, -, hrest, hdecode⟩ := @protobufDecoderDecode_readable _ charset runtime.mergeFrom
    (runtime.knownTypes types) received (by omega) hchecksum hinside
  have hbody : rest.readable = runtime.toByteArray message ++
      putUint32 (adler32 (contentOf runtime charset message)) := by
    rw [hrest, hnameLen, Int.toNat_natCast, hcontent, ← List.append_assoc _ [0]]
    apply List.drop_left'
    simp only [List.length_append, length_putUint32, hencode, List.length_singleton]
    omega
  constructor
  · have hfullName : runtime.fullName message = runtime.fullName prototype :=
      congrArg runtime.getFullName htype
    have htypeName : typeNameOf charset received.readable = runtime.fullName prototype := by
      rw [hcontent, typeNameOf_append hcharset hname (by omega), hfullName]
    rw [hdecode, htypeName, find_knownTypes hdistinct hprototype]
    exact mergeRest_eq hbody (length_putUint32 _) (htrips prototype message htype)
  · rw [← received.length_readable]
    omega

end RoundTrip

/-- The encoder writes the message, and wherever in a buffer this is what is left to read, the
decoder makes the same message of it: it is long enough for the decoder, and the bytes that both
take the checksum of are the same. -/
def DecodesBack (runtime : MessageRuntime Message Descriptor) (charset : DefaultCharset)
    (types : List Message) (message : Message) : Prop :=
  ∃ content encoded, runtime.writeContent charset message = some content ∧
    runtime.encode charset message = some encoded ∧
      ∀ received : ChannelBuffer, received.readable = encoded.readable →
        protobufDecoderDecode charset runtime.mergeFrom (runtime.knownTypes types) received =
            .message message ∧
          10 ≤ received.readableBytes ∧ summedByDecoder received = summedByEncoder content

/-- A message of one of the types is decoded back exactly if it fits into a buffer. -/
theorem decodesBack_iff {runtime : MessageRuntime Message Descriptor} {charset : DefaultCharset}
    (hcharset : AsciiCharset charset) (htrips : runtime.RoundTrips) {types : List Message}
    (hnames : ∀ prototype ∈ types, MessageName (runtime.fullName prototype))
    (hdistinct : (types.map runtime.fullName).Nodup) {prototype : Message}
    (hprototype : prototype ∈ types) {message : Message}
    (htype : runtime.getDescriptorForType message = runtime.getDescriptorForType prototype) :
    DecodesBack runtime charset types message ↔ runtime.capacity message < 2 ^ 31 := by
  constructor
  · rintro ⟨content, encoded, -, hencoded, -⟩
    by_contra hsize
    rw [encode_eq_none (Nat.not_lt.mp hsize)] at hencoded
    cases hencoded
  · intro hfits
    have hfullName : runtime.fullName message = runtime.fullName prototype :=
      congrArg runtime.getFullName htype
    have hname : MessageName (runtime.fullName message) := by
      rw [hfullName]
      exact hnames prototype hprototype
    obtain ⟨content, encoded, hcontent, hencoded, hsummed, hwritten⟩ :=
      exists_writeContent hcharset hname hfits
    refine ⟨content, encoded, hcontent, hencoded, ?_⟩
    intro received hreceived
    rw [hwritten] at hreceived
    obtain ⟨hmessage, hlong⟩ := protobufDecoderDecode_contentOf hcharset htrips hname hdistinct
      hprototype htype hfits hreceived
    refine ⟨hmessage, hlong, ?_⟩
    rw [summedByDecoder_eq hreceived (length_putUint32 _), hsummed]

/-- A protobuf runtime whose messages are the name of their type and some bytes. -/
def taggedRuntime : MessageRuntime (String × Bytes) String where
  getDescriptorForType := Prod.fst
  getFullName := id
  toByteArray := Prod.snd
  mergeFrom := fun prototype bytes ↦ some (prototype.1, bytes)

theorem taggedRuntime_roundTrips : taggedRuntime.RoundTrips := by
  intro prototype message htype
  exact congrArg some (Prod.ext htype.symm rfl)

theorem messageName_letter {letter : Char} (hascii : letter.val < 128) :
    MessageName (String.ofList [letter]) := by
  constructor
  · intro hempty
    exact List.cons_ne_nil _ _ (String.ofList_injective hempty)
  · intro char hchar
    rw [String.toList_ofList, List.mem_singleton] at hchar
    rw [hchar]
    exact hascii

theorem ofUInt8_toUInt8 {char : Char} (hascii : char.val < 128) :
    Char.ofUInt8 char.toUInt8 = char := by
  have hless : char.val.toNat < 128 := hascii
  apply Char.ext
  apply UInt32.toNat_inj.mp
  show (char.val.toUInt8.toUInt32).toNat = char.val.toNat
  rw [UInt8.toNat_toUInt32, UInt32.toNat_toUInt8]
  omega

theorem latin1_ascii : AsciiCharset latin1 := by
  constructor
  · intro text _
    exact List.length_map _
  · intro text hascii
    have hchars : ∀ char ∈ text.toList, (Char.ofUInt8 ∘ Char.toUInt8) char = id char := by
      intro char hchar
      exact ofUInt8_toUInt8 (hascii char hchar)
    show String.ofList ((text.toList.map Char.toUInt8).map Char.ofUInt8) = text
    rw [List.map_map, List.map_congr_left hchars, List.map_id, String.ofList_toList]

/-- The empty message of a type with a name of one letter, next to another type. -/
theorem decodesBack_empty : DecodesBack taggedRuntime latin1 [("X", []), ("Y", [])] ("X", []) :=
  (decodesBack_iff latin1_ascii taggedRuntime_roundTrips
    (by
      intro prototype hprototype
      rcases List.mem_cons.mp hprototype with hX | hY
      · rw [hX]
        exact messageName_letter (show 'X'.val < 128 by decide)
      · rw [List.mem_singleton.mp hY]
        exact messageName_letter (show 'Y'.val < 128 by decide))
    (by decide) List.mem_cons_self rfl).mpr (by decide)

/-- A message that protobuf can serialize, and the encoder has no array for. -/
theorem not_decodesBack_long :
    taggedRuntime.RoundTrips ∧ AsciiCharset latin1 ∧
      MessageName (taggedRuntime.fullName ("X", [])) ∧
      (taggedRuntime.toByteArray ("X", List.replicate (2 ^ 31 - 10) 0)).length < 2 ^ 31 ∧
      ¬ DecodesBack taggedRuntime latin1 [("X", [])] ("X", List.replicate (2 ^ 31 - 10) 0) := by
  have hlength : (taggedRuntime.toByteArray ("X", List.replicate (2 ^ 31 - 10) 0)).length =
      2 ^ 31 - 10 :=
    List.length_replicate
  refine ⟨taggedRuntime_roundTrips, latin1_ascii, messageName_letter (show 'X'.val < 128 by decide),
    by omega, ?_⟩
  rintro ⟨content, encoded, -, hencoded, -⟩
  have hname : javaLength "X" = 1 := by decide
  rw [encode_eq_none] at hencoded
  · cases hencoded
  · rw [MessageRuntime.capacity, hlength]
    show 2 ^ 31 ≤ 4 + javaLength "X" + 1 + (2 ^ 31 - 10) + 4
    omega

end MuduoProtorpc
