import MuduoProtorpc.Wire.GoCodec

/-!
# The Go wire codec on whole streams

`DecodeGeneral` reads through `io.ReadFull`, and a connection hands out its bytes in pieces: each
`Read` finds some bytes, fewer than asked for perhaps, and the end comes with the last of them or
after them. `ChunkedReader` is such a connection, and `decodeAll` calls `Decode` on it until it
returns an error.

However the bytes are split, `ReadFull` and `Decode` do on them what they do on a `Stream`
(`stream_readFull`, `stream_decode`). `Decode` returns a message if and only if the stream starts
with a valid frame (`decode_eq_message_iff`), so `decodeAll` returns the messages of the longest
prefix that consists of valid frames (`decodeAll_longestPrefix`), and of what `encode` makes of a
list of messages it returns the list, and then the end of the connection (`decodeAll_encode`).
-/

set_option autoImplicit false
set_option relaxedAutoImplicit false

namespace MuduoProtorpc

/-! ### A connection read in pieces -/

/-- A connection: what its next reads find, at most, one after the other; whether it ends behind
them; and whether the read that finds the last bytes reports the end, or the read after it does. -/
structure ChunkedReader where
  chunks : List Bytes
  ended : Bool
  endsWithLast : Bool

namespace ChunkedReader

/-- The bytes on the connection. -/
def bytes (reader : ChunkedReader) : Bytes :=
  reader.chunks.flatten

/-- The connection, with no regard to how it is split. -/
def stream (reader : ChunkedReader) : Stream where
  available := reader.bytes
  ended := reader.ended

/-- What a `Read` does: it returns bytes, perhaps none, and perhaps `io.EOF`; or it waits. -/
inductive ReadResult
  | read (bytes : Bytes) (eof : Bool) (rest : ChunkedReader)
  | waiting

/-- `Read` into a buffer of `size` bytes. -/
def read (reader : ChunkedReader) (size : ℕ) : ReadResult :=
  match reader.chunks with
  | [] => if reader.ended then .read [] true reader else .waiting
  | chunk :: more =>
    if size < chunk.length then
      .read (chunk.take size) false { reader with chunks := chunk.drop size :: more }
    else
      .read chunk (more.isEmpty && reader.ended && reader.endsWithLast)
        { reader with chunks := more }

/-- What `io.ReadFull` does. -/
inductive FullRead
  | full (bytes : Bytes) (rest : ChunkedReader)
  | short (error : DecodeError) (rest : ChunkedReader)
  | waiting

/-- The loop of `io.ReadAtLeast`, with the bytes it has read already. -/
def readAtLeast (reader : ChunkedReader) (buffer : Bytes) (size : ℕ) : FullRead :=
  if size ≤ buffer.length then .full buffer reader
  else
    match _hread : reader.read (size - buffer.length) with
    | .waiting => .waiting
    | .read bytes eof rest =>
      if eof then
        if size ≤ (buffer ++ bytes).length then .full (buffer ++ bytes) rest
        else .short (if buffer ++ bytes = [] then .eof else .unexpectedEof) rest
      else rest.readAtLeast (buffer ++ bytes) size
termination_by reader.chunks.length + (size - buffer.length)
decreasing_by
  unfold read at _hread
  split at _hread
  · split_ifs at _hread
    simp_all
  · rename_i chunk more hchunks
    split_ifs at _hread with hlong
    · obtain ⟨rfl, -, rfl⟩ := ReadResult.read.inj _hread
      simp only [hchunks, List.length_cons, List.length_append, List.length_take]
      omega
    · obtain ⟨rfl, -, rfl⟩ := ReadResult.read.inj _hread
      simp only [hchunks, List.length_cons, List.length_append]
      omega

/-- `io.ReadFull` into a buffer of `size` bytes. -/
def readFull (reader : ChunkedReader) (size : ℕ) : FullRead :=
  reader.readAtLeast [] size

/-- What `Decode` does. -/
inductive DecodeResult
  | message (message : RpcMessage) (rest : ChunkedReader)
  | failed (error : DecodeError) (left : RpcMessage) (rest : ChunkedReader)
  | blocked
  | panic (text : String)

/-- `Decode`. What it makes of a frame that was read in full does not depend on the reader. -/
def decode (unmarshal : Bytes → RpcMessage × Option String) (reader : ChunkedReader) :
    DecodeResult :=
  match reader.readFull 4 with
  | .waiting => .blocked
  | .short error rest => .failed error {} rest
  | .full header rest =>
    if 64 * 1024 * 1024 < uint32 header ∨ uint32 header < (rpcTag.length + 4) % 2 ^ 32 then
      .failed (.invalidLength (uint32 header)) {} rest
    else
      match rest.readFull (uint32 header) with
      | .waiting => .blocked
      | .short error rest => .failed error {} rest
      | .full payload rest =>
        match decodePayload unmarshal {} rpcTag payload rest.stream with
        | .message message _ => .message message rest
        | .failed error left _ => .failed error left rest
        | .blocked => .blocked
        | .panic text => .panic text

/-! ### How the bytes are split does not matter -/

/-- What `io.ReadFull` does, with no regard to how the rest is split. -/
def FullRead.stream : FullRead → ReadFull
  | .full bytes rest => .full bytes rest.stream
  | .short error _ => .short error
  | .waiting => .waiting

/-- What `Decode` does, with no regard to how the rest is split. -/
def DecodeResult.stream : DecodeResult → Decoded RpcMessage
  | .message msg rest => .message msg rest.stream
  | .failed error left rest => .failed error left rest.stream
  | .blocked => .blocked
  | .panic text => .panic text

/-- What a `Read` returns is the next bytes, and no more than were asked for; an end that it reports
is the end of the connection. -/
theorem read_eq_read {reader rest : ChunkedReader} {size : ℕ} {bytes : Bytes} {eof : Bool}
    (hread : reader.read size = .read bytes eof rest) :
    reader.bytes = bytes ++ rest.bytes ∧ rest.ended = reader.ended ∧ bytes.length ≤ size ∧
      (eof = true → rest.bytes = [] ∧ reader.ended = true) := by
  unfold read at hread
  split at hread
  · rename_i hchunks
    split_ifs at hread with hended
    obtain ⟨rfl, -, rfl⟩ := ReadResult.read.inj hread
    simp [ChunkedReader.bytes, hchunks, hended]
  · rename_i chunk more hchunks
    split_ifs at hread with hlong
    · obtain ⟨rfl, rfl, rfl⟩ := ReadResult.read.inj hread
      simp [ChunkedReader.bytes, hchunks, ← List.append_assoc]
    · obtain ⟨rfl, rfl, rfl⟩ := ReadResult.read.inj hread
      simp only [ChunkedReader.bytes, hchunks, List.flatten_cons, Bool.and_eq_true,
        List.isEmpty_iff]
      refine ⟨trivial, trivial, Nat.le_of_not_lt hlong, ?_⟩
      rintro ⟨⟨rfl, hended⟩, -⟩
      exact ⟨rfl, hended⟩

/-- A `Read` waits where there are no bytes and no end. -/
theorem read_eq_waiting {reader : ChunkedReader} {size : ℕ} (hread : reader.read size = .waiting) :
    reader.bytes = [] ∧ reader.ended = false := by
  unfold read at hread
  split at hread
  · rename_i hchunks
    split_ifs at hread with hended
    simp [ChunkedReader.bytes, hchunks, hended]
  · split_ifs at hread

/-- The loop of `io.ReadAtLeast` reads the bytes that it has and those on the connection. -/
theorem stream_readAtLeast (reader : ChunkedReader) (buffer : Bytes) (size : ℕ)
    (hbuffer : buffer.length ≤ size) : (reader.readAtLeast buffer size).stream =
      MuduoProtorpc.readFull { available := buffer ++ reader.bytes, ended := reader.ended }
        size := by
  fun_induction readAtLeast reader buffer size with
  | case1 reader buffer hfull =>
    obtain rfl := Nat.le_antisymm hfull hbuffer
    rw [readFull_append]
    rfl
  | case2 reader buffer hmore hread =>
    obtain ⟨hbytes, hended⟩ := read_eq_waiting hread
    simp [MuduoProtorpc.readFull, FullRead.stream, hbytes, hended, hmore]
  | case3 reader buffer hmore bytes rest hfull hread =>
    obtain ⟨hbytes, hended, hlength, -⟩ := read_eq_read hread
    have hsize : (buffer ++ bytes).length = size := by
      rw [List.length_append] at hfull ⊢
      omega
    rw [hbytes, ← List.append_assoc, ← hsize, readFull_append, ← hended]
    rfl
  | case4 reader buffer hmore bytes rest hshort hread =>
    obtain ⟨hbytes, -, -, heof⟩ := read_eq_read hread
    obtain ⟨hrest, hended⟩ := heof rfl
    rw [hbytes, hrest, List.append_nil, hended, MuduoProtorpc.readFull, if_neg hshort, if_pos rfl]
    rfl
  | case5 reader buffer hmore bytes eof rest hread heof ih =>
    obtain ⟨hbytes, hended, hlength, -⟩ := read_eq_read hread
    rw [hbytes, ← List.append_assoc, ← hended]
    apply ih
    rw [List.length_append]
    omega

theorem stream_readFull (reader : ChunkedReader) (size : ℕ) :
    (reader.readFull size).stream = MuduoProtorpc.readFull reader.stream size :=
  reader.stream_readAtLeast [] size (Nat.zero_le size)

/-- Where `io.ReadFull` fails, the connection has been read to its end. -/
theorem readAtLeast_eq_short {reader rest : ChunkedReader} {buffer : Bytes} {size : ℕ}
    {error : DecodeError} (hread : reader.readAtLeast buffer size = .short error rest) :
    rest.stream = { available := [], ended := true } := by
  fun_induction readAtLeast reader buffer size with
  | case1 => cases hread
  | case2 => cases hread
  | case3 => cases hread
  | case4 reader buffer hmore bytes found hshort hfound =>
    obtain ⟨-, rfl⟩ := FullRead.short.inj hread
    obtain ⟨-, hended, -, heof⟩ := read_eq_read hfound
    obtain ⟨hbytes, htrue⟩ := heof rfl
    simp only [ChunkedReader.stream, hbytes, hended, htrue]
  | case5 reader buffer hmore bytes eof found hfound heof ih => exact ih hread

/-- However the bytes are split, `Decode` does with them the same. -/
theorem stream_decode (unmarshal : Bytes → RpcMessage × Option String) (reader : ChunkedReader) :
    (reader.decode unmarshal).stream = MuduoProtorpc.decode unmarshal reader.stream := by
  have hheader := reader.stream_readFull 4
  unfold decode MuduoProtorpc.decode decodeGeneral
  rw [← hheader]
  cases hfull : reader.readFull 4 with
  | waiting => rfl
  | short error rest =>
    simp only [FullRead.stream, DecodeResult.stream, readAtLeast_eq_short hfull]
  | full header rest =>
    simp only [FullRead.stream]
    split_ifs with hlength
    · rfl
    · have hpayload := rest.stream_readFull (uint32 header)
      rw [← hpayload]
      cases hrest : rest.readFull (uint32 header) with
      | waiting => rfl
      | short error left =>
        simp only [FullRead.stream, DecodeResult.stream, readAtLeast_eq_short hrest]
      | full payload left =>
        simp only [FullRead.stream]
        cases hdecode : decodePayload unmarshal {} rpcTag payload left.stream with
        | message msg other =>
          obtain ⟨rfl, -⟩ := decodePayload_eq_message hdecode
          rfl
        | failed error msg other =>
          rw [decodePayload_eq_failed hdecode]
          rfl
        | blocked => rfl
        | panic text => rfl

end ChunkedReader

/-! ### Valid frames -/

/-- A frame with a message: a length of 8 to 64 * 1024 * 1024, that many bytes, of which the first
four are the marker, the last four the checksum of those before them, and those in between the
serialized message. -/
def ValidFrame (unmarshal : Bytes → RpcMessage × Option String) (frame : Bytes)
    (message : RpcMessage) : Prop :=
  ∃ header content : Bytes, frame = header ++ content ∧ header.length = 4 ∧
    8 ≤ uint32 header ∧ uint32 header ≤ 64 * 1024 * 1024 ∧ content.length = uint32 header ∧
    content.take 4 = rpcTag ∧
    uint32 (content.drop (content.length - 4)) = adler32 (content.take (content.length - 4)) ∧
    unmarshal ((content.take (content.length - 4)).drop 4) = (message, none)

section Frames

variable {unmarshal : Bytes → RpcMessage × Option String} {message : RpcMessage}
  {stream rest : Stream} {frame body : Bytes}

/-- The content of a frame passes the checks if and only if it is that of a valid one. -/
theorem decodePayload_eq_message_iff {content : Bytes} (hlength : 8 ≤ content.length) :
    decodePayload unmarshal {} rpcTag content rest = .message message rest ↔
      content.take 4 = rpcTag ∧
        uint32 (content.drop (content.length - 4)) = adler32 (content.take (content.length - 4)) ∧
        unmarshal ((content.take (content.length - 4)).drop 4) = (message, none) := by
  have htag : rpcTag.length = 4 := rfl
  rw [decodePayload, if_neg (by omega), htag]
  by_cases hmarker : content.take 4 = rpcTag
  · rw [if_neg (by simp [hmarker]), if_neg (by omega)]
    by_cases hchecksum : uint32 (content.drop (content.length - 4)) =
        adler32 (content.take (content.length - 4))
    · rw [if_neg (by simp [hchecksum]), if_neg (by omega)]
      rcases hresult : unmarshal ((content.take (content.length - 4)).drop 4) with
        ⟨found, _ | text⟩
      · simp [hmarker, hchecksum]
      · simp
    · rw [if_pos fun heq ↦ hchecksum heq.symm]
      simp [hchecksum]
  · rw [if_pos hmarker]
    simp [hmarker]

/-- `Decode` returns a message if and only if the stream starts with a valid frame of it, and it
takes this frame off the stream. -/
theorem decode_eq_message_iff :
    decode unmarshal stream = .message message rest ↔
      ∃ frame, ValidFrame unmarshal frame message ∧
        stream = { available := frame ++ rest.available, ended := rest.ended } := by
  have htag : rpcTag.length = 4 := rfl
  constructor
  · intro hdecode
    unfold decode decodeGeneral at hdecode
    cases hheader : readFull stream 4 with
    | waiting => simp [hheader] at hdecode
    | short error => simp [hheader] at hdecode
    | full header later =>
      simp only [hheader] at hdecode
      split_ifs at hdecode with hlength
      cases hread : readFull later (uint32 header) with
      | waiting => simp [hread] at hdecode
      | short error => simp [hread] at hdecode
      | full content left =>
        simp only [hread] at hdecode
        obtain ⟨rfl, -⟩ := decodePayload_eq_message hdecode
        obtain ⟨hfour, rfl, rfl⟩ := readFull_eq_full hheader
        obtain ⟨hsize, hcontent, rfl⟩ := readFull_eq_full hread
        simp only at hsize hcontent
        rw [not_or, Nat.not_lt, htag] at hlength
        obtain ⟨hupper, hlower⟩ := hlength
        have hlower : 8 ≤ uint32 (stream.available.take 4) := Nat.le_of_not_lt hlower
        have hlong : content.length = uint32 (stream.available.take 4) := by
          rw [hcontent, List.length_take_of_le hsize]
        have hchecks := (decodePayload_eq_message_iff (by omega)).mp hdecode
        refine ⟨stream.available.take 4 ++ content, ⟨_, content, rfl,
          List.length_take_of_le hfour, hlower, hupper, hlong, hchecks⟩, ?_⟩
        rw [hcontent, List.append_assoc, List.take_append_drop, List.take_append_drop]
  · rintro ⟨frame, ⟨header, content, rfl, hfour, hlower, hupper, hlong, hchecks⟩, rfl⟩
    have hheader := readFull_append header (content ++ rest.available) rest.ended
    have hcontent := readFull_append content rest.available rest.ended
    rw [hfour] at hheader
    rw [hlong] at hcontent
    unfold decode decodeGeneral
    rw [List.append_assoc, hheader]
    simp only [htag]
    rw [if_neg (by omega), hcontent]
    exact (decodePayload_eq_message_iff (by omega)).mpr hchecks

/-- What `encode` makes of a message that is not too long is a valid frame. -/
theorem validFrame_frameOf (hlength : body.length ≤ 64 * 1024 * 1024 - 8)
    (hunmarshal : unmarshal body = (message, none)) :
    ValidFrame unmarshal (frameOf body) message := by
  have hdecode := decode_frameOf (by omega) hunmarshal [] true
  obtain ⟨frame, hframe, hstream⟩ := decode_eq_message_iff.mp hdecode
  have hbytes := congrArg Stream.available hstream
  simp only [List.append_nil] at hbytes
  rwa [hbytes]

end Frames

/-! ### Decoding until an error -/

namespace ChunkedReader

/-- How a sequence of calls of `Decode` ends: with an error; with a call that waits; or with a
panic. -/
inductive Ending
  | failed (error : DecodeError)
  | waiting
  | panic (text : String)
  deriving DecidableEq

section DecodeAll

variable {unmarshal : Bytes → RpcMessage × Option String} {reader rest : ChunkedReader}
  {message : RpcMessage}

/-- `Decode` returns a message if and only if the connection starts with a valid frame of it. -/
theorem decode_eq_message (hdecode : reader.decode unmarshal = .message message rest) :
    ∃ frame, ValidFrame unmarshal frame message ∧ reader.bytes = frame ++ rest.bytes ∧
      reader.ended = rest.ended := by
  have hstream := reader.stream_decode unmarshal
  rw [hdecode] at hstream
  obtain ⟨frame, hframe, heq⟩ := decode_eq_message_iff.mp hstream.symm
  exact ⟨frame, hframe, congrArg Stream.available heq, congrArg Stream.ended heq⟩

/-- A valid frame is not empty. -/
theorem length_of_validFrame {frame : Bytes} (hframe : ValidFrame unmarshal frame message) :
    0 < frame.length := by
  obtain ⟨header, content, rfl, hfour, -⟩ := hframe
  rw [List.length_append]
  omega

end DecodeAll

/-- `Decode`, called until it returns an error: the messages returned before it, and how it ends. -/
def decodeAll (unmarshal : Bytes → RpcMessage × Option String) (reader : ChunkedReader) :
    List RpcMessage × Ending :=
  match _hdecode : reader.decode unmarshal with
  | .message message rest =>
    let later := rest.decodeAll unmarshal
    (message :: later.1, later.2)
  | .failed error _ _ => ([], .failed error)
  | .blocked => ([], .waiting)
  | .panic text => ([], .panic text)
termination_by reader.bytes.length
decreasing_by
  obtain ⟨frame, hframe, hbytes, -⟩ := decode_eq_message _hdecode
  have hlength := length_of_validFrame hframe
  rw [hbytes, List.length_append]
  omega

/-! ### The longest prefix of valid frames -/

/-- The messages are those of the longest prefix of the bytes that is a concatenation of valid
frames: every other such prefix is shorter, and its frames are the first of these. -/
def LongestPrefix (unmarshal : Bytes → RpcMessage × Option String) (bytes : Bytes)
    (messages : List RpcMessage) : Prop :=
  ∃ frames : List Bytes, List.Forall₂ (ValidFrame unmarshal) frames messages ∧
    frames.flatten <+: bytes ∧
      ∀ (others : List Bytes) (found : List RpcMessage),
        List.Forall₂ (ValidFrame unmarshal) others found → others.flatten <+: bytes →
          others <+: frames

section LongestPrefix

variable {unmarshal : Bytes → RpcMessage × Option String} {reader : ChunkedReader}

/-- A connection that starts with a valid frame is read like one that has the frame alone in front
of the rest. -/
theorem decode_of_validFrame {frame more : Bytes} {message : RpcMessage}
    (hframe : ValidFrame unmarshal frame message) (hbytes : reader.bytes = frame ++ more) :
    ∃ rest, reader.decode unmarshal = .message message rest ∧ rest.bytes = more ∧
      rest.ended = reader.ended := by
  have hdecode : MuduoProtorpc.decode unmarshal reader.stream =
      .message message { available := more, ended := reader.ended } :=
    decode_eq_message_iff.mpr ⟨frame, hframe, by rw [ChunkedReader.stream, hbytes]⟩
  rw [← stream_decode] at hdecode
  cases hresult : reader.decode unmarshal with
  | message msg rest =>
    rw [hresult] at hdecode
    obtain ⟨rfl, hrest⟩ := MuduoProtorpc.Decoded.message.inj hdecode
    exact ⟨rest, rfl, congrArg Stream.available hrest, congrArg Stream.ended hrest⟩
  | failed error left rest => simp [hresult, DecodeResult.stream] at hdecode
  | blocked => simp [hresult, DecodeResult.stream] at hdecode
  | panic text => simp [hresult, DecodeResult.stream] at hdecode

/-- Where `Decode` returns no message, no prefix is a valid frame. -/
theorem nil_of_decode_ne_message
    (hdecode : ∀ message rest, reader.decode unmarshal ≠ .message message rest)
    {others : List Bytes} {found : List RpcMessage}
    (hothers : List.Forall₂ (ValidFrame unmarshal) others found)
    (hstarts : others.flatten <+: reader.bytes) : others = [] := by
  cases hothers with
  | nil => rfl
  | @cons frame message frames messages hframe hframes =>
    obtain ⟨more, hmore⟩ := hstarts
    rw [List.flatten_cons, List.append_assoc] at hmore
    obtain ⟨rest, hmessage, -⟩ := decode_of_validFrame hframe hmore.symm
    exact absurd hmessage (hdecode message rest)

/-- A connection on which `Decode` returns no message has no prefix of valid frames but the
empty one. -/
theorem longestPrefix_nil
    (hdecode : ∀ message rest, reader.decode unmarshal ≠ .message message rest) :
    LongestPrefix unmarshal reader.bytes [] := by
  refine ⟨[], .nil, List.nil_prefix, fun others found hothers hstarts ↦ ?_⟩
  rw [nil_of_decode_ne_message hdecode hothers hstarts]

/-- A valid frame in front of the longest prefix of the rest. -/
theorem LongestPrefix.cons {frame rest : Bytes} {message : RpcMessage}
    {messages : List RpcMessage} (hframe : ValidFrame unmarshal frame message)
    (hbytes : reader.bytes = frame ++ rest) (hrest : LongestPrefix unmarshal rest messages) :
    LongestPrefix unmarshal reader.bytes (message :: messages) := by
  obtain ⟨frames, hframes, hstarts, hlongest⟩ := hrest
  refine ⟨frame :: frames, .cons hframe hframes, ?_, fun others found hothers hother ↦ ?_⟩
  · rw [hbytes, List.flatten_cons]
    exact (List.prefix_append_right_inj frame).mpr hstarts
  · cases hothers with
    | nil => exact List.nil_prefix
    | @cons other msg others messages hfirst hothers =>
      obtain ⟨more, hmore⟩ := hother
      rw [List.flatten_cons, List.append_assoc] at hmore
      -- both frames are what one call of `Decode` takes off the connection
      obtain ⟨left, hleft, hleftBytes, -⟩ := decode_of_validFrame hfirst hmore.symm
      obtain ⟨later, hlater, hlaterBytes, -⟩ := decode_of_validFrame hframe hbytes
      obtain ⟨rfl, rfl⟩ := DecodeResult.message.inj (hleft.symm.trans hlater)
      have hsame : others.flatten ++ more = rest := hleftBytes.symm.trans hlaterBytes
      have hequal : other = frame := by
        rw [hsame, hbytes] at hmore
        exact List.append_cancel_right hmore
      rw [hequal]
      exact (List.prefix_cons_inj frame).mpr (hlongest others messages hothers ⟨more, hsame⟩)

/-- `Decode`, called until it returns an error, never panics. It returns the messages of the longest
prefix that is a concatenation of valid frames, in order; then it returns an error, or waits for
more if the connection has not ended. -/
theorem decodeAll_longestPrefix (unmarshal : Bytes → RpcMessage × Option String)
    (reader : ChunkedReader) :
    LongestPrefix unmarshal reader.bytes (reader.decodeAll unmarshal).1 ∧
      ((∃ error, (reader.decodeAll unmarshal).2 = .failed error) ∨
        (reader.ended = false ∧ (reader.decodeAll unmarshal).2 = .waiting)) := by
  fun_induction decodeAll unmarshal reader with
  | case1 reader message rest hdecode later ih =>
    obtain ⟨frame, hframe, hbytes, hended⟩ := decode_eq_message hdecode
    rw [hended]
    exact ⟨ih.1.cons hframe hbytes, ih.2⟩
  | case2 reader error left rest hdecode =>
    exact ⟨longestPrefix_nil (by simp [hdecode]), Or.inl ⟨error, rfl⟩⟩
  | case3 reader hdecode =>
    have hstream := reader.stream_decode unmarshal
    rw [hdecode] at hstream
    refine ⟨longestPrefix_nil (by simp [hdecode]), Or.inr ⟨?_, rfl⟩⟩
    by_contra hopen
    have hended : reader.stream.ended = true := by simpa [ChunkedReader.stream] using hopen
    exact decode_ne_blocked hended hstream.symm
  | case4 reader text hdecode =>
    have hstream := reader.stream_decode unmarshal
    rw [hdecode] at hstream
    exact absurd hstream.symm (decode_ne_panic text)

end LongestPrefix

/-! ### Encoding and decoding lists of messages -/

/-- `encode` succeeds on the messages; and from a connection with the frames, however they are
split, and nothing else, `Decode` returns the messages, and then that the connection has ended with
no bytes left over. -/
def RoundTrips (marshal : RpcMessage → Except String Bytes)
    (unmarshal : Bytes → RpcMessage × Option String) (messages : List RpcMessage) : Prop :=
  ∃ wires : List Bytes,
    List.Forall₂ (fun message wire ↦ encode marshal message = .ok wire) messages wires ∧
      ∀ reader : ChunkedReader, reader.bytes = wires.flatten → reader.ended = true →
        reader.decodeAll unmarshal = (messages, .failed .eof)

section RoundTrip

variable {marshal : RpcMessage → Except String Bytes}
  {unmarshal : Bytes → RpcMessage × Option String} {reader : ChunkedReader}

/-- On a connection that has ended with nothing left, `Decode` returns `io.EOF`. -/
theorem decodeAll_nil (hbytes : reader.bytes = []) (hended : reader.ended = true) :
    reader.decodeAll unmarshal = ([], .failed .eof) := by
  have hdecode := reader.stream_decode unmarshal
  rw [ChunkedReader.stream, hbytes, hended] at hdecode
  have heof : MuduoProtorpc.decode unmarshal { available := [], ended := true } =
      .failed .eof {} { available := [], ended := true } := rfl
  rw [heof] at hdecode
  rw [decodeAll]
  split
  · rename_i hresult
    simp [hresult, DecodeResult.stream] at hdecode
  · rename_i hresult
    rw [hresult] at hdecode
    obtain ⟨rfl, -⟩ := MuduoProtorpc.Decoded.failed.inj hdecode
    rfl
  · rename_i hresult
    simp [hresult, DecodeResult.stream] at hdecode
  · rename_i hresult
    simp [hresult, DecodeResult.stream] at hdecode

/-- A valid frame in front of the rest is decoded first. -/
theorem decodeAll_of_validFrame {frame more : Bytes} {message : RpcMessage}
    (hframe : ValidFrame unmarshal frame message) (hbytes : reader.bytes = frame ++ more) :
    ∃ rest : ChunkedReader, rest.bytes = more ∧ rest.ended = reader.ended ∧
      reader.decodeAll unmarshal =
        (message :: (rest.decodeAll unmarshal).1, (rest.decodeAll unmarshal).2) := by
  obtain ⟨rest, hdecode, hmore, hended⟩ := decode_of_validFrame hframe hbytes
  refine ⟨rest, hmore, hended, ?_⟩
  rw [decodeAll]
  split
  · rename_i hresult
    obtain ⟨rfl, rfl⟩ := DecodeResult.message.inj (hdecode.symm.trans hresult)
    rfl
  · simp_all
  · simp_all
  · simp_all

theorem decodeAll_frames {frames : List Bytes} {messages : List RpcMessage}
    (hframes : List.Forall₂ (ValidFrame unmarshal) frames messages)
    (hbytes : reader.bytes = frames.flatten) (hended : reader.ended = true) :
    reader.decodeAll unmarshal = (messages, .failed .eof) := by
  induction hframes generalizing reader with
  | nil => exact decodeAll_nil hbytes hended
  | cons hframe hframes ih =>
    obtain ⟨rest, hmore, hrest, hall⟩ := decodeAll_of_validFrame hframe hbytes
    rw [hall, ih hmore (hrest.trans hended)]

/-- Messages that are serialized to at most 64 * 1024 * 1024 - 8 bytes and parsed back are sent and
received unchanged. -/
theorem decodeAll_encode (messages : List RpcMessage)
    (hinverse : ∀ message ∈ messages, ∃ body, marshal message = .ok body ∧
      unmarshal body = (message, none) ∧ body.length ≤ 64 * 1024 * 1024 - 8) :
    RoundTrips marshal unmarshal messages := by
  suffices hframes : ∃ wires : List Bytes,
      List.Forall₂ (fun message wire ↦ encode marshal message = .ok wire) messages wires ∧
        List.Forall₂ (ValidFrame unmarshal) wires messages by
    obtain ⟨wires, hencode, hvalid⟩ := hframes
    exact ⟨wires, hencode, fun reader hbytes hended ↦ decodeAll_frames hvalid hbytes hended⟩
  induction messages with
  | nil => exact ⟨[], .nil, .nil⟩
  | cons message messages ih =>
    obtain ⟨body, hmarshal, hunmarshal, hlength⟩ := hinverse message List.mem_cons_self
    obtain ⟨wires, hencode, hvalid⟩ :=
      ih fun other hother ↦ hinverse other (List.mem_cons_of_mem message hother)
    exact ⟨frameOf body :: wires, .cons (encode_eq hmarshal) hencode,
      .cons (validFrame_frameOf hlength hunmarshal) hvalid⟩

end RoundTrip

/-- On every connection, `Decode` returns the messages of the longest prefix of valid frames and
then an error; and what `encode` makes of messages it decodes to them. -/
theorem decodeAll_correct (marshal : RpcMessage → Except String Bytes)
    (unmarshal : Bytes → RpcMessage × Option String) :
    (∀ reader : ChunkedReader, LongestPrefix unmarshal reader.bytes (reader.decodeAll unmarshal).1 ∧
      ((∃ error, (reader.decodeAll unmarshal).2 = .failed error) ∨
        (reader.ended = false ∧ (reader.decodeAll unmarshal).2 = .waiting))) ∧
      ∀ messages : List RpcMessage, (∀ message ∈ messages, ∃ body, marshal message = .ok body ∧
        unmarshal body = (message, none) ∧ body.length ≤ 64 * 1024 * 1024 - 8) →
          RoundTrips marshal unmarshal messages :=
  ⟨decodeAll_longestPrefix unmarshal, decodeAll_encode⟩

/-! ### Two messages -/

/-- The serialized form of a message with a type and an identifier below 256. -/
def marshalHeader (message : RpcMessage) : Except String Bytes :=
  match message.type, message.id with
  | some .request, some id => .ok [0x08, 1, 0x11, UInt8.ofNat id.toNat, 0, 0, 0, 0, 0, 0, 0]
  | some .response, some id => .ok [0x08, 2, 0x11, UInt8.ofNat id.toNat, 0, 0, 0, 0, 0, 0, 0]
  | some .error, some id => .ok [0x08, 3, 0x11, UInt8.ofNat id.toNat, 0, 0, 0, 0, 0, 0, 0]
  | _, _ => .error "required field not set"

/-- The message with this serialized form. -/
def unmarshalHeader (bytes : Bytes) : RpcMessage × Option String :=
  match bytes with
  | [0x08, 1, 0x11, id, 0, 0, 0, 0, 0, 0, 0] =>
    ({ type := some .request, id := some (BitVec.ofNat 64 id.toNat) }, none)
  | [0x08, 2, 0x11, id, 0, 0, 0, 0, 0, 0, 0] =>
    ({ type := some .response, id := some (BitVec.ofNat 64 id.toNat) }, none)
  | [0x08, 3, 0x11, id, 0, 0, 0, 0, 0, 0, 0] =>
    ({ type := some .error, id := some (BitVec.ofNat 64 id.toNat) }, none)
  | _ => ({}, some "unexpected EOF")

/-- Two messages are decoded, whatever the pieces in which their frames arrive. -/
theorem decodeAll_correct_twoMessages : RoundTrips marshalHeader unmarshalHeader
    [{ type := some .request, id := some 7 }, { type := some .error, id := some 200 }] := by
  refine (decodeAll_correct marshalHeader unmarshalHeader).2 _ fun message hmessage ↦ ?_
  simp only [List.mem_cons, List.not_mem_nil, or_false] at hmessage
  rcases hmessage with rfl | rfl
  · exact ⟨_, rfl, rfl, by decide⟩
  · exact ⟨_, rfl, rfl, by decide⟩

end ChunkedReader

end MuduoProtorpc
