import MuduoProtorpc.Wire.GoCodec

/-!
# Frames under other tags

`DecodeGeneral` is given the tag of the frames it reads. The tag enters the least length of a frame
and the comparison with the marker, but the message is cut out of the frame behind its first four
bytes, whatever the length of the tag.

A frame of a tag of another length is therefore decoded from the wrong bytes, or with a panic; and a
tag of four gigabytes, whose length in front of the checksum wraps, lets frames through that are
shorter than the tag. On all other streams `DecodeGeneral` is right (`decodesRightly_iff`).
-/

set_option autoImplicit false
set_option relaxedAutoImplicit false

namespace MuduoProtorpc

/-! ### Frames of a tag -/

/-- The frame is not longer than what is read. -/
def FitsFrame (tag body : Bytes) : Prop :=
  tag.length + body.length + 4 ≤ 64 * 1024 * 1024

instance (tag body : Bytes) : Decidable (FitsFrame tag body) :=
  inferInstanceAs (Decidable (_ ≤ _))

/-- A frame of the tag has arrived. -/
def FrameArrived (tag : Bytes) (stream : Stream) : Prop :=
  ∃ body more, FitsFrame tag body ∧ stream.available = taggedFrame tag body ++ more

/-- `proto.Unmarshal` was called. -/
inductive IsUnmarshalled {Message : Type} : Decoded Message → Prop
  | message (message : Message) (rest : Stream) : IsUnmarshalled (.message message rest)
  | failed (text : String) (left : Message) (rest : Stream) :
      IsUnmarshalled (.failed (.unmarshal text) left rest)

/-- `DecodeGeneral` does not panic, makes of a frame what `proto.Unmarshal` makes of its body, and
calls `proto.Unmarshal` on nothing else. -/
structure DecodesRightly (tag : Bytes) (stream : Stream) : Prop where
  ne_panic : ∀ {Message : Type} (unmarshal : Bytes → Message × Option String) (fresh : Message)
    (text : String), decodeGeneral unmarshal fresh tag stream ≠ .panic text
  frame : ∀ {Message : Type} (unmarshal : Bytes → Message × Option String) (fresh : Message)
    (body more : Bytes), FitsFrame tag body → stream.available = taggedFrame tag body ++ more →
      decodeGeneral unmarshal fresh tag stream =
        unmarshalled unmarshal body { available := more, ended := stream.ended }
  exact_frame : ∀ {Message : Type} (unmarshal : Bytes → Message × Option String) (fresh : Message),
    IsUnmarshalled (decodeGeneral unmarshal fresh tag stream) → FrameArrived tag stream

/-- The length of the tag and the checksum has wrapped, and a frame of at least what is left of it
has arrived. -/
def WrappedArrived (tag : Bytes) (stream : Stream) : Prop :=
  2 ^ 32 ≤ tag.length + 4 ∧ ∃ payload more : Bytes,
    (tag.length + 4) % 2 ^ 32 ≤ payload.length ∧ payload.length ≤ 64 * 1024 * 1024 ∧
      stream.available = putUint32 payload.length ++ (payload ++ more)

/-! ### The outcomes -/

section Outcomes

variable {Message : Type} {unmarshal : Bytes → Message × Option String} {fresh : Message}
  {tag body payload more : Bytes} {stream rest : Stream}

/-- Four bytes are those of the number they make. -/
theorem putUint32_uint32 {bytes : Bytes} (hlength : bytes.length = 4) :
    putUint32 (uint32 bytes) = bytes := by
  match bytes, hlength with
  | [first, second, third, fourth], _ =>
    have hfirst := first.toNat_lt
    have hsecond := second.toNat_lt
    have hthird := third.toNat_lt
    have hfourth := fourth.toNat_lt
    simp only [uint32, putUint32, List.foldl_cons, List.foldl_nil, List.cons.injEq, and_true,
      ← UInt8.toNat_inj, UInt8.toNat_ofNat']
    omega

theorem unmarshalled_ne_panic (text : String) :
    unmarshalled unmarshal body rest ≠ .panic text := by
  unfold unmarshalled
  split
  · simp
  · simp

/-- A frame that has arrived is cut behind its first four bytes. -/
theorem decodeGeneral_frame (hfits : FitsFrame tag body)
    (hstream : stream.available = taggedFrame tag body ++ more) :
    decodeGeneral unmarshal fresh tag stream =
      if tag.length + body.length < 4 then .panic "slice bounds out of range"
      else unmarshalled unmarshal ((tag ++ body).drop 4)
        { available := more, ended := stream.ended } := by
  have hsize : (tag ++ body ++ putUint32 (adler32 (tag ++ body))).length =
      tag.length + body.length + 4 := by
    simp only [List.length_append, length_putUint32]
  rw [FitsFrame] at hfits
  rw [taggedFrame, List.append_assoc, ← hsize] at hstream
  rw [decodeGeneral_payload (by omega) (by rw [hsize]; exact (Nat.mod_le _ _).trans (by omega))
    hstream, decodePayload_frame]

/-- A frame that is shorter than the tag cannot be compared with it. -/
theorem decodeGeneral_wrapped (hwrapped : WrappedArrived tag stream) :
    decodeGeneral unmarshal fresh tag stream = .panic "slice bounds out of range" := by
  obtain ⟨hlong, payload, more, hlower, hupper, hstream⟩ := hwrapped
  rw [decodeGeneral_payload hupper hlower hstream, decodePayload, if_pos (by omega)]

/-- What is read as long as a frame of the tag is one, or it is refused. -/
theorem decodePayload_cases (hlength : tag.length + 4 ≤ payload.length) :
    (∃ body, payload = tag ++ body ++ putUint32 (adler32 (tag ++ body))) ∨
      ∃ error, decodePayload unmarshal fresh tag payload rest = .failed error fresh rest ∧
        ∀ text, error ≠ .unmarshal text := by
  by_cases hmarker : payload.take tag.length = tag
  · by_cases hchecksum : adler32 (payload.take (payload.length - 4)) =
        uint32 (payload.drop (payload.length - 4))
    · left
      have hbody : payload.take (payload.length - 4) =
          tag ++ (payload.take (payload.length - 4)).drop tag.length := by
        have htag : (payload.take (payload.length - 4)).take tag.length = tag := by
          rw [List.take_take, Nat.min_eq_left (by omega), hmarker]
        conv_lhs =>
          rw [← List.take_append_drop tag.length (payload.take (payload.length - 4)), htag]
      refine ⟨(payload.take (payload.length - 4)).drop tag.length, ?_⟩
      rw [← hbody, hchecksum, putUint32_uint32 (by rw [List.length_drop]; omega),
        List.take_append_drop]
    · right
      refine ⟨.wrongChecksum, ?_, by simp⟩
      rw [decodePayload, if_neg (by omega), if_neg (not_not_intro hmarker), if_neg (by omega),
        if_pos hchecksum]
  · right
    refine ⟨.wrongMarker, ?_, by simp⟩
    rw [decodePayload, if_neg (by omega), if_pos hmarker]

/-- A stream that ended early is not an error of `proto.Unmarshal`. -/
theorem readFull_eq_short {size : ℕ} {error : DecodeError}
    (hread : readFull stream size = .short error) (text : String) : error ≠ .unmarshal text := by
  unfold readFull at hread
  split_ifs at hread
  · rw [← ReadFull.short.inj hread]
    exact nofun
  · rw [← ReadFull.short.inj hread]
    exact nofun

/-- Where neither a frame nor one that is too short has arrived, the stream is refused or waited
for. -/
theorem decodeGeneral_refused (hframe : ¬ FrameArrived tag stream)
    (hwrapped : ¬ WrappedArrived tag stream) :
    decodeGeneral unmarshal fresh tag stream = .blocked ∨
      ∃ error rest, decodeGeneral unmarshal fresh tag stream = .failed error fresh rest ∧
        ∀ text, error ≠ .unmarshal text := by
  unfold decodeGeneral
  cases hheader : readFull stream 4 with
  | waiting => exact Or.inl rfl
  | short error => exact Or.inr ⟨error, _, rfl, readFull_eq_short hheader⟩
  | full header later =>
    by_cases hinvalid : 64 * 1024 * 1024 < uint32 header ∨
        uint32 header < (tag.length + 4) % 2 ^ 32
    · simp only [if_pos hinvalid]
      exact Or.inr ⟨_, _, rfl, fun text ↦ nofun⟩
    · simp only [if_neg hinvalid]
      cases hpayload : readFull later (uint32 header) with
      | waiting => exact Or.inl rfl
      | short error => exact Or.inr ⟨error, _, rfl, readFull_eq_short hpayload⟩
      | full payload left =>
        right
        obtain ⟨hfour, htake, hlater⟩ := readFull_eq_full hheader
        obtain ⟨hsize, hread, -⟩ := readFull_eq_full hpayload
        have hheaderLength : header.length = 4 := by
          rw [htake, List.length_take_of_le hfour]
        have hlength : payload.length = uint32 header := by
          rw [hread, List.length_take_of_le hsize]
        have hstream : stream.available =
            putUint32 payload.length ++ (payload ++ later.available.drop (uint32 header)) := by
          rw [hlength, putUint32_uint32 hheaderLength, hread, List.take_append_drop, htake, hlater,
            List.take_append_drop]
        have hlong : tag.length + 4 < 2 ^ 32 := by
          by_contra hwraps
          exact hwrapped ⟨by omega, payload, _, by omega, by omega, hstream⟩
        have hcases := @decodePayload_cases Message unmarshal fresh tag payload left (by omega)
        rcases hcases with hbody | hrefused
        · obtain ⟨body, hbody⟩ := hbody
          have hbodyLength : payload.length = tag.length + body.length + 4 := by
            rw [hbody]
            simp only [List.length_append, length_putUint32]
          refine absurd ⟨body, later.available.drop (uint32 header), ?_, ?_⟩ hframe
          · rw [FitsFrame]
            omega
          · rw [hstream, hbodyLength, taggedFrame, ← hbody, List.append_assoc]
        · obtain ⟨error, hfailed, hother⟩ := hrefused
          exact ⟨error, left, hfailed, hother⟩

/-- Neither is a panic, nor a call of `proto.Unmarshal`. -/
theorem not_unmarshalled_of_refused {outcome : Decoded Message}
    (hrefused : outcome = .blocked ∨ ∃ error rest, outcome = .failed error fresh rest ∧
      ∀ text, error ≠ .unmarshal text) :
    (∀ text, outcome ≠ .panic text) ∧ ¬ IsUnmarshalled outcome := by
  rcases hrefused with hblocked | ⟨error, rest, hfailed, hother⟩
  · rw [hblocked]
    exact ⟨nofun, nofun⟩
  · rw [hfailed]
    refine ⟨nofun, ?_⟩
    intro hunmarshalled
    generalize houtcome : Decoded.failed error fresh rest = outcome at hunmarshalled
    cases hunmarshalled with
    | message => cases houtcome
    | failed text => exact hother text (Decoded.failed.inj houtcome).1

end Outcomes

/-! ### Tags of another length -/

/-- The frame of a tag that does not have four bytes is not decoded. -/
theorem length_of_decodesRightly {tag : Bytes} {stream : Stream}
    (hrightly : DecodesRightly tag stream) (hframe : FrameArrived tag stream) :
    tag.length = 4 := by
  obtain ⟨body, more, hfits, hstream⟩ := hframe
  have hright := hrightly.frame (fun bytes ↦ (bytes, none)) [] body more hfits hstream
  rw [decodeGeneral_frame hfits hstream] at hright
  by_cases hshort : tag.length + body.length < 4
  · rw [if_pos hshort] at hright
    exact absurd hright.symm (unmarshalled_ne_panic _)
  · rw [if_neg hshort] at hright
    have hbody : (tag ++ body).drop 4 = body := (Decoded.message.inj hright).1
    have hlength := congrArg List.length hbody
    rw [List.length_drop, List.length_append] at hlength
    omega

/-- `DecodeGeneral` is right exactly when no frame of a tag that does not have four bytes, and no
frame that a wrapped length lets through, has arrived. -/
theorem decodesRightly_iff (tag : Bytes) (stream : Stream) :
    DecodesRightly tag stream ↔
      (FrameArrived tag stream → tag.length = 4) ∧ ¬ WrappedArrived tag stream := by
  constructor
  · intro hrightly
    refine ⟨length_of_decodesRightly hrightly, ?_⟩
    intro hwrapped
    exact hrightly.ne_panic (fun bytes ↦ (bytes, none)) [] _ (decodeGeneral_wrapped hwrapped)
  · rintro ⟨hfour, hwrapped⟩
    have hright : ∀ {Message : Type} (unmarshal : Bytes → Message × Option String)
        (fresh : Message) (body more : Bytes), FitsFrame tag body →
          stream.available = taggedFrame tag body ++ more →
            decodeGeneral unmarshal fresh tag stream =
              unmarshalled unmarshal body { available := more, ended := stream.ended } := by
      intro Message unmarshal fresh body more hfits hstream
      have hlength := hfour ⟨body, more, hfits, hstream⟩
      rw [decodeGeneral_frame hfits hstream, if_neg (by omega), List.drop_left' hlength]
    constructor
    · intro Message unmarshal fresh text
      by_cases hframe : FrameArrived tag stream
      · obtain ⟨body, more, hfits, hstream⟩ := hframe
        rw [hright unmarshal fresh body more hfits hstream]
        exact unmarshalled_ne_panic text
      · exact (not_unmarshalled_of_refused (decodeGeneral_refused hframe hwrapped)).1 text
    · exact hright
    · intro Message unmarshal fresh hunmarshalled
      by_contra hframe
      exact (not_unmarshalled_of_refused (decodeGeneral_refused hframe hwrapped)).2 hunmarshalled

/-- The frames of a tag that is too long and of one that is too short. -/
theorem not_decodesRightly_short_long :
    ¬ DecodesRightly [72, 69, 76, 76, 79]
        { available := taggedFrame [72, 69, 76, 76, 79] [33] ++ [], ended := true } ∧
      ¬ DecodesRightly [72, 69]
        { available := taggedFrame [72, 69] [33] ++ [], ended := true } := by
  constructor
  · intro hrightly
    have hlength := length_of_decodesRightly hrightly ⟨[33], [], by decide, rfl⟩
    cases hlength
  · intro hrightly
    have hlength := length_of_decodesRightly hrightly ⟨[33], [], by decide, rfl⟩
    cases hlength

/-- A tag of five letters leaves its last letter in the body. -/
example : decodeGeneral (fun bytes ↦ (bytes, none)) [] [72, 69, 76, 76, 79]
    { available := taggedFrame [72, 69, 76, 76, 79] [33], ended := true } =
      .message [79, 33] { available := [], ended := true } := by
  decide

end MuduoProtorpc
