import MuduoProtorpc.GoRpc.ClientCodec

/-!
# When the calls of a Go client are isolated

`ClientInvariant` is what a client keeps as long as the frames are harmless: the payload slot is
empty in front of a header and full in front of a body, and the frames that are still to come are
harmless for the calls that are still pending. The other way round, a client whose calls are always
isolated meets harmless frames only (`harmless_of_isolated`).
-/

set_option autoImplicit false
set_option relaxedAutoImplicit false

namespace MuduoProtorpc.GoRpc

open Foundation

variable {Message : Type}

/-! ### Completing calls -/

section Isolated

variable {start : PendingCalls Message} {client : RpcClient Message} {response : ResponseHeader}
  {call : PendingCall Message}

/-- The call in the hand of the loop may be completed by its own frame. -/
theorem CallsIsolated.complete (hisolated : CallsIsolated start client)
    (hphase : client.phase = .body response (some call))
    (hown : ∀ frame, client.frame = some frame → call.seq = frame.getId)
    (result : Except String Message) :
    CallsIsolated start { client.complete call result with phase := .header } := by
  refine ⟨hisolated.noPanic, fun completion hcompletion frame hcause ↦ ?_, fun other hother ↦ ?_⟩
  · rcases List.mem_append.mp hcompletion with hold | hnew
    · exact hisolated.own completion hold frame hcause
    · rw [List.mem_singleton.mp hnew] at hcause ⊢
      exact hown frame hcause
  · rcases hisolated.others other hother with hpending | ⟨held, hheld⟩ | ⟨completion, hdone, hseq⟩
    · exact Or.inl hpending
    · obtain ⟨-, hsame⟩ := InputPhase.body.inj (hphase.symm.trans hheld)
      obtain rfl := Option.some.inj hsame
      refine Or.inr (Or.inr ⟨_, List.mem_append_right _ (List.mem_singleton_self _), rfl⟩)
    · exact Or.inr (Or.inr ⟨completion, List.mem_append_left _ hdone, hseq⟩)

/-- The pending calls may all be completed when no call is in the hand of the loop, and each is the
one that the last frame is for. -/
theorem CallsIsolated.terminate (hisolated : CallsIsolated start client)
    (hphase : ∀ response call, client.phase ≠ .body response (some call))
    (hown : ∀ frame, client.frame = some frame →
      ∀ call ∈ client.pending.calls, call.seq = frame.getId) (err : String) :
    CallsIsolated start (client.terminate err) := by
  refine ⟨hisolated.noPanic, fun completion hcompletion frame hcause ↦ ?_, fun other hother ↦ ?_⟩
  · rcases List.mem_append.mp hcompletion with hold | hnew
    · exact hisolated.own completion hold frame hcause
    · obtain ⟨pending, hpending, rfl⟩ := List.mem_map.mp hnew
      exact hown frame hcause pending hpending
  · rcases hisolated.others other hother with hpending | ⟨held, hheld⟩ | ⟨completion, hdone, hseq⟩
    · exact Or.inl hpending
    · exact absurd hheld (hphase held other)
    · exact Or.inr (Or.inr ⟨completion, List.mem_append_left _ hdone, hseq⟩)

/-- What comes of the pending calls when the loop ends with a frame. -/
theorem CallsIsolated.seq_of_terminate {err : String} {frame : RpcMessage}
    (hisolated : CallsIsolated start (client.terminate err)) (hframe : client.frame = some frame)
    (hcall : call ∈ client.pending.calls) : call.seq = frame.getId := by
  let completion : Completion Message := {
    seq := call.seq
    result := .error (if err = DecodeError.eof.text then DecodeError.unexpectedEof.text else err)
    cause := client.frame }
  have hmem : completion ∈ (client.terminate err).completed :=
    List.mem_append_right _ (List.mem_map.mpr ⟨call, hcall, rfl⟩)
  exact hisolated.own completion hmem frame hframe

end Isolated

/-! ### Harmless frames -/

/-- The frames pass `Decode`. -/
def Decodable (frames : List RpcMessage) : Prop :=
  ∀ frame ∈ frames, frame.isInitialized = true

/-- What the loop knows of the body that it is about to read. -/
def BodyHarmless (stops : Bool) (pending : PendingCalls Message) (frame : RpcMessage)
    (bytes : Bytes) (frames : List RpcMessage) : Option (PendingCall Message) → Prop
  | none => pending.calls = []
  | some call => call.seq = frame.getId ∧
      ((Parses call.reply bytes ∧ Harmless stops pending frames) ∨
        (¬ Parses call.reply bytes ∧ stops = true ∧ pending.calls = []))

/-- What a client keeps while the frames are harmless. -/
structure ClientInvariant (stops : Bool) (unmarshal : Bytes → RpcMessage × Option String)
    (start : PendingCalls Message) (client : RpcClient Message) : Prop where
  isolated : CallsIsolated start client
  header : client.phase = .header → client.codec.payload = none ∧
    ∃ frames, DecodesTo unmarshal client.codec.stream frames ∧ Decodable frames ∧
      Harmless stops client.pending frames
  body : ∀ response found, client.phase = .body response found → response.error = "" ∧
    ∃ frame bytes frames, client.frame = some frame ∧ client.codec.payload = some bytes ∧
      DecodesTo unmarshal client.codec.stream frames ∧ Decodable frames ∧
        BodyHarmless stops client.pending frame bytes frames found

section Client

variable {stops : Bool} {unmarshal : Bytes → RpcMessage × Option String}
  {start : PendingCalls Message} {client next : RpcClient Message} {action : ClientAction}
  {stream : Stream} {frames : List RpcMessage}

/-- A client whose loop has ended keeps the invariant. -/
theorem ClientInvariant.terminated {err : String}
    (hisolated : CallsIsolated start (client.terminate err)) :
    ClientInvariant stops unmarshal start (client.terminate err) :=
  ⟨hisolated, (fun hphase ↦ by cases hphase), fun _ _ hphase ↦ by cases hphase⟩

/-- A header that is read keeps the invariant. -/
theorem ClientInvariant.read (hinvariant : ClientInvariant stops unmarshal start client)
    (hphase : client.phase = .header)
    (hstep : clientStep stops unmarshal client .header = some next) :
    ClientInvariant stops unmarshal start next := by
  obtain ⟨hpayload, frames, hstream, hdecodable, hharmless⟩ := hinvariant.header hphase
  have hheader : ClientAtHeader client := ⟨hinvariant.isolated.noPanic, hphase, hpayload⟩
  have hidle : ∀ response call, client.phase ≠ .body response (some call) := by simp [hphase]
  have hisolated := hinvariant.isolated
  cases hstream with
  | @ended _ rest error left hdecode =>
    rw [hheader.ended hdecode hstep]
    have hended : CallsIsolated start { client with
        codec := { client.codec with stream := rest }
        frame := none } := ⟨hisolated.noPanic, hisolated.own, hisolated.others⟩
    exact .terminated (hended.terminate hidle (fun frame hframe ↦ by cases hframe) _)
  | waiting hdecode =>
    rw [hheader.waiting stops hdecode] at hstep
    cases hstep
  | @frame _ rest frame frames hdecode hrest =>
    have hinitialized := hdecodable frame List.mem_cons_self
    simp only [Harmless] at hharmless
    by_cases htype : frame.getType = .response
    · rw [if_pos htype] at hharmless
      obtain ⟨bytes, hbytes, hfound⟩ := hharmless
      rw [hheader.answer stops hdecode hinitialized htype] at hstep
      obtain rfl := Option.some.inj hstep
      refine ⟨⟨hisolated.noPanic, hisolated.own, fun call hcall ↦ ?_⟩,
        (fun hother ↦ by cases hother), fun response found hbody ↦ ?_⟩
      · rcases hisolated.others call hcall with hpending | ⟨held, hheld⟩ | hdone
        · by_cases hseq : call.seq = frame.getId
          · cases hfind : client.pending.find frame.getId with
            | none => exact absurd hseq (PendingCalls.seq_ne_of_find hfind hpending)
            | some other =>
              obtain rfl := PendingCalls.eq_of_find hfind hpending hseq
              exact Or.inr (Or.inl ⟨_, rfl⟩)
          · exact Or.inl (PendingCalls.mem_delete.mpr ⟨hpending, hseq⟩)
        · exact absurd hheld (hidle held call)
        · exact Or.inr (Or.inr hdone)
      · obtain ⟨rfl, rfl⟩ := InputPhase.body.inj hbody
        refine ⟨rfl, frame, bytes, frames, rfl, hbytes, hrest,
          fun other hother ↦ hdecodable other (List.mem_cons_of_mem _ hother), ?_⟩
        cases hfind : client.pending.find frame.getId with
        | none =>
          rw [hfind] at hfound
          have hnone : client.pending.calls = [] := hfound
          simp [BodyHarmless, PendingCalls.delete, hnone]
        | some call =>
          rw [hfind] at hfound
          exact ⟨PendingCalls.seq_of_find hfind, hfound⟩
    · rw [if_neg htype] at hharmless
      rw [hheader.wrong_type stops hdecode hinitialized htype] at hstep
      obtain rfl := Option.some.inj hstep
      have hread : CallsIsolated start { client with
          codec := { client.codec with stream := rest }
          frame := some frame } := ⟨hisolated.noPanic, hisolated.own, hisolated.others⟩
      refine .terminated (hread.terminate hidle (fun other hother call hcall ↦ ?_) _)
      rw [← Option.some.inj hother]
      exact hharmless call hcall

/-- A body that is read keeps the invariant. -/
theorem ClientInvariant.readBody (hinvariant : ClientInvariant stops unmarshal start client)
    {response : ResponseHeader} {found : Option (PendingCall Message)}
    (hphase : client.phase = .body response found)
    (hstep : clientStep stops unmarshal client .body = some next) :
    ClientInvariant stops unmarshal start next := by
  obtain ⟨herror, frame, bytes, frames, hframe, hpayload, hstream, hdecodable, hbody⟩ :=
    hinvariant.body response found hphase
  have hisolated := hinvariant.isolated
  cases found with
  | none =>
    have hnone : client.pending.calls = [] := hbody
    obtain ⟨err, hunknown⟩ := body_unknown stops unmarshal hisolated.noPanic hphase hpayload
    obtain rfl := Option.some.inj (hunknown.symm.trans hstep)
    refine .terminated (hisolated.terminate ?_ (fun other _ call hcall ↦ ?_) _)
    · simp [hphase]
    · rw [hnone] at hcall
      cases hcall
  | some call =>
    obtain ⟨hseq, hrest⟩ := hbody
    have hown : ∀ other, client.frame = some other → call.seq = other.getId := by
      intro other hother
      rw [← Option.some.inj (hframe.symm.trans hother)]
      exact hseq
    rcases hrest with ⟨hparses, hharmless⟩ | ⟨hfails, rfl, hnone⟩
    · obtain ⟨message, hcompletes⟩ :=
        body_parses stops unmarshal hisolated.noPanic hphase herror hpayload hparses
      obtain rfl := Option.some.inj (hcompletes.symm.trans hstep)
      have hcompleted := hisolated.complete hphase hown (.ok message)
      refine ⟨⟨hcompleted.noPanic, hcompleted.own, hcompleted.others⟩,
        fun _ ↦ ⟨rfl, frames, hstream, hdecodable, hharmless⟩, fun _ _ hother ↦ by cases hother⟩
    · obtain ⟨text, err, hcompletes⟩ :=
        body_fails true unmarshal hisolated.noPanic hphase herror hpayload hfails
      obtain rfl := Option.some.inj (hcompletes.symm.trans hstep)
      have hcompleted := hisolated.complete hphase hown (.error err)
      rw [if_pos rfl]
      refine .terminated (hcompleted.terminate ?_ (fun other _ pending hpending ↦ ?_) text)
      · simp
      · have hempty : pending ∈ client.pending.calls := hpending
        rw [hnone] at hempty
        cases hempty

/-- Every step keeps the invariant. -/
theorem ClientInvariant.step (hinvariant : ClientInvariant stops unmarshal start client)
    (hstep : clientStep stops unmarshal client action = some next) :
    ClientInvariant stops unmarshal start next := by
  cases hphase : client.phase with
  | terminated err => cases action <;> simp [clientStep, hphase] at hstep
  | header =>
    cases action with
    | header => exact hinvariant.read hphase hstep
    | body => simp [clientStep, hphase] at hstep
  | body response found =>
    cases action with
    | header => simp [clientStep, hphase] at hstep
    | body => exact hinvariant.readBody hphase hstep

/-- A run of a client, and a step more. -/
theorem run_clientStep {whole : Stream} {actions : List ClientAction}
    (hrun : (clientSystem stops unmarshal start whole).Run actions client)
    (hstep : clientStep stops unmarshal client action = some next) :
    (clientSystem stops unmarshal start whole).Run (actions ++ [action]) next :=
  .step hrun trivial hstep

/-- A client whose calls are always isolated meets harmless frames only. -/
theorem harmless_of_isolated {whole : Stream} {actions : List ClientAction}
    (hsafe : ∀ more later, (clientSystem stops unmarshal start whole).Run more later →
      CallsIsolated start later)
    (hstream : DecodesTo unmarshal stream frames) (hdecodable : Decodable frames)
    (hrun : (clientSystem stops unmarshal start whole).Run actions client)
    (hheader : ClientAtHeader client) (hsame : client.codec.stream = stream) :
    Harmless stops client.pending frames := by
  induction hstream generalizing client actions with
  | ended hdecode => trivial
  | waiting hdecode => trivial
  | @frame stream rest frame frames hdecode hrest ih =>
    subst hsame
    have hinitialized := hdecodable frame List.mem_cons_self
    simp only [Harmless]
    by_cases htype : frame.getType = .response
    · rw [if_pos htype]
      have hread := run_clientStep hrun (hheader.answer stops hdecode hinitialized htype)
      let read : RpcClient Message := { client with
        codec := { stream := rest, payload := frame.response }
        pending := client.pending.delete frame.getId
        phase := .body { seq := frame.getId, error := "" } (client.pending.find frame.getId)
        frame := some frame }
      have hnone : read.panicked = none := hheader.noPanic
      -- the response is there, or reading the body panics
      cases hpayload : frame.response with
      | none =>
        obtain ⟨next, hbody, hpanics⟩ := body_panics stops unmarshal hnone rfl rfl hpayload
        exact absurd (hsafe _ _ (run_clientStep hread hbody)).noPanic hpanics
      | some bytes =>
        refine ⟨bytes, rfl, ?_⟩
        cases hfind : client.pending.find frame.getId with
        | none =>
          -- the body ends the loop, and every pending call has another number
          have hphase : read.phase = .body { seq := frame.getId, error := "" } none := by
            simp only [read, hfind]
          obtain ⟨err, hbody⟩ := body_unknown stops unmarshal hnone hphase hpayload
          have hisolated := hsafe _ _ (run_clientStep hread hbody)
          refine List.eq_nil_iff_forall_not_mem.mpr fun call hcall ↦ ?_
          have hne := PendingCalls.seq_ne_of_find hfind hcall
          exact hne (hisolated.seq_of_terminate rfl (PendingCalls.mem_delete.mpr ⟨hcall, hne⟩))
        | some call =>
          have hphase : read.phase = .body { seq := frame.getId, error := "" } (some call) := by
            simp only [read, hfind]
          by_cases hparses : Parses call.reply bytes
          · obtain ⟨message, hbody⟩ :=
              body_parses stops unmarshal hnone hphase rfl hpayload hparses
            refine Or.inl ⟨hparses, ?_⟩
            exact ih (fun other hother ↦ hdecodable other (List.mem_cons_of_mem _ hother))
              (run_clientStep hread hbody) ⟨hnone, rfl, rfl⟩ rfl
          · obtain ⟨text, err, hbody⟩ :=
              body_fails stops unmarshal hnone hphase rfl hpayload hparses
            have hlater := run_clientStep hread hbody
            cases stops with
            | false =>
              -- the payload is still in the slot when the next header is read
              let left : RpcClient Message :=
                { read.complete call (.error err) with phase := .header }
              have hleftNone : left.panicked = none := hnone
              have hleft : left.codec.payload = some bytes := hpayload
              obtain ⟨next, hheader, hpanics⟩ :=
                header_panics false unmarshal hleftNone rfl hleft
              exact absurd (hsafe _ _ (run_clientStep hlater hheader)).noPanic hpanics
            | true =>
              refine Or.inr ⟨hparses, rfl, ?_⟩
              refine List.eq_nil_iff_forall_not_mem.mpr fun other hother ↦ ?_
              exact (PendingCalls.mem_delete.mp hother).2
                ((hsafe _ _ hlater).seq_of_terminate rfl hother)
    · rw [if_neg htype]
      intro call hcall
      have hended := run_clientStep hrun (hheader.wrong_type stops hdecode hinitialized htype)
      exact (hsafe _ _ hended).seq_of_terminate rfl hcall

/-- Whatever calls are pending and whatever frames arrive: the calls are always isolated if and only
if the frames are harmless. -/
theorem callsIsolated_iff (hstream : DecodesTo unmarshal stream frames)
    (hdecodable : Decodable frames) :
    (∀ actions client, (clientSystem stops unmarshal start stream).Run actions client →
        CallsIsolated start client) ↔ Harmless stops start frames := by
  constructor
  · intro hsafe
    exact harmless_of_isolated hsafe hstream hdecodable .start ⟨rfl, rfl, rfl⟩ rfl
  · intro hharmless actions client hrun
    have hinvariant : ClientInvariant stops unmarshal start client := by
      refine hrun.invariant ?_ fun _ _ _ _ hstep hbefore ↦ hbefore.step hstep
      refine ⟨⟨rfl, (fun completion hcompletion ↦ by cases hcompletion), ?_⟩,
        fun _ ↦ ⟨rfl, frames, hstream, hdecodable, hharmless⟩, fun _ _ hbody ↦ by cases hbody⟩
      exact fun call hcall ↦ Or.inl hcall
    exact hinvariant.isolated

end Client

/-! ### A RESPONSE that completes its call, and an ERROR that completes all -/

/-- The serialized form of a RESPONSE to the call with number 0. -/
def replyBody : Bytes :=
  [0x08, 0x02, 0x11, 0, 0, 0, 0, 0, 0, 0, 0, 0x32, 2, 0x08, 9]

/-- The serialized form of an ERROR for the call with number 0. -/
def errorBody : Bytes :=
  [0x08, 0x03, 0x11, 0, 0, 0, 0, 0, 0, 0, 0, 0x38, 2]

/-- The RESPONSE. -/
def replyMessage : RpcMessage where
  type := some .response
  id := some 0
  response := some [0x08, 9]

/-- The ERROR. -/
def errorMessage : RpcMessage where
  type := some .error
  id := some 0
  error := some .noService

/-- A parser of these two messages. -/
def parseReplies (bytes : Bytes) : RpcMessage × Option String :=
  if bytes = replyBody then (replyMessage, none)
  else if bytes = errorBody then (errorMessage, none)
  else ({}, some "unexpected EOF")

/-- A reply that is a small number. -/
def numberReply : Bytes → UInt8 × Option String
  | [0x08, number] => (number, none)
  | _ => (0, some "unexpected EOF")

/-- Two calls that are pending. -/
def twoCalls : PendingCalls UInt8 where
  calls := [{ seq := 0, reply := some numberReply }, { seq := 1, reply := some numberReply }]
  nodup := by decide

/-- A connection on which one frame arrives, and then its end. -/
def oneFrame (body : Bytes) : Stream where
  available := frameOf body
  ended := true

theorem decodesTo_oneFrame {body : Bytes} {message : RpcMessage}
    (hlength : 8 + body.length ≤ 64 * 1024 * 1024)
    (hparse : parseReplies body = (message, none)) :
    DecodesTo parseReplies (oneFrame body) [message] := by
  have hdecode : decode parseReplies (oneFrame body) =
      .message message { available := [], ended := true } := by
    simpa [oneFrame] using decode_frameOf hlength hparse [] true
  exact .frame hdecode (.ended rfl)

/-- The RESPONSE completes its call, and leaves the other pending. -/
theorem callsIsolated_replyMessage : ∃ client : RpcClient UInt8,
    (clientSystem false parseReplies twoCalls (oneFrame replyBody)).Run [.header, .body] client ∧
    client.completed.map Completion.seq = [0] ∧ client.pending.calls.map PendingCall.seq = [1] ∧
      CallsIsolated twoCalls client := by
  have hstream : DecodesTo parseReplies (oneFrame replyBody) [replyMessage] :=
    decodesTo_oneFrame (by decide) rfl
  have hdecodable : Decodable [replyMessage] := by
    intro frame hframe
    rw [List.mem_singleton.mp hframe]
    rfl
  have hharmless : Harmless false twoCalls [replyMessage] :=
    ⟨[0x08, 9], rfl, Or.inl ⟨⟨numberReply, 9, rfl, rfl⟩, trivial⟩⟩
  have hexecutes : ((clientSystem false parseReplies twoCalls (oneFrame replyBody)).execute
      (RpcClient.initial twoCalls (oneFrame replyBody)) [.header, .body]).map (fun client ↦
        (client.completed.map Completion.seq, client.pending.calls.map PendingCall.seq)) =
          some ([0], [1]) := by
    decide +kernel
  obtain ⟨client, hexecute, hcalls⟩ := Option.map_eq_some_iff.mp hexecutes
  obtain ⟨hcompleted, hpending⟩ := Prod.mk.inj hcalls
  have hrun := TransitionSystem.Run.of_execute hexecute
  exact ⟨client, hrun, hcompleted, hpending,
    (callsIsolated_iff hstream hdecodable).mpr hharmless _ client hrun⟩

/-- The ERROR completes the call that it is for, and the other one too. -/
theorem not_callsIsolated_of_error :
    ¬ ∀ (start : PendingCalls UInt8) (frames : List RpcMessage) (stream : Stream),
      DecodesTo parseReplies stream frames → Decodable frames →
        ∀ actions client, (clientSystem false parseReplies start stream).Run actions client →
          CallsIsolated start client := by
  intro hall
  have hstream : DecodesTo parseReplies (oneFrame errorBody) [errorMessage] :=
    decodesTo_oneFrame (by decide) rfl
  have hdecodable : Decodable [errorMessage] := by
    intro frame hframe
    rw [List.mem_singleton.mp hframe]
    rfl
  let ended : RpcClient UInt8 := {
    codec := { stream := { available := [], ended := true }, payload := none }
    pending := twoCalls
    phase := .terminated "Wrong message type."
    panicked := none
    frame := some errorMessage
    completed := [
      { seq := 0, result := .error "Wrong message type.", cause := some errorMessage },
      { seq := 1, result := .error "Wrong message type.", cause := some errorMessage }] }
  have hrun : (clientSystem false parseReplies twoCalls (oneFrame errorBody)).Run [.header] ended :=
    .of_execute rfl
  have hisolated := hall twoCalls [errorMessage] _ hstream hdecodable _ ended hrun
  have hown := hisolated.own
    { seq := 1, result := .error "Wrong message type.", cause := some errorMessage }
      (by simp [ended]) errorMessage rfl
  exact absurd hown (by decide)

end MuduoProtorpc.GoRpc
