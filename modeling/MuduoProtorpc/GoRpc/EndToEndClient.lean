import MuduoProtorpc.GoRpc.EndToEnd

/-!
# A Go client that gets good replies

What holds of a client to whose calls good replies are written (`ClientSide`), and that each step of
its loop keeps it. The client knows of the server only the replies, of which it has read the headers
of the first `read`: each is to a call that is pending under its number, and completes that call and
no other.
-/

set_option autoImplicit false
set_option relaxedAutoImplicit false

namespace MuduoProtorpc.GoRpc

open Foundation

variable {Method Message : Type} {environment : ServerEnvironment Method Message}
  {calls : List (Call Message)}

/-- Calls at different positions have different numbers, as long as there are numbers left. -/
theorem seqOf_injective {first second : ℕ} (hfirst : first < 2 ^ 64) (hsecond : second < 2 ^ 64)
    (hseq : seqOf first = seqOf second) : first = second := by
  have hnat := congrArg BitVec.toNat hseq
  simp only [seqOf, BitVec.toNat_ofNat] at hnat
  rwa [Nat.mod_eq_of_lt hfirst, Nat.mod_eq_of_lt hsecond] at hnat

theorem seqOf_succ (index : ℕ) : seqOf (index + 1) = seqOf index + 1 := by
  unfold seqOf
  exact BitVec.ofNat_add index 1

/-- The frame is a reply to the call at its position, which understands it. -/
structure Understood (calls : List (Call Message)) (frame : ℕ × RpcMessage) (call : Call Message)
    (bytes : Bytes) (result : Message) : Prop where
  position : calls[frame.1]? = some call
  message : frame.2 = responseMessage (seqOf frame.1) bytes
  parses : ∃ unmarshal, call.reply = some unmarshal ∧ unmarshal bytes = (result, none)

/-- A client in front of the body of a reply, which is the last one of those it has read. -/
structure AtReply (calls : List (Call Message)) (read : List (ℕ × RpcMessage))
    (client : RpcClient Message) : Prop where
  noPanic : client.panicked = none
  body : ∃ before frame call bytes result, read = before ++ [frame] ∧
    Understood calls frame call bytes result ∧
      client.phase = .body { seq := seqOf frame.1, error := "" }
        (some { seq := seqOf frame.1, reply := call.reply }) ∧
      client.codec.payload = some bytes ∧
        client.completed.map Completion.seq = before.map fun frame ↦ seqOf frame.1

/-- What holds of a client that got good replies. -/
structure ClientSide (environment : ServerEnvironment Method Message)
    (calls : List (Call Message)) (written : List (ℕ × RpcMessage)) (read : ℕ)
    (client : RpcClient Message) : Prop where
  loop : (ClientAtHeader client ∧ client.completed.map Completion.seq =
    (written.take read).map fun frame ↦ seqOf frame.1) ∨ AtReply calls (written.take read) client
  few : read ≤ written.length
  unread : Carries environment client.codec.stream ((written.drop read).map Prod.snd)
  pending : ∀ call : PendingCall Message, call ∈ client.pending.calls ↔ ∃ (index : ℕ)
    (found : Call Message), calls[index]? = some found ∧ index ∉ (written.take read).map Prod.fst ∧
      call = { seq := seqOf index, reply := found.reply }
  results : ∀ completion ∈ client.completed, ∃ frame ∈ written, ∃ call bytes result,
    Understood calls frame call bytes result ∧ completion.seq = seqOf frame.1 ∧
      completion.result = .ok result

/-- The call that is pending under a number is found. -/
theorem PendingCalls.find_of_mem {pending : PendingCalls Message} {call : PendingCall Message}
    (hcall : call ∈ pending.calls) : pending.find call.seq = some call := by
  cases hfind : pending.find call.seq with
  | none => exact absurd rfl (seq_ne_of_find hfind hcall)
  | some found => rw [eq_of_find hfind hcall rfl]

section ClientSteps

variable {written : List (ℕ × RpcMessage)} {read : ℕ} {client : RpcClient Message} {stops : Bool}

theorem ClientSide.noPanic (hside : ClientSide environment calls written read client) :
    client.panicked = none := by
  rcases hside.loop with ⟨hheader, -⟩ | hreply
  · exact hheader.noPanic
  · exact hreply.noPanic

/-- The call of a reply stays where it is when there is one more. -/
theorem Understood.mono {frame : ℕ × RpcMessage} {call : Call Message} {bytes : Bytes}
    {result : Message} (hunderstood : Understood calls frame call bytes result)
    (more : Call Message) : Understood (calls ++ [more]) frame call bytes result where
  position := getElem?_append_of_eq_some hunderstood.position _
  message := hunderstood.message
  parses := hunderstood.parses

variable (stops) in
/-- In front of a header, the loop waits if every reply was read; and the next one is to a call that
is pending. -/
theorem ClientSide.next_header (hside : ClientSide environment calls written read client)
    (hunderstood : ∀ frame ∈ written, ∃ call bytes result,
      Understood calls frame call bytes result)
    (honce : (written.map Prod.fst).Nodup) (hbound : calls.length ≤ 2 ^ 64)
    (hheader : ClientAtHeader client) (hcompleted : client.completed.map Completion.seq =
      (written.take read).map fun frame ↦ seqOf frame.1) :
    (clientStep stops environment.unmarshal client .header = none ∧ read = written.length) ∨
      ∃ next, clientStep stops environment.unmarshal client .header = some next ∧
        ClientSide environment calls written (read + 1) next ∧
          AtReply calls (written.take (read + 1)) next ∧ next.completed = client.completed := by
  rcases Nat.lt_or_ge read written.length with hlt | hge
  · right
    have hunread := hside.unread
    rw [List.drop_eq_getElem_cons hlt, List.map_cons] at hunread
    obtain ⟨rest, hdecode, hrest⟩ := hunread.decode_cons
    have hmem : written[read] ∈ written := List.getElem_mem hlt
    have htake : written.take (read + 1) = written.take read ++ [written[read]] :=
      (List.take_append_getElem hlt).symm
    have hfresh : written[read].1 ∉ (written.take read).map Prod.fst := by
      have hnodup : ((written.take (read + 1)).map Prod.fst).Nodup :=
        honce.sublist ((List.take_sublist _ _).map _)
      rw [htake, List.map_append, List.nodup_append] at hnodup
      exact fun hread ↦ hnodup.2.2 _ hread _ (by simp) rfl
    generalize written[read] = frame at hdecode hmem htake hfresh
    obtain ⟨call, bytes, result, hreply⟩ := hunderstood frame hmem
    have hpending : { seq := seqOf frame.1, reply := call.reply } ∈ client.pending.calls :=
      (hside.pending _).mpr ⟨frame.1, call, hreply.position, hfresh, rfl⟩
    have hfound := PendingCalls.find_of_mem hpending
    have hstep := hheader.answer stops hdecode (by simp [hreply.message, responseMessage,
      RpcMessage.isInitialized]) (by simp [hreply.message, responseMessage, RpcMessage.getType])
    have hid : frame.2.getId = seqOf frame.1 := by
      simp [hreply.message, responseMessage, RpcMessage.getId]
    have hresponse : frame.2.response = some bytes := by
      simp [hreply.message, responseMessage]
    simp only [hid, hfound, hresponse] at hstep
    have hat : AtReply calls (written.take (read + 1)) { client with
        codec := { stream := rest, payload := some bytes }
        pending := client.pending.delete (seqOf frame.1)
        phase := .body { seq := seqOf frame.1, error := "" }
          (some { seq := seqOf frame.1, reply := call.reply })
        frame := some frame.2 } :=
      { noPanic := hheader.noPanic
        body := ⟨written.take read, frame, call, bytes, result, htake, hreply, rfl, rfl,
          hcompleted⟩ }
    refine ⟨_, hstep, ?_, hat, rfl⟩
    exact {
      loop := Or.inr hat
      few := hlt
      unread := hrest
      pending := by
        intro other
        rw [PendingCalls.mem_delete, hside.pending]
        constructor
        · rintro ⟨⟨index, found, hindex, hunread, rfl⟩, hne⟩
          refine ⟨index, found, hindex, ?_, rfl⟩
          rw [htake, List.map_append, List.mem_append, not_or]
          refine ⟨hunread, fun hlast ↦ hne ?_⟩
          obtain rfl : index = frame.1 := by simpa using hlast
          rfl
        · rintro ⟨index, found, hindex, hunread, rfl⟩
          rw [htake, List.map_append, List.mem_append, not_or] at hunread
          refine ⟨⟨index, found, hindex, hunread.1, rfl⟩, fun hseq ↦ hunread.2 ?_⟩
          have hlower := (List.getElem?_eq_some_iff.mp hindex).1
          have hupper := (List.getElem?_eq_some_iff.mp hreply.position).1
          obtain rfl := seqOf_injective (hlower.trans_le hbound) (hupper.trans_le hbound) hseq
          simp
      results := hside.results }
  · left
    have hunread := hside.unread
    rw [List.drop_eq_nil_of_le hge] at hunread
    exact ⟨hheader.waiting stops hunread.decode_nil, Nat.le_antisymm hside.few hge⟩

variable (stops) in
/-- The body of a good reply is read, and its call is done. -/
theorem ClientSide.next_body (hside : ClientSide environment calls written read client)
    (hreply : AtReply calls (written.take read) client) :
    ∃ next, clientStep stops environment.unmarshal client .body = some next ∧
      ClientSide environment calls written read next ∧ ClientAtHeader next ∧
        next.completed.length = client.completed.length + 1 := by
  obtain ⟨before, frame, call, bytes, result, htake, hunderstood, hphase, hpayload, hcompleted⟩ :=
    hreply.body
  obtain ⟨unmarshal, hunmarshal, hresult⟩ := hunderstood.parses
  have hread : readResponseBody client.codec call.reply =
      .ok result { client.codec with payload := none } := by
    simp only [readResponseBody, readBody, hpayload, hunmarshal, hresult]
  have hstep : clientStep stops environment.unmarshal client .body = some
      { client.complete { seq := seqOf frame.1, reply := call.reply } (.ok result) with
        codec := { client.codec with payload := none }
        phase := .header } := by
    simp [clientStep, hreply.noPanic, hphase, hread]
  have hheader : ClientAtHeader
      { client.complete { seq := seqOf frame.1, reply := call.reply } (.ok result) with
        codec := { client.codec with payload := none }
        phase := .header } := ⟨hreply.noPanic, rfl, rfl⟩
  refine ⟨_, hstep, ?_, hheader, by simp [RpcClient.complete]⟩
  exact {
    loop := by
      refine Or.inl ⟨hheader, ?_⟩
      rw [htake, List.map_append]
      simp only [RpcClient.complete, List.map_append, hcompleted, List.map_singleton]
    few := hside.few
    unread := hside.unread
    pending := hside.pending
    results := by
      intro completion hcompletion
      rcases List.mem_append.mp hcompletion with hold | hnew
      · exact hside.results completion hold
      · obtain rfl := List.mem_singleton.mp hnew
        have hmem : frame ∈ written := by
          refine List.mem_of_mem_take (i := read) ?_
          rw [htake]
          exact List.mem_append_right _ (List.mem_singleton_self frame)
        exact ⟨frame, hmem, call, bytes, result, hunderstood, rfl, rfl⟩ }

theorem PendingCalls.mem_insert {pending : PendingCalls Message}
    {call other : PendingCall Message} :
    other ∈ (pending.insert call).calls ↔
      (other ∈ pending.calls ∧ other.seq ≠ call.seq) ∨ other = call := by
  simp only [PendingCalls.insert, List.mem_append, PendingCalls.mem_delete, List.mem_singleton]

/-- One more call is pending, under a number that no other has. -/
theorem ClientSide.register (hside : ClientSide environment calls written read client)
    (hbound : calls.length < 2 ^ 64) (hwritten : ∀ frame ∈ written, frame.1 < calls.length)
    (call : Call Message) : ClientSide environment (calls ++ [call]) written read { client with
      pending := client.pending.insert { seq := seqOf calls.length, reply := call.reply } } where
  loop := by
    rcases hside.loop with ⟨hheader, hcompleted⟩ | ⟨hnone, before, frame, found, bytes, result,
      htake, hunderstood, hrest⟩
    · exact Or.inl ⟨⟨hheader.noPanic, hheader.phase, hheader.payload⟩, hcompleted⟩
    · exact Or.inr ⟨hnone, before, frame, found, bytes, result, htake, hunderstood.mono call, hrest⟩
  few := hside.few
  unread := hside.unread
  pending := by
    intro other
    rw [PendingCalls.mem_insert, hside.pending]
    constructor
    · rintro (⟨⟨index, found, hindex, hunread, rfl⟩, -⟩ | rfl)
      · exact ⟨index, found, getElem?_append_of_eq_some hindex _, hunread, rfl⟩
      · refine ⟨calls.length, call, List.getElem?_concat_length, fun hread ↦ ?_, rfl⟩
        obtain ⟨frame, hframe, hposition⟩ := List.mem_map.mp hread
        exact absurd (hwritten frame (List.mem_of_mem_take hframe)) (by omega)
    · rintro ⟨index, found, hindex, hunread, rfl⟩
      rcases getElem?_append_singleton_eq_some hindex with hold | ⟨rfl, rfl⟩
      · refine Or.inl ⟨⟨index, found, hold, hunread, rfl⟩, fun hseq ↦ ?_⟩
        have hlt := (List.getElem?_eq_some_iff.mp hold).1
        exact absurd (seqOf_injective (hlt.trans hbound) hbound hseq) (by omega)
      · exact Or.inr rfl
  results := by
    intro completion hcompletion
    obtain ⟨frame, hframe, found, bytes, result, hunderstood, hrest⟩ :=
      hside.results completion hcompletion
    exact ⟨frame, hframe, found, bytes, result, hunderstood.mono call, hrest⟩

/-- One more reply is on the way to the client. -/
theorem ClientSide.receive (hside : ClientSide environment calls written read client) (index : ℕ)
    {msg : RpcMessage} (htravels : Travels environment msg) :
    ∃ wire, encode environment.marshalMessage msg = .ok wire ∧
      ClientSide environment calls (written ++ [(index, msg)]) read
        { client with codec := client.codec.receive wire } := by
  obtain ⟨wire, hencode, hcarries⟩ := hside.unread.append htravels
  have htake : (written ++ [(index, msg)]).take read = written.take read :=
    List.take_append_of_le_length hside.few
  refine ⟨wire, hencode, ?_⟩
  exact {
    loop := by
      rw [htake]
      rcases hside.loop with ⟨hheader, hcompleted⟩ | ⟨hnone, hbody⟩
      · exact Or.inl ⟨⟨hheader.noPanic, hheader.phase, hheader.payload⟩, hcompleted⟩
      · exact Or.inr ⟨hnone, hbody⟩
    few := by
      rw [List.length_append]
      exact hside.few.trans (Nat.le_add_right _ _)
    unread := by
      rw [List.drop_append_of_le_length hside.few, List.map_append]
      exact hcarries
    pending := by
      rw [htake]
      exact hside.pending
    results := by
      intro completion hcompletion
      obtain ⟨frame, hframe, hrest⟩ := hside.results completion hcompletion
      exact ⟨frame, List.mem_append_left _ hframe, hrest⟩ }

/-- When nothing more happens on the client, every reply was read, and its call is done. -/
theorem ClientSide.all_done (hside : ClientSide environment calls written read client)
    (hunderstood : ∀ frame ∈ written, ∃ call bytes result,
      Understood calls frame call bytes result)
    (honce : (written.map Prod.fst).Nodup) (hbound : calls.length ≤ 2 ^ 64)
    (hquiet : ∀ action, clientStep stops environment.unmarshal client action = none) :
    read = written.length ∧
      client.completed.map Completion.seq = written.map fun frame ↦ seqOf frame.1 := by
  rcases hside.loop with ⟨hheader, hcompleted⟩ | hreply
  · rcases hside.next_header stops hunderstood honce hbound hheader hcompleted with
      ⟨-, hread⟩ | ⟨next, hstep, -⟩
    · refine ⟨hread, ?_⟩
      rw [hcompleted, hread, List.take_length]
    · rw [hquiet] at hstep
      cases hstep
  · obtain ⟨next, hstep, -⟩ := hside.next_body stops hreply
    rw [hquiet] at hstep
    cases hstep

end ClientSteps

end MuduoProtorpc.GoRpc
