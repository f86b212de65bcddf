import MuduoProtorpc.CppChannel.ClientCalls

/-!
# What a C++ RpcChannel guarantees its callers

`ClientHistory` ties a state of a channel's client side to the actions that led to it: the table
holds a call exactly when its entry was stored and no RESPONSE with its id was processed since, and
every body in the hands of the I/O thread or given to a callback came in a RESPONSE with the id of
the call. `ClientGuarantees` is what follows for the callers, after any run with fewer than
`2 ^ 63` calls (`clientGuarantees_of_run`).

A peer that answers every request it receives once finds an entry for each answer. A peer that
answers a request again does not, the second time (`not_every_answer_finds_its_entry`).
-/

set_option autoImplicit false
set_option relaxedAutoImplicit false

namespace MuduoProtorpc.CppChannel

open Foundation

variable {Prototype Message Done Connection : Type}

/-! ### The invariant of the runs -/

/-- What the actions taken so far say about a channel's client side. -/
structure ClientHistory (protobuf : Protobuf Prototype Message)
    (actions : List (ClientAction Prototype Message Done Connection))
    (client : Client Prototype Message Done Connection) : Prop where
  inserted : ∀ index, (∃ call, client.calls[index]? = some call ∧ call.phase ≠ .idTaken) ↔
    ∃ action ∈ actions, IsInsert index action
  stored : ∀ id out, client.outstandings.find id = some out ↔
    ∃ index call, client.calls[index]? = some call ∧ call.id = id ∧ call.out = out ∧
      Since (IsInsert index) (IsResponse id) actions
  handled : ∀ received ∈ client.handling, ∃ message, .onRpcMessage message ∈ actions ∧
    message.getType = .response ∧ message.getId = received.id ∧
      message.getResponse = received.body
  ran : ∀ run ∈ client.runs, ∃ message prototype, .onRpcMessage message ∈ actions ∧
    message.getType = .response ∧ message.getId = run.id ∧
      HasStored client run.id ⟨some prototype, some run.done⟩ ∧
        run.response = (protobuf.parseFromString prototype message.getResponse).1

section History

variable {protobuf : Protobuf Prototype Message}
  {client next : Client Prototype Message Done Connection}
  {actions : List (ClientAction Prototype Message Done Connection)}

theorem clientHistory_initial (connection : Connection) :
    ClientHistory protobuf []
      (Client.initial connection : Client Prototype Message Done Connection) where
  inserted := by simp [Client.initial]
  stored := by simp [Client.initial]
  handled := by simp [Client.initial]
  ran := by simp [Client.initial]

/-- A call is past storing its entry exactly when an action stored it. -/
theorem ClientHistory.inserted_step {action : ClientAction Prototype Message Done Connection}
    (hhistory : ClientHistory protobuf actions client)
    (hstep : clientStep protobuf client action = some next) (index : ℕ) :
    (∃ call, next.calls[index]? = some call ∧ call.phase ≠ .idTaken) ↔
      ∃ taken ∈ actions ++ [action], IsInsert index taken := by
  constructor
  · rintro ⟨call, hcall, hphase⟩
    rcases call_of_step hstep hcall with ⟨old, phase, hold, rfl, hmove⟩ | ⟨-, _, _, _, _, -, rfl⟩
    · by_cases hinsert : IsInsert index action
      · exact ⟨action, by simp, hinsert⟩
      · have hstarted : old.phase ≠ .idTaken := by
          rcases hmove with rfl | ⟨hnew, -⟩ | ⟨hinserted, -⟩
          · exact hphase
          · exact absurd hnew hinsert
          · simp [hinserted]
        obtain ⟨taken, htaken, hinsert⟩ := (hhistory.inserted index).mp ⟨old, hold, hstarted⟩
        exact ⟨taken, List.mem_append_left _ htaken, hinsert⟩
    · exact absurd rfl hphase
  · rintro ⟨taken, htaken, hinsert⟩
    rcases List.mem_append.mp htaken with hold | hnew
    · obtain ⟨call, hcall, hphase⟩ := (hhistory.inserted index).mpr ⟨taken, hold, hinsert⟩
      obtain ⟨phase, hmoved, hmove⟩ := call_after_step hstep hcall
      refine ⟨_, hmoved, ?_⟩
      rcases hmove with rfl | ⟨-, -, rfl⟩ | ⟨-, rfl⟩
      · exact hphase
      · simp
      · simp
    · rw [List.mem_singleton.mp hnew] at hinsert
      obtain ⟨call, -, -, hcall, -⟩ := call_of_isInsert hstep hinsert
      exact ⟨_, hcall, by simp⟩

/-- What the table holds after a step: the entry the action stored, or an entry that was there and
that the action neither took out nor overwrote. -/
theorem find_of_step {action : ClientAction Prototype Message Done Connection}
    (hstep : clientStep protobuf client action = some next) (id : BitVec 64)
    (out : OutstandingCall Prototype Done) :
    next.outstandings.find id = some out ↔
      (∃ index call, IsInsert index action ∧ client.calls[index]? = some call ∧ call.id = id ∧
        call.out = out) ∨
      (client.outstandings.find id = some out ∧ ¬ IsResponse id action ∧
        ∀ index call, IsInsert index action → client.calls[index]? = some call → call.id ≠ id) := by
  cases action with
  | callMethodInsert moved =>
    obtain ⟨call, hcall, -, rfl⟩ := callMethodInsert_eq_some hstep
    rw [Table.find_insert_eq_some]
    constructor
    · rintro (⟨rfl, rfl⟩ | ⟨hne, hold⟩)
      · exact Or.inl ⟨moved, call, rfl, hcall, rfl, rfl⟩
      · refine Or.inr ⟨hold, fun h ↦ h, fun index other hinsert hother heq ↦ hne ?_⟩
        obtain rfl : moved = index := hinsert
        rw [hcall] at hother
        cases hother
        exact heq.symm
    · rintro (⟨index, other, hinsert, hother, rfl, rfl⟩ | ⟨hold, -, hfree⟩)
      · obtain rfl : moved = index := hinsert
        rw [hcall] at hother
        cases hother
        exact Or.inl ⟨rfl, rfl⟩
      · exact Or.inr ⟨(hfree moved call rfl hcall).symm, hold⟩
  | onRpcMessage message =>
    cases hstep
    by_cases htype : message.getType = .response
    · rw [if_pos htype, find_onResponse]
      by_cases hid : id = message.getId
      · simp [IsInsert, IsResponse, htype, hid]
      · simp [IsInsert, IsResponse, htype, hid, Ne.symm hid]
    · simp [IsInsert, IsResponse, htype]
  | callMethodSend moved =>
    obtain ⟨_, _, _, rfl⟩ := callMethodSend_eq_some hstep
    simp [IsInsert, IsResponse]
  | callMethodId method request response done =>
    cases hstep
    simp [IsInsert, IsResponse, Client.callMethodId]
  | setConnection connection =>
    cases hstep
    simp [IsInsert, IsResponse, Client.setConnection]
  | runDone moved =>
    obtain ⟨_, _, rfl | ⟨_, _, _, rfl⟩⟩ := runDone_eq_some hstep <;> simp [IsInsert, IsResponse]

/-- The table holds the calls whose entry was stored and for whose id no RESPONSE was processed
since. -/
theorem ClientHistory.stored_step {action : ClientAction Prototype Message Done Connection}
    (hhistory : ClientHistory protobuf actions client) (hinvariant : ClientInvariant client)
    (hbound : client.calls.length < 2 ^ 64)
    (hstep : clientStep protobuf client action = some next) (id : BitVec 64)
    (out : OutstandingCall Prototype Done) :
    next.outstandings.find id = some out ↔
      ∃ index call, next.calls[index]? = some call ∧ call.id = id ∧ call.out = out ∧
        Since (IsInsert index) (IsResponse id) (actions ++ [action]) := by
  rw [find_of_step hstep]
  simp only [since_append_singleton]
  constructor
  · rintro (⟨index, call, hinsert, hcall, rfl, rfl⟩ | ⟨hold, hresponse, -⟩)
    · obtain ⟨_, hmoved, -⟩ := call_after_step hstep hcall
      exact ⟨index, _, hmoved, rfl, rfl, Or.inl hinsert⟩
    · obtain ⟨index, call, hcall, rfl, rfl, hsince⟩ := (hhistory.stored id out).mp hold
      obtain ⟨_, hmoved, -⟩ := call_after_step hstep hcall
      exact ⟨index, _, hmoved, rfl, rfl, Or.inr ⟨hsince, hresponse⟩⟩
  · rintro ⟨index, moved, hmoved, rfl, rfl, hinsert | ⟨hsince, hresponse⟩⟩
    · obtain ⟨call, hcall, -, hnext, -⟩ := call_of_isInsert hstep hinsert
      rw [hmoved] at hnext
      cases hnext
      exact Or.inl ⟨index, call, hinsert, hcall, rfl, rfl⟩
    · obtain ⟨call, hcall, hstarted⟩ := (hhistory.inserted index).mpr hsince.exists_mem
      obtain ⟨_, hother, -⟩ := call_after_step hstep hcall
      rw [hmoved] at hother
      cases hother
      refine Or.inr ⟨(hhistory.stored _ _).mpr ⟨index, call, hcall, rfl, rfl, hsince⟩,
        hresponse, fun overwriting overwriter hoverwrite hfound heq ↦ ?_⟩
      obtain ⟨same, hsame, hidTaken, -⟩ := call_of_isInsert hstep hoverwrite
      obtain rfl := hinvariant.index_eq hbound hfound hcall heq
      rw [hcall] at hsame
      cases hsame
      exact hstarted hidTaken

/-- Every body in the hands of the I/O thread is that of a RESPONSE with the same id. -/
theorem ClientHistory.handled_step {action : ClientAction Prototype Message Done Connection}
    (hhistory : ClientHistory protobuf actions client)
    (hstep : clientStep protobuf client action = some next) (received : Received Prototype Done)
    (hreceived : received ∈ next.handling) :
    ∃ message, .onRpcMessage message ∈ actions ++ [action] ∧ message.getType = .response ∧
      message.getId = received.id ∧ message.getResponse = received.body := by
  have hkeep : received ∈ client.handling → ∃ message, .onRpcMessage message ∈ actions ++ [action] ∧
      message.getType = .response ∧ message.getId = received.id ∧
        message.getResponse = received.body := by
    intro hold
    obtain ⟨message, hmem, hrest⟩ := hhistory.handled received hold
    exact ⟨message, List.mem_append_left _ hmem, hrest⟩
  cases action with
  | onRpcMessage message =>
    cases hstep
    split_ifs at hreceived with htype
    · cases hfind : client.outstandings.find message.getId with
      | none => exact hkeep (by rwa [onResponse_of_find_eq_none hfind] at hreceived)
      | some out =>
        rw [onResponse_of_find_eq_some hfind] at hreceived
        rcases List.mem_append.mp hreceived with hold | hnew
        · exact hkeep hold
        · rw [List.mem_singleton.mp hnew]
          exact ⟨message, by simp, htype, rfl, rfl⟩
    · exact hkeep hreceived
  | callMethodId method request response done =>
    cases hstep
    exact hkeep hreceived
  | callMethodInsert moved =>
    obtain ⟨_, _, _, rfl⟩ := callMethodInsert_eq_some hstep
    exact hkeep hreceived
  | callMethodSend moved =>
    obtain ⟨_, _, _, rfl⟩ := callMethodSend_eq_some hstep
    exact hkeep hreceived
  | setConnection connection =>
    cases hstep
    exact hkeep hreceived
  | runDone moved =>
    obtain ⟨_, _, rfl | ⟨_, _, _, rfl⟩⟩ := runDone_eq_some hstep <;>
      exact hkeep (List.mem_of_mem_eraseIdx hreceived)

/-- Every callback run so far was run with the body of a RESPONSE with the id of its call. -/
theorem ClientHistory.ran_step {action : ClientAction Prototype Message Done Connection}
    (hhistory : ClientHistory protobuf actions client) (hinvariant : ClientInvariant client)
    (hstep : clientStep protobuf client action = some next) (run : DoneRun Message Done)
    (hrun : run ∈ next.runs) :
    ∃ message prototype, .onRpcMessage message ∈ actions ++ [action] ∧
      message.getType = .response ∧ message.getId = run.id ∧
        HasStored next run.id ⟨some prototype, some run.done⟩ ∧
          run.response = (protobuf.parseFromString prototype message.getResponse).1 := by
  have hkeep : run ∈ client.runs → ∃ message prototype,
      .onRpcMessage message ∈ actions ++ [action] ∧ message.getType = .response ∧
        message.getId = run.id ∧ HasStored next run.id ⟨some prototype, some run.done⟩ ∧
          run.response = (protobuf.parseFromString prototype message.getResponse).1 := by
    intro hold
    obtain ⟨message, prototype, hmem, htype, hid, hstored, hresponse⟩ := hhistory.ran run hold
    exact ⟨message, prototype, List.mem_append_left _ hmem, htype, hid, hstored.step hstep,
      hresponse⟩
  cases action with
  | runDone moved =>
    have hstepped := hstep
    obtain ⟨received, hreceived, rfl | ⟨prototype, done, hout, rfl⟩⟩ := runDone_eq_some hstep
    · exact hkeep hrun
    · rcases List.mem_append.mp hrun with hold | hnew
      · exact hkeep hold
      · rw [List.mem_singleton.mp hnew]
        have hmem : received ∈ client.handling := List.mem_of_getElem? hreceived
        obtain ⟨message, hmessage, htype, hid, hbody⟩ := hhistory.handled received hmem
        have hstored := (hinvariant.handled received hmem).2.step hstepped
        rw [hout] at hstored
        exact ⟨message, prototype, List.mem_append_left _ hmessage, htype, hid, hstored,
          by rw [hbody]⟩
  | onRpcMessage message =>
    refine hkeep ?_
    cases hstep
    split_ifs at hrun
    · rwa [runs_onResponse] at hrun
    · exact hrun
  | callMethodId method request response done =>
    refine hkeep ?_
    cases hstep
    exact hrun
  | callMethodInsert moved =>
    refine hkeep ?_
    obtain ⟨_, _, _, rfl⟩ := callMethodInsert_eq_some hstep
    exact hrun
  | callMethodSend moved =>
    refine hkeep ?_
    obtain ⟨_, _, _, rfl⟩ := callMethodSend_eq_some hstep
    exact hrun
  | setConnection connection =>
    refine hkeep ?_
    cases hstep
    exact hrun

/-- The invariants of states and of runs, after every run with fewer than `2 ^ 64` calls. -/
theorem clientInvariant_and_history_of_run {connection : Connection}
    (hrun : (clientSystem protobuf connection).Run actions client)
    (hbound : client.calls.length < 2 ^ 64) :
    ClientInvariant client ∧ ClientHistory protobuf actions client := by
  revert hbound
  apply hrun.historyInvariant
  · intro _
    exact ⟨clientInvariant_initial connection, clientHistory_initial connection⟩
  · intro actions client action next _ hstep ih hbound
    have hbefore : client.calls.length < 2 ^ 64 := (length_calls_le hstep).trans_lt hbound
    obtain ⟨hinvariant, hhistory⟩ := ih hbefore
    exact ⟨hinvariant.step hbefore hstep, {
      inserted := hhistory.inserted_step hstep
      stored := hhistory.stored_step hinvariant hbefore hstep
      handled := hhistory.handled_step hstep
      ran := hhistory.ran_step hinvariant hstep }⟩

end History

/-! ### What a channel guarantees its callers -/

/-- What a run of a channel's client side guarantees. -/
structure ClientGuarantees (protobuf : Protobuf Prototype Message)
    (actions : List (ClientAction Prototype Message Done Connection))
    (client : Client Prototype Message Done Connection) : Prop where
  /-- No two calls share an id. -/
  idsDistinct : ∀ (first second : ℕ) firstCall secondCall, client.calls[first]? = some firstCall →
    client.calls[second]? = some secondCall → firstCall.id = secondCall.id → first = second
  /-- The table holds the calls whose entry was stored and for whose id no RESPONSE was processed
  since, each with its own response prototype and callback. -/
  storedIff : ∀ id out, client.outstandings.find id = some out ↔
    ∃ (index : ℕ) (call : CallFrame Prototype Message Done),
      client.calls[index]? = some call ∧ call.id = id ∧ call.out = out ∧
        Since (IsInsert index) (IsResponse id) actions
  /-- The callback of a call runs at most once. -/
  doneAtMostOnce : ∀ call ∈ client.calls, (client.runs.map DoneRun.id).count call.id ≤ 1
  /-- A callback that runs is that of a call, with the body of a RESPONSE with its id. -/
  doneOfResponse : ∀ run ∈ client.runs, ∃ call ∈ client.calls,
    ∃ (prototype : Prototype) (message : RpcMessage),
      call.id = run.id ∧ call.out = ⟨some prototype, some run.done⟩ ∧
        .onRpcMessage message ∈ actions ∧ message.getType = .response ∧ message.getId = run.id ∧
          run.response = (protobuf.parseFromString prototype message.getResponse).1
  /-- A RESPONSE whose id is not in the table changes nothing and runs no callback. -/
  unknownResponse : ∀ message : RpcMessage, message.getType = .response →
    client.outstandings.find message.getId = none →
      clientStep protobuf client (.onRpcMessage message) = some client
  /-- A RESPONSE to a REQUEST that was sent finds the entry of its call, if it is the first. -/
  firstAnswerFound : ∀ message : RpcMessage, message.getType = .response →
    ∀ call ∈ client.calls, call.phase = .sent → call.id = message.getId →
      (∀ earlier ∈ actions, ¬ IsResponse message.getId earlier) →
        client.outstandings.find message.getId = some call.out

section Guarantees

variable {protobuf : Protobuf Prototype Message} {connection : Connection}
  {client : Client Prototype Message Done Connection}
  {actions : List (ClientAction Prototype Message Done Connection)}

/-- A call past storing its entry, for whose id no RESPONSE was processed, is in the table. -/
theorem ClientHistory.find_of_unanswered (hhistory : ClientHistory protobuf actions client)
    {call : CallFrame Prototype Message Done} (hmem : call ∈ client.calls)
    (hphase : call.phase ≠ .idTaken) (hclear : ∀ earlier ∈ actions, ¬ IsResponse call.id earlier) :
    client.outstandings.find call.id = some call.out := by
  obtain ⟨index, hcall⟩ := List.mem_iff_getElem?.mp hmem
  obtain ⟨inserting, hinserting, hinsert⟩ := (hhistory.inserted index).mp ⟨call, hcall, hphase⟩
  exact (hhistory.stored _ _).mpr
    ⟨index, call, hcall, rfl, rfl, since_of_forall_not hinserting hinsert hclear⟩

/-- A run with fewer than `2 ^ 63` calls guarantees its callers: distinct ids, a table of exactly
the unanswered calls, callbacks that run at most once and on an answer to their own call, no effect
of a RESPONSE without entry, and an entry for the first answer to every REQUEST sent. -/
theorem clientGuarantees_of_run (hrun : (clientSystem protobuf connection).Run actions client)
    (hbound : client.calls.length < 2 ^ 63) : ClientGuarantees protobuf actions client := by
  have hwide : client.calls.length < 2 ^ 64 := hbound.trans (by decide)
  obtain ⟨hinvariant, hhistory⟩ := clientInvariant_and_history_of_run hrun hwide
  exact {
    idsDistinct := fun first second firstCall secondCall hfirst hsecond heq ↦
      hinvariant.index_eq hwide hfirst hsecond heq
    storedIff := hhistory.stored
    doneAtMostOnce := fun call _ ↦
      List.nodup_iff_count_le_one.mp (List.nodup_append.mp hinvariant.answeredOnce).2.1 call.id
    doneOfResponse := by
      intro run hrun
      obtain ⟨message, prototype, hmessage, htype, hid, hstored, hresponse⟩ := hhistory.ran run hrun
      obtain ⟨index, call, hcall, hcallId, hout, -⟩ := hstored
      exact ⟨call, List.mem_of_getElem? hcall, prototype, message, hcallId, hout, hmessage, htype,
        hid, hresponse⟩
    unknownResponse := fun message htype hnone ↦ by
      simp only [clientStep, htype, if_true, onResponse_of_find_eq_none hnone]
    firstAnswerFound := by
      intro message _ call hcall hphase hid hclear
      rw [← hid] at hclear ⊢
      exact hhistory.find_of_unanswered hcall (by simp [hphase]) hclear }

end Guarantees

/-! ### One call, answered once and twice -/

/-- One call of a method, up to the sending of its REQUEST. -/
def oneCall : List (ClientAction Unit Unit Unit Unit) :=
  [.callMethodId ⟨"s", "m", (), ()⟩ () (some ()) (some ()), .callMethodInsert 0, .callMethodSend 0]

/-- The RESPONSE to that call. -/
def oneAnswer : RpcMessage :=
  { type := some .response, id := some 1, response := some [] }

/-- The guarantees of a run in which one call is answered and its callback run. -/
theorem clientGuarantees_oneCall : ∃ client,
    (clientSystem unitProtobuf ()).Run (oneCall ++ [.onRpcMessage oneAnswer, .runDone 0]) client ∧
      ClientGuarantees unitProtobuf (oneCall ++ [.onRpcMessage oneAnswer, .runDone 0]) client := by
  have hrun : (clientSystem unitProtobuf ()).Run
      (oneCall ++ [.onRpcMessage oneAnswer, .runDone 0]) _ := .of_execute rfl
  exact ⟨_, hrun, clientGuarantees_of_run hrun (by decide)⟩

/-- The peer only answers requests it has received: a RESPONSE has the id of a call whose REQUEST
was sent. -/
def AnswersReceived (client : Client Prototype Message Done Connection) :
    ClientAction Prototype Message Done Connection → Prop
  | .onRpcMessage message => ∃ call ∈ client.calls, call.phase = .sent ∧ call.id = message.getId
  | _ => True

/-- A peer that answers a request twice answers only requests it has received, and its second
RESPONSE finds no entry. -/
theorem not_every_answer_finds_its_entry :
    ¬ ∀ (actions : List (ClientAction Unit Unit Unit Unit)) (client : Client Unit Unit Unit Unit),
      (clientSystem unitProtobuf ()).RunWhen AnswersReceived actions client →
        client.calls.length < 2 ^ 63 →
          ∀ message, message.getType = .response → AnswersReceived client (.onRpcMessage message) →
            (client.outstandings.find message.getId).isSome := by
  intro hall
  have hsent : (clientSystem unitProtobuf ()).RunWhen AnswersReceived oneCall _ :=
    .step (.step (.step .start trivial rfl) trivial rfl) trivial rfl
  have hanswered : (clientSystem unitProtobuf ()).RunWhen AnswersReceived
      (oneCall ++ [.onRpcMessage oneAnswer]) _ := .step hsent ⟨_, .head _, rfl, rfl⟩ rfl
  have hfound := hall _ _ hanswered (by decide) oneAnswer rfl ⟨_, .head _, rfl, rfl⟩
  cases hfound

end MuduoProtorpc.CppChannel
