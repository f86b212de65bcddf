import MuduoProtorpc.CppChannel.RpcChannel
import MuduoProtorpc.Foundation.TransitionSystem

/-!
# Calls in flight on a C++ RpcChannel

The client side of `RpcChannel` as a transition system: any number of threads inside `CallMethod`,
calls of `setConnection`, and any incoming messages, in any order (`clientSystem`).

`ClientInvariant` holds in every state a run reaches with fewer than `2 ^ 64` calls: the ids are
consecutive draws of the counter, everything in the table, in the hands of the I/O thread or in the
record of callbacks belongs to a call that stored its entry, and no id is in two of these places.
-/

set_option autoImplicit false
set_option relaxedAutoImplicit false

namespace MuduoProtorpc.CppChannel

open Foundation

variable {Prototype Message Done Connection : Type}

/-! ### The transition system -/

/-- What can happen next on the client side of a channel. -/
inductive ClientAction (Prototype Message Done Connection : Type)
  | callMethodId (method : MethodDescriptor Prototype) (request : Message)
      (response : Option Prototype) (done : Option Done)
  | callMethodInsert (index : ℕ)
  | callMethodSend (index : ℕ)
  | setConnection (connection : Connection)
  | onRpcMessage (message : RpcMessage)
  | runDone (index : ℕ)

/-- One step of the client side. A REQUEST and an ERROR leave it as it is. -/
def clientStep (protobuf : Protobuf Prototype Message)
    (client : Client Prototype Message Done Connection) :
    ClientAction Prototype Message Done Connection →
      Option (Client Prototype Message Done Connection)
  | .callMethodId method request response done =>
    some (client.callMethodId protobuf method request response done)
  | .callMethodInsert index => client.callMethodInsert index
  | .callMethodSend index => client.callMethodSend index
  | .setConnection connection => some (client.setConnection connection)
  | .onRpcMessage message =>
    some (if message.getType = .response then client.onResponse message else client)
  | .runDone index => client.runDone protobuf index

/-- A channel constructed on a connection, and all that can happen to its client side. -/
def clientSystem (protobuf : Protobuf Prototype Message) (connection : Connection) :
    TransitionSystem (Client Prototype Message Done Connection)
      (ClientAction Prototype Message Done Connection) where
  start := Client.initial connection
  step := clientStep protobuf

/-- The action processes a RESPONSE with this id. -/
def IsResponse (id : BitVec 64) : ClientAction Prototype Message Done Connection → Prop
  | .onRpcMessage message => message.getType = .response ∧ message.getId = id
  | _ => False

/-- The action stores the entry of this call. -/
def IsInsert (index : ℕ) : ClientAction Prototype Message Done Connection → Prop
  | .callMethodInsert other => other = index
  | _ => False

/-! ### What each step does -/

section Steps

variable {protobuf : Protobuf Prototype Message}
  {client next : Client Prototype Message Done Connection} {index : ℕ}

theorem callMethodInsert_eq_some (hstep : client.callMethodInsert index = some next) :
    ∃ call, client.calls[index]? = some call ∧ call.phase = .idTaken ∧
      next = { client with
        outstandings := client.outstandings.insert call.id call.out
        calls := client.advance index .inserted } := by
  unfold Client.callMethodInsert at hstep
  split at hstep
  · cases hstep
  · rename_i call hcall
    split_ifs at hstep with hphase
    exact ⟨call, hcall, hphase, (Option.some.inj hstep).symm⟩

theorem callMethodSend_eq_some (hstep : client.callMethodSend index = some next) :
    ∃ call, client.calls[index]? = some call ∧ call.phase = .inserted ∧
      next = { client with
        sent := client.sent ++ [(client.connection, call.message)]
        calls := client.advance index .sent } := by
  unfold Client.callMethodSend at hstep
  split at hstep
  · cases hstep
  · rename_i call hcall
    split_ifs at hstep with hphase
    exact ⟨call, hcall, hphase, (Option.some.inj hstep).symm⟩

/-- The I/O thread drops an entry with a null pointer, or runs the callback of the entry. -/
theorem runDone_eq_some {protobuf : Protobuf Prototype Message}
    (hstep : client.runDone protobuf index = some next) :
    ∃ received, client.handling[index]? = some received ∧
      (next = { client with handling := client.handling.eraseIdx index } ∨
        ∃ prototype done, received.out = ⟨some prototype, some done⟩ ∧
          next = { client with
            handling := client.handling.eraseIdx index
            runs := client.runs ++ [{
              id := received.id
              done := done
              response := (protobuf.parseFromString prototype received.body).1 }] }) := by
  unfold Client.runDone at hstep
  split at hstep
  · cases hstep
  · rename_i received hreceived
    refine ⟨received, hreceived, ?_⟩
    dsimp only at hstep
    split at hstep
    · rename_i prototype done hprototype hdone
      refine Or.inr ⟨prototype, done, ?_, (Option.some.inj hstep).symm⟩
      cases hout : received.out
      simp_all
    · exact Or.inl (Option.some.inj hstep).symm

/-- After a RESPONSE the table has no entry with its id, and the other entries as before. -/
theorem find_onResponse (message : RpcMessage) (id : BitVec 64) :
    (client.onResponse message).outstandings.find id =
      if id = message.getId then none else client.outstandings.find id := by
  unfold Client.onResponse
  split
  · rename_i hnone
    split_ifs with heq
    · rw [heq, hnone]
    · rfl
  · rw [Table.find_erase]

/-- A RESPONSE whose id is not in the table changes nothing. -/
theorem onResponse_of_find_eq_none {message : RpcMessage}
    (hnone : client.outstandings.find message.getId = none) :
    client.onResponse message = client := by
  unfold Client.onResponse
  rw [hnone]

/-- A RESPONSE whose id is in the table moves the entry to the hands of the I/O thread. -/
theorem onResponse_of_find_eq_some {message : RpcMessage} {out : OutstandingCall Prototype Done}
    (hsome : client.outstandings.find message.getId = some out) :
    client.onResponse message = { client with
      outstandings := client.outstandings.erase message.getId
      handling := client.handling ++
        [{ id := message.getId, out := out, body := message.getResponse }] } := by
  unfold Client.onResponse
  rw [hsome]

@[simp] theorem calls_onResponse (message : RpcMessage) :
    (client.onResponse message).calls = client.calls := by
  unfold Client.onResponse
  split <;> rfl

@[simp] theorem runs_onResponse (message : RpcMessage) :
    (client.onResponse message).runs = client.runs := by
  unfold Client.onResponse
  split <;> rfl

@[simp] theorem id_onResponse (message : RpcMessage) :
    (client.onResponse message).id = client.id := by
  unfold Client.onResponse
  split <;> rfl

/-- An activation after one of them moved on. -/
theorem getElem?_advance (phase : CallPhase) (other : ℕ) :
    (client.advance index phase)[other]? =
      client.calls[other]?.map fun call ↦
        if index = other then { call with phase := phase } else call := by
  rw [Client.advance, List.getElem?_modify]
  rfl

@[simp] theorem length_advance (phase : CallPhase) :
    (client.advance index phase).length = client.calls.length :=
  List.length_modify ..

/-- Every step but `callMethodId` keeps the number of calls, and `callMethodId` adds one. -/
theorem length_calls_le {protobuf : Protobuf Prototype Message}
    {action : ClientAction Prototype Message Done Connection}
    (hstep : clientStep protobuf client action = some next) :
    client.calls.length ≤ next.calls.length := by
  cases action with
  | callMethodId method request response done =>
    cases hstep
    simp [Client.callMethodId]
  | callMethodInsert index =>
    obtain ⟨_, _, _, rfl⟩ := callMethodInsert_eq_some hstep
    simp
  | callMethodSend index =>
    obtain ⟨_, _, _, rfl⟩ := callMethodSend_eq_some hstep
    simp
  | setConnection connection =>
    cases hstep
    exact le_rfl
  | onRpcMessage message =>
    cases hstep
    split_ifs <;> simp
  | runDone index =>
    obtain ⟨_, _, rfl | ⟨_, _, _, rfl⟩⟩ := runDone_eq_some hstep <;> exact le_rfl

/-- A call found before a step is found after it, perhaps in its next phase. -/
theorem call_after_step {action : ClientAction Prototype Message Done Connection}
    (hstep : clientStep protobuf client action = some next) {index : ℕ}
    {call : CallFrame Prototype Message Done} (hcall : client.calls[index]? = some call) :
    ∃ phase, next.calls[index]? = some { call with phase := phase } ∧
      (phase = call.phase ∨ (IsInsert index action ∧ call.phase = .idTaken ∧ phase = .inserted) ∨
        (call.phase = .inserted ∧ phase = .sent)) := by
  cases action with
  | callMethodId method request response done =>
    cases hstep
    have hlt : index < client.calls.length := (List.getElem?_eq_some_iff.mp hcall).1
    refine ⟨call.phase, ?_, Or.inl rfl⟩
    simp only [Client.callMethodId, List.getElem?_append_left hlt, hcall]
  | callMethodInsert moved =>
    obtain ⟨moving, hmoving, hphase, rfl⟩ := callMethodInsert_eq_some hstep
    by_cases heq : moved = index
    · subst heq
      obtain rfl : moving = call := Option.some.inj (hmoving.symm.trans hcall)
      exact ⟨.inserted, by simp [getElem?_advance, hcall], Or.inr (Or.inl ⟨rfl, hphase, rfl⟩)⟩
    · exact ⟨call.phase, by simp [getElem?_advance, hcall, heq], Or.inl rfl⟩
  | callMethodSend moved =>
    obtain ⟨moving, hmoving, hphase, rfl⟩ := callMethodSend_eq_some hstep
    by_cases heq : moved = index
    · subst heq
      obtain rfl : moving = call := Option.some.inj (hmoving.symm.trans hcall)
      exact ⟨.sent, by simp [getElem?_advance, hcall], Or.inr (Or.inr ⟨hphase, rfl⟩)⟩
    · exact ⟨call.phase, by simp [getElem?_advance, hcall, heq], Or.inl rfl⟩
  | setConnection connection =>
    cases hstep
    exact ⟨call.phase, hcall, Or.inl rfl⟩
  | onRpcMessage message =>
    cases hstep
    refine ⟨call.phase, ?_, Or.inl rfl⟩
    split_ifs
    · rwa [calls_onResponse]
    · exact hcall
  | runDone moved =>
    obtain ⟨_, _, rfl | ⟨_, _, _, rfl⟩⟩ := runDone_eq_some hstep <;>
      exact ⟨call.phase, hcall, Or.inl rfl⟩

/-- A call whose REQUEST was sent stays as it is. -/
theorem sent_call_after_step {action : ClientAction Prototype Message Done Connection}
    (hstep : clientStep protobuf client action = some next) {index : ℕ}
    {call : CallFrame Prototype Message Done} (hcall : client.calls[index]? = some call)
    (hsent : call.phase = .sent) : next.calls[index]? = some call := by
  obtain ⟨phase, hmoved, hphase⟩ := call_after_step hstep hcall
  rw [hsent] at hphase
  rcases hphase with rfl | ⟨-, hne, -⟩ | ⟨hne, -⟩
  · rw [hmoved, ← hsent]
  · cases hne
  · cases hne

/-- A call found after a step was found before it, unless the action started it. -/
theorem call_of_step {action : ClientAction Prototype Message Done Connection}
    (hstep : clientStep protobuf client action = some next) {index : ℕ}
    {call : CallFrame Prototype Message Done} (hcall : next.calls[index]? = some call) :
    (∃ old phase, client.calls[index]? = some old ∧ call = { old with phase := phase } ∧
      (phase = old.phase ∨ (IsInsert index action ∧ old.phase = .idTaken ∧ phase = .inserted) ∨
        (old.phase = .inserted ∧ phase = .sent))) ∨
      (index = client.calls.length ∧ ∃ method request response done,
        action = .callMethodId method request response done ∧ call = {
          method := method
          request := request
          message := Client.requestMessage protobuf method request (client.id + 1)
          out := { response := response, done := done }
          phase := .idTaken }) := by
  rcases lt_or_ge index client.calls.length with hlt | hge
  · have hold : client.calls[index]? = some client.calls[index] := List.getElem?_eq_getElem hlt
    obtain ⟨phase, hmoved, hphase⟩ := call_after_step hstep hold
    rw [hcall] at hmoved
    exact Or.inl ⟨_, phase, hold, Option.some.inj hmoved, hphase⟩
  · have hlength : index < next.calls.length := (List.getElem?_eq_some_iff.mp hcall).1
    cases action with
    | callMethodId method request response done =>
      cases hstep
      simp only [Client.callMethodId] at hcall hlength
      rw [List.length_append, List.length_singleton] at hlength
      obtain rfl : index = client.calls.length := by omega
      rw [List.getElem?_append_right hge, Nat.sub_self] at hcall
      exact Or.inr ⟨rfl, method, request, response, done, rfl, (Option.some.inj hcall).symm⟩
    | callMethodInsert moved =>
      obtain ⟨_, _, _, rfl⟩ := callMethodInsert_eq_some hstep
      exact absurd hlength (by simpa using hge)
    | callMethodSend moved =>
      obtain ⟨_, _, _, rfl⟩ := callMethodSend_eq_some hstep
      exact absurd hlength (by simpa using hge)
    | setConnection connection =>
      cases hstep
      exact absurd hlength (by simpa [Client.setConnection] using hge)
    | onRpcMessage message =>
      cases hstep
      split_ifs at hlength
      · exact absurd hlength (by simpa using hge)
      · exact absurd hlength (by simpa using hge)
    | runDone moved =>
      obtain ⟨_, _, rfl | ⟨_, _, _, rfl⟩⟩ := runDone_eq_some hstep <;>
        exact absurd hlength (by simpa using hge)

/-- The action that stores the entry of a call leaves the call stored. -/
theorem call_of_isInsert {action : ClientAction Prototype Message Done Connection}
    (hstep : clientStep protobuf client action = some next) {index : ℕ}
    (hinsert : IsInsert index action) :
    ∃ call, client.calls[index]? = some call ∧ call.phase = .idTaken ∧
      next.calls[index]? = some { call with phase := .inserted } ∧
        next.outstandings = client.outstandings.insert call.id call.out := by
  cases action with
  | callMethodInsert moved =>
    obtain rfl : moved = index := hinsert
    obtain ⟨call, hcall, hphase, rfl⟩ := callMethodInsert_eq_some hstep
    exact ⟨call, hcall, hphase, by simp [getElem?_advance, hcall], rfl⟩
  | _ => exact hinsert.elim

end Steps

/-! ### The invariant of the states -/

/-- A call with this id and table entry has stored the entry, and perhaps moved on. -/
def HasStored (client : Client Prototype Message Done Connection) (id : BitVec 64)
    (out : OutstandingCall Prototype Done) : Prop :=
  ∃ (index : ℕ) (call : CallFrame Prototype Message Done),
    client.calls[index]? = some call ∧ call.id = id ∧ call.out = out ∧ call.phase ≠ .idTaken

/-- What holds of a channel's client side as long as fewer than `2 ^ 64` calls are made. -/
structure ClientInvariant (client : Client Prototype Message Done Connection) : Prop where
  counter : client.id + 1 = drawnId 1 client.calls.length
  callId : ∀ index call, client.calls[index]? = some call → call.id = drawnId 1 index
  stored : ∀ id out, client.outstandings.find id = some out → HasStored client id out
  handled : ∀ received ∈ client.handling,
    client.outstandings.find received.id = none ∧ HasStored client received.id received.out
  ran : ∀ run ∈ client.runs, client.outstandings.find run.id = none ∧
    ∃ prototype, HasStored client run.id ⟨some prototype, some run.done⟩
  answeredOnce : (client.handling.map Received.id ++ client.runs.map DoneRun.id).Nodup

section Invariant

variable {protobuf : Protobuf Prototype Message}
  {client next : Client Prototype Message Done Connection}

/-- Moving an activation on keeps the ids, the entries and what has been stored. -/
theorem HasStored.advance {id : BitVec 64} {out : OutstandingCall Prototype Done} {index : ℕ}
    {phase : CallPhase} (hstored : HasStored client id out) (hphase : phase ≠ .idTaken)
    (hcalls : next.calls = client.advance index phase) : HasStored next id out := by
  obtain ⟨other, call, hcall, rfl, rfl, hother⟩ := hstored
  refine ⟨other, if index = other then { call with phase := phase } else call, ?_, ?_, ?_, ?_⟩
  · rw [hcalls, getElem?_advance, hcall]
    rfl
  · split_ifs <;> rfl
  · split_ifs <;> rfl
  · split_ifs
    · exact hphase
    · exact hother

/-- Drawing another id keeps what has been stored. -/
theorem HasStored.callMethodId {id : BitVec 64} {out : OutstandingCall Prototype Done}
    (hstored : HasStored client id out) (method : MethodDescriptor Prototype) (request : Message)
    (response : Option Prototype) (done : Option Done) :
    HasStored (client.callMethodId protobuf method request response done) id out := by
  obtain ⟨index, call, hcall, hrest⟩ := hstored
  have hlt : index < client.calls.length := (List.getElem?_eq_some_iff.mp hcall).1
  refine ⟨index, call, ?_, hrest⟩
  simp only [Client.callMethodId, List.getElem?_append_left hlt, hcall]

/-- What has been stored stays stored. -/
theorem HasStored.step {id : BitVec 64} {out : OutstandingCall Prototype Done}
    {action : ClientAction Prototype Message Done Connection}
    (hstored : HasStored client id out) (hstep : clientStep protobuf client action = some next) :
    HasStored next id out := by
  cases action with
  | callMethodId method request response done =>
    cases hstep
    exact hstored.callMethodId method request response done
  | callMethodInsert index =>
    obtain ⟨_, _, _, rfl⟩ := callMethodInsert_eq_some hstep
    exact hstored.advance (by decide) rfl
  | callMethodSend index =>
    obtain ⟨_, _, _, rfl⟩ := callMethodSend_eq_some hstep
    exact hstored.advance (by decide) rfl
  | setConnection connection =>
    cases hstep
    exact hstored
  | onRpcMessage message =>
    cases hstep
    split_ifs
    · simpa only [HasStored, calls_onResponse] using hstored
    · exact hstored
  | runDone index =>
    obtain ⟨_, _, rfl | ⟨_, _, _, rfl⟩⟩ := runDone_eq_some hstep <;> exact hstored

/-- Below `2 ^ 64` calls an id belongs to one call. -/
theorem ClientInvariant.index_eq (hinvariant : ClientInvariant client)
    (hbound : client.calls.length < 2 ^ 64) {first second : ℕ}
    {firstCall secondCall : CallFrame Prototype Message Done}
    (hfirst : client.calls[first]? = some firstCall)
    (hsecond : client.calls[second]? = some secondCall) (heq : firstCall.id = secondCall.id) :
    first = second := by
  have hfirstLt : first < client.calls.length := (List.getElem?_eq_some_iff.mp hfirst).1
  have hsecondLt : second < client.calls.length := (List.getElem?_eq_some_iff.mp hsecond).1
  rw [hinvariant.callId first firstCall hfirst, hinvariant.callId second secondCall hsecond] at heq
  exact drawnId_inj 1 (hfirstLt.trans hbound) (hsecondLt.trans hbound) heq

/-- An activation that has not stored its entry has an id that nothing stored has. -/
theorem ClientInvariant.ne_id_of_hasStored (hinvariant : ClientInvariant client)
    (hbound : client.calls.length < 2 ^ 64) {index : ℕ} {call : CallFrame Prototype Message Done}
    (hcall : client.calls[index]? = some call) (hphase : call.phase = .idTaken) {id : BitVec 64}
    {out : OutstandingCall Prototype Done} (hstored : HasStored client id out) : id ≠ call.id := by
  rintro rfl
  obtain ⟨other, stored, hother, hid, -, hstarted⟩ := hstored
  obtain rfl := hinvariant.index_eq hbound hother hcall hid
  rw [hcall] at hother
  obtain rfl := Option.some.inj hother
  exact hstarted hphase

theorem clientInvariant_initial (connection : Connection) :
    ClientInvariant (Client.initial connection : Client Prototype Message Done Connection) where
  counter := by simp [Client.initial]
  callId := by simp [Client.initial]
  stored := by simp [Client.initial]
  handled := by simp [Client.initial]
  ran := by simp [Client.initial]
  answeredOnce := by simp [Client.initial]

/-- Drawing an id keeps the invariant. -/
theorem ClientInvariant.callMethodId (hinvariant : ClientInvariant client)
    (method : MethodDescriptor Prototype) (request : Message) (response : Option Prototype)
    (done : Option Done) :
    ClientInvariant (client.callMethodId protobuf method request response done) := by
  have hkeep : ∀ {id out}, HasStored client id out →
      HasStored (client.callMethodId protobuf method request response done) id out :=
    fun hstored ↦ hstored.callMethodId method request response done
  exact {
    counter := by
      simp only [Client.callMethodId, List.length_append, List.length_singleton]
      rw [drawnId_succ, hinvariant.counter]
    callId := by
      intro index call hcall
      simp only [Client.callMethodId] at hcall
      rcases getElem?_append_singleton_eq_some hcall with hold | ⟨rfl, rfl⟩
      · exact hinvariant.callId index call hold
      · rw [← hinvariant.counter]
        rfl
    stored := fun id out hfind ↦ hkeep (hinvariant.stored id out hfind)
    handled := fun received hreceived ↦
      ⟨(hinvariant.handled received hreceived).1, hkeep (hinvariant.handled received hreceived).2⟩
    ran := fun run hrun ↦ by
      obtain ⟨hfind, prototype, hstored⟩ := hinvariant.ran run hrun
      exact ⟨hfind, prototype, hkeep hstored⟩
    answeredOnce := hinvariant.answeredOnce }

/-- Moving an activation on keeps the ids of the calls. -/
theorem ClientInvariant.callId_advance (hinvariant : ClientInvariant client) {index : ℕ}
    {phase : CallPhase} (other : ℕ) (call : CallFrame Prototype Message Done)
    (hcall : (client.advance index phase)[other]? = some call) : call.id = drawnId 1 other := by
  rw [getElem?_advance] at hcall
  obtain ⟨old, hold, rfl⟩ := Option.map_eq_some_iff.mp hcall
  rw [← hinvariant.callId other old hold]
  split_ifs <;> rfl

/-- Storing an entry keeps the invariant: its id is not in use, since only this call has it. -/
theorem ClientInvariant.callMethodInsert (hinvariant : ClientInvariant client)
    (hbound : client.calls.length < 2 ^ 64) {index : ℕ}
    (hstep : client.callMethodInsert index = some next) : ClientInvariant next := by
  obtain ⟨call, hcall, hphase, rfl⟩ := callMethodInsert_eq_some hstep
  have hkeep : ∀ {id out}, HasStored client id out → HasStored { client with
      outstandings := client.outstandings.insert call.id call.out
      calls := client.advance index .inserted } id out :=
    fun hstored ↦ hstored.advance (by decide) rfl
  have hfree : ∀ {id out}, HasStored client id out → client.outstandings.find id = none →
      (client.outstandings.insert call.id call.out).find id = none := by
    intro id out hstored hnone
    rw [Table.find_insert_of_ne _ _ (hinvariant.ne_id_of_hasStored hbound hcall hphase hstored)]
    exact hnone
  exact {
    counter := by simpa using hinvariant.counter
    callId := hinvariant.callId_advance
    stored := by
      intro id out hfind
      rcases Table.find_insert_eq_some.mp hfind with ⟨rfl, rfl⟩ | ⟨_, hold⟩
      · refine ⟨index, { call with phase := .inserted }, ?_, rfl, rfl, by simp⟩
        simp [getElem?_advance, hcall]
      · exact hkeep (hinvariant.stored id out hold)
    handled := fun received hreceived ↦ by
      obtain ⟨hnone, hstored⟩ := hinvariant.handled received hreceived
      exact ⟨hfree hstored hnone, hkeep hstored⟩
    ran := fun run hrun ↦ by
      obtain ⟨hnone, prototype, hstored⟩ := hinvariant.ran run hrun
      exact ⟨hfree hstored hnone, prototype, hkeep hstored⟩
    answeredOnce := hinvariant.answeredOnce }

/-- Sending a REQUEST keeps the invariant. -/
theorem ClientInvariant.callMethodSend (hinvariant : ClientInvariant client) {index : ℕ}
    (hstep : client.callMethodSend index = some next) : ClientInvariant next := by
  obtain ⟨call, hcall, hphase, rfl⟩ := callMethodSend_eq_some hstep
  have hkeep : ∀ {id out}, HasStored client id out → HasStored { client with
      sent := client.sent ++ [(client.connection, call.message)]
      calls := client.advance index .sent } id out :=
    fun hstored ↦ hstored.advance (by decide) rfl
  exact {
    counter := by simpa using hinvariant.counter
    callId := hinvariant.callId_advance
    stored := fun id out hfind ↦ hkeep (hinvariant.stored id out hfind)
    handled := fun received hreceived ↦
      ⟨(hinvariant.handled received hreceived).1, hkeep (hinvariant.handled received hreceived).2⟩
    ran := fun run hrun ↦ by
      obtain ⟨hnone, prototype, hstored⟩ := hinvariant.ran run hrun
      exact ⟨hnone, prototype, hkeep hstored⟩
    answeredOnce := hinvariant.answeredOnce }

/-- Taking an entry out of the table keeps the invariant: an id in the table is in nobody's hands
and has had no callback. -/
theorem ClientInvariant.onResponse (hinvariant : ClientInvariant client) (message : RpcMessage) :
    ClientInvariant (client.onResponse message) := by
  cases hfind : client.outstandings.find message.getId with
  | none => rwa [onResponse_of_find_eq_none hfind]
  | some out =>
    rw [onResponse_of_find_eq_some hfind]
    have herased : ∀ {id}, client.outstandings.find id = none →
        (client.outstandings.erase message.getId).find id = none := by
      intro id hnone
      rw [Table.find_erase, hnone, ite_self]
    have hfresh : ∀ {id}, client.outstandings.find id = none → message.getId ≠ id := by
      rintro id hnone rfl
      rw [hfind] at hnone
      cases hnone
    exact {
      counter := hinvariant.counter
      callId := hinvariant.callId
      stored := fun id found hfound ↦
        hinvariant.stored id found (Table.find_erase_eq_some.mp hfound).2
      handled := by
        intro received hreceived
        rcases List.mem_append.mp hreceived with hold | hnew
        · obtain ⟨hnone, hstored⟩ := hinvariant.handled received hold
          exact ⟨herased hnone, hstored⟩
        · rw [List.mem_singleton.mp hnew]
          exact ⟨Table.find_erase_self _ _, hinvariant.stored _ _ hfind⟩
      ran := fun run hrun ↦ by
        obtain ⟨hnone, hstored⟩ := hinvariant.ran run hrun
        exact ⟨herased hnone, hstored⟩
      answeredOnce := by
        have hpermutation : (message.getId ::
            (client.handling.map Received.id ++ client.runs.map DoneRun.id)).Nodup := by
          refine List.nodup_cons.mpr ⟨fun hmem ↦ ?_, hinvariant.answeredOnce⟩
          rcases List.mem_append.mp hmem with hhandled | hran
          · obtain ⟨received, hreceived, hid⟩ := List.mem_map.mp hhandled
            exact hfresh (hinvariant.handled received hreceived).1 hid.symm
          · obtain ⟨run, hrun, hid⟩ := List.mem_map.mp hran
            exact hfresh (hinvariant.ran run hrun).1 hid.symm
        rw [List.map_append, List.append_assoc]
        exact List.perm_middle.nodup_iff.mpr hpermutation }

/-- Running a callback, or dropping an entry with a null pointer, keeps the invariant. -/
theorem ClientInvariant.runDone (hinvariant : ClientInvariant client) {index : ℕ}
    (hstep : client.runDone protobuf index = some next) : ClientInvariant next := by
  obtain ⟨received, hreceived, hnext⟩ := runDone_eq_some hstep
  have hmem : received ∈ client.handling := List.mem_of_getElem? hreceived
  have hperm : (client.handling.map Received.id).Perm
      (received.id :: (client.handling.eraseIdx index).map Received.id) := by
    obtain ⟨hlt, hget⟩ := List.getElem?_eq_some_iff.mp hreceived
    rw [← List.map_cons (f := Received.id), ← hget]
    exact (List.getElem_cons_eraseIdx_perm hlt).symm.map Received.id
  have hnodup := (hperm.append_right (client.runs.map DoneRun.id)).nodup_iff.mp
    hinvariant.answeredOnce
  rcases hnext with rfl | ⟨prototype, done, hout, rfl⟩
  · exact {
      counter := hinvariant.counter
      callId := hinvariant.callId
      stored := hinvariant.stored
      handled := fun other hother ↦ hinvariant.handled other (List.mem_of_mem_eraseIdx hother)
      ran := hinvariant.ran
      answeredOnce := (List.nodup_cons.mp hnodup).2 }
  · exact {
      counter := hinvariant.counter
      callId := hinvariant.callId
      stored := hinvariant.stored
      handled := fun other hother ↦ hinvariant.handled other (List.mem_of_mem_eraseIdx hother)
      ran := by
        intro run hrun
        rcases List.mem_append.mp hrun with hold | hnew
        · exact hinvariant.ran run hold
        · rw [List.mem_singleton.mp hnew]
          obtain ⟨hnone, hstored⟩ := hinvariant.handled received hmem
          rw [hout] at hstored
          exact ⟨hnone, prototype, hstored⟩
      answeredOnce := by
        rw [List.map_append, ← List.append_assoc]
        exact List.perm_append_singleton _ _ |>.nodup_iff.mpr hnodup }

/-- Every step keeps the invariant as long as fewer than `2 ^ 64` calls are made. -/
theorem ClientInvariant.step {action : ClientAction Prototype Message Done Connection}
    (hinvariant : ClientInvariant client) (hbound : client.calls.length < 2 ^ 64)
    (hstep : clientStep protobuf client action = some next) : ClientInvariant next := by
  cases action with
  | callMethodId method request response done =>
    cases hstep
    exact hinvariant.callMethodId method request response done
  | callMethodInsert index => exact hinvariant.callMethodInsert hbound hstep
  | callMethodSend index => exact hinvariant.callMethodSend hstep
  | setConnection connection =>
    cases hstep
    exact ⟨hinvariant.counter, hinvariant.callId, hinvariant.stored, hinvariant.handled,
      hinvariant.ran, hinvariant.answeredOnce⟩
  | onRpcMessage message =>
    cases hstep
    split_ifs
    · exact hinvariant.onResponse message
    · exact hinvariant
  | runDone index => exact hinvariant.runDone hstep

end Invariant

end MuduoProtorpc.CppChannel
