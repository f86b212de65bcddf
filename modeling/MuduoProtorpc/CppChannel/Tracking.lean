import MuduoProtorpc.CppChannel.LinkGuarantees

/-!
# How far a call has come

`Tracked` follows the calls of one direction of use of a connection between two C++ channels: where
the REQUEST of a call that was sent has got to, where the RESPONSE of an invocation that was
answered has got to, and who has taken an entry that is gone from the table. Every step keeps track
of the calls of both sides (`linkTracked_of_run`).
-/

set_option autoImplicit false
set_option relaxedAutoImplicit false

namespace MuduoProtorpc.CppChannel

open Foundation

variable {Prototype Message : Type} {schema : Schema Prototype}

/-! ### One direction of use -/

/-- How far the calls of `client` have come: the REQUEST of a call that was sent is on its way, has
caused an invocation, or found no method; the RESPONSE of an answered invocation is on its way, or
the entry is gone; and an entry that is gone was taken for the RESPONSE of an invocation, and its
callback is run or to be run. -/
structure Tracked (protobuf : Protobuf Prototype Message)
    (client : Client Prototype Message ℕ Unit) (responses requests : List Packet)
    (services : Option (ServiceMap schema)) (invocations : List (Invocation schema Message)) :
    Prop where
  requested : ∀ (index : ℕ) (call : CallFrame Prototype Message ℕ),
    client.calls[index]? = some call → call.phase = .sent →
      index ∈ requests.map Packet.origin ∨ index ∈ invocations.map Invocation.cause ∨
        callServiceMethod protobuf services call.message = none
  responded : ∀ invocation ∈ invocations, invocation.response ≠ none →
    (∃ packet ∈ responses, packet.message.getId = invocation.call.id) ∨
      client.outstandings.find invocation.call.id = none
  taken : ∀ (index : ℕ) (call : CallFrame Prototype Message ℕ),
    client.calls[index]? = some call → call.phase ≠ .idTaken →
      client.outstandings.find call.id = none →
        (∃ response, Answered invocations call.id response) ∧
          (call.out.response = none ∨ call.out.done = none ∨
            call.id ∈ client.handling.map Received.id ∨ call.id ∈ client.runs.map DoneRun.id)

section Tracked

variable {protobuf : Protobuf Prototype Message} {client next : Client Prototype Message ℕ Unit}
  {responses requests : List Packet} {services : Option (ServiceMap schema)}
  {invocations : List (Invocation schema Message)} {index : ℕ}

/-- The call whose REQUEST caused an invocation. -/
theorem Direction.causing
    (hdirection : Direction protobuf client responses requests services invocations)
    {invocation : Invocation schema Message} (hinvocation : invocation ∈ invocations) :
    ∃ call, client.calls[invocation.cause]? = some call ∧ call.phase = .sent ∧
      call.id = invocation.call.id := by
  obtain ⟨call, hcall, hsent, hservice⟩ := hdirection.invoked invocation hinvocation
  obtain ⟨hmethod, -, hmessage, -, -⟩ := hdirection.framed _ call hcall
  rw [hmessage] at hservice
  obtain ⟨-, -, -, -, hid⟩ := callServiceMethod_requestMessage hmethod hservice
  exact ⟨call, hcall, hsent, hid.symm⟩

/-- Starting a call. -/
theorem Tracked.callMethodId
    (htracked : Tracked protobuf client responses requests services invocations)
    (method : MethodDescriptor Prototype) (request : Message) (response : Option Prototype)
    (done : Option ℕ) :
    Tracked protobuf (client.callMethodId protobuf method request response done) responses requests
      services invocations where
  requested := by
    intro index call hcall hsent
    rcases getElem?_append_singleton_eq_some hcall with hold | ⟨-, rfl⟩
    · exact htracked.requested index call hold hsent
    · cases hsent
  responded := htracked.responded
  taken := by
    intro index call hcall hphase hgone
    rcases getElem?_append_singleton_eq_some hcall with hold | ⟨-, rfl⟩
    · exact htracked.taken index call hold hphase hgone
    · exact absurd rfl hphase

/-- Storing the entry of a call. -/
theorem Tracked.callMethodInsert
    (htracked : Tracked protobuf client responses requests services invocations)
    (hdirection : Direction protobuf client responses requests services invocations)
    (hbound : client.calls.length < 2 ^ 64) (hstep : client.callMethodInsert index = some next) :
    Tracked protobuf next responses requests services invocations := by
  obtain ⟨inserted, hinserted, hphase, rfl⟩ := callMethodInsert_eq_some hstep
  refine ⟨fun other call hcall hsent ↦ ?_, fun invocation hinvocation hresponse ↦ ?_,
    fun other call hcall hstarted hgone ↦ ?_⟩
  · rw [getElem?_advance] at hcall
    obtain ⟨old, hold, rfl⟩ := Option.map_eq_some_iff.mp hcall
    by_cases heq : index = other
    · simp [heq] at hsent
    · simp only [if_neg heq] at hsent ⊢
      exact htracked.requested other old hold hsent
  · refine (htracked.responded invocation hinvocation hresponse).imp_right fun hgone ↦ ?_
    obtain ⟨causing, hcausing, hsent, hid⟩ := hdirection.causing hinvocation
    have hne : invocation.call.id ≠ inserted.id :=
      hdirection.invariant.ne_id_of_hasStored hbound hinserted hphase
        ⟨_, causing, hcausing, hid, rfl, by simp [hsent]⟩
    exact (Table.find_insert_of_ne _ _ hne).trans hgone
  · rw [getElem?_advance] at hcall
    obtain ⟨old, hold, rfl⟩ := Option.map_eq_some_iff.mp hcall
    by_cases heq : index = other
    · subst heq
      obtain rfl := Option.some.inj (hinserted.symm.trans hold)
      simp only [if_true] at hgone
      exact absurd hgone (by simp [CallFrame.id, Table.find_insert_self])
    · simp only [if_neg heq] at hstarted hgone ⊢
      have hne : old.id ≠ inserted.id := fun hsame ↦ heq
        (hdirection.invariant.index_eq hbound hold hinserted hsame).symm
      have hbefore := (Table.find_insert_of_ne _ _ hne).symm.trans hgone
      exact htracked.taken other old hold hstarted hbefore

/-- Sending a REQUEST. -/
theorem Tracked.send
    (htracked : Tracked protobuf client responses requests services invocations)
    (call : CallFrame Prototype Message ℕ)
    (hstep : client.callMethodSend index = some next) :
    Tracked protobuf next responses (requests ++ [{ origin := index, message := call.message }])
      services invocations := by
  obtain ⟨sending, hsending, hphase, rfl⟩ := callMethodSend_eq_some hstep
  refine ⟨fun other call hcall hsent ↦ ?_, htracked.responded,
    fun other call hcall hstarted hgone ↦ ?_⟩
  · rw [getElem?_advance] at hcall
    obtain ⟨old, hold, rfl⟩ := Option.map_eq_some_iff.mp hcall
    by_cases heq : index = other
    · exact Or.inl (by simp [heq])
    · simp only [if_neg heq] at hsent ⊢
      rcases htracked.requested other old hold hsent with hrequest | hrest
      · exact Or.inl (by simp [hrequest])
      · exact Or.inr hrest
  · rw [getElem?_advance] at hcall
    obtain ⟨old, hold, rfl⟩ := Option.map_eq_some_iff.mp hcall
    by_cases heq : index = other
    · subst heq
      obtain rfl := Option.some.inj (hsending.symm.trans hold)
      simp only [if_true] at hgone ⊢
      exact htracked.taken index sending hold (by simp [hphase]) hgone
    · simp only [if_neg heq] at hstarted hgone ⊢
      exact htracked.taken other old hold hstarted hgone

/-- Delivering a RESPONSE. -/
theorem Tracked.onResponse {packet : Packet}
    (htracked : Tracked protobuf client (packet :: responses) requests services invocations)
    (hdirection : Direction protobuf client (packet :: responses) requests services invocations) :
    Tracked protobuf (client.onResponse packet.message) responses requests services
      invocations := by
  refine ⟨fun index call hcall hsent ↦ ?_, fun invocation hinvocation hresponse ↦ ?_,
    fun index call hcall hstarted hgone ↦ ?_⟩
  · rw [calls_onResponse] at hcall
    exact htracked.requested index call hcall hsent
  · rw [find_onResponse]
    by_cases hid : invocation.call.id = packet.message.getId
    · exact Or.inr (if_pos hid)
    · rw [if_neg hid]
      refine (htracked.responded invocation hinvocation hresponse).imp_left ?_
      rintro ⟨other, hother, hsame⟩
      rcases List.mem_cons.mp hother with rfl | hother
      · exact absurd hsame.symm hid
      · exact ⟨other, hother, hsame⟩
  · rw [calls_onResponse] at hcall
    cases hfind : client.outstandings.find packet.message.getId with
    | none =>
      rw [onResponse_of_find_eq_none hfind] at hgone ⊢
      exact htracked.taken index call hcall hstarted hgone
    | some out =>
      rw [find_onResponse] at hgone
      rw [onResponse_of_find_eq_some hfind, List.map_append]
      by_cases hid : call.id = packet.message.getId
      · obtain ⟨id, response, hanswered, hmessage⟩ := hdirection.responded packet (by simp)
        have hsame : packet.message.getId = id := by rw [hmessage]; rfl
        refine ⟨⟨response, ?_⟩, ?_⟩
        · rwa [hid, hsame]
        · simp [hid]
      · rw [if_neg hid] at hgone
        obtain ⟨hanswered, hwhere⟩ := htracked.taken index call hcall hstarted hgone
        refine ⟨hanswered, ?_⟩
        rcases hwhere with hnull | hnull | hhandling | hran
        · exact Or.inl hnull
        · exact Or.inr (Or.inl hnull)
        · exact Or.inr (Or.inr (Or.inl (List.mem_append_left _ hhandling)))
        · exact Or.inr (Or.inr (Or.inr hran))

/-- The I/O thread drops an entry only if it has a null pointer. -/
theorem runDone_cases (hstep : client.runDone protobuf index = some next) :
    ∃ received, client.handling[index]? = some received ∧
      ((received.out.response = none ∨ received.out.done = none) ∧
          next = { client with handling := client.handling.eraseIdx index } ∨
        ∃ run : DoneRun Message ℕ, run.id = received.id ∧ next = { client with
          handling := client.handling.eraseIdx index
          runs := client.runs ++ [run] }) := by
  unfold Client.runDone at hstep
  split at hstep
  · cases hstep
  · rename_i received hreceived
    refine ⟨received, hreceived, ?_⟩
    dsimp only at hstep
    split at hstep
    · exact Or.inr ⟨_, rfl, (Option.some.inj hstep).symm⟩
    · rename_i hnull
      refine Or.inl ⟨?_, (Option.some.inj hstep).symm⟩
      cases hresponse : received.out.response with
      | none => exact Or.inl rfl
      | some prototype =>
        cases hdone : received.out.done with
        | none => exact Or.inr rfl
        | some done => exact absurd hdone (hnull prototype done hresponse)

/-- Running a callback, or dropping an entry without one. -/
theorem Tracked.runDone
    (htracked : Tracked protobuf client responses requests services invocations)
    (hdirection : Direction protobuf client responses requests services invocations)
    (hbound : client.calls.length < 2 ^ 64) (hstep : client.runDone protobuf index = some next) :
    Tracked protobuf next responses requests services invocations := by
  obtain ⟨received, hreceived, hnext⟩ := runDone_cases hstep
  have hkept : next.calls = client.calls ∧ next.outstandings = client.outstandings ∧
      next.handling = client.handling.eraseIdx index ∧
        ∀ id ∈ client.runs.map DoneRun.id, id ∈ next.runs.map DoneRun.id := by
    rcases hnext with ⟨-, rfl⟩ | ⟨run, -, rfl⟩
    · exact ⟨rfl, rfl, rfl, fun _ hid ↦ hid⟩
    · exact ⟨rfl, rfl, rfl, fun _ hid ↦ by simp [List.mem_map.mp hid]⟩
  obtain ⟨hcalls, htable, hhandling, hruns⟩ := hkept
  refine ⟨fun other call hcall hsent ↦ ?_, fun invocation hinvocation hresponse ↦ ?_,
    fun other call hcall hstarted hgone ↦ ?_⟩
  · rw [hcalls] at hcall
    exact htracked.requested other call hcall hsent
  · rw [htable]
    exact htracked.responded invocation hinvocation hresponse
  · rw [hcalls] at hcall
    rw [htable] at hgone
    obtain ⟨hanswered, hwhere⟩ := htracked.taken other call hcall hstarted hgone
    refine ⟨hanswered, ?_⟩
    rcases hwhere with hnull | hnull | hwaiting | hran
    · exact Or.inl hnull
    · exact Or.inr (Or.inl hnull)
    · obtain ⟨waiting, hmem, hid⟩ := List.mem_map.mp hwaiting
      obtain ⟨position, hposition⟩ := List.mem_iff_getElem?.mp hmem
      by_cases heq : position = index
      · -- the entry that the I/O thread is done with is the one of this call
        subst heq
        obtain rfl := Option.some.inj (hposition.symm.trans hreceived)
        obtain ⟨-, stored, storedCall, hstored, hstoredId, hout, -⟩ :=
          hdirection.invariant.handled waiting hmem
        obtain rfl := hdirection.invariant.index_eq hbound hstored hcall (hstoredId.trans hid)
        obtain rfl := Option.some.inj (hstored.symm.trans hcall)
        rcases hnext with ⟨hnull, -⟩ | ⟨run, hrun, rfl⟩
        · rw [hout]
          exact hnull.imp_right Or.inl
        · refine Or.inr (Or.inr (Or.inr ?_))
          simp [← hid, hrun]
      · refine Or.inr (Or.inr (Or.inl ?_))
        rw [hhandling]
        exact List.mem_map.mpr ⟨waiting, List.mem_eraseIdx_iff_getElem?.mpr
          ⟨position, heq, hposition⟩, hid⟩
    · exact Or.inr (Or.inr (Or.inr (hruns _ hran)))

/-- Delivering a REQUEST that invokes a method. -/
theorem Tracked.invoke {packet : Packet}
    (htracked : Tracked protobuf client responses (packet :: requests) services invocations)
    (call : ServiceCall schema Message) :
    Tracked protobuf client responses requests services
      (invocations ++ [{ cause := packet.origin, call := call, response := none }]) where
  requested := by
    intro index sent hcall hsent
    rcases htracked.requested index sent hcall hsent with hrequest | hinvoked | hnone
    · rcases List.mem_cons.mp hrequest with rfl | hlater
      · exact Or.inr (Or.inl (by simp))
      · exact Or.inl hlater
    · exact Or.inr (Or.inl (by simp [List.mem_map.mp hinvoked]))
    · exact Or.inr (Or.inr hnone)
  responded := by
    intro invocation hinvocation hresponse
    rcases List.mem_append.mp hinvocation with hold | hnew
    · exact htracked.responded invocation hold hresponse
    · rw [List.mem_singleton.mp hnew] at hresponse
      exact absurd rfl hresponse
  taken := by
    intro index started hcall hstarted hgone
    obtain ⟨⟨response, hanswered⟩, hwhere⟩ := htracked.taken index started hcall hstarted hgone
    refine ⟨⟨response, hanswered.mono fun invocation hinvocation hresponse ↦ ?_⟩, hwhere⟩
    exact ⟨invocation, List.mem_append_left _ hinvocation, hresponse, rfl⟩

/-- Delivering a REQUEST that finds no method. -/
theorem Tracked.drop {packet : Packet}
    (htracked : Tracked protobuf client responses (packet :: requests) services invocations)
    (hdirection : Direction protobuf client responses (packet :: requests) services invocations)
    (hnone : callServiceMethod protobuf services packet.message = none) :
    Tracked protobuf client responses requests services invocations :=
  { htracked with
    requested := by
      intro index call hcall hsent
      rcases htracked.requested index call hcall hsent with hrequest | hrest
      · rcases List.mem_cons.mp hrequest with rfl | hlater
        · obtain ⟨origin, horigin, -, hmessage⟩ := hdirection.requested packet (by simp)
          obtain rfl := Option.some.inj (hcall.symm.trans horigin)
          exact Or.inr (Or.inr (hmessage ▸ hnone))
        · exact Or.inl hlater
      · exact Or.inr hrest }

/-- A service that passes a response to its callback. -/
theorem Tracked.doneCallback {invocation : Invocation schema Message}
    (htracked : Tracked protobuf client responses requests services invocations)
    (response : Message)
    (hinvocation : invocations[index]? = some invocation) (hnone : invocation.response = none) :
    Tracked protobuf client
      (responses ++ [{
        origin := index
        message := CppChannel.doneCallback protobuf response invocation.call.id }])
      requests services (invocations.set index { invocation with response := some response }) := by
  have hcause : ∀ cause ∈ invocations.map Invocation.cause, cause ∈
      (invocations.set index { invocation with response := some response }).map
        Invocation.cause := by
    intro cause hmem
    obtain ⟨kept, hkept, rfl⟩ := List.mem_map.mp hmem
    obtain ⟨position, hposition⟩ := List.mem_iff_getElem?.mp hkept
    refine List.mem_map.mpr ?_
    by_cases heq : index = position
    · subst heq
      obtain rfl := Option.some.inj (hinvocation.symm.trans hposition)
      exact ⟨_, List.mem_set (List.getElem?_eq_some_iff.mp hinvocation).1 _, rfl⟩
    · refine ⟨kept, List.mem_iff_getElem?.mpr ⟨position, ?_⟩, rfl⟩
      rw [List.getElem?_set_ne heq, hposition]
  refine ⟨fun other call hcall hsent ↦ ?_, fun other hother hanswered ↦ ?_,
    fun other call hcall hstarted hgone ↦ ?_⟩
  · exact (htracked.requested other call hcall hsent).imp_right (Or.imp_left (hcause other))
  · rcases List.mem_or_eq_of_mem_set hother with hold | rfl
    · refine (htracked.responded other hold hanswered).imp_left ?_
      rintro ⟨packet, hpacket, hid⟩
      exact ⟨packet, List.mem_append_left _ hpacket, hid⟩
    · exact Or.inl ⟨_, List.mem_append_right _ (List.mem_singleton_self _), rfl⟩
  · obtain ⟨⟨found, hfound⟩, hwhere⟩ := htracked.taken other call hcall hstarted hgone
    refine ⟨⟨found, hfound.mono fun kept hkept hresponse ↦ ⟨kept, ?_, hresponse, rfl⟩⟩, hwhere⟩
    obtain ⟨position, hposition⟩ := List.mem_iff_getElem?.mp hkept
    refine List.mem_iff_getElem?.mpr ⟨position, ?_⟩
    rw [List.getElem?_set_ne _, hposition]
    rintro rfl
    obtain rfl := Option.some.inj (hinvocation.symm.trans hposition)
    rw [hnone] at hresponse
    cases hresponse

end Tracked

/-! ### Both directions -/

/-- The calls of both sides are tracked. -/
def LinkTracked (protobuf : Protobuf Prototype Message) (link : Link schema Message) : Prop :=
  ∀ side : Side, Tracked protobuf (link side).client (responsesOf (link side).inbox)
    (requestsOf (link side.other).inbox) (link side.other).services (link side.other).invocations

section LinkTracked

variable {protobuf : Protobuf Prototype Message} {link next : Link schema Message} {side : Side}

/-- A step of the client of one side keeps track of all calls, if it does of its own. -/
theorem LinkTracked.withClient (htracked : LinkTracked protobuf link)
    {client : Client Prototype Message ℕ Unit}
    (hclient : Tracked protobuf client (responsesOf (link side).inbox)
      (requestsOf (link side.other).inbox) (link side.other).services
      (link side.other).invocations) :
    LinkTracked protobuf (Function.update link side ((link side).withClient client)) := by
  refine Side.forall_of_other side ?_ ?_
  · simpa [Endpoint.withClient] using hclient
  · simpa [Endpoint.withClient] using htracked side.other

theorem linkTracked_start (services : Side → Option (List (Service schema)))
    [DecidableEq Prototype] : LinkTracked protobuf (linkSystem protobuf services).start := by
  intro side
  exact {
    requested := fun index call hcall ↦ by cases hcall
    responded := fun invocation hinvocation ↦ by cases hinvocation
    taken := fun index call hcall ↦ by cases hcall }

variable [DecidableEq Prototype]

/-- Delivering a message keeps track of the calls. -/
theorem LinkTracked.onMessage (htracked : LinkTracked protobuf link)
    (hinvariant : LinkInvariant protobuf link)
    (hstep : linkStep protobuf link (.onMessage side) = some next) : LinkTracked protobuf next := by
  simp only [linkStep] at hstep
  split at hstep
  · cases hstep
  · rename_i packet rest hinbox
    obtain rfl := Option.some.inj hstep
    have hcaller := htracked side
    have hcallee := htracked side.other
    have hcallerDirection := hinvariant side
    have hcalleeDirection := hinvariant side.other
    rw [Side.other_other] at hcallee hcalleeDirection
    rw [hinbox, responsesOf_cons] at hcaller hcallerDirection
    rw [hinbox, requestsOf_cons] at hcallee hcalleeDirection
    cases htype : packet.message.getType with
    | request =>
      simp only [htype, if_true, reduceCtorEq, if_false] at hcaller hcallee hcalleeDirection
      cases hservice : callServiceMethod protobuf (link side).services packet.message with
      | none =>
        refine Side.forall_of_other side ?_ ?_
        · simpa [Endpoint.onRpcMessage, htype, hservice] using hcaller
        · simpa [Endpoint.onRpcMessage, htype, hservice] using
            hcallee.drop hcalleeDirection hservice
      | some call =>
        refine Side.forall_of_other side ?_ ?_
        · simpa [Endpoint.onRpcMessage, htype, hservice] using hcaller
        · simpa [Endpoint.onRpcMessage, htype, hservice] using hcallee.invoke call
    | response =>
      simp only [htype, if_true, reduceCtorEq, if_false] at hcaller hcallee hcallerDirection
      refine Side.forall_of_other side ?_ ?_
      · simpa [Endpoint.onRpcMessage, Endpoint.withClient, htype] using
          hcaller.onResponse hcallerDirection
      · simpa [Endpoint.onRpcMessage, Endpoint.withClient, htype] using hcallee
    | error =>
      simp only [htype, reduceCtorEq, if_false] at hcaller hcallee
      refine Side.forall_of_other side ?_ ?_
      · simpa [Endpoint.onRpcMessage, htype] using hcaller
      · simpa [Endpoint.onRpcMessage, htype] using hcallee

/-- Every step keeps track of the calls as long as no side makes `2 ^ 64` of them. -/
theorem LinkTracked.step {action : LinkAction schema Message}
    (htracked : LinkTracked protobuf link) (hinvariant : LinkInvariant protobuf link)
    (hbelow : CallsBelow (2 ^ 64) link) (hstep : linkStep protobuf link action = some next) :
    LinkTracked protobuf next := by
  cases action with
  | callMethodId side method request hasResponse hasDone =>
    simp only [linkStep] at hstep
    split at hstep
    · obtain rfl := Option.some.inj hstep
      exact htracked.withClient ((htracked side).callMethodId method request _ _)
    · cases hstep
  | callMethodInsert side index =>
    obtain ⟨client, hinsert, rfl⟩ := Option.map_eq_some_iff.mp hstep
    exact htracked.withClient
      ((htracked side).callMethodInsert (hinvariant side) (hbelow side) hinsert)
  | callMethodSend side index =>
    simp only [linkStep] at hstep
    split at hstep
    · rename_i call client hcall hsend
      obtain rfl := Option.some.inj hstep
      have htype : call.message.getType = .request := by
        obtain ⟨-, -, hmessage, -⟩ := (hinvariant side).framed index call hcall
        rw [hmessage]
        rfl
      refine Side.forall_of_other side ?_ ?_
      · simpa [Endpoint.withClient, Endpoint.receive, requestsOf_append_request, htype] using
          (htracked side).send call hsend
      · simpa [Endpoint.withClient, Endpoint.receive, responsesOf_append_request, htype] using
          htracked side.other
    · cases hstep
  | onMessage side => exact htracked.onMessage hinvariant hstep
  | runDone side index =>
    obtain ⟨client, hrun, rfl⟩ := Option.map_eq_some_iff.mp hstep
    exact htracked.withClient ((htracked side).runDone (hinvariant side) (hbelow side) hrun)
  | doneCallback side index response =>
    simp only [linkStep] at hstep
    split at hstep
    · cases hstep
    · rename_i invocation hinvocation
      split_ifs at hstep with hdone
      obtain rfl := Option.some.inj hstep
      have hcallee := htracked side.other
      rw [Side.other_other] at hcallee
      have hkept := hcallee.doneCallback response hinvocation (by simpa using hdone.1)
      have htype : (CppChannel.doneCallback protobuf response invocation.call.id).getType =
          .response := rfl
      refine Side.forall_of_other side ?_ ?_
      · simpa [Endpoint.receive, requestsOf_append_response, htype] using htracked side
      · simpa [Endpoint.receive, responsesOf_append_response, htype] using hkept

/-- The calls are tracked after every run in which no side makes `2 ^ 64` of them. -/
theorem linkTracked_of_run {services : Side → Option (List (Service schema))}
    {actions : List (LinkAction schema Message)}
    (hroundTrip : ∀ message, protobuf.parseFromString (protobuf.descriptor message)
      (protobuf.serializeAsString message) = (message, true))
    (hrun : (linkSystem protobuf services).Run actions link) (hbelow : CallsBelow (2 ^ 64) link) :
    LinkTracked protobuf link := by
  induction hrun with
  | start => exact linkTracked_start services
  | step hrun _ hstep ih =>
    have hbefore := fun side ↦ (extends_of_linkStep hstep side).2.trans_lt (hbelow side)
    obtain ⟨hinvariant, -⟩ := linkInvariant_of_run hroundTrip hrun hbefore
    exact (ih hbefore).step hinvariant hbefore hstep

end LinkTracked

end MuduoProtorpc.CppChannel
