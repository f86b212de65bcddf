import MuduoProtorpc.CppChannel.ClientCalls

/-!
# Two C++ RpcChannels on one connection

Two channels at the two ends of a reliable connection, each of which may call and serve at once
(`linkSystem`). Every message sent by one side is put at the end of the other side's inbox, and the
inbox is delivered in order. A `Packet` carries, next to the message, the index of the call or of
the invocation it comes from, and an `Invocation` the index of the call whose REQUEST caused it.
These indices are history: they are passed along and no step looks at them.

`Direction` is the invariant of one direction of use: one side's calls, the REQUESTs on their way,
the invocations at the other side, the RESPONSEs on their way back and the callbacks run. The two
directions share the connection and nothing else, so the same ids may be in use in both.
-/

set_option autoImplicit false
set_option relaxedAutoImplicit false

namespace MuduoProtorpc.CppChannel

open Foundation

variable {Prototype Message : Type} {schema : Schema Prototype}

/-! ### The transition system -/

/-- One of the two ends of the connection. -/
inductive Side
  | first
  | second
  deriving DecidableEq

/-- The end on the other side. -/
def Side.other : Side → Side
  | .first => .second
  | .second => .first

@[simp] theorem Side.other_other (side : Side) : side.other.other = side := by
  cases side <;> rfl

@[simp] theorem Side.other_ne (side : Side) : side.other ≠ side := by
  cases side <;> simp [Side.other]

@[simp] theorem Side.ne_other (side : Side) : side ≠ side.other :=
  side.other_ne.symm

/-- A message on its way, with the call (of a REQUEST) or the invocation (of a RESPONSE) it comes
from. -/
structure Packet where
  origin : ℕ
  message : RpcMessage

/-- An invocation of a service method: the call whose REQUEST caused it, what the service was
invoked with, and what it has passed to its callback. -/
structure Invocation (schema : Schema Prototype) (Message : Type) where
  cause : ℕ
  call : ServiceCall schema Message
  response : Option Message

/-- One end of the connection. A callback is represented by the index of the call it was given to,
so that the callbacks of different calls are different. -/
structure Endpoint (schema : Schema Prototype) (Message : Type) where
  client : Client Prototype Message ℕ Unit
  services : Option (ServiceMap schema)
  invocations : List (Invocation schema Message)
  inbox : List Packet

/-- The two ends. -/
abbrev Link (schema : Schema Prototype) (Message : Type) : Type := Side → Endpoint schema Message

/-- What can happen next on the connection. -/
inductive LinkAction (schema : Schema Prototype) (Message : Type)
  | callMethodId (side : Side) (method : MethodDescriptor Prototype) (request : Message)
      (hasResponse hasDone : Bool)
  | callMethodInsert (side : Side) (index : ℕ)
  | callMethodSend (side : Side) (index : ℕ)
  | onMessage (side : Side)
  | runDone (side : Side) (index : ℕ)
  | doneCallback (side : Side) (index : ℕ) (response : Message)

/-- A side with a new state of its client. -/
def Endpoint.withClient (endpoint : Endpoint schema Message)
    (client : Client Prototype Message ℕ Unit) : Endpoint schema Message :=
  { endpoint with client := client }

/-- A side with one more message to deliver. -/
def Endpoint.receive (endpoint : Endpoint schema Message) (packet : Packet) :
    Endpoint schema Message :=
  { endpoint with inbox := endpoint.inbox ++ [packet] }

/-- `onRpcMessage`, on the message the codec decoded. -/
def Endpoint.onRpcMessage (protobuf : Protobuf Prototype Message)
    (endpoint : Endpoint schema Message) (packet : Packet) : Endpoint schema Message :=
  match packet.message.getType with
  | .response => endpoint.withClient (endpoint.client.onResponse packet.message)
  | .request =>
    match callServiceMethod protobuf endpoint.services packet.message with
    | none => endpoint
    | some call => { endpoint with
        invocations := endpoint.invocations ++
          [{ cause := packet.origin, call := call, response := none }] }
  | .error => endpoint

variable [DecidableEq Prototype]

/-- One step of the connection. A caller passes an object of the method's input type and, if any, a
prototype of its output type, as the declaration of `CallMethod` demands; a service passes an object
of the output type to its callback, as `doneCallback` asserts, and calls it once. -/
def linkStep (protobuf : Protobuf Prototype Message) (link : Link schema Message) :
    LinkAction schema Message → Option (Link schema Message)
  | .callMethodId side method request hasResponse hasDone =>
    if method ∈ schema.methods ∧ protobuf.descriptor request = method.inputType then
      let client := (link side).client
      some (Function.update link side ((link side).withClient
        (client.callMethodId protobuf method request
          (if hasResponse then some method.outputType else none)
          (if hasDone then some client.calls.length else none))))
    else none
  | .callMethodInsert side index =>
    ((link side).client.callMethodInsert index).map fun client ↦
      Function.update link side ((link side).withClient client)
  | .callMethodSend side index =>
    match (link side).client.calls[index]?, (link side).client.callMethodSend index with
    | some call, some client =>
      some (Function.update (Function.update link side ((link side).withClient client)) side.other
        ((link side.other).receive { origin := index, message := call.message }))
    | _, _ => none
  | .onMessage side =>
    match (link side).inbox with
    | [] => none
    | packet :: rest =>
      some (Function.update link side
        (({ link side with inbox := rest } : Endpoint schema Message).onRpcMessage protobuf packet))
  | .runDone side index =>
    ((link side).client.runDone protobuf index).map fun client ↦
      Function.update link side ((link side).withClient client)
  | .doneCallback side index response =>
    match (link side).invocations[index]? with
    | none => none
    | some invocation =>
      if invocation.response.isNone ∧
          protobuf.descriptor response = invocation.call.method.outputType then
        some (Function.update (Function.update link side { link side with
            invocations := (link side).invocations.set index
              { invocation with response := some response } }) side.other
          ((link side.other).receive {
            origin := index
            message := CppChannel.doneCallback protobuf response invocation.call.id }))
      else none

/-- Two fresh channels; a side that serves has registered its services before. -/
def linkSystem (protobuf : Protobuf Prototype Message)
    (services : Side → Option (List (Service schema))) :
    TransitionSystem (Link schema Message) (LinkAction schema Message) where
  start := fun side ↦ {
    client := Client.initial ()
    services := (services side).map registered
    invocations := []
    inbox := [] }
  step := linkStep protobuf

/-! ### One direction of use -/

omit [DecidableEq Prototype]

/-- The REQUESTs in an inbox. -/
def requestsOf (inbox : List Packet) : List Packet :=
  inbox.filter fun packet ↦ packet.message.getType = .request

/-- The RESPONSEs in an inbox. -/
def responsesOf (inbox : List Packet) : List Packet :=
  inbox.filter fun packet ↦ packet.message.getType = .response

/-- Every call is for a method of the schema, with arguments of the method's types, and holds the
REQUEST built from them; its callback is its own. -/
def Framed (protobuf : Protobuf Prototype Message) (schema : Schema Prototype)
    (client : Client Prototype Message ℕ Unit) : Prop :=
  ∀ (index : ℕ) (call : CallFrame Prototype Message ℕ), client.calls[index]? = some call →
    call.method ∈ schema.methods ∧ protobuf.descriptor call.request = call.method.inputType ∧
      call.message = Client.requestMessage protobuf call.method call.request call.id ∧
        (∀ prototype, call.out.response = some prototype → prototype = call.method.outputType) ∧
          ∀ done, call.out.done = some done → done = index

/-- An invocation with this captured id has passed this response to its callback. -/
def Answered (invocations : List (Invocation schema Message)) (id : BitVec 64)
    (response : Message) : Prop :=
  ∃ invocation ∈ invocations, invocation.response = some response ∧ invocation.call.id = id

/-- The invariant of one direction of use: the calls of `client`, the REQUESTs on their way to the
other side, the invocations there, and the RESPONSEs on their way back. -/
structure Direction (protobuf : Protobuf Prototype Message)
    (client : Client Prototype Message ℕ Unit) (responses requests : List Packet)
    (services : Option (ServiceMap schema)) (invocations : List (Invocation schema Message)) :
    Prop where
  invariant : ClientInvariant client
  framed : Framed protobuf schema client
  requested : ∀ packet ∈ requests, ∃ call, client.calls[packet.origin]? = some call ∧
    call.phase = .sent ∧ packet.message = call.message
  invoked : ∀ invocation ∈ invocations, ∃ call, client.calls[invocation.cause]? = some call ∧
    call.phase = .sent ∧ callServiceMethod protobuf services call.message = some invocation.call
  once : (requests.map Packet.origin ++ invocations.map Invocation.cause).Nodup
  responded : ∀ packet ∈ responses, ∃ id response, Answered invocations id response ∧
    packet.message = doneCallback protobuf response id
  typed : ∀ invocation ∈ invocations, ∀ response, invocation.response = some response →
    protobuf.descriptor response = invocation.call.method.outputType
  handled : ∀ received ∈ client.handling, ∃ response, Answered invocations received.id response ∧
    received.body = protobuf.serializeAsString response
  ran : ∀ run ∈ client.runs, Answered invocations run.id run.response

section Direction

variable {protobuf : Protobuf Prototype Message} {client next : Client Prototype Message ℕ Unit}
  {responses requests : List Packet} {services : Option (ServiceMap schema)}
  {invocations : List (Invocation schema Message)}

theorem Answered.mono {other : List (Invocation schema Message)} {id : BitVec 64}
    {response : Message} (hanswered : Answered invocations id response)
    (hsubset : ∀ invocation ∈ invocations, invocation.response = some response →
      ∃ kept ∈ other, kept.response = some response ∧ kept.call.id = invocation.call.id) :
    Answered other id response := by
  obtain ⟨invocation, hmem, hresponse, rfl⟩ := hanswered
  exact hsubset invocation hmem hresponse

/-- A step of the client keeps its calls well formed, if it starts a well-formed one. -/
theorem Framed.step {action : ClientAction Prototype Message ℕ Unit}
    (hframed : Framed protobuf schema client)
    (hstep : clientStep protobuf client action = some next)
    (hnew : ∀ method request response done, action = .callMethodId method request response done →
      method ∈ schema.methods ∧ protobuf.descriptor request = method.inputType ∧
        (∀ prototype, response = some prototype → prototype = method.outputType) ∧
          ∀ index, done = some index → index = client.calls.length) :
    Framed protobuf schema next := by
  intro index call hcall
  rcases call_of_step hstep hcall with
    ⟨old, phase, hold, rfl, -⟩ | ⟨rfl, method, request, response, done, haction, rfl⟩
  · exact hframed index old hold
  · obtain ⟨hmethod, htype, hprototype, hdone⟩ := hnew method request response done haction
    exact ⟨hmethod, htype, rfl, hprototype, hdone⟩

/-- A step of the client that starts a well-formed call, if any, and leaves the hands of the I/O
thread and the record of callbacks alone, keeps the invariant. -/
theorem Direction.step {action : ClientAction Prototype Message ℕ Unit}
    (hdirection : Direction protobuf client responses requests services invocations)
    (hbound : client.calls.length < 2 ^ 64)
    (hstep : clientStep protobuf client action = some next)
    (hframed : Framed protobuf schema next)
    (hhandling : ∀ received ∈ next.handling, ∃ response,
      Answered invocations received.id response ∧
        received.body = protobuf.serializeAsString response)
    (hruns : ∀ run ∈ next.runs, Answered invocations run.id run.response) :
    Direction protobuf next responses requests services invocations where
  invariant := hdirection.invariant.step hbound hstep
  framed := hframed
  requested := fun packet hpacket ↦ by
    obtain ⟨call, hcall, hsent, hmessage⟩ := hdirection.requested packet hpacket
    exact ⟨call, sent_call_after_step hstep hcall hsent, hsent, hmessage⟩
  invoked := fun invocation hinvocation ↦ by
    obtain ⟨call, hcall, hsent, hservice⟩ := hdirection.invoked invocation hinvocation
    exact ⟨call, sent_call_after_step hstep hcall hsent, hsent, hservice⟩
  once := hdirection.once
  responded := hdirection.responded
  typed := hdirection.typed
  handled := hhandling
  ran := hruns

/-- Sending a REQUEST puts it on its way, for the first time. -/
theorem Direction.send {index : ℕ} {call : CallFrame Prototype Message ℕ}
    (hdirection : Direction protobuf client responses requests services invocations)
    (hbound : client.calls.length < 2 ^ 64) (hcall : client.calls[index]? = some call)
    (hstep : client.callMethodSend index = some next) :
    Direction protobuf next responses (requests ++ [{ origin := index, message := call.message }])
      services invocations := by
  have hclient : clientStep protobuf client (.callMethodSend index) = some next := hstep
  obtain ⟨sending, hsending, hphase, hnext⟩ := callMethodSend_eq_some hstep
  obtain rfl : sending = call := Option.some.inj (hsending.symm.trans hcall)
  have hkept := hdirection.step hbound hclient
    (hdirection.framed.step hclient (by rintro _ _ _ _ ⟨⟩))
    (by rw [hnext]; exact hdirection.handled) (by rw [hnext]; exact hdirection.ran)
  have hfresh : index ∉ requests.map Packet.origin ++ invocations.map Invocation.cause := by
    intro hmem
    have hsent : ∃ sent, client.calls[index]? = some sent ∧ sent.phase = .sent := by
      rcases List.mem_append.mp hmem with hrequest | hinvocation
      · obtain ⟨packet, hpacket, rfl⟩ := List.mem_map.mp hrequest
        obtain ⟨sent, hfound, hsentPhase, -⟩ := hdirection.requested packet hpacket
        exact ⟨sent, hfound, hsentPhase⟩
      · obtain ⟨invocation, hcaused, rfl⟩ := List.mem_map.mp hinvocation
        obtain ⟨sent, hfound, hsentPhase, -⟩ := hdirection.invoked invocation hcaused
        exact ⟨sent, hfound, hsentPhase⟩
    obtain ⟨sent, hfound, hsentPhase⟩ := hsent
    obtain rfl : sent = sending := Option.some.inj (hfound.symm.trans hcall)
    rw [hphase] at hsentPhase
    cases hsentPhase
  exact { hkept with
    requested := by
      intro packet hpacket
      rcases List.mem_append.mp hpacket with hold | hnew
      · exact hkept.requested packet hold
      · rw [List.mem_singleton.mp hnew]
        refine ⟨{ sending with phase := .sent }, ?_, rfl, rfl⟩
        simp [hnext, getElem?_advance, hcall]
    once := by
      rw [List.map_append, List.append_assoc]
      exact List.perm_middle.nodup_iff.mpr (List.nodup_cons.mpr ⟨hfresh, hdirection.once⟩) }

/-- Delivering a RESPONSE takes the entry of its call out of the table. -/
theorem Direction.onResponse {packet : Packet}
    (hdirection : Direction protobuf client (packet :: responses) requests services invocations)
    (hbound : client.calls.length < 2 ^ 64) (htype : packet.message.getType = .response) :
    Direction protobuf (client.onResponse packet.message) responses requests services
      invocations := by
  have hclient : clientStep protobuf client (.onRpcMessage packet.message) =
      some (client.onResponse packet.message) := by
    simp only [clientStep, htype, if_true]
  have hkept := hdirection.step hbound hclient
    (hdirection.framed.step hclient (by rintro _ _ _ _ ⟨⟩)) (by
      intro received hreceived
      cases hfind : client.outstandings.find packet.message.getId with
      | none =>
        rw [onResponse_of_find_eq_none hfind] at hreceived
        exact hdirection.handled received hreceived
      | some out =>
        rw [onResponse_of_find_eq_some hfind] at hreceived
        rcases List.mem_append.mp hreceived with hold | hnew
        · exact hdirection.handled received hold
        · rw [List.mem_singleton.mp hnew]
          obtain ⟨id, response, hanswered, hmessage⟩ := hdirection.responded packet (by simp)
          rw [hmessage]
          exact ⟨response, hanswered, rfl⟩)
    (by rw [runs_onResponse]; exact hdirection.ran)
  exact { hkept with
    responded := fun other hother ↦ hdirection.responded other (List.mem_cons_of_mem _ hother) }

/-- A call that stored its entry caused the invocation with its id: the callback it gives is its
own, and the response type it expects is that of the invocation. -/
theorem Direction.cause_of_hasStored {out : OutstandingCall Prototype ℕ}
    {invocation : Invocation schema Message}
    (hdirection : Direction protobuf client responses requests services invocations)
    (hbound : client.calls.length < 2 ^ 64) (hinvocation : invocation ∈ invocations)
    (hstored : HasStored client invocation.call.id out) :
    (∀ prototype, out.response = some prototype → prototype = invocation.call.method.outputType) ∧
      ∀ done, out.done = some done → done = invocation.cause := by
  obtain ⟨index, call, hcall, hid, rfl, -⟩ := hstored
  obtain ⟨causing, hcausing, -, hservice⟩ := hdirection.invoked invocation hinvocation
  obtain ⟨hmethod, -, hmessage, -, -⟩ := hdirection.framed _ causing hcausing
  rw [hmessage] at hservice
  obtain ⟨-, -, hmethodEq, -, hcallId⟩ := callServiceMethod_requestMessage hmethod hservice
  have hindex : index = invocation.cause :=
    hdirection.invariant.index_eq hbound hcall hcausing (hid.trans hcallId)
  subst hindex
  obtain rfl : call = causing := Option.some.inj (hcall.symm.trans hcausing)
  obtain ⟨-, -, -, hprototype, hdone⟩ := hdirection.framed _ call hcall
  rw [hmethodEq]
  exact ⟨hprototype, hdone⟩

/-- Running a callback gives it the response of the invocation its call caused, since a response
survives the way through its serialization. -/
theorem Direction.runDone {index : ℕ}
    (hdirection : Direction protobuf client responses requests services invocations)
    (hbound : client.calls.length < 2 ^ 64)
    (hroundTrip : ∀ message, protobuf.parseFromString (protobuf.descriptor message)
      (protobuf.serializeAsString message) = (message, true))
    (hstep : client.runDone protobuf index = some next) :
    Direction protobuf next responses requests services invocations := by
  have hclient : clientStep protobuf client (.runDone index) = some next := hstep
  have hframed := hdirection.framed.step hclient (by rintro _ _ _ _ ⟨⟩)
  obtain ⟨received, hreceived, hnext⟩ := runDone_eq_some hstep
  have hmem : received ∈ client.handling := List.mem_of_getElem? hreceived
  have hhandling : ∀ other ∈ client.handling.eraseIdx index, ∃ response,
      Answered invocations other.id response ∧ other.body = protobuf.serializeAsString response :=
    fun other hother ↦ hdirection.handled other (List.mem_of_mem_eraseIdx hother)
  rcases hnext with rfl | ⟨prototype, done, hout, rfl⟩
  · exact hdirection.step hbound hclient hframed hhandling hdirection.ran
  · refine hdirection.step hbound hclient hframed hhandling fun run hrun ↦ ?_
    rcases List.mem_append.mp hrun with hold | hnew
    · exact hdirection.ran run hold
    · rw [List.mem_singleton.mp hnew]
      obtain ⟨response, ⟨invocation, hinvocation, hresponse, hid⟩, hbody⟩ :=
        hdirection.handled received hmem
      have hstored := (hdirection.invariant.handled received hmem).2
      rw [← hid, hout] at hstored
      have hprototype : prototype = protobuf.descriptor response := by
        rw [hdirection.typed invocation hinvocation response hresponse]
        exact (hdirection.cause_of_hasStored hbound hinvocation hstored).1 prototype rfl
      refine ⟨invocation, hinvocation, ?_, hid⟩
      rw [hresponse, hbody, hprototype, hroundTrip]

/-- Delivering a REQUEST invokes at most one service method, on behalf of the call it came from. -/
theorem Direction.invoke {packet : Packet} {call : ServiceCall schema Message}
    (hdirection : Direction protobuf client responses (packet :: requests) services invocations)
    (hservice : callServiceMethod protobuf services packet.message = some call) :
    Direction protobuf client responses requests services
      (invocations ++ [{ cause := packet.origin, call := call, response := none }]) := by
  have hkeep : ∀ {id response}, Answered invocations id response → Answered (invocations ++
      [{ cause := packet.origin, call := call, response := none }]) id response :=
    fun hanswered ↦ hanswered.mono fun invocation hinvocation hresponse ↦
      ⟨invocation, List.mem_append_left _ hinvocation, hresponse, rfl⟩
  exact {
    invariant := hdirection.invariant
    framed := hdirection.framed
    requested := fun other hother ↦ hdirection.requested other (List.mem_cons_of_mem _ hother)
    invoked := by
      intro invocation hinvocation
      rcases List.mem_append.mp hinvocation with hold | hnew
      · exact hdirection.invoked invocation hold
      · rw [List.mem_singleton.mp hnew]
        obtain ⟨sent, hcall, hsent, hmessage⟩ := hdirection.requested packet (by simp)
        rw [hmessage] at hservice
        exact ⟨sent, hcall, hsent, hservice⟩
    once := by
      rw [List.map_append, ← List.append_assoc]
      exact (List.perm_append_singleton _ _).nodup_iff.mpr hdirection.once
    responded := by
      intro other hother
      obtain ⟨id, response, hanswered, hmessage⟩ := hdirection.responded other hother
      exact ⟨id, response, hkeep hanswered, hmessage⟩
    typed := by
      intro invocation hinvocation response hresponse
      rcases List.mem_append.mp hinvocation with hold | hnew
      · exact hdirection.typed invocation hold response hresponse
      · rw [List.mem_singleton.mp hnew] at hresponse
        cases hresponse
    handled := by
      intro received hreceived
      obtain ⟨response, hanswered, hbody⟩ := hdirection.handled received hreceived
      exact ⟨response, hkeep hanswered, hbody⟩
    ran := fun run hrun ↦ hkeep (hdirection.ran run hrun) }

/-- A REQUEST that invokes nothing just disappears. -/
theorem Direction.drop {packet : Packet}
    (hdirection : Direction protobuf client responses (packet :: requests) services invocations) :
    Direction protobuf client responses requests services invocations :=
  { hdirection with
    requested := fun other hother ↦ hdirection.requested other (List.mem_cons_of_mem _ hother)
    once := (List.nodup_cons.mp hdirection.once).2 }

/-- A service that passes a response to its callback puts the RESPONSE on its way. -/
theorem Direction.doneCallback {index : ℕ} {invocation : Invocation schema Message}
    {response : Message}
    (hdirection : Direction protobuf client responses requests services invocations)
    (hinvocation : invocations[index]? = some invocation) (hnone : invocation.response = none)
    (htype : protobuf.descriptor response = invocation.call.method.outputType) :
    Direction protobuf client
      (responses ++ [{
        origin := index
        message := CppChannel.doneCallback protobuf response invocation.call.id }])
      requests services (invocations.set index { invocation with response := some response }) := by
  obtain ⟨hlt, hget⟩ := List.getElem?_eq_some_iff.mp hinvocation
  have hmem : invocation ∈ invocations := List.mem_of_getElem? hinvocation
  have hnew : { invocation with response := some response } ∈
      invocations.set index { invocation with response := some response } :=
    List.mem_set hlt _
  have hkeep : ∀ {id other}, Answered invocations id other → Answered
      (invocations.set index { invocation with response := some response }) id other := by
    refine fun hanswered ↦ hanswered.mono fun kept hkept hresponse ↦ ⟨kept, ?_, hresponse, rfl⟩
    obtain ⟨position, hposition⟩ := List.mem_iff_getElem?.mp hkept
    refine List.mem_iff_getElem?.mpr ⟨position, ?_⟩
    rw [List.getElem?_set_ne _, hposition]
    rintro rfl
    rw [hinvocation] at hposition
    obtain rfl := Option.some.inj hposition
    rw [hnone] at hresponse
    cases hresponse
  exact {
    invariant := hdirection.invariant
    framed := hdirection.framed
    requested := hdirection.requested
    invoked := by
      intro other hother
      rcases List.mem_or_eq_of_mem_set hother with hold | rfl
      · exact hdirection.invoked other hold
      · exact hdirection.invoked invocation hmem
    once := by
      have hcauses : (invocations.set index { invocation with response := some response }).map
          Invocation.cause = invocations.map Invocation.cause := by
        have hlength : index < (invocations.map Invocation.cause).length := by simpa using hlt
        have hcause : invocation.cause = (invocations.map Invocation.cause)[index] := by
          simp [hget]
        rw [List.map_set]
        show (invocations.map Invocation.cause).set index invocation.cause = _
        rw [hcause, List.set_getElem_self]
      rw [hcauses]
      exact hdirection.once
    responded := by
      intro packet hpacket
      rcases List.mem_append.mp hpacket with hold | hsent
      · obtain ⟨id, other, hanswered, hmessage⟩ := hdirection.responded packet hold
        exact ⟨id, other, hkeep hanswered, hmessage⟩
      · rw [List.mem_singleton.mp hsent]
        exact ⟨_, response, ⟨_, hnew, rfl, rfl⟩, rfl⟩
    typed := by
      intro other hother found hfound
      rcases List.mem_or_eq_of_mem_set hother with hold | rfl
      · exact hdirection.typed other hold found hfound
      · rw [← Option.some.inj hfound]
        exact htype
    handled := by
      intro received hreceived
      obtain ⟨other, hanswered, hbody⟩ := hdirection.handled received hreceived
      exact ⟨other, hkeep hanswered, hbody⟩
    ran := fun run hrun ↦ hkeep (hdirection.ran run hrun) }

end Direction

end MuduoProtorpc.CppChannel
