import MuduoProtorpc.CppChannel.EndToEnd

/-!
# What a connection between two C++ RpcChannels guarantees

`LinkInvariant` is `Direction` in both directions of use. A step of the connection moves the client
of one side, delivers a message to one side, or sends one from a side to the other, and each of
these keeps both directions (`LinkInvariant.step`).

`CallGuarantees` is what follows for the calls of one side: a call causes at most one invocation, of
its own method and with its own request, and its callback runs at most once, with the response of
that invocation. The identifiers are 64 bits wide, and `not_callGuarantees_of_wrapped_id` is what
happens after `2 ^ 64` calls.
-/

set_option autoImplicit false
set_option relaxedAutoImplicit false

namespace MuduoProtorpc.CppChannel

open Foundation

variable {Prototype Message : Type} {schema : Schema Prototype}

/-! ### The invariant of the connection -/

/-- Both directions of use are in order. -/
def LinkInvariant (protobuf : Protobuf Prototype Message) (link : Link schema Message) : Prop :=
  ∀ side : Side, Direction protobuf (link side).client (responsesOf (link side).inbox)
    (requestsOf (link side.other).inbox) (link side.other).services (link side.other).invocations

/-- Each side has made fewer calls than this. -/
def CallsBelow (bound : ℕ) (link : Link schema Message) : Prop :=
  ∀ side : Side, (link side).client.calls.length < bound

theorem Side.forall_of_other {motive : Side → Prop} (side : Side) (hside : motive side)
    (hother : motive side.other) (any : Side) : motive any := by
  cases side <;> cases any <;> assumption

section Inboxes

variable {inbox : List Packet} {packet : Packet}

theorem requestsOf_append_request (htype : packet.message.getType = .request) :
    requestsOf (inbox ++ [packet]) = requestsOf inbox ++ [packet] := by
  simp [requestsOf, htype]

theorem requestsOf_append_response (htype : packet.message.getType = .response) :
    requestsOf (inbox ++ [packet]) = requestsOf inbox := by
  simp [requestsOf, htype]

theorem responsesOf_append_request (htype : packet.message.getType = .request) :
    responsesOf (inbox ++ [packet]) = responsesOf inbox := by
  simp [responsesOf, htype]

theorem responsesOf_append_response (htype : packet.message.getType = .response) :
    responsesOf (inbox ++ [packet]) = responsesOf inbox ++ [packet] := by
  simp [responsesOf, htype]

theorem requestsOf_cons : requestsOf (packet :: inbox) =
    if packet.message.getType = .request then packet :: requestsOf inbox else requestsOf inbox := by
  simp [requestsOf, List.filter_cons]

theorem responsesOf_cons : responsesOf (packet :: inbox) =
    if packet.message.getType = .response then packet :: responsesOf inbox
    else responsesOf inbox := by
  simp [responsesOf, List.filter_cons]

end Inboxes

section LinkInvariant

variable {protobuf : Protobuf Prototype Message} {link next : Link schema Message} {side : Side}

/-- A step of the client of one side keeps the invariant, if it keeps the direction of its calls. -/
theorem LinkInvariant.withClient (hinvariant : LinkInvariant protobuf link)
    {client : Client Prototype Message ℕ Unit}
    (hdirection : Direction protobuf client (responsesOf (link side).inbox)
      (requestsOf (link side.other).inbox) (link side.other).services
      (link side.other).invocations) :
    LinkInvariant protobuf (Function.update link side ((link side).withClient client)) := by
  refine Side.forall_of_other side ?_ ?_
  · simpa [Endpoint.withClient] using hdirection
  · simpa [Endpoint.withClient] using hinvariant side.other

variable [DecidableEq Prototype]

/-- Starting a call keeps the invariant. -/
theorem LinkInvariant.callMethodId (hinvariant : LinkInvariant protobuf link)
    (hbelow : CallsBelow (2 ^ 64) link) {method : MethodDescriptor Prototype} {request : Message}
    {hasResponse hasDone : Bool}
    (hstep : linkStep protobuf link (.callMethodId side method request hasResponse hasDone) =
      some next) : LinkInvariant protobuf next := by
  by_cases hcall : method ∈ schema.methods ∧ protobuf.descriptor request = method.inputType
  · simp only [linkStep, hcall, and_self, if_true] at hstep
    obtain rfl := Option.some.inj hstep
    refine hinvariant.withClient ?_
    have hclient : clientStep protobuf (link side).client (.callMethodId method request
        (if hasResponse then some method.outputType else none)
        (if hasDone then some (link side).client.calls.length else none)) = some _ := rfl
    have hframed := (hinvariant side).framed.step hclient (by
      rintro _ _ _ _ ⟨⟩
      exact ⟨hcall.1, hcall.2, by grind, by grind⟩)
    exact (hinvariant side).step (hbelow side) hclient hframed (hinvariant side).handled
      (hinvariant side).ran
  · simp only [linkStep, hcall, if_false, reduceCtorEq] at hstep

/-- Storing the entry of a call keeps the invariant. -/
theorem LinkInvariant.callMethodInsert (hinvariant : LinkInvariant protobuf link)
    (hbelow : CallsBelow (2 ^ 64) link) {index : ℕ}
    (hstep : linkStep protobuf link (.callMethodInsert side index) = some next) :
    LinkInvariant protobuf next := by
  obtain ⟨client, hinsert, rfl⟩ := Option.map_eq_some_iff.mp hstep
  have hclient : clientStep protobuf (link side).client (.callMethodInsert index) = some client :=
    hinsert
  refine hinvariant.withClient ((hinvariant side).step (hbelow side) hclient ?_ ?_ ?_)
  · exact (hinvariant side).framed.step hclient (by rintro _ _ _ _ ⟨⟩)
  · obtain ⟨_, _, _, rfl⟩ := callMethodInsert_eq_some hinsert
    exact (hinvariant side).handled
  · obtain ⟨_, _, _, rfl⟩ := callMethodInsert_eq_some hinsert
    exact (hinvariant side).ran

/-- Sending a REQUEST keeps the invariant. -/
theorem LinkInvariant.callMethodSend (hinvariant : LinkInvariant protobuf link)
    (hbelow : CallsBelow (2 ^ 64) link) {index : ℕ}
    (hstep : linkStep protobuf link (.callMethodSend side index) = some next) :
    LinkInvariant protobuf next := by
  simp only [linkStep] at hstep
  split at hstep
  · rename_i call client hcall hsend
    obtain rfl := Option.some.inj hstep
    have htype : call.message.getType = .request := by
      obtain ⟨-, -, hmessage, -⟩ := (hinvariant side).framed index call hcall
      rw [hmessage]
      rfl
    refine Side.forall_of_other side ?_ ?_
    · simpa [Endpoint.withClient, Endpoint.receive, requestsOf_append_request, htype] using
        (hinvariant side).send (hbelow side) hcall hsend
    · simpa [Endpoint.withClient, Endpoint.receive, responsesOf_append_request, htype] using
        hinvariant side.other
  · cases hstep

/-- Delivering a message keeps the invariant. -/
theorem LinkInvariant.onMessage (hinvariant : LinkInvariant protobuf link)
    (hbelow : CallsBelow (2 ^ 64) link)
    (hstep : linkStep protobuf link (.onMessage side) = some next) :
    LinkInvariant protobuf next := by
  simp only [linkStep] at hstep
  split at hstep
  · cases hstep
  · rename_i packet rest hinbox
    obtain rfl := Option.some.inj hstep
    have hcaller := hinvariant side
    have hcallee := hinvariant side.other
    rw [Side.other_other] at hcallee
    rw [hinbox, responsesOf_cons] at hcaller
    rw [hinbox, requestsOf_cons] at hcallee
    cases htype : packet.message.getType with
    | request =>
      simp only [htype, if_true, reduceCtorEq, if_false] at hcaller hcallee
      cases hservice : callServiceMethod protobuf (link side).services packet.message with
      | none =>
        refine Side.forall_of_other side ?_ ?_
        · simpa [Endpoint.onRpcMessage, htype, hservice] using hcaller
        · simpa [Endpoint.onRpcMessage, htype, hservice] using hcallee.drop
      | some call =>
        refine Side.forall_of_other side ?_ ?_
        · simpa [Endpoint.onRpcMessage, htype, hservice] using hcaller
        · simpa [Endpoint.onRpcMessage, htype, hservice] using hcallee.invoke hservice
    | response =>
      simp only [htype, if_true, reduceCtorEq, if_false] at hcaller hcallee
      refine Side.forall_of_other side ?_ ?_
      · simpa [Endpoint.onRpcMessage, Endpoint.withClient, htype] using
          hcaller.onResponse (hbelow side) htype
      · simpa [Endpoint.onRpcMessage, Endpoint.withClient, htype] using hcallee
    | error =>
      simp only [htype, reduceCtorEq, if_false] at hcaller hcallee
      refine Side.forall_of_other side ?_ ?_
      · simpa [Endpoint.onRpcMessage, htype] using hcaller
      · simpa [Endpoint.onRpcMessage, htype] using hcallee

/-- Running the callback of a call keeps the invariant. -/
theorem LinkInvariant.runDone (hinvariant : LinkInvariant protobuf link)
    (hbelow : CallsBelow (2 ^ 64) link)
    (hroundTrip : ∀ message, protobuf.parseFromString (protobuf.descriptor message)
      (protobuf.serializeAsString message) = (message, true)) {index : ℕ}
    (hstep : linkStep protobuf link (.runDone side index) = some next) :
    LinkInvariant protobuf next := by
  obtain ⟨client, hrun, rfl⟩ := Option.map_eq_some_iff.mp hstep
  exact hinvariant.withClient ((hinvariant side).runDone (hbelow side) hroundTrip hrun)

/-- A service that passes a response to its callback keeps the invariant. -/
theorem LinkInvariant.doneCallback (hinvariant : LinkInvariant protobuf link) {index : ℕ}
    {response : Message}
    (hstep : linkStep protobuf link (.doneCallback side index response) = some next) :
    LinkInvariant protobuf next := by
  simp only [linkStep] at hstep
  split at hstep
  · cases hstep
  · rename_i invocation hinvocation
    split_ifs at hstep with hdone
    obtain rfl := Option.some.inj hstep
    have hcallee := hinvariant side.other
    rw [Side.other_other] at hcallee
    have hkept := hcallee.doneCallback hinvocation (by simpa using hdone.1) hdone.2
    have htype : (CppChannel.doneCallback protobuf response invocation.call.id).getType =
        .response := rfl
    refine Side.forall_of_other side ?_ ?_
    · simpa [Endpoint.receive, requestsOf_append_response, htype] using hinvariant side
    · simpa [Endpoint.receive, responsesOf_append_response, htype] using hkept

/-- Every step keeps the invariant as long as no side makes `2 ^ 64` calls. -/
theorem LinkInvariant.step {action : LinkAction schema Message}
    (hinvariant : LinkInvariant protobuf link) (hbelow : CallsBelow (2 ^ 64) link)
    (hroundTrip : ∀ message, protobuf.parseFromString (protobuf.descriptor message)
      (protobuf.serializeAsString message) = (message, true))
    (hstep : linkStep protobuf link action = some next) : LinkInvariant protobuf next := by
  cases action with
  | callMethodId side method request hasResponse hasDone =>
    exact hinvariant.callMethodId hbelow hstep
  | callMethodInsert side index => exact hinvariant.callMethodInsert hbelow hstep
  | callMethodSend side index => exact hinvariant.callMethodSend hbelow hstep
  | onMessage side => exact hinvariant.onMessage hbelow hstep
  | runDone side index => exact hinvariant.runDone hbelow hroundTrip hstep
  | doneCallback side index response => exact hinvariant.doneCallback hstep

theorem linkInvariant_start (services : Side → Option (List (Service schema))) :
    LinkInvariant protobuf (linkSystem protobuf services).start := by
  intro side
  exact {
    invariant := clientInvariant_initial ()
    framed := fun index call hcall ↦ by cases hcall
    requested := fun packet hpacket ↦ by cases hpacket
    invoked := fun invocation hinvocation ↦ by cases hinvocation
    once := List.nodup_nil
    responded := fun packet hpacket ↦ by cases hpacket
    typed := fun invocation hinvocation ↦ by cases hinvocation
    handled := fun received hreceived ↦ by cases hreceived
    ran := fun run hrun ↦ by cases hrun }

/-- The same services, and at least the calls that were there before. -/
def Endpoint.Extends (endpoint later : Endpoint schema Message) : Prop :=
  later.services = endpoint.services ∧
    endpoint.client.calls.length ≤ later.client.calls.length

omit [DecidableEq Prototype] in
theorem extends_update {endpoint : Endpoint schema Message}
    (hlink : ∀ any, (link any).Extends (next any)) (hside : (link side).Extends endpoint)
    (any : Side) : (link any).Extends (Function.update next side endpoint any) := by
  by_cases hany : any = side
  · subst hany
    rwa [Function.update_self]
  · rw [Function.update_of_ne hany]
    exact hlink any

/-- No step takes back a call or changes the services of a side. -/
theorem extends_of_linkStep {action : LinkAction schema Message}
    (hstep : linkStep protobuf link action = some next) (any : Side) :
    (link any).Extends (next any) := by
  have hrefl : ∀ any, (link any).Extends (link any) := fun any ↦ ⟨rfl, le_rfl⟩
  have hclient : ∀ {side : Side} {client : Client Prototype Message ℕ Unit}
      (moved : ClientAction Prototype Message ℕ Unit),
      clientStep protobuf (link side).client moved = some client →
        (link side).Extends ((link side).withClient client) :=
    fun moved hmoved ↦ ⟨rfl, length_calls_le hmoved⟩
  cases action with
  | callMethodId side method request hasResponse hasDone =>
    simp only [linkStep] at hstep
    split at hstep
    · obtain rfl := Option.some.inj hstep
      exact extends_update hrefl (hclient (.callMethodId method request _ _) rfl) any
    · cases hstep
  | callMethodInsert side index =>
    obtain ⟨client, hinsert, rfl⟩ := Option.map_eq_some_iff.mp hstep
    exact extends_update hrefl (hclient (.callMethodInsert index) hinsert) any
  | callMethodSend side index =>
    simp only [linkStep] at hstep
    split at hstep
    · rename_i call client hcall hsend
      obtain rfl := Option.some.inj hstep
      refine extends_update (extends_update hrefl (hclient (.callMethodSend index) hsend)) ?_ any
      exact ⟨rfl, le_rfl⟩
    · cases hstep
  | onMessage side =>
    simp only [linkStep] at hstep
    split at hstep
    · cases hstep
    · rename_i packet rest hinbox
      obtain rfl := Option.some.inj hstep
      refine extends_update hrefl ?_ any
      unfold Endpoint.onRpcMessage
      split
      · exact ⟨rfl, by simp [Endpoint.withClient]⟩
      · split <;> exact ⟨rfl, le_rfl⟩
      · exact ⟨rfl, le_rfl⟩
  | runDone side index =>
    obtain ⟨client, hrun, rfl⟩ := Option.map_eq_some_iff.mp hstep
    exact extends_update hrefl (hclient (.runDone index) hrun) any
  | doneCallback side index response =>
    simp only [linkStep] at hstep
    split at hstep
    · cases hstep
    · split_ifs at hstep with hdone
      obtain rfl := Option.some.inj hstep
      refine extends_update (extends_update hrefl ?_) ?_ any
      · exact ⟨rfl, le_rfl⟩
      · exact ⟨rfl, le_rfl⟩

/-- The invariant after every run in which no side makes `2 ^ 64` calls; the services are those
registered before the start. -/
theorem linkInvariant_of_run {services : Side → Option (List (Service schema))}
    {actions : List (LinkAction schema Message)}
    (hroundTrip : ∀ message, protobuf.parseFromString (protobuf.descriptor message)
      (protobuf.serializeAsString message) = (message, true))
    (hrun : (linkSystem protobuf services).Run actions link) (hbelow : CallsBelow (2 ^ 64) link) :
    LinkInvariant protobuf link ∧
      ∀ side, (link side).services = (services side).map registered := by
  induction hrun with
  | start => exact ⟨linkInvariant_start services, fun _ ↦ rfl⟩
  | step _ _ hstep ih =>
    have hbefore := fun side ↦ (extends_of_linkStep hstep side).2.trans_lt (hbelow side)
    obtain ⟨hinvariant, hservices⟩ := ih hbefore
    refine ⟨hinvariant.step hbefore hroundTrip hstep, fun side ↦ ?_⟩
    rw [(extends_of_linkStep hstep side).1, hservices side]

end LinkInvariant

/-! ### What the calls of one side are guaranteed -/

/-- What the calls of `caller` to `callee` are guaranteed, when these services were registered at
the callee. -/
structure CallGuarantees (services : Option (List (Service schema)))
    (caller callee : Endpoint schema Message) : Prop where
  /-- A call causes at most one invocation. -/
  atMostOneInvocation : ∀ index, (callee.invocations.map Invocation.cause).count index ≤ 1
  /-- An invocation is of the service registered under the full name of the service of its call's
  method, of that method, and with a request equal to the call's. -/
  invocationOf : ∀ invocation ∈ callee.invocations,
    ∃ (call : CallFrame Prototype Message ℕ) (registration : List (Service schema)),
      caller.client.calls[invocation.cause]? = some call ∧ services = some registration ∧
        (registered registration).entries.find call.method.service =
          some invocation.call.service ∧
            invocation.call.method = call.method ∧ invocation.call.request = call.request
  /-- The callback of a call runs at most once. -/
  doneAtMostOnce : ∀ index, (caller.client.runs.map DoneRun.done).count index ≤ 1
  /-- A callback that runs is that of a call, and the response it receives is the one the
  invocation its call caused has produced. -/
  responseOf : ∀ run ∈ caller.client.runs,
    ∃ (call : CallFrame Prototype Message ℕ) (invocation : Invocation schema Message),
      caller.client.calls[run.done]? = some call ∧ call.out.done = some run.done ∧
        invocation ∈ callee.invocations ∧ invocation.cause = run.done ∧
          invocation.response = some run.response

section CallGuarantees

variable {protobuf : Protobuf Prototype Message} {client : Client Prototype Message ℕ Unit}
  {responses requests : List Packet} {services : Option (ServiceMap schema)}
  {invocations : List (Invocation schema Message)}

/-- A callback that ran is that of the call whose id its entry was found under. -/
theorem Direction.call_of_run
    (hdirection : Direction protobuf client responses requests services invocations)
    {run : DoneRun Message ℕ} (hrun : run ∈ client.runs) :
    ∃ call, client.calls[run.done]? = some call ∧ call.out.done = some run.done ∧
      call.id = run.id ∧ run.id = drawnId 1 run.done := by
  obtain ⟨-, prototype, index, call, hcall, hid, hout, -⟩ := hdirection.invariant.ran run hrun
  have hdone : call.out.done = some run.done := by rw [hout]
  obtain ⟨-, -, -, -, hown⟩ := hdirection.framed index call hcall
  obtain rfl := hown run.done hdone
  exact ⟨call, hcall, hdone, hid, hid.symm.trans (hdirection.invariant.callId _ call hcall)⟩

/-- No callback ran twice. -/
theorem Direction.nodup_done
    (hdirection : Direction protobuf client responses requests services invocations) :
    (client.runs.map DoneRun.done).Nodup := by
  have hids : (client.runs.map DoneRun.id).Nodup :=
    (List.nodup_append.mp hdirection.invariant.answeredOnce).2.1
  have heq : client.runs.map DoneRun.id = (client.runs.map DoneRun.done).map (drawnId 1) := by
    rw [List.map_map]
    refine List.map_congr_left fun run hrun ↦ ?_
    obtain ⟨_, -, -, -, hid⟩ := hdirection.call_of_run hrun
    exact hid
  rw [heq] at hids
  exact hids.of_map

/-- The invocation that answered a callback's call is the one its call caused. -/
theorem Direction.responseOf
    (hdirection : Direction protobuf client responses requests services invocations)
    (hbound : client.calls.length < 2 ^ 64) {run : DoneRun Message ℕ} (hrun : run ∈ client.runs) :
    ∃ invocation ∈ invocations, invocation.cause = run.done ∧
      invocation.response = some run.response := by
  obtain ⟨invocation, hinvocation, hresponse, hid⟩ := hdirection.ran run hrun
  obtain ⟨-, prototype, hstored⟩ := hdirection.invariant.ran run hrun
  rw [← hid] at hstored
  have hcause := (hdirection.cause_of_hasStored hbound hinvocation hstored).2 run.done rfl
  exact ⟨invocation, hinvocation, hcause.symm, hresponse⟩

/-- An invocation is of the method its call names, with the request the call was given. -/
theorem Direction.invocationOf
    (hdirection : Direction protobuf client responses requests services invocations)
    (hroundTrip : ∀ message, protobuf.parseFromString (protobuf.descriptor message)
      (protobuf.serializeAsString message) = (message, true))
    {invocation : Invocation schema Message} (hinvocation : invocation ∈ invocations) :
    ∃ call map, client.calls[invocation.cause]? = some call ∧ services = some map ∧
      map.entries.find call.method.service = some invocation.call.service ∧
        invocation.call.method = call.method ∧ invocation.call.request = call.request := by
  obtain ⟨call, hcall, -, hservice⟩ := hdirection.invoked invocation hinvocation
  obtain ⟨hmethod, htype, hmessage, -, -⟩ := hdirection.framed _ call hcall
  rw [hmessage] at hservice
  obtain ⟨⟨map, hmap, hfind⟩, -, hmethodEq, hrequest, -⟩ :=
    callServiceMethod_requestMessage hmethod hservice
  refine ⟨call, map, hcall, hmap, hfind, hmethodEq, ?_⟩
  rw [hrequest, ← htype, hroundTrip]

/-- A run of the connection in which each side makes fewer than `2 ^ 64` calls guarantees the calls
of both sides, when messages survive their serialization: at most one invocation a call, of its own
method and with its own request, and at most one run of its callback, with the response of that
invocation. -/
theorem callGuarantees_of_run [DecidableEq Prototype]
    {registration : Side → Option (List (Service schema))}
    {actions : List (LinkAction schema Message)} {link : Link schema Message}
    (hroundTrip : ∀ message, protobuf.parseFromString (protobuf.descriptor message)
      (protobuf.serializeAsString message) = (message, true))
    (hrun : (linkSystem protobuf registration).Run actions link)
    (hbelow : CallsBelow (2 ^ 64) link) (side : Side) :
    CallGuarantees (registration side.other) (link side) (link side.other) := by
  obtain ⟨hinvariant, hservices⟩ := linkInvariant_of_run hroundTrip hrun hbelow
  have hdirection := hinvariant side
  exact {
    atMostOneInvocation :=
      List.nodup_iff_count_le_one.mp (List.nodup_append.mp hdirection.once).2.1
    invocationOf := by
      intro invocation hinvocation
      obtain ⟨call, map, hcall, hmap, hrest⟩ := hdirection.invocationOf hroundTrip hinvocation
      rw [hservices side.other] at hmap
      obtain ⟨services, hregistration, rfl⟩ := Option.map_eq_some_iff.mp hmap
      exact ⟨call, services, hcall, hregistration, hrest⟩
    doneAtMostOnce := List.nodup_iff_count_le_one.mp hdirection.nodup_done
    responseOf := by
      intro run hrun
      obtain ⟨call, hcall, hdone, -, -⟩ := hdirection.call_of_run hrun
      obtain ⟨invocation, hinvocation, hrest⟩ := hdirection.responseOf (hbelow side) hrun
      exact ⟨call, invocation, hcall, hdone, hinvocation, hrest⟩ }

end CallGuarantees

/-! ### One call, and an id that comes around again -/

/-- The one method of the schema below. -/
def echoMethod : MethodDescriptor Unit :=
  ⟨"s", "m", (), ()⟩

/-- A schema with one service of one method. -/
def echoSchema : Schema Unit where
  methods := [echoMethod]
  unique := by
    intro first hfirst second hsecond _ _
    rw [List.mem_singleton.mp hfirst, List.mem_singleton.mp hsecond]

/-- The service with that method. -/
def echoService : Service echoSchema where
  fullName := "s"
  methods := [echoMethod]
  declared := by
    intro method hmethod
    rw [List.mem_singleton.mp hmethod]
    exact ⟨List.mem_singleton_self _, rfl⟩

/-- The second side serves. -/
def echoServices : Side → Option (List (Service echoSchema))
  | .first => none
  | .second => some [echoService]

/-- The first side makes a call, which is delivered. -/
def oneDelivered : List (LinkAction echoSchema Unit) :=
  [.callMethodId .first echoMethod () true true, .callMethodInsert .first 0,
    .callMethodSend .first 0, .onMessage .second]

/-- The guarantees of a run in which that call is answered and its callback run. -/
theorem callGuarantees_oneDelivered : ∃ link,
    (linkSystem unitProtobuf echoServices).Run
      (oneDelivered ++ [.doneCallback .second 0 (), .onMessage .first, .runDone .first 0]) link ∧
        CallGuarantees (echoServices .second) (link .first) (link .second) := by
  have hrun : (linkSystem unitProtobuf echoServices).Run
      (oneDelivered ++ [.doneCallback .second 0 (), .onMessage .first, .runDone .first 0]) _ :=
    .of_execute rfl
  refine ⟨_, hrun, callGuarantees_of_run (fun _ ↦ rfl) hrun ?_ .first⟩
  rintro (_ | _)
  · decide
  · decide

/-- Further calls that only draw their ids. -/
def idleCalls (count : ℕ) : List (LinkAction echoSchema Unit) :=
  List.replicate count (.callMethodId .first echoMethod () true true)

/-- Drawing ids moves the counter, and leaves the other side and the answers alone. -/
theorem execute_idleCalls (count : ℕ) (link : Link echoSchema Unit) :
    ∃ later : Link echoSchema Unit,
      (linkSystem unitProtobuf echoServices).execute link (idleCalls count) = some later ∧
      later .second = link .second ∧ (later .first).inbox = (link .first).inbox ∧
        (later .first).client.handling = (link .first).client.handling ∧
          (later .first).client.calls.length = (link .first).client.calls.length + count ∧
            (later .first).client.id = drawnId (link .first).client.id count := by
  induction count generalizing link with
  | zero => exact ⟨link, rfl, rfl, rfl, rfl, rfl, (drawnId_zero _).symm⟩
  | succ count ih =>
    obtain ⟨later, hexecute, hsecond, hinbox, hhandling, hlength, hid⟩ :=
      ih (Function.update link .first ((link .first).withClient
        ((link .first).client.callMethodId unitProtobuf echoMethod () (some ())
          (some (link .first).client.calls.length))))
    refine ⟨later, ?_, ?_, ?_, ?_, ?_, ?_⟩
    · rw [idleCalls, List.replicate_succ]
      exact TransitionSystem.execute_cons _ (by rfl) hexecute
    · rw [hsecond, Function.update_of_ne (by decide)]
    · rw [hinbox, Function.update_self]
      rfl
    · rw [hhandling, Function.update_self]
      rfl
    · rw [hlength, Function.update_self]
      simp [Endpoint.withClient, Client.callMethodId]
      omega
    · rw [hid, Function.update_self]
      simp only [Endpoint.withClient, Client.callMethodId, drawnId, BitVec.ofNat_add]
      rw [add_assoc, add_comm 1]
      rfl

/-- The call just started stores its entry. -/
theorem callMethodInsert_callMethodId {protobuf : Protobuf Prototype Message}
    {client : Client Prototype Message ℕ Unit} {method : MethodDescriptor Prototype}
    {request : Message} {response : Option Prototype} {done : Option ℕ} :
    ∃ inserted, (client.callMethodId protobuf method request response done).callMethodInsert
        client.calls.length = some inserted ∧ inserted.handling = client.handling ∧
      inserted.outstandings.find (client.id + 1) = some ⟨response, done⟩ := by
  have hcall : (client.callMethodId protobuf method request response done).calls[
      client.calls.length]? = some {
        method := method
        request := request
        message := Client.requestMessage protobuf method request (client.id + 1)
        out := ⟨response, done⟩
        phase := .idTaken } := by
    simp [Client.callMethodId]
  rw [Client.callMethodInsert, hcall]
  exact ⟨_, rfl, rfl, Table.find_insert_self _ _ _⟩

/-- The entry that a RESPONSE finds is the one whose callback runs. -/
theorem runDone_onResponse (protobuf : Protobuf Prototype Message)
    {client : Client Prototype Message ℕ Unit} {message : RpcMessage} {prototype : Prototype}
    {done : ℕ} (hhandling : client.handling = [])
    (hfind : client.outstandings.find message.getId = some ⟨some prototype, some done⟩) :
    ∃ last, (client.onResponse message).runDone protobuf 0 = some last ∧
      done ∈ last.runs.map DoneRun.done := by
  rw [onResponse_of_find_eq_some hfind, Client.runDone, hhandling]
  exact ⟨_, rfl, by simp⟩

/-- One more call, whose callback runs on the answer to the first invocation. -/
def wrongAnswer (index : ℕ) : List (LinkAction echoSchema Unit) :=
  [.callMethodId .first echoMethod () true true, .callMethodInsert .first index,
    .doneCallback .second 0 (), .onMessage .first, .runDone .first 0]

/-- When the next id is that of a call still open, its answer goes to the call that draws it. -/
theorem execute_wrongAnswer {link : Link echoSchema Unit}
    {invocation : Invocation echoSchema Unit} (hinbox : (link .first).inbox = [])
    (hhandling : (link .first).client.handling = [])
    (hinvocations : (link .second).invocations = [invocation])
    (hpending : invocation.response = none)
    (hid : (link .first).client.id + 1 = invocation.call.id) :
    ∃ last : Link echoSchema Unit, (linkSystem unitProtobuf echoServices).execute link
        (wrongAnswer (link .first).client.calls.length) = some last ∧
      (last .second).invocations.map Invocation.cause = [invocation.cause] ∧
        (link .first).client.calls.length ∈ (last .first).client.runs.map DoneRun.done := by
  let drawn := (link .first).client.callMethodId unitProtobuf echoMethod () (some ())
    (some (link .first).client.calls.length)
  obtain ⟨inserted, hinsert, hinsertedHandling, hfind⟩ :
      ∃ inserted, drawn.callMethodInsert (link .first).client.calls.length = some inserted ∧
        inserted.handling = (link .first).client.handling ∧
          inserted.outstandings.find ((link .first).client.id + 1) =
            some ⟨some (), some (link .first).client.calls.length⟩ :=
    callMethodInsert_callMethodId
  rw [hid] at hfind
  let packet : Packet :=
    ⟨0, CppChannel.doneCallback unitProtobuf () invocation.call.id⟩
  obtain ⟨last, hrun, hdone⟩ : ∃ last, (inserted.onResponse packet.message).runDone
      unitProtobuf 0 = some last ∧
        (link .first).client.calls.length ∈ last.runs.map DoneRun.done :=
    runDone_onResponse unitProtobuf (hinsertedHandling.trans hhandling) hfind
  let second : Endpoint echoSchema Unit :=
    { link .second with invocations := [{ invocation with response := some () }] }
  let stored := Function.update link .first ((link .first).withClient inserted)
  let answered := Function.update (Function.update stored .second second) .first
    (((link .first).withClient inserted).receive packet)
  let delivered := Function.update answered .first
    ((link .first).withClient (inserted.onResponse packet.message))
  have hcall : linkStep unitProtobuf link (.callMethodId .first echoMethod () true true) =
      some (Function.update link .first ((link .first).withClient drawn)) := rfl
  have hstored : linkStep unitProtobuf (Function.update link .first ((link .first).withClient
      drawn)) (.callMethodInsert .first (link .first).client.calls.length) = some stored := by
    simp [linkStep, stored, Endpoint.withClient, hinsert]
  have hanswered : linkStep unitProtobuf stored (.doneCallback .second 0 ()) =
      some answered := by
    simp [linkStep, stored, answered, second, packet, hinvocations, hpending, unitProtobuf,
      Side.other]
  have hdelivered : linkStep unitProtobuf answered (.onMessage .first) = some delivered := by
    have htype : packet.message.getType = .response := rfl
    simp [linkStep, answered, delivered, Endpoint.withClient, Endpoint.receive,
      Endpoint.onRpcMessage, hinbox, htype]
  have hran : linkStep unitProtobuf delivered (.runDone .first 0) =
      some (Function.update delivered .first ((link .first).withClient last)) := by
    simp [linkStep, delivered, Endpoint.withClient, hrun]
  refine ⟨Function.update delivered .first ((link .first).withClient last), ?_, ?_, ?_⟩
  · exact TransitionSystem.execute_cons _ hcall (TransitionSystem.execute_cons _ hstored
      (TransitionSystem.execute_cons _ hanswered (TransitionSystem.execute_cons _ hdelivered
        (TransitionSystem.execute_cons _ hran rfl))))
  · simp [delivered, answered, second]
  · simpa [Endpoint.withClient] using hdone

/-- After `2 ^ 64` calls an id comes around again. If the first call with it is still open, its
answer is given to the later one. -/
theorem not_callGuarantees_of_wrapped_id :
    ¬ ∀ (actions : List (LinkAction echoSchema Unit)) (link : Link echoSchema Unit),
      (linkSystem unitProtobuf echoServices).Run actions link →
        CallGuarantees (echoServices .second) (link .first) (link .second) := by
  intro hall
  obtain ⟨link, hdelivered, hinbox, hhandling, hid, hlength, invocation, hinvocations, hpending,
      hcause, hinvocationId⟩ : ∃ link : Link echoSchema Unit,
      (linkSystem unitProtobuf echoServices).execute
        (linkSystem unitProtobuf echoServices).start oneDelivered = some link ∧
      (link .first).inbox = [] ∧ (link .first).client.handling = [] ∧
        (link .first).client.id = 1 ∧ (link .first).client.calls.length = 1 ∧
          ∃ invocation : Invocation echoSchema Unit, (link .second).invocations = [invocation] ∧
            invocation.response = none ∧ invocation.cause = 0 ∧ invocation.call.id = 1 :=
    ⟨_, rfl, rfl, rfl, rfl, rfl, _, rfl, rfl, rfl, rfl⟩
  obtain ⟨later, hidle, hsecond, hlaterInbox, hlaterHandling, hlaterLength, hlaterId⟩ :=
    execute_idleCalls (2 ^ 64 - 1) link
  have hwrapped : (later .first).client.id + 1 = invocation.call.id := by
    rw [hlaterId, ← drawnId_succ, hid, hinvocationId]
    exact drawnId_wrap 1
  obtain ⟨last, hwrong, hcauses, hdone⟩ := execute_wrongAnswer (hlaterInbox.trans hinbox)
    (hlaterHandling.trans hhandling) (by rw [hsecond, hinvocations]) hpending hwrapped
  have hrun := TransitionSystem.Run.of_execute (TransitionSystem.execute_trans _
    (TransitionSystem.execute_trans _ hdelivered hidle) hwrong)
  obtain ⟨run, hmem, hrunDone⟩ := List.mem_map.mp hdone
  obtain ⟨call, other, hcall, hcallDone, hother, hotherCause, -⟩ :=
    (hall _ last hrun).responseOf run hmem
  have hzero : other.cause ∈ [invocation.cause] := hcauses ▸ List.mem_map_of_mem hother
  rw [List.mem_singleton, hotherCause, hrunDone, hlaterLength, hlength, hcause] at hzero
  omega

end MuduoProtorpc.CppChannel
