import MuduoProtorpc.CppChannel.Tracking
import MuduoProtorpc.Foundation.Termination

/-!
# What is left when a connection is quiet

A connection between two C++ channels is quiet when nothing but a new call can happen on it. Then
every call to a method that the other side serves has been invoked there once, its callback has run
once, and its entry is gone; and a call to a method that the other side does not serve is in the
table for good, since nobody answers it. So what `outstandings_` holds in a quiet state is exactly
what the peer does not serve (`callsSettled_of_run`).

Every run ends up quiet, unless new calls keep coming: a call takes part in seven steps at most
(`length_le_of_run`).
-/

set_option autoImplicit false
set_option relaxedAutoImplicit false

namespace MuduoProtorpc.CppChannel

open Foundation

variable {Prototype Message : Type} {schema : Schema Prototype}

/-! ### Quiet connections -/

/-- The action starts a call. -/
def IsCall : LinkAction schema Message → Prop
  | .callMethodId .. => True
  | _ => False

/-- Nothing but a new call can happen. -/
def Quiet [DecidableEq Prototype] (protobuf : Protobuf Prototype Message)
    (link : Link schema Message) : Prop :=
  ∀ action, linkStep protobuf link action ≠ none → IsCall action

/-- The service of the method is registered, and has the method. -/
def Serves (services : Option (List (Service schema))) (method : MethodDescriptor Prototype) :
    Prop :=
  ∃ registration service, services = some registration ∧
    (registered registration).entries.find method.service = some service ∧
      method ∈ service.methods

/-- The call at an index was invoked once and its entry is gone; if it has a response prototype and
a callback, the callback ran once. -/
structure Completed (caller callee : Endpoint schema Message) (index : ℕ)
    (call : CallFrame Prototype Message ℕ) : Prop where
  invoked : (callee.invocations.map Invocation.cause).count index = 1
  forgotten : caller.client.outstandings.find call.id = none
  ran : call.out.response ≠ none → call.out.done ≠ none →
    (caller.client.runs.map DoneRun.done).count index = 1

/-- The call at an index was never invoked, its callback has not run, and its entry is in the
table. -/
structure LeftBehind (caller callee : Endpoint schema Message) (index : ℕ)
    (call : CallFrame Prototype Message ℕ) : Prop where
  invoked : index ∉ callee.invocations.map Invocation.cause
  kept : caller.client.outstandings.find call.id = some call.out
  ran : index ∉ caller.client.runs.map DoneRun.done

/-- What has become of the calls of one side, when these services were registered at the other. -/
structure CallsSettled (services : Option (List (Service schema)))
    (caller callee : Endpoint schema Message) : Prop where
  served : ∀ (index : ℕ) (call : CallFrame Prototype Message ℕ),
    caller.client.calls[index]? = some call → Serves services call.method →
      Completed caller callee index call
  unserved : ∀ (index : ℕ) (call : CallFrame Prototype Message ℕ),
    caller.client.calls[index]? = some call → ¬ Serves services call.method →
      LeftBehind caller callee index call
  table : ∀ id out, caller.client.outstandings.find id = some out ↔
    ∃ call ∈ caller.client.calls, call.id = id ∧ call.out = out ∧ ¬ Serves services call.method

/-! ### How many steps there are -/

/-- What an activation of `CallMethod` can still cause: storing, sending, two deliveries, the
response of the service, and the callback. -/
def callWork (call : CallFrame Prototype Message ℕ) : ℕ :=
  match call.phase with
  | .idTaken => 6
  | .inserted => 5
  | .sent => 0

/-- What a message on its way can still cause. -/
def packetWork (packet : Packet) : ℕ :=
  if packet.message.getType = .request then 4 else 2

/-- What an invocation can still cause. -/
def invocationWork (invocation : Invocation schema Message) : ℕ :=
  if invocation.response.isNone then 3 else 0

/-- What can still happen because of what is at one side. -/
def Endpoint.work (endpoint : Endpoint schema Message) : ℕ :=
  (endpoint.client.calls.map callWork).sum + endpoint.client.handling.length +
    (endpoint.invocations.map invocationWork).sum + (endpoint.inbox.map packetWork).sum

/-- The sum over both sides. -/
def bothSides (value : Endpoint schema Message → ℕ) (link : Link schema Message) : ℕ :=
  value (link .first) + value (link .second)

theorem bothSides_eq (value : Endpoint schema Message → ℕ) (link : Link schema Message)
    (side : Side) : bothSides value link = value (link side) + value (link side.other) := by
  cases side with
  | first => rfl
  | second => exact Nat.add_comm _ _

/-- The calls made on both sides. -/
def madeCalls (link : Link schema Message) : ℕ :=
  bothSides (fun endpoint ↦ endpoint.client.calls.length) link

section Work

variable {protobuf : Protobuf Prototype Message} {link next : Link schema Message} {side : Side}
  {client : Client Prototype Message ℕ Unit}

/-- The activation that moves on is replaced in the list of activations. -/
theorem advance_eq {index : ℕ} {call : CallFrame Prototype Message ℕ}
    (hcall : client.calls[index]? = some call) (phase : CallPhase) :
    client.advance index phase = client.calls.set index { call with phase := phase } := by
  refine List.ext_getElem? fun other ↦ ?_
  rw [getElem?_advance]
  by_cases heq : index = other
  · subst heq
    rw [List.getElem?_set_self (List.getElem?_eq_some_iff.mp hcall).1, hcall]
    simp
  · rw [List.getElem?_set_ne heq]
    simp [heq]

/-- Handing a RESPONSE over makes the work at a side one more at most. -/
theorem length_handling_onResponse_le (client : Client Prototype Message ℕ Unit)
    (message : RpcMessage) :
    (client.onResponse message).handling.length ≤ client.handling.length + 1 := by
  unfold Client.onResponse
  split
  · exact Nat.le_succ _
  · simp

variable [DecidableEq Prototype]

/-- A call that starts adds six to what can still happen; every other step takes one away at
least. -/
theorem work_step {action : LinkAction schema Message}
    (hinvariant : LinkInvariant protobuf link) (hstep : linkStep protobuf link action = some next) :
    bothSides Endpoint.work next + 1 + 7 * madeCalls link ≤
      bothSides Endpoint.work link + 7 * madeCalls next := by
  cases action with
  | callMethodId side method request hasResponse hasDone =>
    simp only [linkStep] at hstep
    split at hstep
    · obtain rfl := Option.some.inj hstep
      simp [madeCalls, bothSides_eq _ _ side, Endpoint.work, Endpoint.withClient,
        Client.callMethodId, callWork]
      omega
    · cases hstep
  | callMethodInsert side index =>
    obtain ⟨client, hinsert, rfl⟩ := Option.map_eq_some_iff.mp hstep
    obtain ⟨call, hcall, hphase, rfl⟩ := callMethodInsert_eq_some hinsert
    have hsum := sum_map_set hcall callWork { call with phase := .inserted }
    simp only [callWork, hphase] at hsum
    simp [madeCalls, bothSides_eq _ _ side, Endpoint.work, Endpoint.withClient, advance_eq hcall,
      -List.map_set]
    omega
  | callMethodSend side index =>
    simp only [linkStep] at hstep
    split at hstep
    · rename_i call client hcall hsend
      obtain rfl := Option.some.inj hstep
      obtain ⟨sending, hsending, hphase, rfl⟩ := callMethodSend_eq_some hsend
      obtain rfl := Option.some.inj (hcall.symm.trans hsending)
      have htype : call.message.getType = .request := by
        obtain ⟨-, -, hmessage, -⟩ := (hinvariant side).framed index call hcall
        rw [hmessage]
        rfl
      have hsum := sum_map_set hcall callWork { call with phase := .sent }
      simp only [callWork, hphase] at hsum
      simp [madeCalls, bothSides_eq _ _ side, Endpoint.work, Endpoint.withClient,
        Endpoint.receive, advance_eq hcall, packetWork, htype, -List.map_set]
      omega
    · cases hstep
  | onMessage side =>
    simp only [linkStep] at hstep
    split at hstep
    · cases hstep
    · rename_i packet rest hinbox
      obtain rfl := Option.some.inj hstep
      cases htype : packet.message.getType with
      | request =>
        cases hservice : callServiceMethod protobuf (link side).services packet.message with
        | none =>
          simp +arith [madeCalls, bothSides_eq _ _ side, Endpoint.work, Endpoint.onRpcMessage,
            htype, hservice, hinbox, packetWork]
        | some call =>
          simp [madeCalls, bothSides_eq _ _ side, Endpoint.work, Endpoint.onRpcMessage, htype,
            hservice, hinbox, packetWork, invocationWork]
          omega
      | response =>
        have hlength := length_handling_onResponse_le (link side).client packet.message
        simp [madeCalls, bothSides_eq _ _ side, Endpoint.work, Endpoint.onRpcMessage, htype,
          Endpoint.withClient, hinbox, packetWork]
        omega
      | error =>
        simp +arith [madeCalls, bothSides_eq _ _ side, Endpoint.work, Endpoint.onRpcMessage, htype,
          hinbox, packetWork]
  | runDone side index =>
    obtain ⟨client, hrun, rfl⟩ := Option.map_eq_some_iff.mp hstep
    obtain ⟨received, hreceived, hnext⟩ := runDone_cases hrun
    have hlt := (List.getElem?_eq_some_iff.mp hreceived).1
    rcases hnext with ⟨-, rfl⟩ | ⟨run, -, rfl⟩
    · simp [madeCalls, bothSides_eq _ _ side, Endpoint.work, Endpoint.withClient,
        List.length_eraseIdx_of_lt hlt]
      omega
    · simp [madeCalls, bothSides_eq _ _ side, Endpoint.work, Endpoint.withClient,
        List.length_eraseIdx_of_lt hlt]
      omega
  | doneCallback side index response =>
    simp only [linkStep] at hstep
    split at hstep
    · cases hstep
    · rename_i invocation hinvocation
      split_ifs at hstep with hdone
      obtain rfl := Option.some.inj hstep
      have hsum := sum_map_set hinvocation invocationWork
        { invocation with response := some response }
      have htype : (CppChannel.doneCallback protobuf response invocation.call.id).getType =
          .response := rfl
      simp only [invocationWork, hdone.1, if_true] at hsum
      rw [if_neg (by simp)] at hsum
      simp [madeCalls, bothSides_eq _ _ side, Endpoint.work, Endpoint.receive, packetWork, htype,
        -List.map_set]
      omega

/-- What has happened and what can still happen is seven steps a call at most. -/
theorem length_add_work_le {services : Side → Option (List (Service schema))}
    {actions : List (LinkAction schema Message)}
    (hroundTrip : ∀ message, protobuf.parseFromString (protobuf.descriptor message)
      (protobuf.serializeAsString message) = (message, true))
    (hrun : (linkSystem protobuf services).Run actions link) (hbelow : CallsBelow (2 ^ 64) link) :
    actions.length + bothSides Endpoint.work link ≤ 7 * madeCalls link := by
  induction hrun with
  | start => simp [bothSides, madeCalls, Endpoint.work, linkSystem, Client.initial]
  | step hrun _ hstep ih =>
    have hbefore := fun side ↦ (extends_of_linkStep hstep side).2.trans_lt (hbelow side)
    obtain ⟨hinvariant, -⟩ := linkInvariant_of_run hroundTrip hrun hbefore
    have hearlier := ih hbefore
    have hwork := work_step hinvariant hstep
    rw [List.length_append, List.length_singleton]
    omega

/-- A run in which no side makes `2 ^ 64` calls has at most seven steps a call. -/
theorem length_le_of_run {services : Side → Option (List (Service schema))}
    {actions : List (LinkAction schema Message)}
    (hroundTrip : ∀ message, protobuf.parseFromString (protobuf.descriptor message)
      (protobuf.serializeAsString message) = (message, true))
    (hrun : (linkSystem protobuf services).Run actions link) (hbelow : CallsBelow (2 ^ 64) link) :
    actions.length ≤ 7 * madeCalls link :=
  (Nat.le_add_right _ _).trans (length_add_work_le hroundTrip hrun hbelow)

end Work

/-! ### A quiet connection -/

section Quiet

variable {protobuf : Protobuf Prototype Message} {link : Link schema Message} {side : Side}
  {registration : Side → Option (List (Service schema))}

/-- A REQUEST for a method of the schema finds nothing if and only if its method is not served. -/
theorem callServiceMethod_eq_none_iff (protobuf : Protobuf Prototype Message)
    (services : Option (List (Service schema))) {method : MethodDescriptor Prototype}
    (hmethod : method ∈ schema.methods) (request : Message) (id : BitVec 64) :
    callServiceMethod protobuf (services.map registered)
        (Client.requestMessage protobuf method request id) = none ↔ ¬ Serves services method := by
  have hfindMethod : ∀ service : Service schema, service.fullName = method.service →
      (service.findMethodByName method.name = none ↔ method ∉ service.methods) := by
    intro service hname
    constructor
    · intro hnone hmem
      have hdiffers := List.find?_eq_none.mp hnone method hmem
      simp at hdiffers
    · intro hnotMem
      refine List.find?_eq_none.mpr fun other hother hsame ↦ hnotMem ?_
      obtain ⟨hdeclared, hservice⟩ := service.declared other hother
      obtain rfl := schema.unique other hdeclared method hmethod (hservice.trans hname)
        (by simpa using hsame)
      exact hother
  cases services with
  | none => simp [callServiceMethod, Serves]
  | some services =>
    have hserves : Serves (some services) method ↔ ∃ service,
        (registered services).entries.find method.service = some service ∧
          method ∈ service.methods := by
      simp [Serves]
    rw [hserves]
    cases hfind : (registered services).entries.find method.service with
    | none => simp [callServiceMethod, Client.requestMessage, RpcMessage.getService, hfind]
    | some service =>
      have hmethods := hfindMethod service ((registered services).keyed _ _ hfind)
      cases hfound : service.findMethodByName method.name with
      | none =>
        simp [callServiceMethod, Client.requestMessage, RpcMessage.getService,
          RpcMessage.getMethod, hfind, hfound, hmethods.mp hfound]
      | some found =>
        have hmem : method ∈ service.methods := by
          by_contra hnotMem
          rw [hmethods.mpr hnotMem] at hfound
          cases hfound
        simp [callServiceMethod, Client.requestMessage, RpcMessage.getService,
          RpcMessage.getMethod, hfind, hfound, hmem]

variable [DecidableEq Prototype]

/-- On a quiet connection every call was sent. -/
theorem Quiet.sent (hquiet : Quiet protobuf link) {index : ℕ}
    {call : CallFrame Prototype Message ℕ} (hcall : (link side).client.calls[index]? = some call) :
    call.phase = .sent := by
  cases hphase : call.phase with
  | idTaken =>
    refine absurd (hquiet (.callMethodInsert side index) ?_) id
    simp [linkStep, Client.callMethodInsert, hcall, hphase]
  | inserted =>
    refine absurd (hquiet (.callMethodSend side index) ?_) id
    simp [linkStep, Client.callMethodSend, hcall, hphase]
  | sent => rfl

/-- On a quiet connection every message was delivered. -/
theorem Quiet.delivered (hquiet : Quiet protobuf link) (side : Side) : (link side).inbox = [] := by
  cases hinbox : (link side).inbox with
  | nil => rfl
  | cons packet rest =>
    refine absurd (hquiet (.onMessage side) ?_) id
    simp [linkStep, hinbox]

/-- On a quiet connection no callback is still to be run. -/
theorem Quiet.handled (hquiet : Quiet protobuf link) (side : Side) :
    (link side).client.handling = [] := by
  cases hhandling : (link side).client.handling with
  | nil => rfl
  | cons received rest =>
    refine absurd (hquiet (.runDone side 0) ?_) id
    simp only [linkStep, Client.runDone, hhandling]
    simp only [List.getElem?_cons_zero]
    split <;> simp

/-- On a quiet connection every invocation was answered. -/
theorem Quiet.answered (hquiet : Quiet protobuf link) (hinvariant : LinkInvariant protobuf link)
    (hresponse : ∀ method ∈ schema.methods, ∃ response,
      protobuf.descriptor response = method.outputType)
    {invocation : Invocation schema Message} (hinvocation : invocation ∈ (link side).invocations) :
    invocation.response ≠ none := by
  intro hnone
  obtain ⟨index, hindex⟩ := List.mem_iff_getElem?.mp hinvocation
  have hmethod : invocation.call.method ∈ schema.methods := by
    have hdirection := hinvariant side.other
    rw [Side.other_other] at hdirection
    obtain ⟨call, hcall, -, hservice⟩ := hdirection.invoked invocation hinvocation
    obtain ⟨hmem, -, hmessage, -, -⟩ := hdirection.framed _ call hcall
    rw [hmessage] at hservice
    obtain ⟨-, -, hsame, -, -⟩ := callServiceMethod_requestMessage hmem hservice
    rwa [hsame]
  obtain ⟨response, htype⟩ := hresponse _ hmethod
  refine absurd (hquiet (.doneCallback side index response) ?_) id
  simp [linkStep, hindex, hnone, htype]

end Quiet

/-! ### The calls of a quiet connection -/

section Settled

variable {protobuf : Protobuf Prototype Message} {client : Client Prototype Message ℕ Unit}
  {services : Option (List (Service schema))} {invocations : List (Invocation schema Message)}
  {index : ℕ} {call : CallFrame Prototype Message ℕ}

/-- When no REQUEST is on its way, the calls that were invoked are those to methods that are
served. -/
theorem Tracked.invoked_iff
    (htracked : Tracked protobuf client [] [] (services.map registered) invocations)
    (hdirection : Direction protobuf client [] [] (services.map registered) invocations)
    (hcall : client.calls[index]? = some call) (hsent : call.phase = .sent) :
    index ∈ invocations.map Invocation.cause ↔ Serves services call.method := by
  obtain ⟨hmethod, -, hmessage, -, -⟩ := hdirection.framed index call hcall
  have hnone := callServiceMethod_eq_none_iff protobuf services hmethod call.request call.id
  rw [← hmessage] at hnone
  constructor
  · intro hmem
    by_contra hunserved
    obtain ⟨invocation, hinvocation, rfl⟩ := List.mem_map.mp hmem
    obtain ⟨causing, hcausing, -, hservice⟩ := hdirection.invoked invocation hinvocation
    obtain rfl := Option.some.inj (hcall.symm.trans hcausing)
    rw [hnone.mpr hunserved] at hservice
    cases hservice
  · intro hserves
    rcases htracked.requested index call hcall hsent with hmem | hmem | hunserved
    · cases hmem
    · exact hmem
    · exact absurd hserves (hnone.mp hunserved)

/-- When nothing is on its way and every invocation was answered, the entries that are gone are
those of the calls to methods that are served. -/
theorem Tracked.gone_iff
    (htracked : Tracked protobuf client [] [] (services.map registered) invocations)
    (hdirection : Direction protobuf client [] [] (services.map registered) invocations)
    (hbound : client.calls.length < 2 ^ 64)
    (hanswered : ∀ invocation ∈ invocations, invocation.response ≠ none)
    (hcall : client.calls[index]? = some call) (hsent : call.phase = .sent) :
    client.outstandings.find call.id = none ↔ Serves services call.method := by
  rw [← htracked.invoked_iff hdirection hcall hsent]
  constructor
  · intro hfind
    obtain ⟨⟨response, invocation, hinvocation, -, hid⟩, -⟩ :=
      htracked.taken index call hcall (by simp [hsent]) hfind
    obtain ⟨causing, hcausing, -, hcausingId⟩ := hdirection.causing hinvocation
    obtain rfl := hdirection.invariant.index_eq hbound hcausing hcall (hcausingId.trans hid)
    exact List.mem_map.mpr ⟨invocation, hinvocation, rfl⟩
  · intro hmem
    obtain ⟨invocation, hinvocation, rfl⟩ := List.mem_map.mp hmem
    obtain ⟨causing, hcausing, -, hid⟩ := hdirection.causing hinvocation
    obtain rfl := Option.some.inj (hcall.symm.trans hcausing)
    rcases htracked.responded invocation hinvocation (hanswered invocation hinvocation) with
      ⟨packet, hpacket, -⟩ | hfind
    · cases hpacket
    · rwa [hid]

/-- The entry of a call is found as it was stored, or is gone. -/
theorem Direction.find_id
    (hdirection : Direction protobuf client [] [] (services.map registered) invocations)
    (hbound : client.calls.length < 2 ^ 64) (hcall : client.calls[index]? = some call)
    (hfind : client.outstandings.find call.id ≠ none) :
    client.outstandings.find call.id = some call.out := by
  obtain ⟨out, hout⟩ := Option.ne_none_iff_exists'.mp hfind
  obtain ⟨other, stored, hstored, hid, rfl, -⟩ := hdirection.invariant.stored _ _ hout
  obtain rfl := hdirection.invariant.index_eq hbound hstored hcall hid
  obtain rfl := Option.some.inj (hstored.symm.trans hcall)
  exact hout

/-- The callback of a call whose entry is gone has run, when none is still to be run. -/
theorem Tracked.ran_of_gone
    (htracked : Tracked protobuf client [] [] (services.map registered) invocations)
    (hdirection : Direction protobuf client [] [] (services.map registered) invocations)
    (hbound : client.calls.length < 2 ^ 64) (hhandled : client.handling = [])
    (hcall : client.calls[index]? = some call) (hsent : call.phase = .sent)
    (hgone : client.outstandings.find call.id = none) (hprototype : call.out.response ≠ none)
    (hdone : call.out.done ≠ none) : index ∈ client.runs.map DoneRun.done := by
  obtain ⟨-, hwhere⟩ := htracked.taken index call hcall (by simp [hsent]) hgone
  rw [hhandled] at hwhere
  rcases hwhere with hnull | hnull | hhandling | hran
  · exact absurd hnull hprototype
  · exact absurd hnull hdone
  · cases hhandling
  · obtain ⟨run, hrun, hid⟩ := List.mem_map.mp hran
    obtain ⟨ranCall, hranCall, -, hranId, -⟩ := hdirection.call_of_run hrun
    obtain rfl := hdirection.invariant.index_eq hbound hranCall hcall (hranId.trans hid)
    exact List.mem_map_of_mem hrun

/-- On a quiet connection every call to a method that the other side serves is completed, and every
other call is in the table, which holds nothing else. -/
theorem callsSettled_of_run [DecidableEq Prototype]
    {registration : Side → Option (List (Service schema))}
    {actions : List (LinkAction schema Message)} {link : Link schema Message}
    (hroundTrip : ∀ message, protobuf.parseFromString (protobuf.descriptor message)
      (protobuf.serializeAsString message) = (message, true))
    (hresponse : ∀ method ∈ schema.methods, ∃ response,
      protobuf.descriptor response = method.outputType)
    (hrun : (linkSystem protobuf registration).Run actions link)
    (hbelow : CallsBelow (2 ^ 64) link) (hquiet : Quiet protobuf link) (side : Side) :
    CallsSettled (registration side.other) (link side) (link side.other) := by
  obtain ⟨hinvariant, hservices⟩ := linkInvariant_of_run hroundTrip hrun hbelow
  have htracked := linkTracked_of_run hroundTrip hrun hbelow side
  have hdirection := hinvariant side
  have hinvokedOnce := List.nodup_iff_count_le_one.mp (List.nodup_append.mp hdirection.once).2.1
  have hranOnce := List.nodup_iff_count_le_one.mp hdirection.nodup_done
  rw [hservices side.other, hquiet.delivered side, hquiet.delivered side.other] at htracked
  rw [hservices side.other, hquiet.delivered side, hquiet.delivered side.other] at hdirection
  have hanswered : ∀ invocation ∈ (link side.other).invocations, invocation.response ≠ none :=
    fun _ hinvocation ↦ hquiet.answered hinvariant hresponse hinvocation
  have hinvoked {index call} (hcall : (link side).client.calls[index]? = some call) :=
    htracked.invoked_iff hdirection hcall (hquiet.sent hcall)
  have hgone {index call} (hcall : (link side).client.calls[index]? = some call) :=
    htracked.gone_iff hdirection (hbelow side) hanswered hcall (hquiet.sent hcall)
  have hkept {index call} (hcall : (link side).client.calls[index]? = some call)
      (hunserved : ¬ Serves (registration side.other) call.method) :=
    hdirection.find_id (hbelow side) hcall (mt (hgone hcall).mp hunserved)
  exact {
    served := fun index call hcall hserves ↦ by
      have hfind := (hgone hcall).mpr hserves
      refine ⟨?_, hfind, fun hprototype hdone ↦ ?_⟩
      · have hpositive := List.count_pos_iff.mpr ((hinvoked hcall).mpr hserves)
        have hatMost := hinvokedOnce index
        omega
      · have hran := htracked.ran_of_gone hdirection (hbelow side) (hquiet.handled side) hcall
          (hquiet.sent hcall) hfind hprototype hdone
        have hpositive := List.count_pos_iff.mpr hran
        have hatMost := hranOnce index
        omega
    unserved := fun index call hcall hunserved ↦ by
      refine ⟨mt (hinvoked hcall).mp hunserved, hkept hcall hunserved, fun hran ↦ ?_⟩
      obtain ⟨run, hmem, rfl⟩ := List.mem_map.mp hran
      obtain ⟨invocation, hinvocation, hcause, -⟩ := hdirection.responseOf (hbelow side) hmem
      exact hunserved ((hinvoked hcall).mp (List.mem_map.mpr ⟨invocation, hinvocation, hcause⟩))
    table := fun id out ↦ by
      constructor
      · intro hfind
        obtain ⟨index, call, hcall, rfl, rfl, -⟩ := hdirection.invariant.stored id out hfind
        refine ⟨call, List.mem_of_getElem? hcall, rfl, rfl, fun hserves ↦ ?_⟩
        rw [(hgone hcall).mpr hserves] at hfind
        cases hfind
      · rintro ⟨call, hmem, rfl, rfl, hunserved⟩
        obtain ⟨index, hcall⟩ := List.mem_iff_getElem?.mp hmem
        exact hkept hcall hunserved }

end Settled

/-! ### A call that is answered, and one that is not -/

/-- Nothing but a new call can happen where every call was sent, no message and no callback is
waiting, and every invocation was answered. -/
theorem quiet_of_nothing_left [DecidableEq Prototype] {protobuf : Protobuf Prototype Message}
    {link : Link schema Message}
    (hsent : ∀ side, ∀ call ∈ (link side).client.calls, call.phase = .sent)
    (hdelivered : ∀ side, (link side).inbox = [])
    (hhandled : ∀ side, (link side).client.handling = [])
    (hanswered : ∀ side, ∀ invocation ∈ (link side).invocations, invocation.response ≠ none) :
    Quiet protobuf link := by
  intro action henabled
  cases action with
  | callMethodId side method request hasResponse hasDone => trivial
  | callMethodInsert side index =>
    obtain ⟨next, hstep⟩ := Option.ne_none_iff_exists'.mp henabled
    obtain ⟨client, hinsert, -⟩ := Option.map_eq_some_iff.mp hstep
    obtain ⟨call, hcall, hphase, -⟩ := callMethodInsert_eq_some hinsert
    rw [hsent side call (List.mem_of_getElem? hcall)] at hphase
    cases hphase
  | callMethodSend side index =>
    simp only [linkStep] at henabled
    split at henabled
    · rename_i call client hcall hsend
      obtain ⟨sending, hsending, hphase, -⟩ := callMethodSend_eq_some hsend
      rw [hsent side sending (List.mem_of_getElem? hsending)] at hphase
      cases hphase
    · exact absurd rfl henabled
  | onMessage side => simp [linkStep, hdelivered side] at henabled
  | runDone side index => simp [linkStep, Client.runDone, hhandled side] at henabled
  | doneCallback side index response =>
    simp only [linkStep] at henabled
    split at henabled
    · exact absurd rfl henabled
    · rename_i invocation hinvocation
      have hresponse := hanswered side invocation (List.mem_of_getElem? hinvocation)
      rw [if_neg (by simp [hresponse])] at henabled
      exact absurd rfl henabled

/-- The first side makes a call, which is answered; the second makes one, which nobody answers. -/
def answeredAndIgnored : List (LinkAction echoSchema Unit) :=
  oneDelivered ++ [.doneCallback .second 0 (), .onMessage .first, .runDone .first 0,
    .callMethodId .second echoMethod () true true, .callMethodInsert .second 0,
    .callMethodSend .second 0, .onMessage .first]

/-- The connection after that. -/
def afterIgnored : Link echoSchema Unit :=
  let system := linkSystem unitProtobuf echoServices
  (system.execute system.start answeredAndIgnored).getD system.start

/-- What the two sides are left with. -/
theorem callsSettled_answeredAndIgnored :
    (linkSystem unitProtobuf echoServices).Run answeredAndIgnored afterIgnored ∧
      CallsSettled (echoServices .second) (afterIgnored .first) (afterIgnored .second) ∧
        CallsSettled (echoServices .first) (afterIgnored .second) (afterIgnored .first) := by
  have hrun : (linkSystem unitProtobuf echoServices).Run answeredAndIgnored afterIgnored :=
    .of_execute rfl
  have hquiet : Quiet unitProtobuf afterIgnored := by
    refine quiet_of_nothing_left ?_ ?_ ?_ ?_
    · rintro (_ | _) <;> decide
    · rintro (_ | _) <;> rfl
    · rintro (_ | _) <;> rfl
    · rintro (_ | _) <;> decide
  have hbelow : CallsBelow (2 ^ 64) afterIgnored := by
    rintro (_ | _) <;> decide
  exact ⟨hrun,
    callsSettled_of_run (fun _ ↦ rfl) (fun _ _ ↦ ⟨(), rfl⟩) hrun hbelow hquiet .first,
    callsSettled_of_run (fun _ ↦ rfl) (fun _ _ ↦ ⟨(), rfl⟩) hrun hbelow hquiet .second⟩

/-- That run has no more than seven steps a call. -/
theorem length_answeredAndIgnored :
    (linkSystem unitProtobuf echoServices).Run answeredAndIgnored afterIgnored ∧
      answeredAndIgnored.length ≤ 7 * madeCalls afterIgnored := by
  have hrun : (linkSystem unitProtobuf echoServices).Run answeredAndIgnored afterIgnored :=
    .of_execute rfl
  refine ⟨hrun, length_le_of_run (fun _ ↦ rfl) hrun ?_⟩
  rintro (_ | _) <;> decide

end MuduoProtorpc.CppChannel
