import MuduoProtorpc.JavaChannel.ClientResults
import MuduoProtorpc.JavaChannel.Server

/-!
# Java calls, end to end

A client channel and a server channel at the two ends of one connection: what one end writes reaches
the other in order, each message at any later time. The threads of the calls, the I/O thread of the
client, the services and the network take their steps in any order.

`LinkInvariant` joins what holds of the two channels. The server has received the requests that were
written, in their order; what the client has received or hands over just now are the replies that
were written; and each reply is made of what the service has returned for a request of its own.
-/

set_option autoImplicit false
set_option relaxedAutoImplicit false

namespace MuduoProtorpc.JavaChannel

open Foundation

variable {Prototype Service Method Message : Type}

/-! ### The connection -/

/-- The two channels, how many messages have arrived at the server and at the client, and the
response prototypes of the calls. -/
structure Link (Prototype Service Method Message : Type) where
  client : CallingChannel Prototype Message
  server : Server Service Method Message
  arrived : ℕ
  received : ℕ
  prototypes : List Prototype

/-- What can happen: a step of the client that is no receipt; a request arrives; a service runs its
callback; or a reply arrives. -/
inductive LinkAction (Prototype Message : Type)
  | client (action : ChannelAction Prototype)
  | request
  | callback (index : ℕ) (response : Option Message)
  | reply

/-- One step of the two channels. -/
def linkStep (mergeFrom : Prototype → Bytes → Except String Message)
    (services : Services Service Method Message) (link : Link Prototype Service Method Message) :
    LinkAction Prototype Message → Option (Link Prototype Service Method Message)
  | .client (.receive _) => none
  | .client action =>
    (channelStep mergeFrom link.client action).map fun client ↦ { link with
      client := client
      prototypes := link.prototypes ++ action.prototypes }
  | .request =>
    match link.client.written[link.arrived]? with
    | some message =>
      (serverStep services link.server (.receive message)).map fun server ↦ { link with
        server := server
        arrived := link.arrived + 1 }
    | none => none
  | .callback index response =>
    (serverStep services link.server (.callback index response)).map fun server ↦ { link with
      server := server }
  | .reply =>
    match link.server.written[link.received]? with
    | some (_, message) =>
      (channelStep mergeFrom link.client (.receive message)).map fun client ↦ { link with
        client := client
        received := link.received + 1 }
    | none => none

/-- A connection on which nothing was called. -/
def linkSystem (mergeFrom : Prototype → Bytes → Except String Message)
    (services : Services Service Method Message) :
    TransitionSystem (Link Prototype Service Method Message) (LinkAction Prototype Message) where
  start := {
    client := .initial
    server := { served := [], written := [] }
    arrived := 0
    received := 0
    prototypes := [] }
  step := linkStep mergeFrom services

/-! ### What the two ends keep to -/

/-- What a service has returned parses as the response of the call with the message. -/
def Parses (mergeFrom : Prototype → Bytes → Except String Message)
    (services : Services Service Method Message) (link : Link Prototype Service Method Message)
    (message : RpcMessage) (reply : Message) : Prop :=
  ∀ (index : ℕ) prototype, link.client.messages[index]? = some message →
    link.prototypes[index]? = some prototype →
      ∃ response, fromByteString (mergeFrom prototype) (services.toByteString reply) = some response

/-- The server has the methods that are called, and the requests parse there; fewer than `2 ^ 64`
calls are made; and the services return responses, which parse at the client. -/
def Cooperates (mergeFrom : Prototype → Bytes → Except String Message)
    (services : Services Service Method Message) (link : Link Prototype Service Method Message) :
    LinkAction Prototype Message → Prop
  | .client (.call service method request _) => link.client.headers.length < 2 ^ 64 ∧
      Callable services (requestOf link.client.id service method request)
  | .callback index response => ∀ served, link.server.served[index]? = some served →
      ∃ reply, response = some reply ∧ Parses mergeFrom services link served.message reply
  | _ => True

/-! ### What is to be shown -/

/-- A service has returned a response to the request of a call, and it parses as this one. -/
def AnswerTo (mergeFrom : Prototype → Bytes → Except String Message)
    (services : Services Service Method Message) (link : Link Prototype Service Method Message)
    (index : ℕ) (response : Message) : Prop :=
  ∃ prototype served reply, link.client.messages[index]? = some served.message ∧
    link.prototypes[index]? = some prototype ∧ served ∈ link.server.served ∧
      served.progress = .finished (some reply) ∧
        fromByteString (mergeFrom prototype) (services.toByteString reply) = some response

/-- The message that `done` makes of a response. -/
def responseOf (services : Services Service Method Message) (id : BitVec 64) (reply : Message) :
    RpcMessage where
  type := some .response
  id := some id
  response := some (services.toByteString reply)

/-- The messages that the I/O thread of the client is about to hand over. -/
def CallingChannel.inHand (channel : CallingChannel Prototype Message) : List RpcMessage :=
  match channel.io with
  | .running message _ _ => [message]
  | _ => []

/-- The message at a position of what the server has written: the response of a service to a request
of its own. -/
structure ReplyRight (mergeFrom : Prototype → Bytes → Except String Message)
    (services : Services Service Method Message) (link : Link Prototype Service Method Message)
    (position : ℕ) (message : RpcMessage) : Prop where
  reply : ∃ served reply, link.server.served[position]? = some served ∧
    served.progress = .finished (some reply) ∧
      message = responseOf services served.message.getId reply ∧
        Parses mergeFrom services link served.message reply

/-- What holds of the two channels. -/
structure LinkInvariant (mergeFrom : Prototype → Bytes → Except String Message)
    (services : Services Service Method Message) (link : Link Prototype Service Method Message) :
    Prop where
  wakeups : WakeupInvariant link.client
  requests : WritesOnce link.client
  results : ResultsRight (AnswerTo mergeFrom services link) link.prototypes link.client
  server : ServerInvariant services link.server
  callable : ∀ header ∈ link.client.headers, Callable services header.message
  arrived : link.arrived ≤ link.client.written.length
  served : link.server.served.map Served.message = link.client.written.take link.arrived
  received : link.received ≤ link.server.written.length
  processed : link.client.processed ++ link.client.inHand =
    (link.server.written.map Prod.snd).take link.received
  replies : ∀ position message, (position, message) ∈ link.server.written →
    ReplyRight mergeFrom services link position message

section Client

variable {mergeFrom : Prototype → Bytes → Except String Message}
  {services : Services Service Method Message}
  {link moved : Link Prototype Service Method Message}
  {channel next : CallingChannel Prototype Message} {action : ChannelAction Prototype} {index : ℕ}

/-! ### What the client does by itself -/

theorem WritesOnce.congr (honce : WritesOnce channel) (hheaders : next.headers = channel.headers)
    (hwritten : next.written = channel.written) (hid : next.id = channel.id) :
    WritesOnce next where
  few := by rw [hheaders]; exact honce.few
  next := by rw [hheaders, hid]; exact honce.next
  drawn := by rw [hheaders]; exact honce.drawn
  written := by rw [hheaders, hwritten]; exact honce.written
  once := by rw [hwritten]; exact honce.once

/-- A step that is neither a call nor a receipt writes at most one message more, and hands over what
was received. -/
theorem WritesOnce.inside (honce : WritesOnce channel) (hinside : action.Inside)
    (hstep : channelStep mergeFrom channel action = some next) :
    WritesOnce next ∧ next.messages = channel.messages ∧ channel.written <+: next.written := by
  by_cases hsends : action.Sends
  · cases action with
    | write index =>
      obtain ⟨hnext, call, hcall, hphase, rfl⟩ := honce.write hstep
      exact ⟨hnext, messages_setCall hcall rfl, List.prefix_append _ _⟩
    | call service method request responsePrototype => exact hinside.elim
    | _ => exact hsends.elim
  · obtain ⟨hheaders, hwritten, hid⟩ := (channel_cases hstep).headers_eq hsends
    refine ⟨honce.congr hheaders hwritten hid, ?_, ?_⟩
    · rw [CallingChannel.messages, hheaders, CallingChannel.messages]
    · rw [hwritten]

theorem ChannelMoved.inHand_eq (hmoved : ChannelMoved mergeFrom channel action next)
    (hinside : action.Inside) :
    next.processed ++ next.inHand = channel.processed ++ channel.inHand := by
  cases hmoved with
  | run hio hcall hmonitor => simp [CallingChannel.inHand, hio]
  | disconnected hio hconnected => simp [CallingChannel.inHand, hio]
  | notify hio hcall hmonitor => simp [CallingChannel.inHand, hio, CallingChannel.setCall]
  | finish hio => simp [CallingChannel.inHand, hio]
  | call _ _ _ => exact hinside.elim
  | request _ _ => exact hinside.elim
  | found _ _ _ => exact hinside.elim
  | ignored _ _ => exact hinside.elim
  | _ => rfl

/-! ### What stays -/

/-- The calls, the requests that were answered and the responses to them are still there, and no
call was made a second time. -/
structure Grown (link moved : Link Prototype Service Method Message) : Prop where
  messages : ∀ (index : ℕ) message, link.client.messages[index]? = some message →
    moved.client.messages[index]? = some message
  prototypes : ∀ (index : ℕ) prototype, link.prototypes[index]? = some prototype →
    moved.prototypes[index]? = some prototype
  old : ∀ (index : ℕ) message prototype, message ∈ link.client.messages →
    moved.client.messages[index]? = some message → moved.prototypes[index]? = some prototype →
      link.client.messages[index]? = some message ∧ link.prototypes[index]? = some prototype
  finished : ∀ (position : ℕ) served response, link.server.served[position]? = some served →
    served.progress = .finished response → moved.server.served[position]? = some served

theorem AnswerTo.grown {response : Message}
    (hanswer : AnswerTo mergeFrom services link index response) (hgrown : Grown link moved) :
    AnswerTo mergeFrom services moved index response := by
  obtain ⟨prototype, served, reply, hmessage, hprototype, hserved, hfinished, hparse⟩ := hanswer
  obtain ⟨position, hposition⟩ := List.getElem?_of_mem hserved
  exact ⟨prototype, served, reply, hgrown.messages index _ hmessage,
    hgrown.prototypes index prototype hprototype,
    List.mem_of_getElem? (hgrown.finished position served _ hposition hfinished), hfinished, hparse⟩

theorem LinkInvariant.mem_messages (hinvariant : LinkInvariant mergeFrom services link)
    {served : Served Service Method Message} (hserved : served ∈ link.server.served) :
    served.message ∈ link.client.messages := by
  have htaken : served.message ∈ link.client.written.take link.arrived := by
    rw [← hinvariant.served]
    exact List.mem_map_of_mem hserved
  obtain ⟨header, hheader, hmessage, -⟩ :=
    (hinvariant.requests.written _).mp (List.mem_of_mem_take htaken)
  rw [← hmessage]
  exact List.mem_map_of_mem hheader

theorem LinkInvariant.replies_grown (hinvariant : LinkInvariant mergeFrom services link)
    (hgrown : Grown link moved) {position : ℕ} {message : RpcMessage}
    (hwritten : (position, message) ∈ link.server.written) :
    ReplyRight mergeFrom services moved position message := by
  obtain ⟨served, reply, hserved, hfinished, hmessage, hparses⟩ :=
    (hinvariant.replies position message hwritten).reply
  have hmem := hinvariant.mem_messages (List.mem_of_getElem? hserved)
  refine ⟨served, reply, hgrown.finished position served _ hserved hfinished, hfinished, hmessage,
    fun index prototype hindex hprototype ↦ ?_⟩
  obtain ⟨hbefore, hold⟩ := hgrown.old index _ prototype hmem hindex hprototype
  exact hparses index prototype hbefore hold

/-- A step of the client that makes no call. -/
theorem grown_client (hmessages : moved.client.messages = link.client.messages)
    (hprototypes : moved.prototypes = link.prototypes) (hserver : moved.server = link.server) :
    Grown link moved where
  messages := by rw [hmessages]; exact fun _ _ ↦ id
  prototypes := by rw [hprototypes]; exact fun _ _ ↦ id
  old := by rw [hmessages, hprototypes]; exact fun _ _ _ _ ↦ And.intro
  finished := by rw [hserver]; exact fun _ _ _ hserved _ ↦ hserved

/-! ### Every step keeps it -/

/-- What the threads of the client do, and its I/O thread behind `messageReceived`. -/
theorem LinkInvariant.inside (hinvariant : LinkInvariant mergeFrom services link)
    (hinside : action.Inside) (hstep : channelStep mergeFrom link.client action = some next) :
    LinkInvariant mergeFrom services { link with client := next } := by
  have hwell : RepliesWell mergeFrom link.client action := by
    cases action with
    | call service method request responsePrototype => exact hinside.elim
    | receive message => exact hinside.elim
    | _ => trivial
  obtain ⟨hrequests, hmessages, hwritten⟩ := hinvariant.requests.inside hinside hstep
  have hgrown : Grown link { link with client := next } := grown_client hmessages rfl rfl
  have hlength := hwritten.length_le
  exact {
    wakeups := hinvariant.wakeups.step hwell hstep
    requests := hrequests
    results := (hinvariant.results.step hinvariant.wakeups hinside hstep).mono
      fun index response hanswer ↦ hanswer.grown hgrown
    server := hinvariant.server
    callable := by
      intro header hheader
      have hmessage : header.message ∈ link.client.messages := by
        rw [← hmessages]
        exact List.mem_map_of_mem hheader
      obtain ⟨old, hold, hsame⟩ := List.mem_map.mp hmessage
      rw [← hsame]
      exact hinvariant.callable old hold
    arrived := hinvariant.arrived.trans hlength
    served := by
      obtain ⟨more, hmore⟩ := hwritten
      rw [hinvariant.served, ← hmore, List.take_append_of_le_length hinvariant.arrived]
    received := hinvariant.received
    processed := by
      rw [← hinvariant.processed]
      exact (channel_cases hstep).inHand_eq hinside
    replies := fun position message hreply ↦ hinvariant.replies_grown hgrown hreply }

/-- The replies that the client has are to calls that were made. -/
theorem LinkInvariant.reply_getId (hinvariant : LinkInvariant mergeFrom services link)
    {message : RpcMessage} (hmessage : message ∈ link.client.processed ++ link.client.inHand) :
    ∃ header ∈ link.client.headers, header.message.getId = message.getId := by
  rw [hinvariant.processed] at hmessage
  obtain ⟨⟨position, reply⟩, hwritten, rfl⟩ := List.mem_map.mp (List.mem_of_mem_take hmessage)
  obtain ⟨served, response, hserved, -, hreply, -⟩ := (hinvariant.replies _ _ hwritten).reply
  obtain ⟨header, hheader, hsame⟩ :=
    List.mem_map.mp (hinvariant.mem_messages (List.mem_of_getElem? hserved))
  refine ⟨header, hheader, ?_⟩
  rw [hsame, hreply]
  rfl

/-- What a new call is allowed to expect of its identifier. -/
theorem LinkInvariant.fresh (hinvariant : LinkInvariant mergeFrom services link)
    (hfew : link.client.headers.length < 2 ^ 64) :
    (∀ call ∈ link.client.calls, call.id ≠ link.client.id) ∧
      ∀ reply ∈ link.client.processed, reply.getId ≠ link.client.id := by
  refine ⟨fun call hcall hsame ↦ ?_, fun reply hreply hsame ↦ ?_⟩
  · obtain ⟨index, hindex⟩ := List.getElem?_of_mem hcall
    have hheader := getElem?_headers hindex
    obtain ⟨-, hid, -⟩ := hinvariant.requests.drawn index _ hheader
    refine hinvariant.requests.fresh hfew (List.mem_of_getElem? hheader) ?_
    rw [← hsame, RpcMessage.getId, hid]
    rfl
  · obtain ⟨header, hheader, hid⟩ := hinvariant.reply_getId (List.mem_append_left _ hreply)
    exact hinvariant.requests.fresh hfew hheader (hid.trans hsame)

/-- A call is made. -/
theorem LinkInvariant.newCall (hinvariant : LinkInvariant mergeFrom services link)
    {service method : String} {request : Bytes} {responsePrototype : Prototype}
    (hfew : link.client.headers.length < 2 ^ 64)
    (hcallable : Callable services (requestOf link.client.id service method request))
    (hstep : channelStep mergeFrom link.client
      (.call service method request responsePrototype) = some next) :
    LinkInvariant mergeFrom services { link with
      client := next
      prototypes := link.prototypes ++ [responsePrototype] } := by
  have hfresh := hinvariant.fresh hfew
  have hwell : RepliesWell mergeFrom link.client
      (.call service method request responsePrototype) := hfresh
  obtain ⟨hrequests, hheaders, hwritten⟩ := hinvariant.requests.newCall hfew hstep
  have hmessages : next.messages = link.client.messages ++
      [requestOf link.client.id service method request] := by
    rw [CallingChannel.messages, hheaders, List.map_append]
    rfl
  have hgrown : Grown link { link with
      client := next
      prototypes := link.prototypes ++ [responsePrototype] } := by
    refine ⟨fun index message hindex ↦ ?_, fun index prototype hindex ↦ ?_,
      fun index message prototype hmessage hindex hprototype ↦ ?_, fun _ _ _ hserved _ ↦ hserved⟩
    · show next.messages[index]? = some message
      rw [hmessages]
      exact getElem?_append_of_eq_some hindex _
    · exact getElem?_append_of_eq_some hindex _
    · rw [show (_ : CallingChannel Prototype Message).messages = next.messages from rfl,
        hmessages] at hindex
      rcases getElem?_append_singleton_eq_some hindex with hold | ⟨-, rfl⟩
      · have hlength : link.prototypes.length = link.client.messages.length := by
          rw [hinvariant.results.length, CallingChannel.messages, CallingChannel.headers,
            List.length_map, List.length_map]
        have hlt := (List.getElem?_eq_some_iff.mp hold).1
        rw [← hlength] at hlt
        refine ⟨hold, ?_⟩
        rwa [List.getElem?_append_left hlt] at hprototype
      · obtain ⟨header, hheader, hsame⟩ := List.mem_map.mp hmessage
        refine absurd ?_ (hinvariant.requests.fresh hfew hheader)
        rw [hsame]
        rfl
  have hkept : next.processed ++ next.inHand = link.client.processed ++ link.client.inHand := by
    obtain rfl := Option.some.inj hstep
    rfl
  exact {
    wakeups := hinvariant.wakeups.step hwell hstep
    requests := hrequests
    results := (hinvariant.results.newCall hinvariant.wakeups hfresh.1 hstep).mono
      fun index response hanswer ↦ hanswer.grown hgrown
    server := hinvariant.server
    callable := by
      intro header hheader
      rw [hheaders] at hheader
      rcases List.mem_append.mp hheader with hold | hnew
      · exact hinvariant.callable header hold
      · rw [List.mem_singleton.mp hnew]
        exact hcallable
    arrived := by
      rw [hwritten]
      exact hinvariant.arrived
    served := by
      rw [hwritten]
      exact hinvariant.served
    received := hinvariant.received
    processed := hkept.trans hinvariant.processed
    replies := fun position message hreply ↦ hinvariant.replies_grown hgrown hreply }

/-- A request arrives, and its service is called. -/
theorem LinkInvariant.request (hinvariant : LinkInvariant mergeFrom services link)
    {message : RpcMessage} {server : Server Service Method Message}
    (hmessage : link.client.written[link.arrived]? = some message)
    (hstep : serverStep services link.server (.receive message) = some server) :
    LinkInvariant mergeFrom services { link with
      server := server
      arrived := link.arrived + 1 } := by
  obtain ⟨header, hheader, hsame, -⟩ :=
    (hinvariant.requests.written message).mp (List.mem_of_getElem? hmessage)
  obtain ⟨index, hindex⟩ := List.getElem?_of_mem hheader
  obtain ⟨-, -, htype⟩ := hinvariant.requests.drawn index header hindex
  have hcallable : Callable services message := hsame ▸ hinvariant.callable header hheader
  have hserver := hinvariant.server.step hstep
  have hserved : ∃ progress, server = { link.server with
      served := link.server.served ++ [{ message := message, progress := progress }] } := by
    have hrequest : message.getType = .request := by
      rw [RpcMessage.getType, ← hsame, htype]
      rfl
    simp only [serverStep, hrequest] at hstep
    split_ifs at hstep
    obtain rfl := Option.some.inj hstep
    rcases doRequest_cases services message with ⟨-, service, method, request, hinvoked⟩ |
      ⟨hnot, -⟩
    · exact ⟨.invoked service method request message.getId, by simp only [receiveRequest, hinvoked]⟩
    · exact absurd hcallable hnot
  obtain ⟨progress, rfl⟩ := hserved
  have hgrown : Grown link { link with
      server := { link.server with
        served := link.server.served ++ [{ message := message, progress := progress }] }
      arrived := link.arrived + 1 } :=
    ⟨fun _ _ ↦ id, fun _ _ ↦ id, fun _ _ _ _ ↦ And.intro,
      fun position served response hold _ ↦ getElem?_append_of_eq_some hold _⟩
  obtain ⟨hlt, hwritten⟩ := List.getElem?_eq_some_iff.mp hmessage
  exact {
    wakeups := hinvariant.wakeups
    requests := hinvariant.requests
    results := hinvariant.results.mono fun index response hanswer ↦ hanswer.grown hgrown
    server := hserver
    callable := hinvariant.callable
    arrived := hlt
    served := by
      rw [List.map_append, hinvariant.served, List.take_add_one, hmessage]
      rfl
    received := hinvariant.received
    processed := hinvariant.processed
    replies := fun position reply hreply ↦ hinvariant.replies_grown hgrown hreply }

/-- A service returns a response. -/
theorem LinkInvariant.callback (hinvariant : LinkInvariant mergeFrom services link) {position : ℕ}
    {response : Option Message} {server : Server Service Method Message}
    (hcooperates : ∀ served, link.server.served[position]? = some served →
      ∃ reply, response = some reply ∧ Parses mergeFrom services link served.message reply)
    (hstep : serverStep services link.server (.callback position response) = some server) :
    LinkInvariant mergeFrom services { link with server := server } := by
  have hserver := hinvariant.server.step hstep
  simp only [serverStep] at hstep
  split at hstep
  · rename_i message service method request id hserved
    obtain ⟨reply, rfl, hparses⟩ := hcooperates _ hserved
    have hid : id = message.getId := (hinvariant.server.accounted position _ hserved).2.1
    have hserver_eq : server = {
        served := link.server.served.set position
          { message := message, progress := .finished (some reply) }
        written := link.server.written ++ [(position, responseOf services id reply)] } :=
      (Option.some.inj hstep).symm
    have hlt := (List.getElem?_eq_some_iff.mp hserved).1
    have hgrown : Grown link { link with server := server } := by
      refine ⟨fun _ _ hmessage ↦ hmessage, fun _ _ hprototype ↦ hprototype,
        fun _ _ _ _ ↦ And.intro, fun other served response hold hfinished ↦ ?_⟩
      have hne : position ≠ other := by
        rintro rfl
        rw [hserved] at hold
        rw [← Option.some.inj hold] at hfinished
        cases hfinished
      rw [hserver_eq]
      exact (List.getElem?_set_ne hne).trans hold
    exact {
      wakeups := hinvariant.wakeups
      requests := hinvariant.requests
      results := hinvariant.results.mono fun index response hanswer ↦ hanswer.grown hgrown
      server := hserver
      callable := hinvariant.callable
      arrived := hinvariant.arrived
      served := by
        rw [← hinvariant.served, hserver_eq]
        exact map_set_of_eq_some hserved Served.message rfl
      received := by
        rw [hserver_eq, List.length_append]
        exact Nat.le_add_right_of_le hinvariant.received
      processed := by
        rw [hinvariant.processed, hserver_eq, List.map_append, List.take_append_of_le_length]
        rw [List.length_map]
        exact hinvariant.received
      replies := by
        intro other reply hreply
        rw [hserver_eq] at hreply
        rcases List.mem_append.mp hreply with hold | hnew
        · exact hinvariant.replies_grown hgrown hold
        · obtain ⟨rfl, rfl⟩ := Prod.mk.inj (List.mem_singleton.mp hnew)
          refine ⟨{ message := message, progress := .finished (some reply) }, reply, ?_, rfl, ?_,
            hparses⟩
          · rw [hserver_eq]
            exact List.getElem?_set_self hlt
          · rw [hid] }
  · cases hstep

/-- What a reply is, and which call it is for. -/
theorem LinkInvariant.reply_cases (hinvariant : LinkInvariant mergeFrom services link)
    {position : ℕ} {message : RpcMessage}
    (hwritten : (position, message) ∈ link.server.written) :
    ∃ served reply header, served ∈ link.server.served ∧
      served.progress = .finished (some reply) ∧
        message = responseOf services served.message.getId reply ∧
          Parses mergeFrom services link served.message reply ∧
            header ∈ link.client.headers ∧ header.message = served.message ∧
              header.sent = true := by
  obtain ⟨served, reply, hserved, hfinished, hmessage, hparses⟩ :=
    (hinvariant.replies position message hwritten).reply
  have hmem := List.mem_of_getElem? hserved
  have htaken : served.message ∈ link.client.written.take link.arrived := by
    rw [← hinvariant.served]
    exact List.mem_map_of_mem hmem
  obtain ⟨header, hheader, hsame, hsent⟩ :=
    (hinvariant.requests.written _).mp (List.mem_of_mem_take htaken)
  exact ⟨served, reply, header, hmem, hfinished, hmessage, hparses, hheader, hsame, hsent⟩

/-- The entry that a reply finds is that of its call, and the reply parses there. -/
theorem LinkInvariant.found_right (hinvariant : LinkInvariant mergeFrom services link)
    {position : ℕ} {message : RpcMessage} (hwritten : (position, message) ∈ link.server.written)
    {o : Outstanding Prototype} (hfind : link.client.outstandings.find message.getId = some o) :
    ∃ response, fromByteString (mergeFrom o.responsePrototype) message.getResponse = some response ∧
      AnswerTo mergeFrom services link o.done response := by
  obtain ⟨served, reply, header, hserved, hfinished, rfl, hparses, hheader, hsame, -⟩ :=
    hinvariant.reply_cases hwritten
  have hid : (responseOf services served.message.getId reply).getId = header.message.getId := by
    rw [hsame]
    rfl
  rw [hid] at hfind
  obtain ⟨index, hindex⟩ := List.getElem?_of_mem hheader
  obtain ⟨call, hcall, hcallHeader⟩ := exists_call hindex
  have hcallId : call.id = header.message.getId := by
    obtain ⟨-, hmessageId, -⟩ := hinvariant.requests.drawn index header hindex
    rw [RpcMessage.getId, hmessageId, ← hcallHeader]
    rfl
  have hdone : o.done = index := by
    have hids := getElem?_ids hcall
    rw [hcallId] at hids
    exact hinvariant.wakeups.index_eq (hinvariant.wakeups.entries _ o hfind) hids
  have hprototype := hinvariant.results.entries index call o hcall (hcallId ▸ hfind)
  have hmessages : link.client.messages[index]? = some served.message := by
    rw [CallingChannel.messages, List.getElem?_map, hindex, ← hsame]
    rfl
  obtain ⟨response, hresponse⟩ := hparses index o.responsePrototype hmessages hprototype
  rw [hdone]
  exact ⟨response, hresponse, o.responsePrototype, served, reply, hmessages, hprototype, hserved,
    hfinished, hresponse⟩

/-- A call that may wait has its entry when a reply to it arrives. -/
theorem LinkInvariant.repliesWell (hinvariant : LinkInvariant mergeFrom services link)
    {position : ℕ} {message : RpcMessage} (hwritten : (position, message) ∈ link.server.written)
    (hio : link.client.io = .idle) : RepliesWell mergeFrom link.client (.receive message) := by
  intro _ call hcall hid hwait
  obtain ⟨served, reply, header, hserved, hfinished, hmessage, -, hheader, hsame, hsent⟩ :=
    hinvariant.reply_cases hwritten
  obtain ⟨index, hindex⟩ := List.getElem?_of_mem hcall
  obtain ⟨other, hother⟩ := List.getElem?_of_mem hheader
  have hcallId : call.header.message.getId = header.message.getId := by
    obtain ⟨-, hmessageId, -⟩ := hinvariant.requests.drawn index _ (getElem?_headers hindex)
    rw [RpcMessage.getId, hmessageId, hsame]
    exact hid.trans (by rw [hmessage]; rfl)
  have hequal := hinvariant.requests.index_eq (getElem?_headers hindex) hother hcallId
  have hcallSent : call.phase.sent = true := by
    rw [← hequal, getElem?_headers hindex] at hother
    rw [← hsent, ← Option.some.inj hother]
    rfl
  rcases ((hinvariant.wakeups.calls index call hindex).awaited hwait).expected with
    ⟨prototype, hphase⟩ | ⟨o, hfind⟩ | ⟨other, response, hrunning⟩
  · rw [hphase] at hcallSent
    cases hcallSent
  · rw [hid] at hfind
    obtain ⟨response, hparse, -⟩ := hinvariant.found_right hwritten hfind
    refine ⟨?_, o, response, hfind, hparse⟩
    rw [hmessage]
    rfl
  · rw [hio] at hrunning
    cases hrunning

/-- A response that is received is handed over next, or nobody waits for it. -/
theorem ChannelMoved.receive_eq {message : RpcMessage}
    (hmoved : ChannelMoved mergeFrom channel (.receive message) next)
    (htype : message.getType = .response) :
    channel.io = .idle ∧ next.calls = channel.calls ∧ next.written = channel.written ∧
      next.id = channel.id ∧
        next.processed ++ next.inHand = channel.processed ++ channel.inHand ++ [message] := by
  cases hmoved with
  | request hio hrequest =>
    rw [htype] at hrequest
    cases hrequest
  | found hio _ hfind => exact ⟨hio, rfl, rfl, rfl, by simp [CallingChannel.inHand, hio]⟩
  | ignored hio _ => exact ⟨hio, rfl, rfl, rfl, by simp [CallingChannel.inHand, hio]⟩

/-- A reply arrives. -/
theorem LinkInvariant.reply (hinvariant : LinkInvariant mergeFrom services link) {position : ℕ}
    {message : RpcMessage} (hreply : link.server.written[link.received]? = some (position, message))
    (hstep : channelStep mergeFrom link.client (.receive message) = some next) :
    LinkInvariant mergeFrom services { link with
      client := next
      received := link.received + 1 } := by
  have hwritten := List.mem_of_getElem? hreply
  have htype : message.getType = .response := by
    obtain ⟨served, reply, -, -, -, rfl, -⟩ := hinvariant.reply_cases hwritten
    rfl
  obtain ⟨hio, hcalls, hwrittenNext, hid, hprocessed⟩ := (channel_cases hstep).receive_eq htype
  have hheaders : next.headers = link.client.headers := by
    rw [CallingChannel.headers, hcalls, CallingChannel.headers]
  have hmessages : next.messages = link.client.messages := by
    rw [CallingChannel.messages, hheaders, CallingChannel.messages]
  have hgrown : Grown link { link with client := next, received := link.received + 1 } :=
    grown_client hmessages rfl rfl
  exact {
    wakeups := hinvariant.wakeups.step (hinvariant.repliesWell hwritten hio) hstep
    requests := hinvariant.requests.congr hheaders hwrittenNext hid
    results := (hinvariant.results.receive (fun o ↦ hinvariant.found_right hwritten) hstep).mono
      fun index response hanswer ↦ hanswer.grown hgrown
    server := hinvariant.server
    callable := by
      rw [hheaders]
      exact hinvariant.callable
    arrived := by
      rw [hwrittenNext]
      exact hinvariant.arrived
    served := by
      rw [hwrittenNext]
      exact hinvariant.served
    received := (List.getElem?_eq_some_iff.mp hreply).1
    processed := by
      rw [hprocessed, hinvariant.processed, List.take_add_one, List.getElem?_map, hreply]
      rfl
    replies := fun position message hreply ↦ hinvariant.replies_grown hgrown hreply }

end Client

end MuduoProtorpc.JavaChannel
