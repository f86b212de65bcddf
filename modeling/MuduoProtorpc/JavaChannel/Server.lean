import MuduoProtorpc.Foundation.TransitionSystem
import MuduoProtorpc.JavaChannel.RpcChannel

/-!
# The Java channel as a server

A channel with a service map as a transition system: the I/O thread receives messages, and the
services run their callbacks, each once, on whatever thread and however late. A callback that is run
within `doRequest` is one that is run right after it.

`RightReply` is the reply that a request should have. A request has exactly one and the right one if
and only if its service and method exist and its bytes parse (`rightlyAnswered_iff_callable`):
`doRequest` gives its error builder no id, so `build()` throws and nothing is written for any other
request.
-/

set_option autoImplicit false
set_option relaxedAutoImplicit false

namespace MuduoProtorpc.JavaChannel

open Foundation

variable {Service Method Message : Type}

/-! ### The system -/

/-- How far a request has come: a service was invoked with it and has not run its callback, or has
run it with a response; `doRequest` has written a message itself; or an exception was thrown out of
`messageReceived`. -/
inductive Progress (Service Method Message : Type)
  | invoked (service : Service) (method : Method) (request : Message) (id : BitVec 64)
  | finished (response : Option Message)
  | refused
  | threw (text : String)

/-- A request that the channel has received. -/
structure Served (Service Method Message : Type) where
  message : RpcMessage
  progress : Progress Service Method Message

/-- A channel with a service map: the requests it has received, and the messages it has written,
each with the position of the request for which it was written. -/
structure Server (Service Method Message : Type) where
  served : List (Served Service Method Message)
  written : List (ℕ × RpcMessage)

/-- What can happen next: the decoder passes a message on, or a callback is run. -/
inductive ServerAction (Message : Type)
  | receive (message : RpcMessage)
  | callback (index : ℕ) (response : Option Message)

/-- `messageReceived` for a REQUEST. -/
def receiveRequest (services : Services Service Method Message)
    (server : Server Service Method Message) (message : RpcMessage) :
    Server Service Method Message :=
  match doRequest services message with
  | .invoked service method request id =>
    { server with
      served := server.served ++ [
        { message := message, progress := .invoked service method request id }] }
  | .wrote resp =>
    { served := server.served ++ [{ message := message, progress := .refused }]
      written := server.written ++ [(server.served.length, resp)] }
  | .threw text =>
    { server with served := server.served ++ [{ message := message, progress := .threw text }] }

/-- One step of the server. The decoder passes on messages with their required fields set only;
those that are no REQUEST go to the client side of the channel, which writes nothing. -/
def serverStep (services : Services Service Method Message)
    (server : Server Service Method Message) :
    ServerAction Message → Option (Server Service Method Message)
  | .receive message =>
    if message.isInitialized then
      if message.getType = .request then some (receiveRequest services server message)
      else some server
    else none
  | .callback index response =>
    match server.served[index]? with
    | some { message := message, progress := .invoked _ _ _ id } =>
      match done services response id with
      | .ok resp => some {
          served := server.served.set index
            { message := message, progress := .finished response }
          written := server.written ++ [(index, resp)] }
      | .error text => some { server with
          served := server.served.set index { message := message, progress := .threw text } }
    | _ => none

/-- A channel with a service map. -/
def serverSystem (services : Services Service Method Message) :
    TransitionSystem (Server Service Method Message) (ServerAction Message) where
  start := { served := [], written := [] }
  step := serverStep services

/-- The messages written for a request. -/
def Server.repliesTo (server : Server Service Method Message) (index : ℕ) : List RpcMessage :=
  (server.written.filter fun reply ↦ reply.1 = index).map Prod.snd

/-! ### The right reply -/

/-- The message is an ERROR with the code. -/
def IsError (reply : RpcMessage) (code : ErrorCode) : Prop :=
  reply.type = some .error ∧ reply.error = some code

/-- The callback of the request was run, or never will. -/
def Progress.Settled : Progress Service Method Message → Prop
  | .invoked _ _ _ _ => False
  | _ => True

/-- The callback of the request was run with the response. -/
def Progress.Ran (progress : Progress Service Method Message) (response : Option Message) : Prop :=
  progress = .finished response

/-- The reply that a request should have. -/
structure RightReply (services : Services Service Method Message)
    (served : Served Service Method Message) (reply : RpcMessage) : Prop where
  id : reply.id = some served.message.getId
  response : reply.type = some .response ↔
    Callable services served.message ∧ ∃ response, served.progress.Ran (some response)
  noService : services.get served.message.getService = none → IsError reply .noService
  noMethod : ∀ service, services.get served.message.getService = some service →
    services.findMethodByName service served.message.getMethod = none → IsError reply .noMethod
  invalidRequest : ∀ service method, services.get served.message.getService = some service →
    services.findMethodByName service served.message.getMethod = some method →
      fromByteString (services.mergeFrom service method) served.message.getRequest = none →
        IsError reply .invalidRequest
  invalidResponse : served.progress.Ran none → IsError reply .invalidResponse

/-- Exactly one message was written for the request, and it is the right one. -/
def RightlyAnswered (services : Services Service Method Message)
    (server : Server Service Method Message) (index : ℕ)
    (served : Served Service Method Message) : Prop :=
  ∃ reply, server.repliesTo index = [reply] ∧ RightReply services served reply

section Server

variable {services : Services Service Method Message} {server next : Server Service Method Message}
  {served : Served Service Method Message} {index : ℕ}

/-- What the callback of a callable request writes is the right reply. -/
theorem exists_done_rightReply {message : RpcMessage} (hcallable : Callable services message)
    (response : Option Message) :
    ∃ reply, done services response message.getId = .ok reply ∧
      RightReply services { message := message, progress := .finished response } reply := by
  obtain ⟨service, method, request, hservice, hmethod, hrequest⟩ := id hcallable
  have hright : ∀ reply : RpcMessage, reply.id = some message.getId →
      (reply.type = some .response ↔ ∃ value, response = some value) →
        (response = none → IsError reply .invalidResponse) →
          RightReply services { message := message, progress := .finished response } reply := by
    intro reply hid htype herror
    refine ⟨hid, htype.trans ?_, ?_, ?_, ?_, ?_⟩
    · simp [hcallable, Progress.Ran]
    · intro hnone
      rw [hservice] at hnone
      cases hnone
    · intro other hother hnone
      obtain rfl := Option.some.inj (hservice.symm.trans hother)
      rw [hmethod] at hnone
      cases hnone
    · intro other otherMethod hother hotherMethod hnone
      obtain rfl := Option.some.inj (hservice.symm.trans hother)
      obtain rfl := Option.some.inj (hmethod.symm.trans hotherMethod)
      rw [hrequest] at hnone
      cases hnone
    · intro hran
      exact herror (Progress.finished.inj hran)
  cases response with
  | none => exact ⟨_, build_of_isInitialized rfl, hright _ rfl (by simp) fun _ ↦ ⟨rfl, rfl⟩⟩
  | some value => exact ⟨_, build_of_isInitialized rfl, hright _ rfl (by simp) (by simp)⟩

/-- What holds of a request and the messages written for it. -/
def Accounted (services : Services Service Method Message)
    (served : Served Service Method Message) (replies : List RpcMessage) : Prop :=
  match served.progress with
  | .invoked _ _ _ id =>
    Callable services served.message ∧ id = served.message.getId ∧ replies = []
  | .finished _ =>
    Callable services served.message ∧ ∃ reply, replies = [reply] ∧
      RightReply services served reply
  | .refused => False
  | .threw _ => ¬ Callable services served.message ∧ replies = []

/-- Every request is accounted for, and nothing is written for any other. -/
structure ServerInvariant (services : Services Service Method Message)
    (server : Server Service Method Message) : Prop where
  accounted : ∀ index served, server.served[index]? = some served →
    Accounted services served (server.repliesTo index)
  written : ∀ reply ∈ server.written, reply.1 < server.served.length

/-- No message was written for a request that has not arrived. -/
theorem ServerInvariant.repliesTo_length (hinvariant : ServerInvariant services server) :
    server.repliesTo server.served.length = [] := by
  have hnone : ∀ reply ∈ server.written, ¬ decide (reply.1 = server.served.length) = true := by
    intro reply hreply
    have hlt := hinvariant.written reply hreply
    simp only [decide_eq_true_eq]
    omega
  rw [Server.repliesTo, List.filter_eq_nil_iff.mpr hnone, List.map_nil]

/-- A request more is accounted for. -/
theorem ServerInvariant.receive (hinvariant : ServerInvariant services server)
    (message : RpcMessage) : ServerInvariant services (receiveRequest services server message) := by
  have happend : ∀ progress, Accounted services ⟨message, progress⟩ [] →
      ServerInvariant services { server with
        served := server.served ++ [{ message := message, progress := progress }] } := by
    intro progress haccounted
    refine ⟨fun index served hserved ↦ ?_, fun reply hreply ↦ ?_⟩
    · show Accounted services served (server.repliesTo index)
      rcases getElem?_append_singleton_eq_some hserved with hold | ⟨rfl, rfl⟩
      · exact hinvariant.accounted index served hold
      · rw [hinvariant.repliesTo_length]
        exact haccounted
    · have hlt := hinvariant.written reply hreply
      simp only [List.length_append, List.length_singleton]
      omega
  rcases doRequest_cases services message with
    ⟨hcallable, service, method, request, hinvoked⟩ | ⟨hrefused, text, hthrew⟩
  · simp only [receiveRequest, hinvoked]
    exact happend _ ⟨hcallable, rfl, rfl⟩
  · simp only [receiveRequest, hthrew]
    exact happend _ ⟨hrefused, rfl⟩

/-- A callback that is run completes its request, and no other. -/
theorem ServerInvariant.callback (hinvariant : ServerInvariant services server)
    {response : Option Message}
    (hstep : serverStep services server (.callback index response) = some next) :
    ServerInvariant services next := by
  simp only [serverStep] at hstep
  split at hstep
  · rename_i message service method request id hserved
    obtain ⟨hcallable, rfl, hreplies⟩ : Callable services message ∧ id = message.getId ∧
        server.repliesTo index = [] := hinvariant.accounted index _ hserved
    obtain ⟨reply, hdone, hright⟩ := exists_done_rightReply hcallable response
    simp only [hdone] at hstep
    obtain rfl := Option.some.inj hstep
    obtain ⟨hindex, -⟩ := List.getElem?_eq_some_iff.mp hserved
    refine ⟨fun other served hother ↦ ?_, fun written hwritten ↦ ?_⟩
    · by_cases heq : other = index
      · subst heq
        rw [List.getElem?_set_self hindex] at hother
        obtain rfl := Option.some.inj hother
        refine ⟨hcallable, reply, ?_, hright⟩
        simpa [Server.repliesTo] using hreplies
      · rw [List.getElem?_set_ne (fun hsame ↦ heq hsame.symm)] at hother
        have haccounted := hinvariant.accounted other served hother
        have hne : index ≠ other := fun hsame ↦ heq hsame.symm
        simpa [Server.repliesTo, hne] using haccounted
    · rw [List.length_set]
      rcases List.mem_append.mp hwritten with hold | hnew
      · exact hinvariant.written written hold
      · rw [List.mem_singleton.mp hnew]
        exact hindex
  · cases hstep

/-- Every step keeps the requests accounted for. -/
theorem ServerInvariant.step (hinvariant : ServerInvariant services server)
    {action : ServerAction Message} (hstep : serverStep services server action = some next) :
    ServerInvariant services next := by
  cases action with
  | receive message =>
    simp only [serverStep] at hstep
    split_ifs at hstep with hinitialized htype
    · obtain rfl := Option.some.inj hstep
      exact hinvariant.receive message
    · obtain rfl := Option.some.inj hstep
      exact hinvariant
  | callback index response => exact hinvariant.callback hstep

theorem serverInvariant_of_run {actions : List (ServerAction Message)}
    (hrun : (serverSystem services).Run actions server) : ServerInvariant services server := by
  refine hrun.invariant ⟨fun index served hserved ↦ ?_, fun reply hreply ↦ ?_⟩
    fun _ _ _ _ hstep hbefore ↦ hbefore.step hstep
  · simp [serverSystem] at hserved
  · simp [serverSystem] at hreply

/-- Once its service, if one was invoked, has run the callback, a request has exactly one reply and
the right one if and only if its service and method exist and its bytes parse. -/
theorem rightlyAnswered_iff_callable {actions : List (ServerAction Message)}
    (hrun : (serverSystem services).Run actions server)
    (hserved : server.served[index]? = some served) (hsettled : served.progress.Settled) :
    RightlyAnswered services server index served ↔ Callable services served.message := by
  have haccounted := (serverInvariant_of_run hrun).accounted index served hserved
  obtain ⟨message, progress⟩ := served
  cases progress with
  | invoked service method request id => exact hsettled.elim
  | finished response =>
    obtain ⟨hcallable, reply, hreplies, hright⟩ := haccounted
    exact ⟨fun _ ↦ hcallable, fun _ ↦ ⟨reply, hreplies, hright⟩⟩
  | refused => exact haccounted.elim
  | threw text =>
    obtain ⟨hrefused, hreplies⟩ := haccounted
    refine ⟨fun ⟨reply, hone, _⟩ ↦ ?_, fun hcallable ↦ absurd hcallable hrefused⟩
    rw [hreplies] at hone
    cases hone

end Server

/-! ### A request that is answered, and one that is not -/

/-- A service map with one service of one method, which takes one byte and returns one. -/
def solveOnly : Services Unit Unit UInt8 where
  get := fun name ↦ if name = "sudoku.SudokuService" then some () else none
  findMethodByName := fun _ name ↦ if name = "Solve" then some () else none
  mergeFrom := fun _ _ bytes ↦
    match bytes with
    | [byte] => .ok byte
    | _ => .error "Protocol message end-group tag did not match expected tag."
  toByteString := fun byte ↦ [byte]

/-- A request for the method. -/
def solveRequest : RpcMessage where
  type := some .request
  id := some 2
  service := some "sudoku.SudokuService"
  method := some "Solve"
  request := some [7]

/-- A request whose callback was run with a response. -/
theorem rightlyAnswered_solveRequest : ∃ server,
    (serverSystem solveOnly).Run [.receive solveRequest, .callback 0 (some 9)] server ∧
    RightlyAnswered solveOnly server 0
      { message := solveRequest, progress := .finished (some 9) } := by
  let answered : Server Unit Unit UInt8 := {
    served := [{ message := solveRequest, progress := .finished (some 9) }]
    written := [(0, { type := some .response, id := some 2, response := some [9] })] }
  have hrun : (serverSystem solveOnly).Run [.receive solveRequest, .callback 0 (some 9)] answered :=
    .of_execute rfl
  have hserved : answered.served[0]? =
      some { message := solveRequest, progress := .finished (some 9) } := rfl
  have hiff := rightlyAnswered_iff_callable hrun hserved trivial
  exact ⟨answered, hrun, hiff.mpr ⟨(), (), 7, rfl, rfl, rfl⟩⟩

/-- Nothing is written for a request to a service that does not exist. -/
theorem not_rightlyAnswered_of_unknown_service :
    ¬ ∀ (actions : List (ServerAction UInt8)) (server : Server Unit Unit UInt8) (index : ℕ)
      (served : Served Unit Unit UInt8), (serverSystem solveOnly).Run actions server →
        server.served[index]? = some served → served.progress.Settled →
          RightlyAnswered solveOnly server index served := by
  intro hall
  let request : RpcMessage := { solveRequest with service := some "echo.EchoService" }
  let refused : Server Unit Unit UInt8 := {
    served := [{ message := request, progress := .threw "Message missing required fields: id" }]
    written := [] }
  have hrun : (serverSystem solveOnly).Run [.receive request] refused := .of_execute rfl
  obtain ⟨reply, hreplies, -⟩ := hall _ refused 0 _ hrun rfl trivial
  cases hreplies

end MuduoProtorpc.JavaChannel
