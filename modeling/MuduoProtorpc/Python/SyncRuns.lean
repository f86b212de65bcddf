import Mathlib.Tactic.FinCases
import MuduoProtorpc.Python.SyncRpcChannel

/-!
# A Python client and a Python server

A call is one exchange: the request goes over in pieces, the server decodes it when all of it is
there, the method returns, and the response comes back in pieces. `Exchange` lists the states that a
connection goes through, and every step leads from one of them to one of them. So no end raises an
exception, the service is called with what the client has called, in order and once each, the calls
return what the service has returned, and the two never wait for each other.
-/

set_option autoImplicit false
set_option relaxedAutoImplicit false

namespace MuduoProtorpc.Python

open Foundation

variable {Message : Type} {runtime : Runtime Message} {service : Service}

/-! ### What a client and a service keep to -/

/-- The message can be sent: the runtime parses what it has serialized, and the length fits. -/
structure Travels (runtime : Runtime Message) (message : RpcMessage) : Prop where
  parse : runtime.parseRpc (runtime.serializeRpc message) = some message
  nonempty : 1 ≤ (runtime.serializeRpc message).length
  fits : 8 + (runtime.serializeRpc message).length < 2 ^ 31

/-- The server has the method, and the request can be sent to it. -/
structure GoodCall (runtime : Runtime Message) (service : Service) (id : BitVec 64)
    (call : Call Message) : Prop where
  served : call.method.containingService = service.fullName
  method : call.method.name ∈ service.methods
  parse : runtime.parseRequest call.method (runtime.serializeToString call.request) =
    some call.request
  travels : Travels runtime (requestMessage runtime id call)

/-- The response can be sent. -/
structure GoodResponse (runtime : Runtime Message) (id : BitVec 64) (method : MethodDescriptor)
    (response : Message) : Prop where
  parse : runtime.parseResponse method (runtime.serializeToString response) = some response
  travels : Travels runtime (responseMessage runtime id response)

/-- The client makes good calls, fewer than `2 ^ 64`, and the service returns good responses. -/
def Cooperates (runtime : Runtime Message) (service : Service) (link : Link Message) :
    Action Message → Prop
  | .call call => link.count + 1 < 2 ^ 64 ∧
      GoodCall runtime service (BitVec.ofNat 64 (link.count + 1)) call
  | .respond response => ∀ id, link.server = .calling id →
      ∃ call, link.invocations.getLast? = some call ∧
        GoodResponse runtime id call.method response
  | _ => True

/-! ### Decoding what has arrived -/

section Decoding

variable {message : RpcMessage}

/-- A message that can be sent is a frame. -/
theorem Travels.encode (htravels : Travels runtime message) :
    pythonEncode runtime.serializeRpc message = some (frameOf (runtime.serializeRpc message)) :=
  pythonEncode_eq htravels.fits

theorem frameOf_eq (body : Bytes) : frameOf body =
    putUint32 (8 + body.length) ++ (rpcTag ++ body ++ putUint32 (adler32 (rpcTag ++ body))) := by
  simp only [frameOf, List.append_assoc]

/-- A message that has arrived is decoded. -/
theorem Travels.decode (htravels : Travels runtime message) :
    pythonDecode runtime.parseRpc
        { available := frameOf (runtime.serializeRpc message), ended := false } =
      .message message { available := [], ended := false } := by
  have htrailer := length_putUint32 (adler32 (rpcTag ++ runtime.serializeRpc message))
  have hchecksum := uint32_putUint32 (adler32_lt (rpcTag ++ runtime.serializeRpc message))
  have htag : rpcTag.length = 4 := rfl
  rw [frameOf_eq, ← List.append_nil (putUint32 _ ++ _),
    pythonDecode_eq htag htravels.nonempty htrailer htravels.fits [] false, if_pos rfl,
    if_pos hchecksum, htravels.parse]

/-- A part of a message is waited for. -/
theorem Travels.decode_part (htravels : Travels runtime message) {arrived rest : Bytes}
    (hframe : arrived ++ rest = frameOf (runtime.serializeRpc message)) (hrest : rest ≠ []) :
    pythonDecode runtime.parseRpc { available := arrived, ended := false } = .blocked := by
  have hlengths := congrArg List.length hframe
  have hpositive := List.length_pos_iff.mpr hrest
  have hsize : (frameOf (runtime.serializeRpc message)).length =
      12 + (runtime.serializeRpc message).length := by
    rw [frameOf_eq]
    simp only [List.length_append, length_putUint32, show rpcTag.length = 4 from rfl]
    omega
  rw [List.length_append, hsize] at hlengths
  by_cases hhead : arrived.length < 4
  · simp only [pythonDecode, recv]
    rw [if_neg (by simp only [Bool.false_eq_true, or_false]; omega)]
  · have htake : arrived.take 4 = putUint32 (8 + (runtime.serializeRpc message).length) := by
      have hprefix : (arrived ++ rest).take 4 = arrived.take 4 :=
        List.take_append_of_le_length (by omega)
      rw [← hprefix, hframe, frameOf_eq, List.take_left' (length_putUint32 _)]
    have hunpack : structUnpack (putUint32 (8 + (runtime.serializeRpc message).length)) =
        (8 + (runtime.serializeRpc message).length : ℕ) := by
      rw [structUnpack, uint32_putUint32 (by have := htravels.fits; omega),
        toInt_of_lt htravels.fits]
    have hnonempty := htravels.nonempty
    simp only [pythonDecode, recv]
    rw [if_pos (Or.inl (by omega))]
    simp only [htake, hunpack, length_putUint32]
    rw [if_neg (by simp [putUint32]), if_neg (by simp), if_neg (by push_cast; omega),
      if_neg (by simp only [Int.toNat_natCast, List.length_drop, Bool.false_eq_true, or_false]
                 omega)]

theorem decode_nothing (ended : Bool) :
    pythonDecode runtime.parseRpc { available := [], ended := ended } =
      if ended then .nothing else .blocked := by
  cases ended <;> rfl

end Decoding

/-! ### One exchange after another -/

/-- The states of a connection: nothing is called, the connection is closed, a request is being sent
or has arrived, the method is running, a response is being sent or has arrived. -/
inductive Exchange (runtime : Runtime Message) (service : Service) : Link Message → Prop
  | idle {count : ℕ} {calls : List (Call Message)} {results : List Message} {ended : Bool} :
      calls.length = results.length →
        Exchange runtime service {
          count := count
          toServer := { available := [], ended := ended }
          calls := calls, invocations := calls, returned := results, results := results }
  | closed {count : ℕ} {calls : List (Call Message)} {results : List Message} :
      calls.length = results.length →
        Exchange runtime service {
          count := count
          toServer := { available := [], ended := true }
          server := .closed
          toClient := { available := [], ended := true }
          calls := calls, invocations := calls, returned := results, results := results }
  | sending {count : ℕ} {call : Call Message} {calls : List (Call Message)}
      {results : List Message} {arrived rest : Bytes} :
      calls.length = results.length → GoodCall runtime service (BitVec.ofNat 64 count) call →
        arrived ++ rest = frameOf (runtime.serializeRpc
          (requestMessage runtime (BitVec.ofNat 64 count) call)) → rest ≠ [] →
        Exchange runtime service {
          count := count
          client := .sending (requestMessage runtime (BitVec.ofNat 64 count) call) call.method rest
          toServer := { available := arrived, ended := false }
          calls := calls ++ [call], invocations := calls, returned := results, results := results }
  | arrived {count : ℕ} {call : Call Message} {calls : List (Call Message)}
      {results : List Message} :
      calls.length = results.length → GoodCall runtime service (BitVec.ofNat 64 count) call →
        Exchange runtime service {
          count := count
          client := .receiving (requestMessage runtime (BitVec.ofNat 64 count) call) call.method
          toServer := {
            available := frameOf (runtime.serializeRpc
              (requestMessage runtime (BitVec.ofNat 64 count) call))
            ended := false }
          calls := calls ++ [call], invocations := calls, returned := results, results := results }
  | calling {count : ℕ} {call : Call Message} {calls : List (Call Message)}
      {results : List Message} :
      calls.length = results.length →
        Exchange runtime service {
          count := count
          client := .receiving (requestMessage runtime (BitVec.ofNat 64 count) call) call.method
          server := .calling (BitVec.ofNat 64 count)
          calls := calls ++ [call], invocations := calls ++ [call], returned := results
          results := results }
  | replying {count : ℕ} {call : Call Message} {calls : List (Call Message)} {response : Message}
      {results : List Message} {arrived rest : Bytes} :
      calls.length = results.length →
        GoodResponse runtime (BitVec.ofNat 64 count) call.method response →
        arrived ++ rest = frameOf (runtime.serializeRpc
          (responseMessage runtime (BitVec.ofNat 64 count) response)) → rest ≠ [] →
        Exchange runtime service {
          count := count
          client := .receiving (requestMessage runtime (BitVec.ofNat 64 count) call) call.method
          server := .replying rest
          toClient := { available := arrived, ended := false }
          calls := calls ++ [call], invocations := calls ++ [call]
          returned := results ++ [response], results := results }
  | answered {count : ℕ} {call : Call Message} {calls : List (Call Message)} {response : Message}
      {results : List Message} :
      calls.length = results.length →
        GoodResponse runtime (BitVec.ofNat 64 count) call.method response →
        Exchange runtime service {
          count := count
          client := .receiving (requestMessage runtime (BitVec.ofNat 64 count) call) call.method
          toClient := {
            available := frameOf (runtime.serializeRpc
              (responseMessage runtime (BitVec.ofNat 64 count) response))
            ended := false }
          calls := calls ++ [call], invocations := calls ++ [call]
          returned := results ++ [response], results := results }

section Exchange

variable {link next : Link Message} {count : ℕ} {calls : List (Call Message)}
  {results : List Message} {call : Call Message} {response : Message}

/-- A call starts an exchange. -/
theorem exchange_call {runtime : Runtime Message} {service : Service}
    (hlength : calls.length = results.length) (hbound : count + 1 < 2 ^ 64)
    (hgood : GoodCall runtime service (BitVec.ofNat 64 (count + 1)) call) :
    Exchange runtime service (callMethod runtime {
      count := count
      toServer := { available := [], ended := false }
      calls := calls, invocations := calls, returned := results, results := results } call) := by
  simp only [callMethod, if_neg (Nat.not_le.mpr hbound), hgood.travels.encode]
  exact .sending hlength hgood (List.nil_append _) (by simp [frameOf, putUint32])

/-- A piece more of a request. -/
theorem exchange_clientSend {arrived rest : Bytes} {size : ℕ}
    (hlength : calls.length = results.length)
    (hgood : GoodCall runtime service (BitVec.ofNat 64 count) call)
    (hframe : arrived ++ rest = frameOf (runtime.serializeRpc
      (requestMessage runtime (BitVec.ofNat 64 count) call)))
    (hstep : clientSend {
      count := count
      client := .sending (requestMessage runtime (BitVec.ofNat 64 count) call) call.method rest
      toServer := { available := arrived, ended := false }
      calls := calls ++ [call], invocations := calls, returned := results
      results := results } size = some next) : Exchange runtime service next := by
  simp only [clientSend] at hstep
  split_ifs at hstep with hsize hall
  · obtain rfl := Option.some.inj hstep
    have htake : rest.take size = rest := by
      rw [← List.take_append_drop size rest, hall, List.append_nil, List.take_take, Nat.min_self]
    simp only [Stream.grow, htake, hframe]
    exact .arrived hlength hgood
  · obtain rfl := Option.some.inj hstep
    refine .sending hlength hgood ?_ hall
    rw [List.append_assoc, List.take_append_drop, hframe]

/-- A piece more of a response. -/
theorem exchange_serverSend {arrived rest : Bytes} {size : ℕ}
    (hlength : calls.length = results.length)
    (hgood : GoodResponse runtime (BitVec.ofNat 64 count) call.method response)
    (hframe : arrived ++ rest = frameOf (runtime.serializeRpc
      (responseMessage runtime (BitVec.ofNat 64 count) response)))
    (hstep : serverSend {
      count := count
      client := .receiving (requestMessage runtime (BitVec.ofNat 64 count) call) call.method
      server := .replying rest
      toClient := { available := arrived, ended := false }
      calls := calls ++ [call], invocations := calls ++ [call]
      returned := results ++ [response], results := results } size = some next) :
    Exchange runtime service next := by
  simp only [serverSend] at hstep
  split_ifs at hstep with hsize hall
  · obtain rfl := Option.some.inj hstep
    have htake : rest.take size = rest := by
      rw [← List.take_append_drop size rest, hall, List.append_nil, List.take_take, Nat.min_self]
    simp only [Stream.grow, htake, hframe]
    exact .answered hlength hgood
  · obtain rfl := Option.some.inj hstep
    refine .replying hlength hgood ?_ hall
    rw [List.append_assoc, List.take_append_drop, hframe]

/-- The server decodes a request and calls its method. -/
theorem serverDecode_arrived (hgood : GoodCall runtime service (BitVec.ofNat 64 count) call)
    (hserver : link.server = .decoding) (harrived : link.toServer = {
      available := frameOf (runtime.serializeRpc
        (requestMessage runtime (BitVec.ofNat 64 count) call))
      ended := false }) :
    serverDecode runtime service link = some { link with
      toServer := { available := [], ended := false }
      server := .calling (BitVec.ofNat 64 count)
      invocations := link.invocations ++ [call] } := by
  have htype : (requestMessage runtime (BitVec.ofNat 64 count) call).getType = .request := rfl
  have hid : (requestMessage runtime (BitVec.ofNat 64 count) call).getId =
      BitVec.ofNat 64 count := rfl
  have hservice : (requestMessage runtime (BitVec.ofNat 64 count) call).getService =
      service.fullName := hgood.served
  have hmethod : (requestMessage runtime (BitVec.ofNat 64 count) call).getMethod =
      call.method.name := rfl
  have hrequest : (requestMessage runtime (BitVec.ofNat 64 count) call).getRequest =
      runtime.serializeToString call.request := rfl
  have hdescriptor : (⟨service.fullName, call.method.name⟩ : MethodDescriptor) = call.method := by
    rw [← hgood.served]
  simp only [serverDecode, hserver, harrived, hgood.travels.decode, htype, hid, hservice, hmethod,
    hrequest, hdescriptor, hgood.parse, hgood.method, ne_eq, not_true_eq_false, if_false]

/-- The client decodes a response and returns it. -/
theorem clientDecode_answered {method : MethodDescriptor}
    (hgood : GoodResponse runtime (BitVec.ofNat 64 count) method response)
    (hclient : link.client =
      .receiving (requestMessage runtime (BitVec.ofNat 64 count) call) method)
    (hanswered : link.toClient = {
      available := frameOf (runtime.serializeRpc
        (responseMessage runtime (BitVec.ofNat 64 count) response))
      ended := false }) :
    clientDecode runtime link = some { link with
      toClient := { available := [], ended := false }
      client := .idle
      results := link.results ++ [response] } := by
  have htype : (responseMessage runtime (BitVec.ofNat 64 count) response).getType = .response := rfl
  have hid : (responseMessage runtime (BitVec.ofNat 64 count) response).getId =
      (requestMessage runtime (BitVec.ofNat 64 count) call).getId := rfl
  have hresponse : (responseMessage runtime (BitVec.ofNat 64 count) response).getResponse =
      runtime.serializeToString response := rfl
  simp only [clientDecode, hclient, hanswered, hgood.travels.decode, htype, hid, hresponse,
    hgood.parse, ne_eq, not_true_eq_false, if_false]

/-- The server is about to send what its method has returned. -/
theorem respond_calling {id : BitVec 64} (hserver : link.server = .calling id)
    (htravels : Travels runtime (responseMessage runtime id response)) :
    respond runtime link response = some { link with
      returned := link.returned ++ [response]
      server := .replying (frameOf (runtime.serializeRpc
        (responseMessage runtime id response))) } := by
  have hrespond : respond runtime link response =
      some (reply { link with returned := link.returned ++ [response] }
        (pythonEncode runtime.serializeRpc (responseMessage runtime id response))) := by
    simp only [respond, hserver]
  rw [hrespond, htravels.encode, reply]

/-- A method can always return. -/
theorem respond_ne_none {id : BitVec 64} (hserver : link.server = .calling id) :
    respond runtime link response ≠ none := by
  simp only [respond, hserver, ne_eq, reduceCtorEq, not_false_eq_true]

/-- A step leads from a state of an exchange to one. -/
theorem Exchange.step (hexchange : Exchange runtime service link) {action : Action Message}
    (hcooperates : Cooperates runtime service link action)
    (hstep : linkStep runtime service link action = some next) :
    Exchange runtime service next := by
  cases hexchange with
  | @idle count calls results ended hlength =>
    cases action with
    | call call =>
      cases ended with
      | true => cases hstep
      | false =>
        simp only [linkStep, and_self, if_true, Option.some.injEq] at hstep
        obtain ⟨hbound, hgood⟩ := hcooperates
        rw [← hstep]
        exact exchange_call hlength hbound hgood
    | close =>
      cases ended with
      | true => cases hstep
      | false =>
        obtain rfl := Option.some.inj hstep
        exact .idle hlength
    | serverDecode =>
      simp only [linkStep, serverDecode, decode_nothing] at hstep
      cases ended with
      | true =>
        obtain rfl := Option.some.inj hstep
        exact .closed hlength
      | false => cases hstep
    | _ => cases hstep
  | closed hlength =>
    cases action with
    | _ => cases hstep
  | sending hlength hgood hframe hrest =>
    cases action with
    | clientSend size => exact exchange_clientSend hlength hgood hframe hstep
    | serverDecode =>
      simp only [linkStep, serverDecode, hgood.travels.decode_part hframe hrest] at hstep
      cases hstep
    | _ => cases hstep
  | arrived hlength hgood =>
    cases action with
    | clientDecode =>
      simp only [linkStep, clientDecode, decode_nothing] at hstep
      cases hstep
    | serverDecode =>
      simp only [linkStep] at hstep
      rw [serverDecode_arrived hgood rfl rfl] at hstep
      obtain rfl := Option.some.inj hstep
      exact .calling hlength
    | _ => cases hstep
  | @calling count call calls results hlength =>
    cases action with
    | clientDecode =>
      simp only [linkStep, clientDecode, decode_nothing] at hstep
      cases hstep
    | respond response =>
      obtain ⟨last, hlast, hgood⟩ := hcooperates (BitVec.ofNat 64 count) rfl
      rw [List.getLast?_concat] at hlast
      obtain rfl := Option.some.inj hlast
      rw [linkStep, respond_calling rfl hgood.travels] at hstep
      obtain rfl := Option.some.inj hstep
      exact .replying hlength hgood (List.nil_append _) (by simp [frameOf, putUint32])
    | _ => cases hstep
  | replying hlength hgood hframe hrest =>
    cases action with
    | clientDecode =>
      simp only [linkStep, clientDecode, hgood.travels.decode_part hframe hrest] at hstep
      cases hstep
    | serverSend size => exact exchange_serverSend hlength hgood hframe hstep
    | _ => cases hstep
  | answered hlength hgood =>
    cases action with
    | clientDecode =>
      simp only [linkStep] at hstep
      rw [clientDecode_answered hgood rfl rfl] at hstep
      obtain rfl := Option.some.inj hstep
      exact .idle (by simp [hlength])
    | serverDecode =>
      simp only [linkStep, serverDecode, decode_nothing] at hstep
      cases hstep
    | _ => cases hstep

end Exchange

/-! ### What holds of every run -/

/-- Only the program of the client can go on: it calls a method, or closes the connection. -/
def FromClient : Action Message → Prop
  | .call _ | .close => True
  | _ => False

/-- What a client and a server guarantee. -/
structure SyncGuarantees (runtime : Runtime Message) (service : Service) (link : Link Message) :
    Prop where
  /-- No end has raised an exception. -/
  running : ∀ exception, link.client ≠ .raised exception ∧ link.server ≠ .raised exception
  /-- The service is called with what the client has called, in order. -/
  invoked : link.invocations <+: link.calls
  /-- The calls return what the service has returned, in order. -/
  returned : link.results <+: link.returned
  /-- At most one call is going on. -/
  oneAtATime : link.results.length ≤ link.returned.length ∧
    link.returned.length ≤ link.invocations.length ∧ link.calls.length ≤ link.results.length + 1
  /-- A client that can call again has the results of all its calls. -/
  finished : link.client = .idle →
    link.invocations = link.calls ∧ link.results = link.returned ∧
      link.results.length = link.calls.length
  /-- The two do not wait for each other. -/
  neverStuck : link.client ≠ .idle →
    ∃ action, ¬ FromClient action ∧ linkStep runtime service link action ≠ none

theorem Exchange.guarantees {link : Link Message} (hexchange : Exchange runtime service link) :
    SyncGuarantees runtime service link := by
  cases hexchange with
  | idle hlength =>
    exact ⟨fun _ ↦ by simp, List.prefix_rfl, List.prefix_rfl, by simp [hlength],
      fun _ ↦ ⟨rfl, rfl, hlength.symm⟩, fun hidle ↦ absurd rfl hidle⟩
  | closed hlength =>
    exact ⟨fun _ ↦ by simp, List.prefix_rfl, List.prefix_rfl, by simp [hlength],
      fun _ ↦ ⟨rfl, rfl, hlength.symm⟩, fun hidle ↦ absurd rfl hidle⟩
  | @sending count call calls results arrived rest hlength hgood hframe hrest =>
    refine ⟨fun _ ↦ by simp, List.prefix_append _ _, List.prefix_rfl, by simp [hlength],
      nofun, fun _ ↦ ⟨.clientSend rest.length, id, ?_⟩⟩
    have hpositive := List.length_pos_iff.mpr hrest
    simp [linkStep, clientSend, hpositive]
  | arrived hlength hgood =>
    refine ⟨fun _ ↦ by simp, List.prefix_append _ _, List.prefix_rfl, by simp [hlength],
      nofun, fun _ ↦ ⟨.serverDecode, id, ?_⟩⟩
    rw [linkStep, serverDecode_arrived hgood rfl rfl]
    simp
  | @calling count call calls results hlength =>
    refine ⟨fun _ ↦ by simp, List.prefix_rfl, List.prefix_rfl, by simp [hlength],
      nofun, fun _ ↦ ⟨.respond call.request, id, ?_⟩⟩
    rw [linkStep]
    exact respond_ne_none rfl
  | @replying count call calls response results arrived rest hlength hgood hframe hrest =>
    refine ⟨fun _ ↦ by simp, List.prefix_rfl, List.prefix_append _ _, by simp [hlength],
      nofun, fun _ ↦ ⟨.serverSend rest.length, id, ?_⟩⟩
    have hpositive := List.length_pos_iff.mpr hrest
    simp [linkStep, serverSend, hpositive]
  | answered hlength hgood =>
    refine ⟨fun _ ↦ by simp, List.prefix_rfl, List.prefix_append _ _, by simp [hlength],
      nofun, fun _ ↦ ⟨.clientDecode, id, ?_⟩⟩
    rw [linkStep, clientDecode_answered hgood rfl rfl]
    simp

/-- However the bytes of the two ends are split: as long as the calls and the responses are good, no
end raises an exception, the service is called once for each call and in order, each call returns
what the service returned for it, and a client that waits gets its response. -/
theorem syncGuarantees_of_run {actions : List (Action Message)} {link : Link Message}
    (hrun : (linkSystem runtime service).RunWhen (Cooperates runtime service) actions link) :
    SyncGuarantees runtime service link := by
  have hexchange : Exchange runtime service link := by
    refine hrun.invariant (.idle rfl) fun _ _ _ hcooperates hstep hbefore ↦ ?_
    exact hbefore.step hcooperates hstep
  exact hexchange.guarantees

/-! ### Two calls, in pieces -/

/-- The method. -/
def addMethod : MethodDescriptor where
  containingService := "Arith"
  name := "Add"

/-- A small number, as a message with one field. -/
def serializeNumber (number : UInt8) : Bytes :=
  [0x08, number]

/-- Parsing such a message. -/
def parseNumber : Bytes → Option UInt8
  | [0x08, number] => some number
  | _ => none

/-- The runtime, for messages on the wire that are in a table with their serialized forms. -/
def tableRuntime (frames : List (RpcMessage × Bytes)) : Runtime UInt8 where
  serializeRpc message := ((frames.find? fun frame ↦ frame.1 = message).map Prod.snd).getD []
  parseRpc bytes := (frames.find? fun frame ↦ frame.2 = bytes).map Prod.fst
  serializeToString := serializeNumber
  parseRequest _ := parseNumber
  parseResponse _ := parseNumber

/-- The call. -/
def addCall : Call UInt8 where
  method := addMethod
  request := 7

/-- The service. -/
def arithService : Service where
  fullName := "Arith"
  methods := ["Add"]

/-- The serialized form of a call with a small identifier. -/
def requestBody (id : UInt8) : Bytes :=
  [0x08, 0x01, 0x11, id, 0, 0, 0, 0, 0, 0, 0, 0x1a, 5, 0x41, 0x72, 0x69, 0x74, 0x68,
    0x22, 3, 0x41, 0x64, 0x64, 0x2a, 2, 0x08, 7]

/-- The serialized form of the response to it. -/
def responseBody (id number : UInt8) : Bytes :=
  [0x08, 0x02, 0x11, id, 0, 0, 0, 0, 0, 0, 0, 0x32, 2, 0x08, number]

/-- The message of the call. -/
def addRequest (id : BitVec 64) : RpcMessage where
  type := some .request
  id := some id
  service := some "Arith"
  method := some "Add"
  request := some (serializeNumber 7)

/-- The message of a response to it. -/
def addResponse (id : BitVec 64) (number : UInt8) : RpcMessage where
  type := some .response
  id := some id
  response := some (serializeNumber number)

/-- The messages of two calls. -/
def addFrames : List (RpcMessage × Bytes) :=
  [(addRequest 1, requestBody 1), (addResponse 1 9, responseBody 1 9),
    (addRequest 2, requestBody 2), (addResponse 2 8, responseBody 2 8)]

/-- The runtime of the two ends. -/
def addRuntime : Runtime UInt8 :=
  tableRuntime addFrames

theorem travels_addFrames {message : RpcMessage} {body : Bytes}
    (hframe : (message, body) ∈ addFrames) : Travels addRuntime message := by
  constructor <;> (fin_cases hframe <;> decide +kernel)

theorem goodCall_addCall {id : BitVec 64}
    (htravels : Travels addRuntime (requestMessage addRuntime id addCall)) :
    GoodCall addRuntime arithService id addCall :=
  ⟨rfl, by decide, rfl, htravels⟩

theorem goodResponse_addCall {id : BitVec 64} {response : UInt8}
    (htravels : Travels addRuntime (responseMessage addRuntime id response)) :
    GoodResponse addRuntime id addMethod response :=
  ⟨rfl, htravels⟩

/-- The client and the server after some steps. -/
def afterSteps (actions : List (Action UInt8)) : Link UInt8 :=
  let system := linkSystem addRuntime arithService
  (system.execute system.start actions).getD system.start

/-- No call, and no method that returns. -/
def isPlain : Action UInt8 → Bool
  | .call _ | .respond _ => false
  | _ => true

theorem cooperates_of_isPlain (link : Link UInt8) (action : Action UInt8)
    (hplain : isPlain action = true) : Cooperates addRuntime arithService link action := by
  cases action with
  | call call => cases hplain
  | respond response => cases hplain
  | _ => trivial

/-- A call whose request goes over in two pieces. -/
def requestSent : List (Action UInt8) :=
  [.call addCall, .clientSend 9, .clientSend 30, .serverDecode]

/-- The first call has returned. -/
def firstReturned : List (Action UInt8) :=
  requestSent ++ [.respond 9, .serverSend 27, .clientDecode]

/-- The second call has returned, and the client has closed the connection. -/
def bothReturned : List (Action UInt8) :=
  firstReturned ++ requestSent ++
    [.respond 8, .serverSend 3, .serverSend 24, .clientDecode, .close, .serverDecode]

/-- The method returns. -/
theorem runWhen_respond {actions : List (Action UInt8)} {id : BitVec 64} {number : UInt8}
    (hrun : (linkSystem addRuntime arithService).RunWhen (Cooperates addRuntime arithService)
      actions (afterSteps actions))
    (htravels : Travels addRuntime (addResponse id number))
    (hserver : (afterSteps actions).server = .calling id)
    (hinvoked : (afterSteps actions).invocations.getLast? = some addCall)
    (hstep : (linkSystem addRuntime arithService).step (afterSteps actions) (.respond number) =
      some (afterSteps (actions ++ [.respond number]))) :
    (linkSystem addRuntime arithService).RunWhen (Cooperates addRuntime arithService)
      (actions ++ [.respond number]) (afterSteps (actions ++ [.respond number])) := by
  refine .step hrun (fun other hother ↦ ?_) hstep
  rw [hserver] at hother
  cases hother
  exact ⟨addCall, hinvoked, goodResponse_addCall htravels⟩

theorem run_bothReturned :
    (linkSystem addRuntime arithService).RunWhen (Cooperates addRuntime arithService)
      bothReturned (afterSteps bothReturned) := by
  have hcall : (linkSystem addRuntime arithService).RunWhen (Cooperates addRuntime arithService)
      ([] ++ [.call addCall]) (afterSteps [.call addCall]) :=
    .step .start ⟨by decide, goodCall_addCall (travels_addFrames (.head _))⟩ rfl
  have hserved : (linkSystem addRuntime arithService).RunWhen (Cooperates addRuntime arithService)
      requestSent (afterSteps requestSent) :=
    hcall.extend cooperates_of_isPlain rfl
  have hnine : Travels addRuntime (addResponse 1 9) := travels_addFrames (.tail _ (.head _))
  have hresponded := runWhen_respond hserved hnine (by decide +kernel) rfl
    (by decide +kernel)
  have hfirst : (linkSystem addRuntime arithService).RunWhen (Cooperates addRuntime arithService)
      firstReturned (afterSteps firstReturned) :=
    hresponded.extend cooperates_of_isPlain rfl
  have hagain : (linkSystem addRuntime arithService).RunWhen (Cooperates addRuntime arithService)
      (firstReturned ++ [.call addCall]) (afterSteps (firstReturned ++ [.call addCall])) :=
    .step hfirst ⟨by decide +kernel,
      goodCall_addCall (travels_addFrames (.tail _ (.tail _ (.head _))))⟩ (by decide +kernel)
  have hservedAgain : (linkSystem addRuntime arithService).RunWhen
      (Cooperates addRuntime arithService) (firstReturned ++ requestSent)
      (afterSteps (firstReturned ++ requestSent)) :=
    hagain.extend cooperates_of_isPlain rfl
  have height : Travels addRuntime (addResponse 2 8) :=
    travels_addFrames (.tail _ (.tail _ (.tail _ (.head _))))
  have hrespondedAgain := runWhen_respond hservedAgain height (by decide +kernel) rfl
    (by decide +kernel)
  exact hrespondedAgain.extend cooperates_of_isPlain rfl

/-- Each call has returned what the method returned for it. -/
theorem syncGuarantees_bothReturned :
    (linkSystem addRuntime arithService).RunWhen (Cooperates addRuntime arithService) bothReturned
      (afterSteps bothReturned) ∧
    (afterSteps bothReturned).results = [9, 8] ∧
      SyncGuarantees addRuntime arithService (afterSteps bothReturned) :=
  ⟨run_bothReturned, by decide +kernel, syncGuarantees_of_run run_bothReturned⟩

end MuduoProtorpc.Python
