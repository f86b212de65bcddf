import MuduoProtorpc.GoRpc.ServerSafety

/-!
# What a Go server answers

Which frames a server writes for which request. `ReplyInvariant` accounts for every request: nothing
is written before its method has returned, nor for a request that the loop answers with an error,
and what is written when the method has returned is what `WriteResponse` makes of its reply.

Every request has exactly one answer and the right one if and only if every request is good and
every method succeeds with a reply that can be sent (`allAnswered_iff`): `WriteResponse` has one
type, `RESPONSE`, and what `net/rpc` hands to it with an error is no `proto.Message`.
-/

set_option autoImplicit false
set_option relaxedAutoImplicit false

namespace MuduoProtorpc.GoRpc

open Foundation

variable {Method Message : Type}

/-! ### The right answers -/

/-- The method of the request has returned, and no error. -/
def Succeeded (server : RpcServer Method Message) (index : ℕ) : Prop :=
  ∃ request reply, server.requests[index]? = some request ∧ request.progress = .returned "" reply

/-- The frame that the request at a position should be answered with. -/
structure RightAnswer (server : RpcServer Method Message) (index : ℕ)
    (frame reply : RpcMessage) : Prop where
  id : reply.id = some frame.getId
  response : Succeeded server index → reply.type = some .response
  error : ¬ Succeeded server index → reply.type = some .error

/-- Exactly one frame was written for each request, and the right one. -/
def AllAnswered (frames : List RpcMessage) (server : RpcServer Method Message) : Prop :=
  ∀ (index : ℕ) (frame : RpcMessage), frames[index]? = some frame →
    ∃ reply, server.repliesTo index = [reply] ∧ RightAnswer server index frame reply

/-- Nothing more happens. -/
def Settled (environment : ServerEnvironment Method Message)
    (server : RpcServer Method Message) : Prop :=
  ∀ action, serverStep environment server action = none

/-- A method returned no error and a reply that is a `proto.Message`, and it and the message around
it can be marshalled. -/
def Sends (environment : ServerEnvironment Method Message) (req : RequestHeader)
    (errmsg : String) (reply : Option Message) : Prop :=
  errmsg = "" ∧ ∃ message bytes body, reply = some message ∧
    environment.marshal message = .ok bytes ∧
      environment.marshalMessage
        { type := some .response, id := some req.seq, response := some bytes } = .ok body

/-! ### The requests and the frames written -/

/-- What holds of a request and the frames written for it. -/
def Accounted (environment : ServerEnvironment Method Message)
    (server : RpcServer Method Message) (index : ℕ) (frame : RpcMessage)
    (request : ReadRequest Method Message) : Prop :=
  match request.progress with
  | .reading => server.repliesTo index = [] ∧ index = server.last ∧
      server.phase ≠ .header ∧ server.phase ≠ .closed
  | .calling _ _ => server.repliesTo index = [] ∧ GoodRequest environment frame
  | .returned errmsg reply => GoodRequest environment frame ∧
      server.repliesTo index = answers environment request.header reply errmsg
  | .refused _ => server.repliesTo index = [] ∧ ¬ GoodRequest environment frame

/-- Every request is accounted for. -/
structure ReplyInvariant (environment : ServerEnvironment Method Message)
    (frames : List RpcMessage) (server : RpcServer Method Message) : Prop where
  accounted : ∀ (index : ℕ) (request : ReadRequest Method Message) (frame : RpcMessage),
    server.requests[index]? = some request → frames[index]? = some frame →
      Accounted environment server index frame request
  current : server.phase ≠ .header → server.phase ≠ .closed →
    ∃ request, server.requests[server.last]? = some request ∧ request.progress = .reading
  written : ∀ reply ∈ server.written, reply.1 < server.requests.length

section Replies

variable {environment : ServerEnvironment Method Message} {frames : List RpcMessage}
  {server next : RpcServer Method Message} {action : ServerAction Message} {stream : Stream}
  {req : RequestHeader} {errmsg : String} {reply : Option Message} {index : ℕ}

/-- What `sendResponse` writes for what a method returned. -/
theorem answers_cases (environment : ServerEnvironment Method Message) (req : RequestHeader)
    (errmsg : String) (reply : Option Message) :
    (Sends environment req errmsg reply ∧ ∃ bytes, answers environment req reply errmsg =
        [{ type := some .response, id := some req.seq, response := some bytes }]) ∨
      (¬ Sends environment req errmsg reply ∧ answers environment req reply errmsg = []) := by
  by_cases herror : errmsg = ""
  · subst herror
    cases reply with
    | none =>
      refine Or.inr ⟨?_, by simp [answers, writeResponse]⟩
      rintro ⟨-, message, bytes, body, hnone, -⟩
      cases hnone
    | some message =>
      cases hmarshal : environment.marshal message with
      | error text =>
        refine Or.inr ⟨?_, ?_⟩
        · rintro ⟨-, other, bytes, body, hother, hbytes, -⟩
          obtain rfl := Option.some.inj hother
          rw [hmarshal] at hbytes
          cases hbytes
        · simp [answers, writeResponse, hmarshal, bind, Except.bind]
      | ok bytes =>
        cases hframe : environment.marshalMessage
            { type := some .response, id := some req.seq, response := some bytes } with
        | error text =>
          refine Or.inr ⟨?_, ?_⟩
          · rintro ⟨-, other, found, body, hother, hbytes, hbody⟩
            obtain rfl := Option.some.inj hother
            obtain rfl := Except.ok.inj (hmarshal.symm.trans hbytes)
            rw [hframe] at hbody
            cases hbody
          · simp [answers, writeResponse, encode, hmarshal, hframe, bind, Except.bind]
        | ok body =>
          refine Or.inl ⟨⟨rfl, message, bytes, body, rfl, hmarshal, hframe⟩, bytes, ?_⟩
          simp [answers, writeResponse, hmarshal, encode_eq hframe, bind, Except.bind, pure,
            Except.pure]
  · refine Or.inr ⟨fun hsends ↦ herror hsends.1, ?_⟩
    simp [answers, writeResponse, herror]

/-- What was written for a request, after an answer more. -/
theorem repliesTo_append (server : RpcServer Method Message)
    (requests : List (ReadRequest Method Message)) (msgs : List RpcMessage) (index other : ℕ) :
    RpcServer.repliesTo { server with
        requests := requests
        written := server.written ++ msgs.map fun msg ↦ (index, msg) } other =
      server.repliesTo other ++ if index = other then msgs else [] := by
  simp only [RpcServer.repliesTo, List.filter_append, List.map_append, List.filter_map]
  congr 1
  by_cases heq : index = other
  · simp [heq, Function.comp_def]
  · simp [heq, Function.comp_def]

/-- Nothing was written for a request that was not read. -/
theorem ReplyInvariant.repliesTo_length (hinvariant : ReplyInvariant environment frames server) :
    server.repliesTo server.requests.length = [] := by
  have hnone : ∀ reply ∈ server.written, ¬ decide (reply.1 = server.requests.length) = true := by
    intro reply hreply
    have hlt := hinvariant.written reply hreply
    simp only [decide_eq_true_eq]
    omega
  rw [RpcServer.repliesTo, List.filter_eq_nil_iff.mpr hnone, List.map_nil]

/-- A request whose body was not read yet is not accounted for where no body is read. -/
theorem Accounted.of_not_reading {frame : RpcMessage} {request : ReadRequest Method Message}
    (haccounted : Accounted environment server index frame request)
    (hreading : request.progress ≠ .reading)
    (hreplies : next.repliesTo index = server.repliesTo index) :
    Accounted environment next index frame request := by
  unfold Accounted at haccounted ⊢
  split
  · rename_i hprogress
    exact absurd hprogress hreading
  · rename_i method argument hprogress
    simpa [hprogress, hreplies] using haccounted
  · rename_i other value hprogress
    simpa [hprogress, hreplies] using haccounted
  · rename_i other hprogress
    simpa [hprogress, hreplies] using haccounted

/-- No request is being read where the loop is in front of a header. -/
theorem ReplyInvariant.not_reading (hinvariant : ReplyInvariant environment frames server)
    {frame : RpcMessage} {request : ReadRequest Method Message}
    (hrequest : server.requests[index]? = some request) (hframe : frames[index]? = some frame)
    (hphase : server.phase = .header ∨ index ≠ server.last) : request.progress ≠ .reading := by
  intro hreading
  have haccounted := hinvariant.accounted index request frame hrequest hframe
  simp only [Accounted, hreading] at haccounted
  obtain ⟨-, hlast, hheader, -⟩ := haccounted
  rcases hphase with hphase | hother
  · exact hheader hphase
  · exact hother hlast

/-- A header more: its request is being read. -/
theorem ReplyInvariant.request (hinvariant : ReplyInvariant environment frames server)
    {codec : Codec} {method : Except String Method} (hphase : server.phase = .header) :
    ReplyInvariant environment frames { server with
      codec := codec
      requests := server.requests ++ [{ header := req, progress := .reading }]
      phase := .body req method } := by
  refine ⟨fun index request frame hrequest hframe ↦ ?_, fun _ _ ↦ ?_, fun reply hreply ↦ ?_⟩
  · rcases getElem?_append_singleton_eq_some hrequest with hold | ⟨rfl, rfl⟩
    · exact (hinvariant.accounted index request frame hold hframe).of_not_reading
        (hinvariant.not_reading hold hframe (Or.inl hphase)) rfl
    · refine ⟨hinvariant.repliesTo_length, ?_, by simp, by simp⟩
      simp [RpcServer.last]
  · refine ⟨{ header := req, progress := .reading }, ?_, rfl⟩
    simp [RpcServer.last]
  · have hlt := hinvariant.written reply hreply
    simp only [List.length_append, List.length_singleton]
    omega

/-- The request in the hand of the loop goes further, and nothing is written. -/
theorem ReplyInvariant.advance (hinvariant : ReplyInvariant environment frames server)
    (hheader : server.phase ≠ .header) (hclosed : server.phase ≠ .closed)
    {progress : RequestProgress Method Message} {codec : Codec}
    (hprogress : ∀ (request : ReadRequest Method Message) (frame : RpcMessage),
      frames[server.last]? = some frame → server.repliesTo server.last = [] →
        Accounted environment server server.last frame { request with progress := progress })
    (hnotReading : progress ≠ .reading) :
    ReplyInvariant environment frames { server.setProgress server.last progress with
      codec := codec
      phase := .header } := by
  obtain ⟨current, hcurrent, hreading⟩ := hinvariant.current hheader hclosed
  refine ⟨fun index request frame hrequest hframe ↦ ?_, fun hother ↦ absurd rfl hother,
    fun reply hreply ↦ ?_⟩
  · obtain ⟨before, hbefore, rfl⟩ := getElem?_setProgress hrequest
    have haccounted := hinvariant.accounted index before frame hbefore hframe
    by_cases heq : server.last = index
    · subst heq
      obtain rfl := Option.some.inj (hcurrent.symm.trans hbefore)
      simp only [Accounted, hreading] at haccounted
      rw [if_pos rfl]
      exact (hprogress current frame hframe haccounted.1).of_not_reading hnotReading rfl
    · rw [if_neg heq]
      exact haccounted.of_not_reading
        (hinvariant.not_reading hbefore hframe (Or.inr fun hsame ↦ heq hsame.symm)) rfl
  · simpa [RpcServer.setProgress] using hinvariant.written reply hreply

/-- A method that returns completes its request, and no other. -/
theorem ReplyInvariant.finish (hinvariant : ReplyInvariant environment frames server)
    {method : Method} {argument : Message}
    (hrequest : server.requests[index]? =
      some { header := req, progress := .calling method argument }) :
    ReplyInvariant environment frames { server.setProgress index (.returned errmsg reply) with
      written := server.written ++
        (answers environment req reply errmsg).map fun msg ↦ (index, msg) } := by
  refine ⟨fun other request frame hother hframe ↦ ?_, fun hheader hclosed ↦ ?_,
    fun written hwritten ↦ ?_⟩
  · obtain ⟨before, hbefore, rfl⟩ := getElem?_setProgress hother
    have haccounted := hinvariant.accounted other before frame hbefore hframe
    have hreplies := repliesTo_append server
      (server.setProgress index (.returned errmsg reply)).requests
        (answers environment req reply errmsg) index other
    by_cases heq : index = other
    · subst heq
      obtain rfl := Option.some.inj (hrequest.symm.trans hbefore)
      obtain ⟨hnone, hgood⟩ := haccounted
      rw [if_pos rfl]
      rw [if_pos rfl, hnone, List.nil_append] at hreplies
      exact ⟨hgood, hreplies⟩
    · rw [if_neg heq]
      rw [if_neg heq, List.append_nil] at hreplies
      unfold Accounted at haccounted ⊢
      split
      · rename_i hprogress
        rw [hprogress] at haccounted
        obtain ⟨hnone, hlast, hopen⟩ := haccounted
        refine ⟨hreplies.trans hnone, ?_, hopen⟩
        simpa [RpcServer.last, RpcServer.setProgress] using hlast
      · rename_i hprogress
        rw [hprogress] at haccounted
        exact ⟨hreplies.trans haccounted.1, haccounted.2⟩
      · rename_i hprogress
        rw [hprogress] at haccounted
        exact ⟨haccounted.1, hreplies.trans haccounted.2⟩
      · rename_i hprogress
        rw [hprogress] at haccounted
        exact ⟨hreplies.trans haccounted.1, haccounted.2⟩
  · obtain ⟨current, hcurrent, hreading⟩ := hinvariant.current hheader hclosed
    refine ⟨current, ?_, hreading⟩
    have hne : index ≠ server.last := by
      rintro rfl
      obtain rfl := Option.some.inj (hrequest.symm.trans hcurrent)
      cases hreading
    simp only [RpcServer.last, RpcServer.setProgress, List.length_modify,
      List.getElem?_modify] at hne hcurrent ⊢
    rw [hcurrent]
    simp [hne]
  · simp only [RpcServer.setProgress, List.length_modify]
    rcases List.mem_append.mp hwritten with hold | hnew
    · exact hinvariant.written written hold
    · obtain ⟨msg, -, rfl⟩ := List.mem_map.mp hnew
      obtain ⟨hlt, -⟩ := List.getElem?_eq_some_iff.mp hrequest
      exact hlt

/-- Every step keeps the requests accounted for. -/
theorem ReplyInvariant.moved (hinvariant : ReplyInvariant environment frames server)
    (hloop : LoopInvariant environment frames server)
    (hmoved : ServerMoved environment server action next) :
    ReplyInvariant environment frames next := by
  cases hmoved with
  | request hphase hdecode hfields => exact hinvariant.request hphase
  | close hphase hnone =>
    refine ⟨fun index request frame hrequest hframe ↦ ?_, fun _ hopen ↦ absurd rfl hopen,
      hinvariant.written⟩
    exact (hinvariant.accounted index request frame hrequest hframe).of_not_reading
      (hinvariant.not_reading hrequest hframe (Or.inl hphase)) rfl
  | @call req method argument payload hphase hpayload hparses =>
    apply hinvariant.advance
    · simp [hphase]
    · simp [hphase]
    · intro request frame hframe hnone
      obtain ⟨hroute, found, hfound, hfields⟩ := hloop.body req _ hphase
      obtain rfl := Option.some.inj (hframe.symm.trans hfound)
      exact ⟨hnone, (goodRequest_iff hfields).mpr ⟨payload, method, hpayload, hroute.symm, hparses⟩⟩
    · simp
  | @fail req method errmsg payload hphase hpayload hfails =>
    refine ⟨fun index request frame hrequest hframe ↦ ?_, fun _ _ ↦ ?_, hinvariant.written⟩
    · have haccounted := hinvariant.accounted index request frame hrequest hframe
      by_cases hreading : request.progress = .reading
      · simp only [Accounted, hreading] at haccounted ⊢
        exact ⟨haccounted.1, haccounted.2.1, by simp, by simp⟩
      · exact haccounted.of_not_reading hreading rfl
    · exact hinvariant.current (by simp [hphase]) (by simp [hphase])
  | @respond req errmsg hphase =>
    apply hinvariant.advance
    · simp [hphase]
    · simp [hphase]
    · intro request frame hframe hnone
      obtain ⟨found, hfound, hbad⟩ := hloop.responding req errmsg hphase
      obtain rfl := Option.some.inj (hframe.symm.trans hfound)
      exact ⟨hnone, hbad⟩
    · simp
  | finish hrequest => exact hinvariant.finish hrequest

theorem replyInvariant_of_run {actions : List (ServerAction Message)}
    (hstream : DecodesTo environment.unmarshal stream frames) (hframes : RequestsOnly frames)
    (hrun : (serverSystem environment stream).Run actions server) :
    ReplyInvariant environment frames server := by
  induction hrun with
  | start =>
    exact {
      accounted := fun index request frame hrequest ↦ by cases hrequest
      current := fun hheader ↦ absurd rfl hheader
      written := fun reply hreply ↦ by cases hreply }
  | step hrun _ hstep ih =>
    obtain ⟨-, hmoved | ⟨-, text, rfl⟩⟩ := server_cases hstep
    · exact ih.moved (loopInvariant_of_run hstream hframes hrun) hmoved
    · exact ⟨ih.accounted, ih.current, ih.written⟩

/-- A request that was answered was read, and its method has returned a reply that was sent. -/
theorem ReplyInvariant.of_answered (hinvariant : ReplyInvariant environment frames server)
    {frame msg : RpcMessage} (hframe : frames[index]? = some frame)
    (hreplies : server.repliesTo index = [msg]) :
    GoodRequest environment frame ∧ ∃ request errmsg reply,
      server.requests[index]? = some request ∧ request.progress = .returned errmsg reply ∧
        Sends environment request.header errmsg reply := by
  have hlt : index < server.requests.length := by
    have hmem : msg ∈ server.repliesTo index := by simp [hreplies]
    obtain ⟨⟨position, found⟩, hfound, -⟩ := List.mem_map.mp hmem
    obtain ⟨hwritten, hposition⟩ := List.mem_filter.mp hfound
    have hposition : position = index := by simpa using hposition
    exact hposition ▸ hinvariant.written _ hwritten
  have hrequest := List.getElem?_eq_getElem hlt
  have haccounted := hinvariant.accounted index _ frame hrequest hframe
  unfold Accounted at haccounted
  split at haccounted
  · rw [hreplies] at haccounted
    cases haccounted.1
  · rw [hreplies] at haccounted
    cases haccounted.1
  · rename_i errmsg reply hprogress
    obtain ⟨hgood, hanswers⟩ := haccounted
    refine ⟨hgood, _, errmsg, reply, hrequest, hprogress, ?_⟩
    rcases answers_cases environment (server.requests[index].header) errmsg reply with
      ⟨hsends, -⟩ | ⟨-, hnone⟩
    · exact hsends
    · rw [hreplies, hnone] at hanswers
      cases hanswers
  · rw [hreplies] at haccounted
    cases haccounted.1

/-- A reply that is sent is the right answer to its request. -/
theorem rightAnswer_of_sends {request : ReadRequest Method Message} {frame : RpcMessage}
    {payload : Option Bytes} (hrequest : server.requests[index]? = some request)
    (hfields : requestFields frame = some (request.header, payload))
    (hprogress : request.progress = .returned errmsg reply)
    (hsends : Sends environment request.header errmsg reply) (bytes : Bytes) :
    RightAnswer server index frame
      { type := some .response, id := some request.header.seq, response := some bytes } := by
  obtain ⟨-, -, -, -, hid, -, -⟩ := requestFields_eq_some hfields
  refine ⟨?_, fun _ ↦ rfl, fun hfailed ↦ ?_⟩
  · simp only [RpcMessage.getId, hid, Option.getD_some]
  · rw [hsends.1] at hprogress
    exact absurd ⟨request, reply, hrequest, hprogress⟩ hfailed

/-- A header that has arrived is read, whatever comes of it. -/
theorem header_step (hnone : server.panicked = none) (hphase : server.phase = .header)
    {msg : RpcMessage} {rest : Stream}
    (hdecode : decode environment.unmarshal server.codec.stream = .message msg rest) :
    serverStep environment server .header ≠ none := by
  have hread : readRequestHeader environment.unmarshal server.codec ≠ .blocked := by
    simp only [readRequestHeader, readHeader, hdecode]
    split_ifs
    · simp
    · cases msg.type with
      | none => simp
      | some type =>
        simp only
        split_ifs
        · simp
        · cases requestFields msg with
          | none => simp
          | some found => simp
  cases hresult : readRequestHeader environment.unmarshal server.codec with
  | blocked => exact absurd hresult hread
  | _ => simp [serverStep, hnone, hphase, hresult]

/-- When nothing more happens on a server that has not panicked, every frame was read. -/
theorem LoopInvariant.all_read (hinvariant : LoopInvariant environment frames server)
    (hnone : server.panicked = none) (hsettled : Settled environment server) :
    frames.length ≤ server.requests.length ∧ (server.phase = .header ∨ server.phase = .closed) := by
  cases hphase : server.phase with
  | closed => exact ⟨hinvariant.exhausted hphase, Or.inr rfl⟩
  | header =>
    refine ⟨?_, Or.inl rfl⟩
    refine hinvariant.frames_read hphase fun msg _ rest hdecode ↦ ?_
    exact absurd (hsettled .header) (header_step hnone hphase hdecode)
  | body req method =>
    have hstuck := hsettled .body
    cases hpayload : server.codec.payload with
    | some payload =>
      obtain ⟨next, hnext, -⟩ := body_step environment hnone hphase hpayload
      rw [hstuck] at hnext
      cases hnext
    | none =>
      cases method with
      | error errmsg =>
        simp [serverStep, hnone, hphase, discardBody, readRequestBody,
          readBody_of_none hpayload] at hstuck
      | ok procedure =>
        simp [serverStep, hnone, hphase, readArgument, readRequestBody,
          readBody_of_none hpayload] at hstuck
  | responding req errmsg =>
    obtain ⟨next, hnext, -⟩ := respond_step environment hnone hphase
    rw [hsettled .respond] at hnext
    cases hnext

/-- When nothing more happens on a server that has not panicked, no method is running. -/
theorem Settled.not_calling (hsettled : Settled environment server)
    (hnone : server.panicked = none) {request : ReadRequest Method Message}
    (hrequest : server.requests[index]? = some request) (method : Method) (argument : Message) :
    request.progress ≠ .calling method argument := by
  intro hcalling
  obtain ⟨header, progress⟩ := request
  have hcalling : progress = .calling method argument := hcalling
  subst hcalling
  have hfinish := hsettled (.finish index "" none)
  simp [serverStep, hnone, hrequest] at hfinish

/-- Once nothing more happens, every request has exactly one answer and the right one if and only if
every request is good, and every method has returned a reply that can be sent. -/
theorem allAnswered_iff {actions : List (ServerAction Message)}
    (hstream : DecodesTo environment.unmarshal stream frames) (hframes : RequestsOnly frames)
    (hrun : (serverSystem environment stream).Run actions server)
    (hsettled : Settled environment server) :
    AllAnswered frames server ↔
      (∀ frame ∈ frames, GoodRequest environment frame) ∧
        ∀ request ∈ server.requests, ∀ errmsg reply,
          request.progress = .returned errmsg reply →
            Sends environment request.header errmsg reply := by
  have hloop := loopInvariant_of_run hstream hframes hrun
  have hreplies := replyInvariant_of_run hstream hframes hrun
  constructor
  · intro hall
    refine ⟨fun frame hframe ↦ ?_, fun request hrequest errmsg reply hprogress ↦ ?_⟩
    · obtain ⟨index, hindex⟩ := List.getElem?_of_mem hframe
      obtain ⟨msg, hmsg, -⟩ := hall index frame hindex
      exact (hreplies.of_answered hindex hmsg).1
    · obtain ⟨index, hindex⟩ := List.getElem?_of_mem hrequest
      obtain ⟨frame, hframe, -⟩ := hloop.headers index request hindex
      obtain ⟨msg, hmsg, -⟩ := hall index frame hframe
      obtain ⟨-, found, other, value, hfound, hother, hsends⟩ := hreplies.of_answered hframe hmsg
      obtain rfl := Option.some.inj (hindex.symm.trans hfound)
      obtain ⟨rfl, rfl⟩ := RequestProgress.returned.inj (hprogress.symm.trans hother)
      exact hsends
  · rintro ⟨hgood, hsends⟩ index frame hframe
    have hnone := (hloop.codecSafe hgood).noPanic
    obtain ⟨hlength, hphase⟩ := hloop.all_read hnone hsettled
    have hlt : index < server.requests.length := by
      obtain ⟨hindex, -⟩ := List.getElem?_eq_some_iff.mp hframe
      exact Nat.lt_of_lt_of_le hindex hlength
    have hrequest := List.getElem?_eq_getElem hlt
    have hmem : server.requests[index] ∈ server.requests := List.getElem_mem hlt
    have haccounted := hreplies.accounted index _ frame hrequest hframe
    unfold Accounted at haccounted
    split at haccounted
    · rcases hphase with hheader | hclosed
      · exact absurd hheader haccounted.2.2.1
      · exact absurd hclosed haccounted.2.2.2
    · rename_i method argument hprogress
      exact absurd hprogress (hsettled.not_calling hnone hrequest method argument)
    · rename_i errmsg reply hprogress
      have hsent := hsends _ hmem errmsg reply hprogress
      rcases answers_cases environment (server.requests[index].header) errmsg reply with
        ⟨-, bytes, hanswers⟩ | ⟨hfailed, -⟩
      · obtain ⟨found, hfound, hfields⟩ := hloop.headers index _ hrequest
        obtain rfl := Option.some.inj (hframe.symm.trans hfound)
        exact ⟨_, haccounted.2.trans hanswers,
          rightAnswer_of_sends hrequest hfields hprogress hsent bytes⟩
      · exact absurd hsent hfailed
    · exact absurd (hgood frame (List.mem_of_getElem? hframe)) haccounted.2

end Replies

/-! ### A method that succeeds, and one that fails -/

/-- The server reads the request, starts its method, and meets the end of the connection; then the
method returns. -/
def returns (errmsg : String) (reply : Option UInt8) : List (ServerAction UInt8) :=
  [.header, .body, .header, .finish 0 errmsg reply]

/-- The server when the method has returned. -/
def afterReturn (errmsg : String) (reply : Option UInt8) (written : List (ℕ × RpcMessage)) :
    RpcServer Unit UInt8 where
  codec := { stream := { available := [], ended := true }, payload := none }
  phase := .closed
  requests := [{
    header := { serviceMethod := "Arith.Add", seq := 0 }
    progress := .returned errmsg reply }]
  panicked := none
  written := written

theorem settled_afterReturn {errmsg : String} {reply : Option UInt8}
    {written : List (ℕ × RpcMessage)} :
    Settled (oneService "Arith") (afterReturn errmsg reply written) := by
  intro action
  cases action with
  | finish index =>
    cases index with
    | zero => rfl
    | succ index => rfl
  | _ => rfl

/-- A method that returns a reply. -/
theorem allAnswered_oneRequest :
    (serverSystem (oneService "Arith") oneRequest).Run (returns "" (some 9))
      (afterReturn "" (some 9)
        [(0, { type := some .response, id := some 0, response := some [0x08, 9] })]) ∧
    AllAnswered [addRequest] (afterReturn "" (some 9)
      [(0, { type := some .response, id := some 0, response := some [0x08, 9] })]) := by
  have hrun : (serverSystem (oneService "Arith") oneRequest).Run (returns "" (some 9))
      (afterReturn "" (some 9)
        [(0, { type := some .response, id := some 0, response := some [0x08, 9] })]) :=
    .of_execute rfl
  refine ⟨hrun, (allAnswered_iff (decodesTo_oneRequest "Arith") requestsOnly_addRequest hrun
    settled_afterReturn).mpr ?_⟩
  refine ⟨goodRequest_addRequest, fun request hrequest errmsg reply hprogress ↦ ?_⟩
  rw [List.mem_singleton.mp hrequest] at hprogress ⊢
  obtain ⟨rfl, rfl⟩ := RequestProgress.returned.inj hprogress
  exact ⟨rfl, 9, _, _, rfl, rfl, rfl⟩

/-- Nothing is written for a method that returns an error. -/
theorem not_allAnswered_of_error :
    ¬ ∀ (frames : List RpcMessage) (stream : Stream) (actions : List (ServerAction UInt8))
      (server : RpcServer Unit UInt8), DecodesTo (oneService "Arith").unmarshal stream frames →
        RequestsOnly frames → (serverSystem (oneService "Arith") stream).Run actions server →
          Settled (oneService "Arith") server → AllAnswered frames server := by
  intro hall
  have hrun : (serverSystem (oneService "Arith") oneRequest).Run
      (returns "divide by zero" (some 0)) (afterReturn "divide by zero" (some 0) []) :=
    .of_execute rfl
  have hanswered := hall [addRequest] oneRequest _ _ (decodesTo_oneRequest "Arith")
    requestsOnly_addRequest hrun settled_afterReturn
  obtain ⟨reply, hreplies, -⟩ := hanswered 0 addRequest rfl
  cases hreplies

end MuduoProtorpc.GoRpc
