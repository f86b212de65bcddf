import MuduoProtorpc.GoRpc.ServerCodec

/-!
# When a Go server does not panic

`LoopInvariant` relates the loop of a server to the frames on its connection: which of them it has
read, and which one is in its hand. From it, a server that has panicked, or is about to, has met a
request that is not good. The other way round, a server that meets such a request panics
(`good_of_codecSafe`): the slot is empty when the body is read, or full when the next header is.
-/

set_option autoImplicit false
set_option relaxedAutoImplicit false

namespace MuduoProtorpc.GoRpc

open Foundation

variable {Method Message : Type}

/-! ### The frames and the loop -/

/-- The frames are REQUESTs with their required fields. -/
def RequestsOnly (frames : List RpcMessage) : Prop :=
  ∀ frame ∈ frames, frame.isInitialized = true ∧ frame.getType = .request

/-- The loop and the frames on its connection. -/
structure LoopInvariant (environment : ServerEnvironment Method Message)
    (frames : List RpcMessage) (server : RpcServer Method Message) : Prop where
  unread : server.phase ≠ .closed →
    DecodesTo environment.unmarshal server.codec.stream (frames.drop server.requests.length)
  exhausted : server.phase = .closed → frames.length ≤ server.requests.length
  headers : ∀ (index : ℕ) (request : ReadRequest Method Message),
    server.requests[index]? = some request → ∃ frame, frames[index]? = some frame ∧
      requestFields frame = some (request.header, frame.request)
  header : server.phase = .header → server.codec.payload = none ∨
    ∃ frame ∈ frames, ¬ GoodRequest environment frame
  body : ∀ req method, server.phase = .body req method →
    method = route environment.services req.serviceMethod ∧
      ∃ frame, frames[server.last]? = some frame ∧
        requestFields frame = some (req, server.codec.payload)
  responding : ∀ req errmsg, server.phase = .responding req errmsg →
    ∃ frame, frames[server.last]? = some frame ∧ ¬ GoodRequest environment frame
  panicked : server.panicked ≠ none → ∃ frame ∈ frames, ¬ GoodRequest environment frame

section Loop

variable {environment : ServerEnvironment Method Message} {frames : List RpcMessage}
  {server next : RpcServer Method Message} {action : ServerAction Message} {stream : Stream}
  {msg : RpcMessage} {req : RequestHeader} {payload : Option Bytes}

/-- The header of a request, and the payload that it leaves. -/
theorem requestFields_eq_some (hfields : requestFields msg = some (req, payload)) :
    ∃ service method, msg.service = some service ∧ msg.method = some method ∧
      msg.id = some req.seq ∧ req.serviceMethod = service ++ "." ++ method ∧
        payload = msg.request := by
  unfold requestFields at hfields
  split at hfields
  · rename_i service method id hservice hmethod hid
    obtain ⟨rfl, rfl⟩ := Prod.mk.inj (Option.some.inj hfields)
    exact ⟨service, method, hservice, hmethod, hid, rfl, rfl⟩
  · cases hfields

/-- Whether a request whose header can be read is good depends on its header and payload. -/
theorem goodRequest_iff (hfields : requestFields msg = some (req, payload)) :
    GoodRequest environment msg ↔ ∃ bytes procedure, payload = some bytes ∧
      route environment.services req.serviceMethod = .ok procedure ∧
        Parses (environment.services.argument procedure) bytes := by
  obtain ⟨service, method, hservice, hmethod, -, hname, rfl⟩ := requestFields_eq_some hfields
  constructor
  · rintro ⟨otherService, otherMethod, bytes, procedure, hother, hotherMethod, hpayload, hroute,
      hparses⟩
    obtain rfl := Option.some.inj (hservice.symm.trans hother)
    obtain rfl := Option.some.inj (hmethod.symm.trans hotherMethod)
    exact ⟨bytes, procedure, hpayload, by rw [hname]; exact hroute, hparses⟩
  · rintro ⟨bytes, procedure, hpayload, hroute, hparses⟩
    rw [hname] at hroute
    exact ⟨service, method, bytes, procedure, hservice, hmethod, hpayload, hroute, hparses⟩

/-- A good request has the fields that its header needs. -/
theorem GoodRequest.fields (hgood : GoodRequest environment msg)
    (hinitialized : msg.isInitialized = true) : requestFields msg ≠ none := by
  obtain ⟨service, method, bytes, procedure, hservice, hmethod, -⟩ := hgood
  simp only [RpcMessage.isInitialized, Bool.and_eq_true, Option.isSome_iff_exists] at hinitialized
  obtain ⟨-, id, hid⟩ := hinitialized
  simp [requestFields, hservice, hmethod, hid]

/-- A REQUEST has the type that its header should have. -/
theorem type_eq_request (hrequest : msg.isInitialized = true ∧ msg.getType = .request) :
    msg.type = some .request := by
  obtain ⟨hinitialized, htype⟩ := hrequest
  simp only [RpcMessage.isInitialized, Bool.and_eq_true, Option.isSome_iff_exists] at hinitialized
  obtain ⟨⟨type, hsome⟩, -⟩ := hinitialized
  simp only [RpcMessage.getType, hsome, Option.getD_some] at htype
  rw [hsome, htype]

/-- The frame that a stream starts with is the first of its frames. -/
theorem DecodesTo.of_message {unmarshal : Bytes → RpcMessage × Option String} {rest : Stream}
    (hstream : DecodesTo unmarshal stream frames)
    (hdecode : decode unmarshal stream = .message msg rest) :
    ∃ messages, frames = msg :: messages ∧ DecodesTo unmarshal rest messages := by
  cases hstream with
  | ended hfailed =>
    rw [hdecode] at hfailed
    cases hfailed
  | waiting hblocked =>
    rw [hdecode] at hblocked
    cases hblocked
  | @frame _ other found messages hfound hrest =>
    obtain ⟨rfl, rfl⟩ := Decoded.message.inj (hdecode.symm.trans hfound)
    exact ⟨messages, rfl, hrest⟩

/-- The frame that is read next. -/
theorem LoopInvariant.next_frame (hinvariant : LoopInvariant environment frames server)
    (hphase : server.phase = .header) {rest : Stream}
    (hdecode : decode environment.unmarshal server.codec.stream = .message msg rest) :
    frames[server.requests.length]? = some msg ∧
      DecodesTo environment.unmarshal rest (frames.drop (server.requests.length + 1)) := by
  obtain ⟨messages, hdrop, hrest⟩ := (hinvariant.unread (by simp [hphase])).of_message hdecode
  constructor
  · rw [← List.head?_drop, hdrop]
    rfl
  · rw [← List.tail_drop, hdrop]
    exact hrest

/-- Every frame was read where the loop meets no further one. -/
theorem LoopInvariant.frames_read (hinvariant : LoopInvariant environment frames server)
    (hphase : server.phase = .header)
    (hlast : ∀ msg ∈ frames, ∀ rest,
      decode environment.unmarshal server.codec.stream ≠ .message msg rest) :
    frames.length ≤ server.requests.length := by
  cases hdrop : frames.drop server.requests.length with
  | nil => exact List.drop_eq_nil_iff.mp hdrop
  | cons msg messages =>
    have hstream := hinvariant.unread (by simp [hphase])
    rw [hdrop] at hstream
    cases hstream with
    | frame hdecode hrest =>
      have hmem : msg ∈ frames := List.mem_of_mem_drop (hdrop ▸ List.mem_cons_self)
      exact absurd hdecode (hlast msg hmem _)

@[simp] theorem last_setProgress (index : ℕ) (progress : RequestProgress Method Message) :
    (server.setProgress index progress).last = server.last := by
  simp [RpcServer.last, RpcServer.setProgress]

/-- The request at a position after a request has gone further. -/
theorem getElem?_setProgress {index other : ℕ} {progress : RequestProgress Method Message}
    {request : ReadRequest Method Message}
    (hrequest : (server.setProgress index progress).requests[other]? = some request) :
    ∃ before, server.requests[other]? = some before ∧ request =
      if index = other then { before with progress := progress } else before := by
  simp only [RpcServer.setProgress, List.getElem?_modify] at hrequest
  obtain ⟨before, hbefore, rfl⟩ := Option.map_eq_some_iff.mp hrequest
  exact ⟨before, hbefore, rfl⟩

/-- A request that goes further keeps its header. -/
theorem LoopInvariant.headers_setProgress (hinvariant : LoopInvariant environment frames server)
    {index other : ℕ} {progress : RequestProgress Method Message}
    {request : ReadRequest Method Message}
    (hrequest : (server.setProgress index progress).requests[other]? = some request) :
    ∃ frame, frames[other]? = some frame ∧
      requestFields frame = some (request.header, frame.request) := by
  obtain ⟨before, hbefore, rfl⟩ := getElem?_setProgress hrequest
  obtain ⟨frame, hframe, hfields⟩ := hinvariant.headers other before hbefore
  refine ⟨frame, hframe, ?_⟩
  split_ifs <;> exact hfields

/-- A header that is read is that of the next frame. -/
theorem LoopInvariant.request (hinvariant : LoopInvariant environment frames server)
    (hphase : server.phase = .header) {rest : Stream}
    (hdecode : decode environment.unmarshal server.codec.stream = .message msg rest)
    (hfields : requestFields msg = some (req, payload)) :
    LoopInvariant environment frames { server with
      codec := { stream := rest, payload := payload }
      requests := server.requests ++ [{ header := req, progress := .reading }]
      phase := .body req (route environment.services req.serviceMethod) } := by
  obtain ⟨hframe, hrest⟩ := hinvariant.next_frame hphase hdecode
  obtain ⟨-, -, -, -, -, -, rfl⟩ := requestFields_eq_some hfields
  refine {
    unread := fun _ ↦ by simpa using hrest
    exhausted := fun hclosed ↦ by cases hclosed
    headers := fun index request hrequest ↦ ?_
    header := fun hheader ↦ by cases hheader
    body := fun other method hbody ↦ ?_
    responding := fun other errmsg hresponding ↦ by cases hresponding
    panicked := hinvariant.panicked }
  · rcases getElem?_append_singleton_eq_some hrequest with hold | ⟨rfl, rfl⟩
    · exact hinvariant.headers index request hold
    · exact ⟨msg, hframe, hfields⟩
  · obtain ⟨rfl, rfl⟩ := ServePhase.body.inj hbody
    refine ⟨rfl, msg, ?_, hfields⟩
    simpa [RpcServer.last] using hframe

/-- Every step keeps the loop and the frames related. -/
theorem LoopInvariant.moved (hinvariant : LoopInvariant environment frames server)
    (hframes : RequestsOnly frames)
    (hmoved : ServerMoved environment server action next) :
    LoopInvariant environment frames next := by
  cases hmoved with
  | request hphase hdecode hfields => exact hinvariant.request hphase hdecode hfields
  | @close codec hphase hnone =>
    have hexhausted : frames.length ≤ server.requests.length := by
      refine hinvariant.frames_read hphase fun msg hmem rest hdecode ↦ ?_
      exact absurd (type_eq_request (hframes msg hmem)) (hnone msg rest hdecode)
    exact {
      unread := fun hopen ↦ absurd rfl hopen
      exhausted := fun _ ↦ hexhausted
      headers := hinvariant.headers
      header := fun hheader ↦ by cases hheader
      body := fun other method hbody ↦ by cases hbody
      responding := fun other errmsg hresponding ↦ by cases hresponding
      panicked := hinvariant.panicked }
  | @call req method argument payload hphase hpayload hparses =>
    exact {
      unread := fun _ ↦ by
        simpa [RpcServer.setProgress] using hinvariant.unread (by simp [hphase])
      exhausted := fun hclosed ↦ by cases hclosed
      headers := fun index request hrequest ↦ hinvariant.headers_setProgress hrequest
      header := fun _ ↦ Or.inl rfl
      body := fun other method hbody ↦ by cases hbody
      responding := fun other errmsg hresponding ↦ by cases hresponding
      panicked := hinvariant.panicked }
  | @fail req method errmsg payload hphase hpayload hfails =>
    obtain ⟨hroute, frame, hframe, hfields⟩ := hinvariant.body req method hphase
    have hbad : ¬ GoodRequest environment frame := by
      rw [goodRequest_iff hfields, hpayload, ← hroute]
      rintro ⟨bytes, procedure, hbytes, hprocedure, hparses⟩
      obtain rfl := Option.some.inj hbytes
      exact hfails procedure hprocedure hparses
    exact {
      unread := fun _ ↦ hinvariant.unread (by simp [hphase])
      exhausted := fun hclosed ↦ by cases hclosed
      headers := hinvariant.headers
      header := fun hheader ↦ by cases hheader
      body := fun other method hbody ↦ by cases hbody
      responding := fun other errmsg hresponding ↦ ⟨frame, hframe, hbad⟩
      panicked := hinvariant.panicked }
  | @respond req errmsg hphase =>
    obtain ⟨frame, hframe, hbad⟩ := hinvariant.responding req errmsg hphase
    exact {
      unread := fun _ ↦ by
        simpa [RpcServer.setProgress] using hinvariant.unread (by simp [hphase])
      exhausted := fun hclosed ↦ by cases hclosed
      headers := fun index request hrequest ↦ hinvariant.headers_setProgress hrequest
      header := fun _ ↦ Or.inr ⟨frame, List.mem_of_getElem? hframe, hbad⟩
      body := fun other method hbody ↦ by cases hbody
      responding := fun other errmsg hresponding ↦ by cases hresponding
      panicked := hinvariant.panicked }
  | @finish index errmsg reply req method argument hrequest =>
    exact {
      unread := fun hopen ↦ by simpa [RpcServer.setProgress] using hinvariant.unread hopen
      exhausted := fun hclosed ↦ by
        simpa [RpcServer.setProgress] using hinvariant.exhausted hclosed
      headers := fun other request hother ↦ hinvariant.headers_setProgress hother
      header := hinvariant.header
      body := fun other method hbody ↦ by
        simpa [RpcServer.last, RpcServer.setProgress] using hinvariant.body other method hbody
      responding := fun other errmsg hresponding ↦ by
        simpa [RpcServer.last, RpcServer.setProgress] using
          hinvariant.responding other errmsg hresponding
      panicked := hinvariant.panicked }

/-- A server that panics has met a request that is not good. -/
theorem LoopInvariant.panics (hinvariant : LoopInvariant environment frames server)
    (hframes : RequestsOnly frames) (hpanics : ServerPanics environment server) :
    ∃ frame ∈ frames, ¬ GoodRequest environment frame := by
  cases hpanics with
  | payloadLeft hphase hpayload => exact (hinvariant.header hphase).resolve_left hpayload
  | @fieldMissing msg rest hphase hdecode hmissing =>
    obtain ⟨hframe, -⟩ := hinvariant.next_frame hphase hdecode
    have hmem := List.mem_of_getElem? hframe
    refine ⟨msg, hmem, fun hgood ↦ ?_⟩
    rcases hmissing with htype | hnone
    · rw [type_eq_request (hframes msg hmem)] at htype
      cases htype
    · exact hgood.fields (hframes msg hmem).1 hnone
  | @payloadMissing req method hphase hpayload =>
    obtain ⟨-, frame, hframe, hfields⟩ := hinvariant.body req method hphase
    refine ⟨frame, List.mem_of_getElem? hframe, fun hgood ↦ ?_⟩
    obtain ⟨bytes, -, hbytes, -⟩ := (goodRequest_iff hfields).mp hgood
    rw [hpayload] at hbytes
    cases hbytes

/-- The invariant holds in every run on a sequence of REQUESTs. -/
theorem loopInvariant_of_run {actions : List (ServerAction Message)}
    (hstream : DecodesTo environment.unmarshal stream frames) (hframes : RequestsOnly frames)
    (hrun : (serverSystem environment stream).Run actions server) :
    LoopInvariant environment frames server := by
  refine hrun.invariant ?_ fun state action next _ hstep hbefore ↦ ?_
  · exact {
      unread := fun _ ↦ hstream
      exhausted := fun hclosed ↦ by cases hclosed
      headers := fun index request hrequest ↦ by cases hrequest
      header := fun _ ↦ Or.inl rfl
      body := fun req method hbody ↦ by cases hbody
      responding := fun req errmsg hresponding ↦ by cases hresponding
      panicked := fun hpanicked ↦ absurd rfl hpanicked }
  · obtain ⟨-, hmoved | ⟨hpanics, text, rfl⟩⟩ := server_cases hstep
    · exact hbefore.moved hframes hmoved
    · exact { hbefore with panicked := fun _ ↦ hbefore.panics hframes hpanics }

/-- While every request is good, the codec is safe. -/
theorem LoopInvariant.codecSafe (hinvariant : LoopInvariant environment frames server)
    (hgood : ∀ frame ∈ frames, GoodRequest environment frame) : CodecSafe server := by
  have hnone : ¬ ∃ frame ∈ frames, ¬ GoodRequest environment frame := by
    rintro ⟨frame, hframe, hbad⟩
    exact hbad (hgood frame hframe)
  refine ⟨?_, fun hphase ↦ (hinvariant.header hphase).resolve_right hnone,
    fun req method hphase ↦ ?_⟩
  · by_contra hpanicked
    exact hnone (hinvariant.panicked hpanicked)
  · obtain ⟨-, frame, hframe, hfields⟩ := hinvariant.body req method hphase
    obtain ⟨bytes, -, hbytes, -⟩ :=
      (goodRequest_iff hfields).mp (hgood frame (List.mem_of_getElem? hframe))
    rw [hbytes]
    simp

/-! ### A request that is not good -/

/-- A server in front of a header, with the payload slot empty. -/
structure AtHeader (server : RpcServer Method Message) : Prop where
  noPanic : server.panicked = none
  phase : server.phase = .header
  payload : server.codec.payload = none

/-- A header is read if its fields are all there; if one is missing, the codec panics. -/
theorem AtHeader.header_step (hheader : AtHeader server) {rest : Stream}
    (hdecode : decode environment.unmarshal server.codec.stream = .message msg rest)
    (htype : msg.type = some .request) :
    serverStep environment server .header = some (match requestFields msg with
      | some (req, payload) => { server with
          codec := { stream := rest, payload := payload }
          requests := server.requests ++ [{ header := req, progress := .reading }]
          phase := .body req (route environment.services req.serviceMethod) }
      | none => { server with panicked := some nilDereference }) := by
  have hread : readHeader environment.unmarshal .request requestFields server.codec = _ :=
    readHeader_of_message hheader.payload hdecode htype
  simp only [serverStep, hheader.noPanic, hheader.phase, readRequestHeader, hread]
  cases requestFields msg <;> rfl

theorem AtHeader.read (hheader : AtHeader server) {rest : Stream}
    (hdecode : decode environment.unmarshal server.codec.stream = .message msg rest)
    (htype : msg.type = some .request) (hfields : requestFields msg = some (req, payload)) :
    serverStep environment server .header = some { server with
      codec := { stream := rest, payload := payload }
      requests := server.requests ++ [{ header := req, progress := .reading }]
      phase := .body req (route environment.services req.serviceMethod) } := by
  rw [hheader.header_step hdecode htype, hfields]

theorem AtHeader.read_missing (hheader : AtHeader server) {rest : Stream}
    (hdecode : decode environment.unmarshal server.codec.stream = .message msg rest)
    (htype : msg.type = some .request) (hfields : requestFields msg = none) :
    serverStep environment server .header =
      some { server with panicked := some nilDereference } := by
  rw [hheader.header_step hdecode htype, hfields]

variable (environment) in
/-- A body is read, into the argument of its method if it parses; if it is not, the payload stays in
the slot. -/
theorem body_step {method : Except String Method} {bytes : Bytes}
    (hnone : server.panicked = none) (hphase : server.phase = .body req method)
    (hpayload : server.codec.payload = some bytes) :
    ∃ next, serverStep environment server .body = some next ∧
      next.panicked = none ∧ next.codec.stream = server.codec.stream ∧
        ((∃ procedure, method = .ok procedure ∧
            Parses (environment.services.argument procedure) bytes ∧ AtHeader next) ∨
          ∃ errmsg, next.phase = .responding req errmsg ∧ next.codec.payload = some bytes) := by
  cases method with
  | error errmsg =>
    refine ⟨{ server with phase := .responding req errmsg }, ?_, hnone, rfl,
      Or.inr ⟨errmsg, rfl, hpayload⟩⟩
    simp [serverStep, hnone, hphase, discardBody, readRequestBody, readBody, hpayload]
  | ok procedure =>
    rcases readBody_cases hpayload (environment.services.argument procedure) with
      ⟨hparses, argument, hread⟩ | ⟨hfails, text, hread⟩
    · refine ⟨{ server.setProgress server.last (.calling procedure argument) with
          codec := { server.codec with payload := none }
          phase := .header }, ?_, hnone, rfl, Or.inl ⟨procedure, rfl, hparses, hnone, rfl, rfl⟩⟩
      simp [serverStep, hnone, hphase, readArgument, readRequestBody, hread]
    · refine ⟨{ server with phase := .responding req text }, ?_, hnone, rfl,
        Or.inr ⟨text, rfl, hpayload⟩⟩
      simp [serverStep, hnone, hphase, readArgument, readRequestBody, hread]

variable (environment) in
/-- Where the loop answers with an error, it goes on to the next header. -/
theorem respond_step {errmsg : String} (hnone : server.panicked = none)
    (hphase : server.phase = .responding req errmsg) :
    ∃ next, serverStep environment server .respond = some next ∧ next.phase = .header ∧
      next.codec = server.codec := by
  refine ⟨{ server.setProgress server.last (.refused errmsg) with phase := .header }, ?_, rfl, rfl⟩
  simp [serverStep, hnone, hphase, sendResponse_none]

/-- A run of a server, and a step more. -/
theorem run_step {whole : Stream} {actions : List (ServerAction Message)}
    (hrun : (serverSystem environment whole).Run actions server)
    (hstep : serverStep environment server action = some next) :
    (serverSystem environment whole).Run (actions ++ [action]) next :=
  .step hrun trivial hstep

/-- A server that is always safe meets no request that is not good. -/
theorem good_of_codecSafe {whole : Stream} {actions : List (ServerAction Message)}
    (hsafe : ∀ more later, (serverSystem environment whole).Run more later → CodecSafe later)
    (hstream : DecodesTo environment.unmarshal stream frames) (hframes : RequestsOnly frames)
    (hrun : (serverSystem environment whole).Run actions server)
    (hheader : AtHeader server) (hsame : server.codec.stream = stream) :
    ∀ frame ∈ frames, GoodRequest environment frame := by
  induction hstream generalizing server actions with
  | ended hfailed => simp
  | waiting hblocked => simp
  | @frame stream rest msg messages hdecode hrest ih =>
    subst hsame
    have htype := type_eq_request (hframes msg List.mem_cons_self)
    -- the header: its fields are there, or reading it panics
    cases hfields : requestFields msg with
    | none =>
      have hmissing := run_step hrun (hheader.read_missing hdecode htype hfields)
      cases (hsafe _ _ hmissing).noPanic
    | some found =>
      obtain ⟨req, payload⟩ := found
      have hread := run_step hrun (hheader.read hdecode htype hfields)
      -- the body: the payload is there, or reading the body panics
      obtain ⟨bytes, rfl⟩ : ∃ bytes, payload = some bytes :=
        Option.ne_none_iff_exists'.mp ((hsafe _ _ hread).body req _ rfl)
      let read : RpcServer Method Message := { server with
        codec := { stream := rest, payload := some bytes }
        requests := server.requests ++ [{ header := req, progress := .reading }]
        phase := .body req (route environment.services req.serviceMethod) }
      have hnone : read.panicked = none := hheader.noPanic
      have hphase : read.phase = .body req (route environment.services req.serviceMethod) := rfl
      obtain ⟨next, hbody, hnextNone, hrest, ⟨procedure, hroute, hparses, hnext⟩ |
          ⟨errmsg, hresponding, hpayload⟩⟩ := body_step environment hnone hphase rfl
      · have hgood : GoodRequest environment msg :=
          (goodRequest_iff hfields).mpr ⟨bytes, procedure, rfl, hroute, hparses⟩
        intro frame hframe
        rcases List.mem_cons.mp hframe with rfl | hlater
        · exact hgood
        · exact ih (fun other hother ↦ hframes other (List.mem_cons_of_mem _ hother))
            (run_step hread hbody) hnext hrest frame hlater
      · -- the payload is still in the slot when the next header is read
        obtain ⟨last, hrespond, hphase, hcodec⟩ :=
          respond_step environment hnextNone hresponding
        have hlast := (hsafe _ _ (run_step (run_step hread hbody) hrespond)).header hphase
        rw [hcodec, hpayload] at hlast
        cases hlast

/-- On a sequence of REQUESTs the codec never panics if and only if every request is good. -/
theorem codecSafe_iff (hstream : DecodesTo environment.unmarshal stream frames)
    (hframes : RequestsOnly frames) :
    (∀ actions server, (serverSystem environment stream).Run actions server →
        CodecSafe server) ↔ ∀ frame ∈ frames, GoodRequest environment frame := by
  constructor
  · intro hsafe
    exact good_of_codecSafe hsafe hstream hframes .start ⟨rfl, rfl, rfl⟩ rfl
  · intro hgood actions server hrun
    exact (loopInvariant_of_run hstream hframes hrun).codecSafe hgood

end Loop

/-! ### A good request, and one to a service that does not exist -/

/-- The serialized form of a request. -/
def addBody : Bytes :=
  [0x08, 0x01, 0x11, 0, 0, 0, 0, 0, 0, 0, 0, 0x1a, 5, 0x41, 0x72, 0x69, 0x74, 0x68,
    0x22, 3, 0x41, 0x64, 0x64, 0x2a, 2, 0x08, 7]

/-- The request. -/
def addRequest : RpcMessage where
  type := some .request
  id := some 0
  service := some "Arith"
  method := some "Add"
  request := some [0x08, 7]

/-- A server with the one service given, whose one method takes and returns a small number. -/
def oneService (name : String) : ServerEnvironment Unit UInt8 where
  services := {
    serviceMap := fun service ↦
      if service = name then some fun method ↦ if method = "Add" then some () else none else none
    argument := fun _ ↦ some fun bytes ↦
      match bytes with
      | [0x08, number] => (number, none)
      | _ => (0, some "unexpected EOF") }
  unmarshal := fun bytes ↦
    if bytes = addBody then (addRequest, none) else ({}, some "unexpected EOF")
  marshal := fun number ↦ .ok [0x08, number]
  marshalMessage := fun msg ↦
    .ok ([0x08, 0x02, 0x11] ++
      (List.range 8).map (fun position ↦ UInt8.ofNat (msg.getId.toNat / 256 ^ position)) ++
        [0x32, UInt8.ofNat msg.getResponse.length] ++ msg.getResponse)

/-- A connection on which the request arrives, and then its end. -/
def oneRequest : Stream where
  available := frameOf addBody
  ended := true

theorem decodesTo_oneRequest (name : String) :
    DecodesTo (oneService name).unmarshal oneRequest [addRequest] := by
  have hunmarshal : (oneService name).unmarshal addBody = (addRequest, none) := by
    simp [oneService]
  have hdecode : decode (oneService name).unmarshal oneRequest =
      .message addRequest { available := [], ended := true } := by
    simpa [oneRequest] using decode_frameOf (by decide) hunmarshal [] true
  exact .frame hdecode (.ended rfl)

theorem requestsOnly_addRequest : RequestsOnly [addRequest] := by
  intro frame hframe
  rw [List.mem_singleton.mp hframe]
  exact ⟨rfl, rfl⟩

theorem goodRequest_addRequest :
    ∀ frame ∈ [addRequest], GoodRequest (oneService "Arith") frame := by
  intro frame hframe
  rw [List.mem_singleton.mp hframe]
  exact ⟨"Arith", "Add", [0x08, 7], (), rfl, rfl, rfl, by decide +kernel, _, 7, rfl, rfl⟩

/-- A server that has the service reads the request and the end of the connection. -/
theorem codecSafe_oneRequest : ∃ server : RpcServer Unit UInt8,
    (serverSystem (oneService "Arith") oneRequest).Run [.header, .body, .header] server ∧
    server.requests.length = 1 ∧ CodecSafe server := by
  have hexecutes : ((serverSystem (oneService "Arith") oneRequest).execute
      (RpcServer.initial oneRequest) [.header, .body, .header]).map
        (fun server ↦ server.requests.length) = some 1 := by
    decide +kernel
  obtain ⟨server, hexecute, hlength⟩ := Option.map_eq_some_iff.mp hexecutes
  have hsafe := (codecSafe_iff (decodesTo_oneRequest "Arith") requestsOnly_addRequest).mpr
    goodRequest_addRequest
  have hrun := TransitionSystem.Run.of_execute hexecute
  exact ⟨server, hrun, hlength, hsafe _ server hrun⟩

/-- A server that does not have it panics when the next header is read. -/
theorem not_codecSafe_of_unknown_service :
    ¬ ∀ (frames : List RpcMessage) (stream : Stream),
      DecodesTo (oneService "Echo").unmarshal stream frames → RequestsOnly frames →
        ∀ actions server, (serverSystem (oneService "Echo") stream).Run actions server →
          CodecSafe server := by
  intro hall
  have hexecutes : ((serverSystem (oneService "Echo") oneRequest).execute
      (RpcServer.initial oneRequest) [.header, .body, .respond, .header]).map
        RpcServer.panicked = some (some "payload is not nil") := by
    decide +kernel
  obtain ⟨server, hexecute, hpanicked⟩ := Option.map_eq_some_iff.mp hexecutes
  have hsafe := hall [addRequest] oneRequest (decodesTo_oneRequest "Echo") requestsOnly_addRequest
    _ server (.of_execute hexecute)
  rw [hsafe.noPanic] at hpanicked
  cases hpanicked

end MuduoProtorpc.GoRpc
