import MuduoProtorpc.GoRpc.EndToEnd
import MuduoProtorpc.GoRpc.ServerSafety

/-!
# A Go server that is sent good requests

What holds of a server that is sent the requests of good calls (`ServerSide`), and that each step of
the server keeps it. The server knows of the client only the requests that were sent: it reads them
in their order, each is routed to the method of its call and parsed into its argument, and what the
method returns is written as the one reply to it.
-/

set_option autoImplicit false
set_option relaxedAutoImplicit false

namespace MuduoProtorpc.GoRpc

open Foundation

variable {Method Message : Type} {environment : ServerEnvironment Method Message}
  {calls : List (Call Message)}

/-- The message is the request of the call at a position. -/
structure RequestOf (environment : ServerEnvironment Method Message) (call : Call Message)
    (index : ℕ) (msg : RpcMessage) : Prop where
  type : msg.type = some .request
  fields : ∃ args bytes, call.args = some args ∧ environment.marshal args = .ok bytes ∧
    requestFields msg =
      some ({ serviceMethod := call.serviceMethod, seq := seqOf index }, some bytes)

/-- The requests that were sent are those of the first calls, in their order. -/
def RequestsOf (environment : ServerEnvironment Method Message) (calls : List (Call Message))
    (sent : List RpcMessage) : Prop :=
  ∀ index msg, sent[index]? = some msg → ∃ call, calls[index]? = some call ∧
    RequestOf environment call index msg

/-- Every call is good, with its own number. -/
def GoodCalls (environment : ServerEnvironment Method Message) (calls : List (Call Message)) :
    Prop :=
  ∀ index call, calls[index]? = some call → GoodCall environment call (seqOf index)

/-- How far a good call has come on the server: its body is next, its method runs, or its method has
returned a good reply. -/
inductive OnItsWay (environment : ServerEnvironment Method Message) (call : Call Message) :
    RequestProgress Method Message → Prop
  | reading : OnItsWay environment call .reading
  | calling {method : Method} {argument : Message} : Reaches environment call method argument →
      OnItsWay environment call (.calling method argument)
  | returned {reply : Message} : OnItsWay environment call (.returned "" (some reply))

/-- The frame is the reply to a request: what its method has returned. -/
structure ReplyOf (environment : ServerEnvironment Method Message)
    (server : RpcServer Method Message) (calls : List (Call Message)) (frame : ℕ × RpcMessage)
    (reply : Message) : Prop where
  request : ∃ request, server.requests[frame.1]? = some request ∧
    request.progress = .returned "" (some reply)
  message : ∃ bytes, environment.marshal reply = .ok bytes ∧
    frame.2 = responseMessage (seqOf frame.1) bytes
  good : ∃ call, calls[frame.1]? = some call ∧
    GoodReply environment call (seqOf frame.1) reply

/-- A server in front of the body of a good request, which is the last one. -/
structure AtBody (environment : ServerEnvironment Method Message) (calls : List (Call Message))
    (server : RpcServer Method Message) : Prop where
  noPanic : server.panicked = none
  reading : ∃ request, server.requests[server.last]? = some request ∧ request.progress = .reading
  body : ∃ call method argument bytes unmarshal, calls[server.last]? = some call ∧
    server.phase =
      .body { serviceMethod := call.serviceMethod, seq := seqOf server.last } (.ok method) ∧
    server.codec.payload = some bytes ∧ Reaches environment call method argument ∧
    environment.services.argument method = some unmarshal ∧ unmarshal bytes = (argument, none)

/-- What holds of a server that was sent the requests of good calls. -/
structure ServerSide (environment : ServerEnvironment Method Message)
    (calls : List (Call Message)) (sent : List RpcMessage) (server : RpcServer Method Message) :
    Prop where
  loop : AtHeader server ∨ AtBody environment calls server
  few : server.requests.length ≤ sent.length
  unread : Carries environment server.codec.stream (sent.drop server.requests.length)
  progress : ∀ (index : ℕ) (request : ReadRequest Method Message),
    server.requests[index]? = some request → ∃ call, calls[index]? = some call ∧
      request.header = { serviceMethod := call.serviceMethod, seq := seqOf index } ∧
        OnItsWay environment call request.progress
  reading : ∀ (index : ℕ) (request : ReadRequest Method Message),
    server.requests[index]? = some request → request.progress = .reading →
      index = server.last ∧ server.phase ≠ .header
  replies : ∀ frame ∈ server.written, ∃ reply, ReplyOf environment server calls frame reply
  once : (server.written.map Prod.fst).Nodup
  answered : ∀ (index : ℕ) (request : ReadRequest Method Message) (errmsg : String)
    (reply : Option Message), server.requests[index]? = some request →
      request.progress = .returned errmsg reply → index ∈ server.written.map Prod.fst

section ServerSteps

variable {sent : List RpcMessage} {server next : RpcServer Method Message}

theorem ServerSide.noPanic (hside : ServerSide environment calls sent server) :
    server.panicked = none := by
  rcases hside.loop with hheader | hbody
  · exact hheader.noPanic
  · exact hbody.noPanic

/-- The call of a reply, by more calls, is the same. -/
theorem ReplyOf.mono {frame : ℕ × RpcMessage} {reply : Message}
    (hreply : ReplyOf environment server calls frame reply) (call : Call Message) :
    ReplyOf environment server (calls ++ [call]) frame reply where
  request := hreply.request
  message := hreply.message
  good := by
    obtain ⟨found, hfound, hgood⟩ := hreply.good
    exact ⟨found, getElem?_append_of_eq_some hfound _, hgood⟩

/-- A reply stays what it is when another request goes further, or one more is read. -/
theorem ReplyOf.of_requests {frame : ℕ × RpcMessage} {reply : Message}
    (hreply : ReplyOf environment server calls frame reply)
    (hkeep : ∀ (index : ℕ) (request : ReadRequest Method Message) (errmsg : String)
      (message : Option Message), server.requests[index]? = some request →
        request.progress = .returned errmsg message → next.requests[index]? = some request) :
    ReplyOf environment next calls frame reply where
  request := by
    obtain ⟨request, hrequest, hprogress⟩ := hreply.request
    exact ⟨request, hkeep _ _ _ _ hrequest hprogress, hprogress⟩
  message := hreply.message
  good := hreply.good

/-- A request that goes further leaves the others where they are. -/
theorem getElem?_setProgress_of_ne {index other : ℕ} {progress : RequestProgress Method Message}
    {request : ReadRequest Method Message} (hne : index ≠ other)
    (hrequest : server.requests[other]? = some request) :
    (server.setProgress index progress).requests[other]? = some request := by
  simp [RpcServer.setProgress, hne, hrequest]

/-- In front of a header, the loop waits if every request was read; and the next one is good. -/
theorem ServerSide.next_request (hside : ServerSide environment calls sent server)
    (hsent : RequestsOf environment calls sent) (hgood : GoodCalls environment calls)
    (hheader : AtHeader server) :
    (serverStep environment server .header = none ∧ server.requests.length = sent.length) ∨
      ∃ next, serverStep environment server .header = some next ∧
        ServerSide environment calls sent next ∧ AtBody environment calls next ∧
          next.requests.length = server.requests.length + 1 ∧ next.written = server.written := by
  rcases Nat.lt_or_ge server.requests.length sent.length with hlt | hge
  · right
    have hunread := hside.unread
    rw [List.drop_eq_getElem_cons hlt] at hunread
    obtain ⟨rest, hdecode, hrest⟩ := hunread.decode_cons
    obtain ⟨call, hcall, hrequest⟩ := hsent _ _ (List.getElem?_eq_getElem hlt)
    obtain ⟨args, bytes, hargs, hmarshal, hfields⟩ := hrequest.fields
    obtain ⟨service, name, method, argument, -, -, hreaches, -⟩ :=
      hgood _ call hcall
    obtain ⟨found, parsed, unmarshal, hfound, hparsed, hargument, hunmarshal⟩ := hreaches.parses
    obtain rfl := Option.some.inj (hargs.symm.trans hfound)
    obtain rfl := Except.ok.inj (hmarshal.symm.trans hparsed)
    have hlast : ∀ {server : RpcServer Method Message} {request : ReadRequest Method Message}
        {requests : List (ReadRequest Method Message)},
        server.requests = requests ++ [request] → server.last = requests.length := by
      intro server request requests hrequests
      simp [RpcServer.last, hrequests]
    have hbody : AtBody environment calls { server with
        codec := { stream := rest, payload := some bytes }
        requests := server.requests ++ [{
          header := { serviceMethod := call.serviceMethod, seq := seqOf server.requests.length }
          progress := .reading }]
        phase := .body { serviceMethod := call.serviceMethod, seq := seqOf server.requests.length }
          (route environment.services call.serviceMethod) } :=
      { noPanic := hheader.noPanic
        reading := ⟨_, by rw [hlast rfl]; exact List.getElem?_concat_length, rfl⟩
        body := by
          refine ⟨call, method, argument, bytes, unmarshal, ?_, ?_, rfl, hreaches, hargument,
            hunmarshal⟩
          · rwa [hlast rfl]
          · rw [hlast rfl, hreaches.route] }
    refine ⟨_, hheader.read hdecode hrequest.type hfields, ?_, hbody, by simp, rfl⟩
    exact {
      loop := Or.inr hbody
      few := by
        rw [List.length_append, List.length_singleton]
        exact hlt
      unread := by
        rw [List.length_append, List.length_singleton]
        exact hrest
      progress := by
        intro index request hindex
        rcases getElem?_append_singleton_eq_some hindex with hold | ⟨rfl, rfl⟩
        · exact hside.progress index request hold
        · exact ⟨call, hcall, rfl, .reading⟩
      reading := by
        intro index request hindex hreading
        rcases getElem?_append_singleton_eq_some hindex with hold | ⟨rfl, -⟩
        · exact absurd hheader.phase (hside.reading index request hold hreading).2
        · exact ⟨(hlast rfl).symm, by simp⟩
      replies := by
        intro frame hframe
        obtain ⟨reply, hreply⟩ := hside.replies frame hframe
        exact ⟨reply, hreply.of_requests fun _ _ _ _ hrequest _ ↦
          getElem?_append_of_eq_some hrequest _⟩
      once := hside.once
      answered := by
        intro index request errmsg reply hindex hreturned
        rcases getElem?_append_singleton_eq_some hindex with hold | ⟨rfl, rfl⟩
        · exact hside.answered index request errmsg reply hold hreturned
        · cases hreturned }
  · left
    have hunread := hside.unread
    rw [List.drop_eq_nil_of_le hge] at hunread
    have hread : readHeader environment.unmarshal .request requestFields server.codec = .blocked :=
      readHeader_of_blocked hheader.payload hunread.decode_nil
    refine ⟨?_, Nat.le_antisymm hside.few hge⟩
    simp [serverStep, hheader.noPanic, hheader.phase, readRequestHeader, hread]

/-- The body of a good request is read, and its method runs with its argument. -/
theorem ServerSide.next_body (hside : ServerSide environment calls sent server)
    (hbody : AtBody environment calls server) :
    ∃ next, serverStep environment server .body = some next ∧
      ServerSide environment calls sent next ∧ AtHeader next ∧
        next.requests.length = server.requests.length ∧ next.written = server.written := by
  obtain ⟨call, method, argument, bytes, unmarshal, hcall, hphase, hpayload, hreaches, hargument,
    hunmarshal⟩ := hbody.body
  have hread : readBody server.codec (environment.services.argument method) =
      .ok argument { server.codec with payload := none } := by
    simp only [readBody, hpayload, hargument, hunmarshal]
  have hstep : serverStep environment server .body =
      some { server.setProgress server.last (.calling method argument) with
        codec := { server.codec with payload := none }
        phase := .header } := by
    simp [serverStep, hbody.noPanic, hphase, readArgument, readRequestBody, hread]
  have hheader : AtHeader { server.setProgress server.last (.calling method argument) with
      codec := { server.codec with payload := none }
      phase := .header } := ⟨hbody.noPanic, rfl, rfl⟩
  have hlength : (server.setProgress server.last (.calling method argument)).requests.length =
      server.requests.length := List.length_modify _ _ _
  refine ⟨_, hstep, ?_, hheader, hlength, rfl⟩
  exact {
    loop := Or.inl hheader
    few := hlength.trans_le hside.few
    unread := by
      rw [hlength]
      exact hside.unread
    progress := by
      intro index request hrequest
      obtain ⟨before, hbefore, rfl⟩ := getElem?_setProgress hrequest
      obtain ⟨found, hfound, hrequestHeader, hway⟩ := hside.progress index before hbefore
      refine ⟨found, hfound, ?_⟩
      split_ifs with hindex
      · subst hindex
        obtain rfl := Option.some.inj (hcall.symm.trans hfound)
        exact ⟨hrequestHeader, .calling hreaches⟩
      · exact ⟨hrequestHeader, hway⟩
    reading := by
      intro index request hrequest hreading
      obtain ⟨before, hbefore, rfl⟩ := getElem?_setProgress hrequest
      split_ifs at hreading with hindex
      exact absurd (hside.reading index before hbefore hreading).1 (Ne.symm hindex)
    replies := by
      intro frame hframe
      obtain ⟨reply, hreply⟩ := hside.replies frame hframe
      refine ⟨reply, hreply.of_requests fun index request errmsg message hrequest hreturned ↦ ?_⟩
      have hne : server.last ≠ index := by
        rintro rfl
        obtain ⟨last, hlast, hreading⟩ := hbody.reading
        obtain rfl := Option.some.inj (hlast.symm.trans hrequest)
        rw [hreading] at hreturned
        cases hreturned
      exact getElem?_setProgress_of_ne hne hrequest
    once := hside.once
    answered := by
      intro index request errmsg reply hrequest hreturned
      obtain ⟨before, hbefore, rfl⟩ := getElem?_setProgress hrequest
      split_ifs at hreturned with hindex
      exact hside.answered index before errmsg reply hbefore hreturned }

/-- What `sendResponse` writes for a good reply. -/
theorem answers_of_travels {reply : Message} {bytes : Bytes} {seq : BitVec 64}
    {serviceMethod : String} (hmarshal : environment.marshal reply = .ok bytes)
    (htravels : Travels environment (responseMessage seq bytes)) :
    answers environment { serviceMethod := serviceMethod, seq := seq } (some reply) "" =
      [responseMessage seq bytes] := by
  obtain ⟨body, hbody, -, -⟩ := htravels
  have hencode := encode_eq hbody
  unfold responseMessage at hencode
  simp [answers, writeResponse, hmarshal, hencode, responseMessage, bind, Except.bind, pure,
    Except.pure]

/-- A method that returns a good reply: the reply is written, and it is the only one to its
request. -/
theorem ServerSide.next_reply (hside : ServerSide environment calls sent server) {index : ℕ}
    {call : Call Message} {message : Message} (hcall : calls[index]? = some call)
    (hreply : GoodReply environment call (seqOf index) message)
    (hstep : serverStep environment server (.finish index "" (some message)) = some next) :
    ∃ msg, next.written = server.written ++ [(index, msg)] ∧ Travels environment msg ∧
      ServerSide environment calls sent next ∧ next.phase = server.phase ∧
        next.requests.length = server.requests.length := by
  simp only [serverStep, hside.noPanic, Option.isSome_none] at hstep
  rw [if_neg (by simp)] at hstep
  split at hstep
  · rename_i req method argument hrequest
    obtain ⟨found, hfound, hheader, -⟩ := hside.progress index _ hrequest
    simp only at hheader
    subst hheader
    obtain ⟨⟨result, ⟨bytes, unmarshal, hmarshal, -, -⟩⟩, htravels⟩ := id hreply
    have hmessage := htravels bytes hmarshal
    rw [sendResponse_eq, answers_of_travels hmarshal hmessage] at hstep
    have hnext : next = { server.setProgress index (.returned "" (some message)) with
        written := server.written ++ [(index, responseMessage (seqOf index) bytes)] } :=
      (Option.some.inj hstep).symm
    subst hnext
    have hlength : (server.setProgress index (.returned "" (some message))).requests.length =
        server.requests.length := List.length_modify _ _ _
    have hself : (server.setProgress index (.returned "" (some message))).requests[index]? =
        some { header := { serviceMethod := found.serviceMethod, seq := seqOf index }
               progress := .returned "" (some message) } := by
      simp [RpcServer.setProgress, hrequest]
    have hreturned : ∀ (other : ℕ) (request : ReadRequest Method Message) (errmsg : String)
        (reply : Option Message), server.requests[other]? = some request →
          request.progress = .returned errmsg reply → index ≠ other := by
      rintro other request errmsg reply hother hprogress rfl
      obtain rfl := Option.some.inj (hrequest.symm.trans hother)
      cases hprogress
    refine ⟨_, rfl, hmessage, ?_, rfl, hlength⟩
    exact {
      loop := by
        rcases hside.loop with hatHeader | hatBody
        · exact Or.inl ⟨hatHeader.noPanic, hatHeader.phase, hatHeader.payload⟩
        · refine Or.inr ⟨hatBody.noPanic, ?_, ?_⟩
          · obtain ⟨last, hlast, hreading⟩ := hatBody.reading
            have hne : index ≠ server.last := by
              rintro rfl
              obtain rfl := Option.some.inj (hrequest.symm.trans hlast)
              cases hreading
            refine ⟨last, ?_, hreading⟩
            rw [RpcServer.last, hlength]
            exact getElem?_setProgress_of_ne hne hlast
          · rw [RpcServer.last, hlength]
            exact hatBody.body
      few := hlength.trans_le hside.few
      unread := by
        rw [hlength]
        exact hside.unread
      progress := by
        intro other request hother
        obtain ⟨before, hbefore, rfl⟩ := getElem?_setProgress hother
        obtain ⟨owner, howner, hbeforeHeader, hway⟩ := hside.progress other before hbefore
        refine ⟨owner, howner, ?_⟩
        split_ifs with hindex
        · subst hindex
          obtain rfl := Option.some.inj (hcall.symm.trans howner)
          exact ⟨hbeforeHeader, .returned⟩
        · exact ⟨hbeforeHeader, hway⟩
      reading := by
        intro other request hother hreading
        obtain ⟨before, hbefore, rfl⟩ := getElem?_setProgress hother
        split_ifs at hreading with hindex
        have hlast := hside.reading other before hbefore hreading
        rw [RpcServer.last, hlength]
        exact hlast
      replies := by
        intro frame hframe
        rcases List.mem_append.mp hframe with hold | hnew
        · obtain ⟨reply, hreplyOf⟩ := hside.replies frame hold
          exact ⟨reply, hreplyOf.of_requests fun other request errmsg reply hother hprogress ↦
            getElem?_setProgress_of_ne (hreturned other request errmsg reply hother hprogress)
              hother⟩
        · obtain rfl := List.mem_singleton.mp hnew
          exact ⟨message, ⟨_, hself, rfl⟩, ⟨bytes, hmarshal, rfl⟩, call, hcall, hreply⟩
      once := by
        rw [List.map_append, List.nodup_append]
        refine ⟨hside.once, List.nodup_singleton _, ?_⟩
        intro other hother position hposition
        obtain rfl := List.mem_singleton.mp hposition
        obtain ⟨frame, hframe, rfl⟩ := List.mem_map.mp hother
        obtain ⟨reply, hreplyOf⟩ := hside.replies frame hframe
        obtain ⟨request, hfoundRequest, hprogress⟩ := hreplyOf.request
        exact (hreturned _ request _ _ hfoundRequest hprogress).symm
      answered := by
        intro other request errmsg reply hother hprogress
        obtain ⟨before, hbefore, rfl⟩ := getElem?_setProgress hother
        rw [List.map_append]
        split_ifs at hprogress with hindex
        · exact List.mem_append_right _ (by simp [hindex])
        · exact List.mem_append_left _ (hside.answered other before errmsg reply hbefore
            hprogress) }
  · cases hstep

/-- One more call changes nothing on the server. -/
theorem ServerSide.register (hside : ServerSide environment calls sent server)
    (call : Call Message) : ServerSide environment (calls ++ [call]) sent server where
  loop := by
    rcases hside.loop with hheader | ⟨hnone, hreading, found, rest⟩
    · exact Or.inl hheader
    · obtain ⟨method, argument, bytes, unmarshal, hfound, hrest⟩ := rest
      exact Or.inr ⟨hnone, hreading, found, method, argument, bytes, unmarshal,
        getElem?_append_of_eq_some hfound _, hrest⟩
  few := hside.few
  unread := hside.unread
  progress := by
    intro index request hrequest
    obtain ⟨found, hfound, hrest⟩ := hside.progress index request hrequest
    exact ⟨found, getElem?_append_of_eq_some hfound _, hrest⟩
  reading := hside.reading
  replies := by
    intro frame hframe
    obtain ⟨reply, hreply⟩ := hside.replies frame hframe
    exact ⟨reply, hreply.mono call⟩
  once := hside.once
  answered := hside.answered

/-- One more request is on the way to the server. -/
theorem ServerSide.receive (hside : ServerSide environment calls sent server) {msg : RpcMessage}
    (htravels : Travels environment msg) :
    ∃ wire, encode environment.marshalMessage msg = .ok wire ∧
      ServerSide environment calls (sent ++ [msg])
        { server with codec := server.codec.receive wire } := by
  obtain ⟨wire, hencode, hcarries⟩ := hside.unread.append htravels
  refine ⟨wire, hencode, ?_⟩
  exact {
    loop := by
      rcases hside.loop with hheader | hbody
      · exact Or.inl ⟨hheader.noPanic, hheader.phase, hheader.payload⟩
      · exact Or.inr ⟨hbody.noPanic, hbody.reading, hbody.body⟩
    few := by
      rw [List.length_append]
      exact hside.few.trans (Nat.le_add_right _ _)
    unread := by
      rw [List.drop_append_of_le_length hside.few]
      exact hcarries
    progress := hside.progress
    reading := hside.reading
    replies := by
      intro frame hframe
      obtain ⟨reply, hreply⟩ := hside.replies frame hframe
      exact ⟨reply, hreply.of_requests fun _ _ _ _ hrequest _ ↦ hrequest⟩
    once := hside.once
    answered := hside.answered }

/-- When nothing more happens on the server, every request was read, and its reply was written. -/
theorem ServerSide.all_answered (hside : ServerSide environment calls sent server)
    (hsent : RequestsOf environment calls sent) (hgood : GoodCalls environment calls)
    (hquiet : ∀ action, serverStep environment server action = none) {index : ℕ}
    (hindex : index < sent.length) : index ∈ server.written.map Prod.fst := by
  rcases hside.loop with hheader | hbody
  · rcases hside.next_request hsent hgood hheader with ⟨-, hread⟩ | ⟨next, hstep, -⟩
    · rw [← hread] at hindex
      have hrequest := List.getElem?_eq_getElem hindex
      obtain ⟨call, -, -, hway⟩ := hside.progress index _ hrequest
      generalize hprogress : server.requests[index].progress = progress at hway
      cases hway with
      | reading => exact absurd hheader.phase (hside.reading index _ hrequest hprogress).2
      | calling hreaches =>
        have hfinish := hquiet (.finish index "" none)
        generalize hfound : server.requests[index] = request at *
        obtain ⟨req, found⟩ := request
        obtain rfl : found = _ := hprogress
        simp [serverStep, hheader.noPanic, hrequest] at hfinish
      | returned => exact hside.answered index _ _ _ hrequest hprogress
    · rw [hquiet] at hstep
      cases hstep
  · obtain ⟨next, hstep, -⟩ := hside.next_body hbody
    rw [hquiet] at hstep
    cases hstep

end ServerSteps

end MuduoProtorpc.GoRpc
