import Mathlib.Tactic.FinCases
import MuduoProtorpc.GoRpc.ClientIsolation
import MuduoProtorpc.GoRpc.EndToEndClient
import MuduoProtorpc.GoRpc.EndToEndServer

/-!
# Calls of a Go client to a Go server

The two sides together. `rpcGuarantees_of_run` is that whatever the interleaving of the callers, the
two loops and the methods, and in whatever order the methods return, each method runs with the
arguments of its own call, and each call that is done got what its own method returned, once. A run
of good calls has at most seven steps for each, and when it can go on only with a new call,
every call is done and none is pending (`rpcDone_of_run`).
-/

set_option autoImplicit false
set_option relaxedAutoImplicit false

namespace MuduoProtorpc.GoRpc

open Foundation

variable {Method Message : Type} {environment : ServerEnvironment Method Message}

/-! ### The invariant -/

/-- The requests on their way: all were sent, or all but the last one, which is being written. -/
def Sending (link : RpcLink Method Message) (sent : ℕ) : Prop :=
  match link.sending with
  | none => link.calls.length = sent
  | some (seq, call) => link.calls.length = sent + 1 ∧ seq = seqOf sent ∧
      link.calls[sent]? = some call

/-- What holds between a client and a server when the calls are good: the requests that were sent,
and the number of replies whose header was read. -/
structure RpcLinkInvariant (environment : ServerEnvironment Method Message)
    (link : RpcLink Method Message) (sent : List RpcMessage) (read : ℕ) : Prop where
  numbered : link.seq = seqOf link.calls.length
  bounded : link.calls.length ≤ 2 ^ 64
  good : GoodCalls environment link.calls
  sending : Sending link sent.length
  requests : RequestsOf environment link.calls sent
  server : ServerSide environment link.calls sent link.server
  client : ClientSide environment link.calls link.server.written read link.client
  accepted : link.refused = []

/-- The headers and bodies that a server has read. -/
def RpcServer.readings (server : RpcServer Method Message) : ℕ :=
  match server.phase with
  | .header => 2 * server.requests.length
  | _ => 2 * server.requests.length - 1

/-- The steps that were taken. -/
def rpcWork (link : RpcLink Method Message) (sent : List RpcMessage) (read : ℕ) : ℕ :=
  link.calls.length + sent.length + link.server.readings + link.server.written.length + read +
    link.client.completed.length

section Invariant

variable {link next : RpcLink Method Message} {sent : List RpcMessage} {read : ℕ} {stops : Bool}

theorem AtHeader.readings {server : RpcServer Method Message} (hheader : AtHeader server) :
    server.readings = 2 * server.requests.length := by
  simp only [RpcServer.readings, hheader.phase]

theorem AtBody.readings {calls : List (Call Message)} {server : RpcServer Method Message}
    (hbody : AtBody environment calls server) :
    server.readings + 1 = 2 * server.requests.length := by
  obtain ⟨request, hrequest, -⟩ := hbody.reading
  obtain ⟨call, method, argument, bytes, unmarshal, -, hphase, -⟩ := hbody.body
  have hlt := (List.getElem?_eq_some_iff.mp hrequest).1
  simp only [RpcServer.readings, hphase]
  omega

/-- A reply of a server is understood by its call. -/
theorem ReplyOf.understood {server : RpcServer Method Message} {calls : List (Call Message)}
    {frame : ℕ × RpcMessage} {reply : Message}
    (hreply : ReplyOf environment server calls frame reply) :
    ∃ call bytes result, Understood calls frame call bytes result := by
  obtain ⟨bytes, hmarshal, hmessage⟩ := hreply.message
  obtain ⟨call, hcall, ⟨result, ⟨found, unmarshal, hfound, hunmarshal, hresult⟩⟩, -⟩ := hreply.good
  obtain rfl := Except.ok.inj (hmarshal.symm.trans hfound)
  exact ⟨call, bytes, result, hcall, hmessage, unmarshal, hunmarshal, hresult⟩

theorem RpcLinkInvariant.understood (hinvariant : RpcLinkInvariant environment link sent read) :
    ∀ frame ∈ link.server.written, ∃ call bytes result,
      Understood link.calls frame call bytes result := by
  intro frame hframe
  obtain ⟨reply, hreply⟩ := hinvariant.server.replies frame hframe
  exact hreply.understood

theorem RpcLinkInvariant.position_lt (hinvariant : RpcLinkInvariant environment link sent read) :
    ∀ frame ∈ link.server.written, frame.1 < link.calls.length := by
  intro frame hframe
  obtain ⟨call, bytes, result, hunderstood⟩ := hinvariant.understood frame hframe
  exact (List.getElem?_eq_some_iff.mp hunderstood.position).1

variable (environment) in
theorem rpcLinkInvariant_start :
    RpcLinkInvariant environment (rpcLinkSystem stops environment).start [] 0 where
  numbered := rfl
  bounded := Nat.zero_le _
  good := by
    intro index call hcall
    cases hcall
  sending := rfl
  requests := by
    intro index msg hmsg
    cases hmsg
  server := {
    loop := Or.inl ⟨rfl, rfl, rfl⟩
    few := Nat.le_refl _
    unread := .nil
    progress := by
      intro index request hrequest
      cases hrequest
    reading := by
      intro index request hrequest
      cases hrequest
    replies := by
      intro frame hframe
      cases hframe
    once := List.nodup_nil
    answered := by
      intro index request errmsg reply hrequest
      cases hrequest }
  client := {
    loop := Or.inl ⟨⟨rfl, rfl, rfl⟩, rfl⟩
    few := Nat.le_refl _
    unread := .nil
    pending := by
      intro call
      constructor
      · intro hcall
        cases hcall
      · rintro ⟨index, found, hfound, -⟩
        cases hfound
    results := by
      intro completion hcompletion
      cases hcompletion }
  accepted := rfl

/-! ### The steps -/

/-- The loop of a client that gets good replies has not ended. -/
theorem ClientSide.phase_ne {calls : List (Call Message)} {written : List (ℕ × RpcMessage)}
    {client : RpcClient Message} (hside : ClientSide environment calls written read client)
    (err : String) : client.phase ≠ .terminated err := by
  rcases hside.loop with ⟨hheader, -⟩ | hreply
  · simp [hheader.phase]
  · obtain ⟨before, frame, call, bytes, result, -, -, hphase, -⟩ := hreply.body
    simp [hphase]

/-- A good call gets a number. -/
theorem RpcLinkInvariant.register (hinvariant : RpcLinkInvariant environment link sent read)
    {call : Call Message} (hcall : GoodCall environment call link.seq)
    (hbound : link.calls.length < 2 ^ 64) (hstep : link.register call = some next) :
    RpcLinkInvariant environment next sent read ∧
      rpcWork next sent read = rpcWork link sent read + 1 := by
  have hsending := hinvariant.sending
  unfold RpcLink.register at hstep
  unfold Sending at hsending
  cases hfree : link.sending with
  | some request =>
    rw [hfree] at hstep
    cases hstep
  | none =>
    simp only [hfree] at hstep hsending
    split at hstep
    · rename_i err hphase
      exact absurd hphase (hinvariant.client.phase_ne err)
    · obtain rfl := Option.some.inj hstep
      constructor
      · exact {
          numbered := by
            rw [List.length_append, List.length_singleton, seqOf_succ, ← hinvariant.numbered]
          bounded := by
            rw [List.length_append, List.length_singleton]
            exact hbound
          good := by
            intro index other hother
            rcases getElem?_append_singleton_eq_some hother with hold | ⟨rfl, rfl⟩
            · exact hinvariant.good index other hold
            · rwa [← hinvariant.numbered]
          sending := by
            refine ⟨?_, ?_, ?_⟩
            · rw [List.length_append, List.length_singleton, hsending]
            · rw [hinvariant.numbered, hsending]
            · rw [← hsending]
              exact List.getElem?_concat_length
          requests := by
            intro index msg hmsg
            obtain ⟨found, hfound, hrequest⟩ := hinvariant.requests index msg hmsg
            exact ⟨found, getElem?_append_of_eq_some hfound _, hrequest⟩
          server := hinvariant.server.register call
          client := by
            rw [hinvariant.numbered]
            exact hinvariant.client.register hbound hinvariant.position_lt call
          accepted := hinvariant.accepted }
      · simp only [rpcWork, List.length_append, List.length_singleton]
        omega

/-- The message of a call, which the server puts together again. -/
theorem writeRequest_eq (service : String) {name : String} (hdot : '.' ∉ name.toList)
    {args : Message} {bytes : Bytes} (seq : BitVec 64)
    (hmarshal : environment.marshal args = .ok bytes) :
    writeRequest environment.marshal { serviceMethod := service ++ "." ++ name, seq := seq }
      (some args) = .sent (requestMessage service name seq bytes) := by
  unfold writeRequest
  rw [splitAtLastDot_append service hdot]
  simp only [hmarshal]
  rfl

/-- The request of a good call is written. -/
theorem RpcLinkInvariant.write (hinvariant : RpcLinkInvariant environment link sent read) :
    (link.write environment = none ∧ link.sending = none) ∨
      ∃ next msg, link.write environment = some next ∧
        RpcLinkInvariant environment next (sent ++ [msg]) read ∧
          rpcWork next (sent ++ [msg]) read = rpcWork link sent read + 1 := by
  have hsending := hinvariant.sending
  unfold Sending at hsending
  cases hwriting : link.sending with
  | none => exact Or.inl ⟨by simp only [RpcLink.write, hwriting], rfl⟩
  | some request =>
    right
    obtain ⟨seq, call⟩ := request
    simp only [hwriting] at hsending
    obtain ⟨hlength, rfl, hcall⟩ := hsending
    obtain ⟨service, name, method, argument, hname, hdot, hreaches, htravels⟩ :=
      hinvariant.good _ _ hcall
    obtain ⟨args, bytes, unmarshal, hargs, hmarshal, -⟩ := hreaches.parses
    have hmessage := htravels args bytes hargs hmarshal
    obtain ⟨wire, hencode, hserver⟩ := hinvariant.server.receive hmessage
    have hwrite := writeRequest_eq service hdot (seqOf sent.length) hmarshal
    have hstep : link.write environment = some { link with
        sending := none
        server := { link.server with codec := link.server.codec.receive wire } } := by
      simp only [RpcLink.write, hwriting, hname, hargs, hwrite, hencode]
    refine ⟨_, requestMessage service name (seqOf sent.length) bytes, hstep, ?_, ?_⟩
    · exact {
        numbered := hinvariant.numbered
        bounded := hinvariant.bounded
        good := hinvariant.good
        sending := by
          rw [List.length_append, List.length_singleton]
          exact hlength
        requests := by
          intro index msg hmsg
          rcases getElem?_append_singleton_eq_some hmsg with hold | ⟨rfl, rfl⟩
          · exact hinvariant.requests index msg hold
          · refine ⟨call, hcall, rfl, args, bytes, hargs, hmarshal, ?_⟩
            rw [hname]
            rfl
        server := hserver
        client := hinvariant.client
        accepted := hinvariant.accepted }
    · simp only [rpcWork, RpcServer.readings, List.length_append, List.length_singleton]
      omega

/-- A step of the client's loop. -/
theorem RpcLinkInvariant.input (hinvariant : RpcLinkInvariant environment link sent read)
    {action : ClientAction} {client : RpcClient Message}
    (hstep : clientStep stops environment.unmarshal link.client action = some client) :
    ∃ more, RpcLinkInvariant environment { link with client := client } sent more ∧
      rpcWork { link with client := client } sent more = rpcWork link sent read + 1 := by
  have hkeep : ∀ {more : ℕ}, ClientSide environment link.calls link.server.written more client →
      RpcLinkInvariant environment { link with client := client } sent more := by
    intro more hclient
    exact {
      numbered := hinvariant.numbered
      bounded := hinvariant.bounded
      good := hinvariant.good
      sending := hinvariant.sending
      requests := hinvariant.requests
      server := hinvariant.server
      client := hclient
      accepted := hinvariant.accepted }
  rcases hinvariant.client.loop with ⟨hheader, hcompleted⟩ | hreply
  · cases action with
    | header =>
      rcases hinvariant.client.next_header stops hinvariant.understood hinvariant.server.once
        hinvariant.bounded hheader hcompleted with ⟨hnone, -⟩ | ⟨next, hnext, hside, -, hsame⟩
      · rw [hnone] at hstep
        cases hstep
      · obtain rfl := Option.some.inj (hnext.symm.trans hstep)
        refine ⟨read + 1, hkeep hside, ?_⟩
        simp only [rpcWork, hsame]
        omega
    | body =>
      simp [clientStep, hheader.noPanic, hheader.phase] at hstep
  · cases action with
    | header =>
      obtain ⟨before, frame, call, bytes, result, -, -, hphase, -⟩ := hreply.body
      simp [clientStep, hreply.noPanic, hphase] at hstep
    | body =>
      obtain ⟨next, hnext, hside, -, hlength⟩ := hinvariant.client.next_body stops hreply
      obtain rfl := Option.some.inj (hnext.symm.trans hstep)
      refine ⟨read, hkeep hside, ?_⟩
      simp only [rpcWork, hlength]
      omega

theorem receive_nil (codec : Codec) : codec.receive [] = codec := by
  simp only [Codec.receive, Stream.grow, List.append_nil]

/-- A step of the server that writes nothing. -/
theorem RpcLinkInvariant.serve_quietly (hinvariant : RpcLinkInvariant environment link sent read)
    {server : RpcServer Method Message} (hside : ServerSide environment link.calls sent server)
    (hwritten : server.written = link.server.written) :
    RpcLinkInvariant environment { link with
      server := server
      client := { link.client with
        codec := link.client.codec.receive
          (writtenBytes environment (server.written.drop link.server.written.length)) } }
      sent read where
  numbered := hinvariant.numbered
  bounded := hinvariant.bounded
  good := hinvariant.good
  sending := hinvariant.sending
  requests := hinvariant.requests
  server := hside
  client := by
    rw [hwritten, List.drop_length]
    simp only [writtenBytes, List.flatMap_nil, receive_nil]
    exact hinvariant.client
  accepted := hinvariant.accepted

/-- A step of the server, whose methods return good replies. -/
theorem RpcLinkInvariant.serve (hinvariant : RpcLinkInvariant environment link sent read)
    {action : ServerAction Message} (hcooperates : Cooperates environment link (.serve action))
    {server : RpcServer Method Message}
    (hstep : serverStep environment link.server action = some server) :
    ∀ next, next = { link with
        server := server
        client := { link.client with
          codec := link.client.codec.receive
            (writtenBytes environment (server.written.drop link.server.written.length)) } } →
      RpcLinkInvariant environment next sent read ∧
        rpcWork next sent read = rpcWork link sent read + 1 := by
  rintro next rfl
  cases action with
  | header =>
    rcases hinvariant.server.loop with hheader | hbody
    · rcases hinvariant.server.next_request hinvariant.requests hinvariant.good hheader with
        ⟨hnone, -⟩ | ⟨found, hfound, hside, hatBody, hlength, hwritten⟩
      · rw [hnone] at hstep
        cases hstep
      · obtain rfl := Option.some.inj (hfound.symm.trans hstep)
        refine ⟨hinvariant.serve_quietly hside hwritten, ?_⟩
        have hbefore := hheader.readings
        have hafter := hatBody.readings
        simp only [rpcWork, hwritten]
        omega
    · obtain ⟨call, method, argument, bytes, unmarshal, -, hphase, -⟩ := hbody.body
      simp [serverStep, hbody.noPanic, hphase] at hstep
  | body =>
    rcases hinvariant.server.loop with hheader | hbody
    · simp [serverStep, hheader.noPanic, hheader.phase] at hstep
    · obtain ⟨found, hfound, hside, hheader, hlength, hwritten⟩ :=
        hinvariant.server.next_body hbody
      obtain rfl := Option.some.inj (hfound.symm.trans hstep)
      refine ⟨hinvariant.serve_quietly hside hwritten, ?_⟩
      have hbefore := hbody.readings
      have hafter := hheader.readings
      simp only [rpcWork, hwritten]
      omega
  | respond =>
    rcases hinvariant.server.loop with hheader | hbody
    · simp [serverStep, hheader.noPanic, hheader.phase] at hstep
    · obtain ⟨call, method, argument, bytes, unmarshal, -, hphase, -⟩ := hbody.body
      simp [serverStep, hbody.noPanic, hphase] at hstep
  | finish index errmsg reply =>
    obtain ⟨rfl, call, message, hcall, rfl, hgood⟩ := hcooperates
    obtain ⟨msg, hwritten, htravels, hside, hphase, hlength⟩ :=
      hinvariant.server.next_reply hcall hgood hstep
    obtain ⟨wire, hencode, hclient⟩ := hinvariant.client.receive index htravels
    have hbytes : writtenBytes environment (server.written.drop link.server.written.length) =
        wire := by
      rw [hwritten, List.drop_left]
      simp [writtenBytes, hencode]
    rw [hbytes]
    constructor
    · exact {
        numbered := hinvariant.numbered
        bounded := hinvariant.bounded
        good := hinvariant.good
        sending := hinvariant.sending
        requests := hinvariant.requests
        server := hside
        client := by
          rw [hwritten]
          exact hclient
        accepted := hinvariant.accepted }
    · simp only [rpcWork, RpcServer.readings, hphase, hlength, hwritten, List.length_append,
        List.length_singleton]
      omega

/-- Every step of a run of good calls is one more. -/
theorem RpcLinkInvariant.step (hinvariant : RpcLinkInvariant environment link sent read)
    {action : RpcLinkAction Message} (hcooperates : Cooperates environment link action)
    (hstep : rpcLinkStep stops environment link action = some next) :
    ∃ requests replies, RpcLinkInvariant environment next requests replies ∧
      rpcWork next requests replies = rpcWork link sent read + 1 := by
  have hnone : link.client.panicked.isSome = false := by
    rw [hinvariant.client.noPanic]
    rfl
  cases action with
  | register call =>
    simp only [rpcLinkStep, hnone] at hstep
    exact ⟨sent, read, hinvariant.register hcooperates.1 hcooperates.2 (by simpa using hstep)⟩
  | write =>
    simp only [rpcLinkStep, hnone] at hstep
    rcases hinvariant.write with ⟨hwrite, -⟩ | ⟨found, msg, hwrite, hnext, hwork⟩
    · simp [hwrite] at hstep
    · obtain rfl : found = next := by simpa [hwrite] using hstep
      exact ⟨_, read, hnext, hwork⟩
  | input action =>
    obtain ⟨client, hclient, rfl⟩ := Option.map_eq_some_iff.mp hstep
    obtain ⟨more, hnext, hwork⟩ := hinvariant.input hclient
    exact ⟨sent, more, hnext, hwork⟩
  | serve action =>
    obtain ⟨server, hserver, hnext⟩ := Option.map_eq_some_iff.mp hstep
    exact ⟨sent, read, hinvariant.serve hcooperates hserver next hnext.symm⟩

/-- What holds after every run of good calls. -/
theorem rpcLinkInvariant_of_run {actions : List (RpcLinkAction Message)}
    (hrun : (rpcLinkSystem stops environment).RunWhen (Cooperates environment) actions link) :
    ∃ sent read, RpcLinkInvariant environment link sent read ∧
      rpcWork link sent read = actions.length := by
  induction hrun with
  | start => exact ⟨[], 0, rpcLinkInvariant_start environment, rfl⟩
  | step _ hcooperates hstep ih =>
    obtain ⟨sent, read, hinvariant, hwork⟩ := ih
    obtain ⟨requests, replies, hnext, hmore⟩ := hinvariant.step hcooperates hstep
    refine ⟨requests, replies, hnext, ?_⟩
    rw [hmore, hwork, List.length_append, List.length_singleton]

/-! ### What the invariant says -/

theorem RpcLinkInvariant.sent_le (hinvariant : RpcLinkInvariant environment link sent read) :
    sent.length ≤ link.calls.length ∧ link.calls.length ≤ sent.length + 1 := by
  have hsending := hinvariant.sending
  unfold Sending at hsending
  split at hsending
  · omega
  · omega

/-- No call has more than one reply. -/
theorem RpcLinkInvariant.written_le (hinvariant : RpcLinkInvariant environment link sent read) :
    link.server.written.length ≤ link.calls.length := by
  have hsubset : link.server.written.map Prod.fst ⊆ List.range link.calls.length := by
    intro index hindex
    obtain ⟨frame, hframe, rfl⟩ := List.mem_map.mp hindex
    exact List.mem_range.mpr (hinvariant.position_lt frame hframe)
  have hlength := (hinvariant.server.once.subperm hsubset).length_le
  rwa [List.length_map, List.length_range] at hlength

/-- The calls that are done are those whose replies were read, but for the one that is in the hand
of the loop. -/
theorem RpcLinkInvariant.completed_prefix
    (hinvariant : RpcLinkInvariant environment link sent read) :
    link.client.completed.map Completion.seq <+:
      link.server.written.map fun frame ↦ seqOf frame.1 := by
  have htake : (link.server.written.take read).map (fun frame ↦ seqOf frame.1) <+:
      link.server.written.map fun frame ↦ seqOf frame.1 := (List.take_prefix _ _).map _
  rcases hinvariant.client.loop with ⟨-, hcompleted⟩ | hreply
  · rwa [hcompleted]
  · obtain ⟨before, frame, call, bytes, result, hread, -, -, -, hcompleted⟩ := hreply.body
    rw [hread, List.map_append] at htake
    rw [hcompleted]
    exact (List.prefix_append _ _).trans htake

/-- The replies have different numbers. -/
theorem RpcLinkInvariant.nodup_seqs (hinvariant : RpcLinkInvariant environment link sent read) :
    (link.server.written.map fun frame ↦ seqOf frame.1).Nodup := by
  have hmap : (link.server.written.map fun frame ↦ seqOf frame.1) =
      (link.server.written.map Prod.fst).map seqOf := by
    rw [List.map_map]
    rfl
  rw [hmap]
  refine List.Nodup.map_on ?_ hinvariant.server.once
  intro first hfirst second hsecond hseq
  obtain ⟨frame, hframe, rfl⟩ := List.mem_map.mp hfirst
  obtain ⟨other, hother, rfl⟩ := List.mem_map.mp hsecond
  exact seqOf_injective ((hinvariant.position_lt frame hframe).trans_le hinvariant.bounded)
    ((hinvariant.position_lt other hother).trans_le hinvariant.bounded) hseq

/-- What a call that is done has got is what its method returned. -/
theorem RpcLinkInvariant.result (hinvariant : RpcLinkInvariant environment link sent read)
    {completion : Completion Message} (hcompletion : completion ∈ link.client.completed) :
    ∃ (index : ℕ) (call : Call Message) (request : ReadRequest Method Message)
      (reply result : Message), link.calls[index]? = some call ∧ completion.seq = seqOf index ∧
        link.server.requests[index]? = some request ∧
          request.progress = .returned "" (some reply) ∧
            Returns environment call reply result ∧ completion.result = .ok result := by
  obtain ⟨frame, hframe, call, bytes, result, hunderstood, hseq, hresult⟩ :=
    hinvariant.client.results completion hcompletion
  obtain ⟨reply, hreply⟩ := hinvariant.server.replies frame hframe
  obtain ⟨request, hrequest, hprogress⟩ := hreply.request
  obtain ⟨found, hmarshal, hmessage⟩ := hreply.message
  have hbytes : found = bytes := by
    have hsame := hmessage.symm.trans hunderstood.message
    simpa [responseMessage] using hsame
  subst hbytes
  obtain ⟨unmarshal, hunmarshal, hparsed⟩ := hunderstood.parses
  exact ⟨frame.1, call, request, reply, result, hunderstood.position, hseq, hrequest, hprogress,
    ⟨found, unmarshal, hmarshal, hunmarshal, hparsed⟩, hresult⟩

end Invariant

/-! ### Every run -/

section Runs

variable {link : RpcLink Method Message} {actions : List (RpcLinkAction Message)} {stops : Bool}

/-- In every run of good calls, no codec panics, each method runs with the arguments of its own
call, and each call that is done is done once, with what its own method returned. -/
theorem rpcGuarantees_of_run
    (hrun : (rpcLinkSystem stops environment).RunWhen (Cooperates environment) actions link) :
    RpcGuarantees environment link := by
  obtain ⟨sent, read, hinvariant, -⟩ := rpcLinkInvariant_of_run hrun
  exact {
    clientSafe := hinvariant.client.noPanic
    serverSafe := hinvariant.server.noPanic
    invoked := by
      intro index request procedure argument hrequest hcalling
      obtain ⟨call, hcall, -, hway⟩ := hinvariant.server.progress index request hrequest
      rw [hcalling] at hway
      cases hway with
      | calling hreaches => exact ⟨call, hcall, hreaches⟩
    once := hinvariant.nodup_seqs.sublist hinvariant.completed_prefix.sublist
    result := fun completion hcompletion ↦ hinvariant.result hcompletion }

/-- A run of good calls has at most seven steps for each. -/
theorem rpcRun_length_le
    (hrun : (rpcLinkSystem stops environment).RunWhen (Cooperates environment) actions link) :
    actions.length ≤ 7 * link.calls.length := by
  obtain ⟨sent, read, hinvariant, hwork⟩ := rpcLinkInvariant_of_run hrun
  have hsent := hinvariant.sent_le.1
  have hrequests := hinvariant.server.few
  have hwritten := hinvariant.written_le
  have hread := hinvariant.client.few
  have hcompleted := hinvariant.completed_prefix.length_le
  rw [List.length_map, List.length_map] at hcompleted
  have hreadings : link.server.readings ≤ 2 * link.server.requests.length := by
    rcases hinvariant.server.loop with hheader | hbody
    · exact hheader.readings.le
    · have hreading := hbody.readings
      omega
  rw [← hwork]
  unfold rpcWork
  omega

/-- A run of good calls has at most seven steps for each; and when it can go on only with a new
call, every call is done, none is pending, and none was refused. -/
theorem rpcDone_of_run
    (hrun : (rpcLinkSystem stops environment).RunWhen (Cooperates environment) actions link) :
    actions.length ≤ 7 * link.calls.length ∧ (RpcQuiet stops environment link →
      (∀ index < link.calls.length, seqOf index ∈ link.client.completed.map Completion.seq) ∧
        link.client.pending.calls = [] ∧ link.refused = []) := by
  refine ⟨rpcRun_length_le hrun, fun hquiet ↦ ?_⟩
  obtain ⟨sent, read, hinvariant, -⟩ := rpcLinkInvariant_of_run hrun
  have hclient : ∀ action, clientStep stops environment.unmarshal link.client action = none := by
    intro action
    simpa [rpcLinkStep] using hquiet (.input action) (by simp)
  have hserver : ∀ action, serverStep environment link.server action = none := by
    intro action
    simpa [rpcLinkStep] using hquiet (.serve action) (by simp)
  have hsending : link.sending = none := by
    rcases hinvariant.write with ⟨-, hnone⟩ | ⟨next, msg, hwrite, -⟩
    · exact hnone
    · have hstuck := hquiet .write (by simp)
      simp [rpcLinkStep, hinvariant.client.noPanic, hwrite] at hstuck
  have hlength : link.calls.length = sent.length := by
    have hsent := hinvariant.sending
    unfold Sending at hsent
    rwa [hsending] at hsent
  have hanswered : ∀ index < link.calls.length, index ∈ link.server.written.map Prod.fst := by
    intro index hindex
    rw [hlength] at hindex
    exact hinvariant.server.all_answered hinvariant.requests hinvariant.good hserver hindex
  obtain ⟨hread, hcompleted⟩ := hinvariant.client.all_done hinvariant.understood
    hinvariant.server.once hinvariant.bounded hclient
  refine ⟨?_, ?_, hinvariant.accepted⟩
  · intro index hindex
    obtain ⟨frame, hframe, rfl⟩ := List.mem_map.mp (hanswered index hindex)
    rw [hcompleted]
    exact List.mem_map.mpr ⟨frame, hframe, rfl⟩
  · refine List.eq_nil_iff_forall_not_mem.mpr fun call hcall ↦ ?_
    obtain ⟨index, found, hfound, hunread, -⟩ := (hinvariant.client.pending call).mp hcall
    rw [hread, List.take_length] at hunread
    exact hunread (hanswered index (List.getElem?_eq_some_iff.mp hfound).1)

end Runs

/-! ### Two calls whose methods return in the other order -/

/-- The requests of two calls and the responses to them, each with its serialized form. -/
def addFrames : List (RpcMessage × Bytes) :=
  [(requestMessage "Arith" "Add" 0 [0x08, 7], addBody),
    (requestMessage "Arith" "Add" 1 [0x08, 7], addBody.set 3 1),
    (responseMessage 0 [0x08, 9], replyBody), (responseMessage 1 [0x08, 9], replyBody.set 3 1)]

/-- A server that has the service. -/
def arithService : ServerEnvironment Unit UInt8 :=
  { oneService "Arith" with
    unmarshal := fun bytes ↦
      match addFrames.find? fun frame ↦ frame.2 = bytes with
      | some frame => (frame.1, none)
      | none => ({}, some "unexpected EOF")
    marshalMessage := fun msg ↦
      match addFrames.find? fun frame ↦ frame.1 = msg with
      | some frame => .ok frame.2
      | none => .error "proto: required field not set" }

/-- The call. -/
def addCall : Call UInt8 where
  serviceMethod := "Arith.Add"
  args := some 7
  reply := some numberReply

theorem travels_addFrames {msg : RpcMessage} {body : Bytes} (hframe : (msg, body) ∈ addFrames) :
    Travels arithService msg := by
  refine ⟨body, ?_⟩
  fin_cases hframe <;> decide +kernel

theorem goodCall_addCall {seq : BitVec 64}
    (htravels : Travels arithService (requestMessage "Arith" "Add" seq [0x08, 7])) :
    GoodCall arithService addCall seq := by
  have hreaches : Reaches arithService addCall () 7 :=
    ⟨by decide +kernel, 7, [0x08, 7], _, rfl, rfl, rfl, rfl⟩
  refine ⟨"Arith", "Add", (), 7, by decide +kernel, by decide +kernel, hreaches, ?_⟩
  rintro args bytes hargs hmarshal
  cases hargs
  cases hmarshal
  exact htravels

theorem goodReply_addCall {seq : BitVec 64}
    (htravels : Travels arithService (responseMessage seq [0x08, 9])) :
    GoodReply arithService addCall seq 9 := by
  refine ⟨⟨9, [0x08, 9], _, rfl, rfl, rfl⟩, ?_⟩
  rintro bytes hmarshal
  cases hmarshal
  exact htravels

/-- The client and the server after some steps. -/
def afterSteps (actions : List (RpcLinkAction UInt8)) : RpcLink Unit UInt8 :=
  let system := rpcLinkSystem false arithService
  (system.execute system.start actions).getD system.start

/-- No call, and no method that returns. -/
def isPlain : RpcLinkAction UInt8 → Bool
  | .register _ => false
  | .serve (.finish _ _ _) => false
  | _ => true

theorem cooperates_of_isPlain (link : RpcLink Unit UInt8) (action : RpcLinkAction UInt8)
    (hplain : isPlain action = true) : Cooperates arithService link action := by
  cases action with
  | register call => cases hplain
  | serve action =>
    cases action with
    | finish index errmsg reply => cases hplain
    | _ => trivial
  | _ => trivial

/-- Two calls are made, their requests written and read. -/
def bothCalled : List (RpcLinkAction UInt8) :=
  [.register addCall, .write, .register addCall, .write, .serve .header, .serve .body,
    .serve .header, .serve .body]

/-- The method that was called last returns first, and both replies are read. -/
def bothAnswered : List (RpcLinkAction UInt8) :=
  bothCalled ++ [.serve (.finish 1 "" (some 9)), .serve (.finish 0 "" (some 9)), .input .header,
    .input .body, .input .header, .input .body]

theorem run_bothCalled : (rpcLinkSystem false arithService).RunWhen (Cooperates arithService)
    bothCalled (afterSteps bothCalled) := by
  have hfirst : (rpcLinkSystem false arithService).RunWhen (Cooperates arithService)
      ([] ++ [.register addCall]) (afterSteps [.register addCall]) :=
    .step .start ⟨goodCall_addCall (travels_addFrames (.head _)), by decide⟩ rfl
  have hwritten : (rpcLinkSystem false arithService).RunWhen (Cooperates arithService)
      ([.register addCall] ++ [.write]) (afterSteps [.register addCall, .write]) :=
    hfirst.extend cooperates_of_isPlain rfl
  have hsecond : (rpcLinkSystem false arithService).RunWhen (Cooperates arithService)
      ([.register addCall, .write] ++ [.register addCall])
      (afterSteps [.register addCall, .write, .register addCall]) :=
    .step hwritten ⟨goodCall_addCall (travels_addFrames (.tail _ (.head _))), by decide +kernel⟩
      rfl
  exact hsecond.extend cooperates_of_isPlain rfl

theorem run_bothAnswered : (rpcLinkSystem false arithService).RunWhen (Cooperates arithService)
    bothAnswered (afterSteps bothAnswered) := by
  have hlater : (rpcLinkSystem false arithService).RunWhen (Cooperates arithService)
      (bothCalled ++ [.serve (.finish 1 "" (some 9))])
      (afterSteps (bothCalled ++ [.serve (.finish 1 "" (some 9))])) :=
    .step run_bothCalled ⟨rfl, addCall, 9, rfl, rfl,
      goodReply_addCall (travels_addFrames (.tail _ (.tail _ (.tail _ (.head _)))))⟩ rfl
  have hearlier : (rpcLinkSystem false arithService).RunWhen (Cooperates arithService)
      (bothCalled ++ [.serve (.finish 1 "" (some 9)), .serve (.finish 0 "" (some 9))])
      (afterSteps (bothCalled ++
        [.serve (.finish 1 "" (some 9)), .serve (.finish 0 "" (some 9))])) :=
    .step hlater ⟨rfl, addCall, 9, rfl, rfl,
      goodReply_addCall (travels_addFrames (.tail _ (.tail _ (.head _))))⟩ rfl
  exact hearlier.extend cooperates_of_isPlain rfl

/-- Both calls are done, the later one first. -/
theorem rpcGuarantees_bothAnswered :
    (rpcLinkSystem false arithService).RunWhen (Cooperates arithService) bothAnswered
      (afterSteps bothAnswered) ∧
    (afterSteps bothAnswered).client.completed.map Completion.seq = [1, 0] ∧
      RpcGuarantees arithService (afterSteps bothAnswered) :=
  ⟨run_bothAnswered, by decide +kernel, rpcGuarantees_of_run run_bothAnswered⟩

theorem rpcQuiet_bothAnswered : RpcQuiet false arithService (afterSteps bothAnswered) := by
  intro action hnew
  cases action with
  | register call => exact absurd rfl (hnew call)
  | write => rfl
  | input action => cases action <;> rfl
  | serve action =>
    cases action with
    | finish index errmsg reply =>
      rcases index with _ | _ | index <;> rfl
    | _ => rfl

/-- After fourteen steps nothing is left to do for the two. -/
theorem rpcDone_bothAnswered :
    (rpcLinkSystem false arithService).RunWhen (Cooperates arithService) bothAnswered
      (afterSteps bothAnswered) ∧
    bothAnswered.length ≤ 7 * (afterSteps bothAnswered).calls.length ∧
      (∀ index < (afterSteps bothAnswered).calls.length,
        seqOf index ∈ (afterSteps bothAnswered).client.completed.map Completion.seq) ∧
      (afterSteps bothAnswered).client.pending.calls = [] ∧
        (afterSteps bothAnswered).refused = [] := by
  obtain ⟨hlength, hdone⟩ := rpcDone_of_run run_bothAnswered
  exact ⟨run_bothAnswered, hlength, hdone rpcQuiet_bothAnswered⟩

end MuduoProtorpc.GoRpc
