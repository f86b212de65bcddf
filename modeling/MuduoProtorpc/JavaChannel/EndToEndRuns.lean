import MuduoProtorpc.JavaChannel.EndToEnd

/-!
# Runs of Java calls

Whatever the order of the steps: each call of a cooperating client has its service called at most
once, and what it returns is what that service has returned (`blockingGuarantees_of_run`). While the
connection is up, the only calls that wait when nothing more can happen are those whose service has
not run its callback (`waiting_of_run`): no wake-up is lost between the I/O thread and the monitors.
-/

set_option autoImplicit false
set_option relaxedAutoImplicit false

namespace MuduoProtorpc.JavaChannel

open Foundation

variable {Prototype Service Method Message : Type}
  {mergeFrom : Prototype → Bytes → Except String Message}
  {services : Services Service Method Message}
  {link moved : Link Prototype Service Method Message} {index : ℕ}

/-! ### Every run -/

theorem linkInvariant_start : LinkInvariant mergeFrom services
    (linkSystem mergeFrom services : TransitionSystem (Link Prototype Service Method Message)
      (LinkAction Prototype Message)).start where
  wakeups := wakeupInvariant_initial
  requests := writesOnce_initial
  results := resultsRight_initial _
  server := {
    accounted := fun index served hserved ↦ by cases hserved
    written := fun reply hreply ↦ by cases hreply }
  callable := fun header hheader ↦ by cases hheader
  arrived := Nat.zero_le _
  served := rfl
  received := Nat.zero_le _
  processed := rfl
  replies := fun position message hreply ↦ by cases hreply

theorem linkStep_client {action : ChannelAction Prototype}
    (hreceive : ∀ message, action ≠ .receive message) :
    linkStep mergeFrom services link (.client action) =
      (channelStep mergeFrom link.client action).map fun client ↦ { link with
        client := client
        prototypes := link.prototypes ++ action.prototypes } := by
  cases action with
  | receive message => exact absurd rfl (hreceive message)
  | _ => rfl

theorem LinkInvariant.step (hinvariant : LinkInvariant mergeFrom services link)
    {action : LinkAction Prototype Message}
    (hcooperates : Cooperates mergeFrom services link action)
    (hstep : linkStep mergeFrom services link action = some moved) :
    LinkInvariant mergeFrom services moved := by
  cases action with
  | client action =>
    cases action with
    | receive message => cases hstep
    | call service method request responsePrototype =>
      rw [linkStep_client (by simp)] at hstep
      obtain ⟨next, hnext, rfl⟩ := Option.map_eq_some_iff.mp hstep
      exact hinvariant.newCall hcooperates.1 hcooperates.2 hnext
    | _ =>
      rw [linkStep_client (by simp)] at hstep
      obtain ⟨next, hnext, rfl⟩ := Option.map_eq_some_iff.mp hstep
      simp only [ChannelAction.prototypes, List.append_nil]
      exact hinvariant.inside (by trivial) hnext
  | request =>
    simp only [linkStep] at hstep
    split at hstep
    · rename_i message hmessage
      obtain ⟨server, hserver, rfl⟩ := Option.map_eq_some_iff.mp hstep
      exact hinvariant.request hmessage hserver
    · cases hstep
  | callback position response =>
    obtain ⟨server, hserver, rfl⟩ := Option.map_eq_some_iff.mp hstep
    exact hinvariant.callback hcooperates hserver
  | reply =>
    simp only [linkStep] at hstep
    split at hstep
    · rename_i position message hreply
      obtain ⟨next, hnext, rfl⟩ := Option.map_eq_some_iff.mp hstep
      exact hinvariant.reply hreply hnext
    · cases hstep

theorem linkInvariant_of_run {actions : List (LinkAction Prototype Message)}
    (hrun : (linkSystem mergeFrom services).RunWhen (Cooperates mergeFrom services) actions link) :
    LinkInvariant mergeFrom services link :=
  hrun.invariant linkInvariant_start fun _ _ _ hcooperates hstep hbefore ↦
    hbefore.step hcooperates hstep

/-- What the calls of a cooperating client are guaranteed. -/
structure BlockingGuarantees (mergeFrom : Prototype → Bytes → Except String Message)
    (services : Services Service Method Message) (link : Link Prototype Service Method Message) :
    Prop where
  /-- No request makes the server throw. -/
  noException : ∀ served ∈ link.server.served, ∀ text, served.progress ≠ .threw text
  /-- The server gets the requests of the calls, each at most once. -/
  asked : ∀ served ∈ link.server.served, served.message ∈ link.client.messages
  once : (link.server.served.map Served.message).Nodup
  /-- A call returns what a service has returned to its own request. -/
  answered : ∀ (index : ℕ) call response, link.client.calls[index]? = some call →
    call.phase = .returned (some response) → AnswerTo mergeFrom services link index response
  /-- A call returns nothing only after the connection was lost. -/
  empty : ∀ call ∈ link.client.calls, call.phase = .returned none → link.client.connected = false

theorem blockingGuarantees_of_run {actions : List (LinkAction Prototype Message)}
    (hrun : (linkSystem mergeFrom services).RunWhen (Cooperates mergeFrom services) actions link) :
    BlockingGuarantees mergeFrom services link := by
  have hinvariant := linkInvariant_of_run hrun
  exact {
    noException := by
      intro served hserved text hthrew
      obtain ⟨position, hposition⟩ := List.getElem?_of_mem hserved
      have haccounted := hinvariant.server.accounted position served hposition
      obtain ⟨header, hheader, hsame⟩ := List.mem_map.mp (hinvariant.mem_messages hserved)
      rw [Accounted, hthrew] at haccounted
      exact haccounted.1 (hsame ▸ hinvariant.callable header hheader)
    asked := fun served hserved ↦ hinvariant.mem_messages hserved
    once := by
      rw [hinvariant.served]
      exact hinvariant.requests.once.sublist (List.take_sublist _ _)
    answered := fun index call response hcall hphase ↦
      hinvariant.results.results index call response hcall (Or.inr hphase)
    empty := by
      intro call hcall hphase
      obtain ⟨index, hindex⟩ := List.getElem?_of_mem hcall
      exact hinvariant.results.empty index call hindex (Or.inr hphase) }

/-! ### Who waits for whom -/

/-- What a program, a service, the network or the virtual machine does: a call, an answer, a loss of
the connection, an interrupt. -/
def FromOutside : LinkAction Prototype Message → Prop
  | .client (.call _ _ _ _) => True
  | .client .disconnect => True
  | .client (.thread _ .interrupt) => True
  | .callback _ _ => True
  | _ => False

/-- Neither channel can do anything by itself. -/
def AtRest (mergeFrom : Prototype → Bytes → Except String Message)
    (services : Services Service Method Message) (link : Link Prototype Service Method Message) :
    Prop :=
  ∀ action, linkStep mergeFrom services link action ≠ none → FromOutside action

/-- No step is left to a client at rest but those from outside. -/
theorem AtRest.client (hrest : AtRest mergeFrom services link) (action : ChannelAction Prototype)
    (hinside : action.Inside)
    (houtside : ¬ FromOutside (.client action : LinkAction Prototype Message)) :
    channelStep mergeFrom link.client action = none := by
  by_contra hnone
  refine houtside (hrest (.client action) ?_)
  have hreceive : ∀ message, action ≠ .receive message := by
    rintro message rfl
    exact hinside
  rw [linkStep_client hreceive]
  simpa using hnone

/-- The thread of a call has returned or waits. -/
theorem AtRest.phase (hrest : AtRest mergeFrom services link)
    {call : BlockingCall Prototype Message} (hcall : link.client.calls[index]? = some call) :
    call.phase = .waiting ∨ ∃ response, call.phase = .returned response := by
  have hthread : ∀ event : CallEvent, event ≠ .interrupt →
      callStep link.client.connected call event = none := by
    intro event hevent
    have hnone := hrest.client (.thread index event) trivial
      (by cases event <;> simp [FromOutside] at hevent ⊢)
    simpa [channelStep, hcall] using hnone
  cases hphase : call.phase with
  | taken prototype =>
    have hnone := hrest.client (.put index) trivial id
    simp [channelStep, hcall, hphase] at hnone
  | registered =>
    have hnone := hrest.client (.write index) trivial id
    simp [channelStep, hcall, hphase] at hnone
  | written => simpa [callStep, hphase] using hthread .enter (by simp)
  | testing =>
    have hnone := hthread .test (by simp)
    simp only [callStep, hphase] at hnone
    split_ifs at hnone
  | blocking => simpa [callStep, hphase] using hthread .wait (by simp)
  | waiting => exact Or.inl rfl
  | notified => simpa [callStep, hphase] using hthread .enter (by simp)
  | leaving => simpa [callStep, hphase] using hthread .leave (by simp)
  | returned response => exact Or.inr ⟨response, rfl⟩

/-- The I/O thread of a client that is connected has nothing to do. -/
theorem AtRest.idle (hrest : AtRest mergeFrom services link)
    (hinvariant : LinkInvariant mergeFrom services link)
    (hconnected : link.client.connected = true) : link.client.io = .idle := by
  cases hio : link.client.io with
  | idle => rfl
  | running message done resp =>
    have hhanded := hinvariant.wakeups.handed message done resp hio
    rw [CallingChannel.ids, List.getElem?_map] at hhanded
    obtain ⟨call, hcall, -⟩ := Option.map_eq_some_iff.mp hhanded
    have hmonitor : call.phase.inMonitor = false := by
      rcases hrest.phase hcall with hphase | ⟨response, hphase⟩ <;> rw [hphase] <;> rfl
    have hnone := hrest.client .run trivial id
    simp [channelStep, hio, hcall, hmonitor] at hnone
  | notifying remaining =>
    exact absurd hio ((hinvariant.wakeups.connected hconnected).2 remaining)

/-- All requests have arrived. -/
theorem AtRest.arrived (hrest : AtRest mergeFrom services link)
    (hinvariant : LinkInvariant mergeFrom services link) :
    link.client.written.take link.arrived = link.client.written := by
  refine List.take_of_length_le (not_lt.mp fun hlt ↦ ?_)
  have hmessage := List.getElem?_eq_getElem hlt
  obtain ⟨header, hheader, hsame, -⟩ :=
    (hinvariant.requests.written _).mp (List.mem_of_getElem? hmessage)
  obtain ⟨other, hother⟩ := List.getElem?_of_mem hheader
  obtain ⟨-, hid, htype⟩ := hinvariant.requests.drawn other header hother
  have hinitialized : link.client.written[link.arrived].isInitialized = true := by
    rw [← hsame, RpcMessage.isInitialized, hid, htype]
    rfl
  refine hrest .request ?_
  simp only [linkStep, hmessage, serverStep, hinitialized, if_true]
  split_ifs <;> simp

/-- All replies were received. -/
theorem AtRest.received (hrest : AtRest mergeFrom services link)
    (hinvariant : LinkInvariant mergeFrom services link)
    (hconnected : link.client.connected = true) :
    link.client.processed = link.server.written.map Prod.snd := by
  have hidle := hrest.idle hinvariant hconnected
  have hprocessed := hinvariant.processed
  have hall : link.server.written.length ≤ link.received := by
    refine not_lt.mp fun hlt ↦ ?_
    have hreply := List.getElem?_eq_getElem hlt
    have hwritten : (link.server.written[link.received].1, link.server.written[link.received].2) ∈
        link.server.written := List.mem_of_getElem? hreply
    obtain ⟨served, reply, -, -, -, hmessage, -⟩ := hinvariant.reply_cases hwritten
    have hinitialized : link.server.written[link.received].2.isInitialized = true := by
      rw [hmessage]
      rfl
    refine hrest .reply ?_
    simp [linkStep, hreply, channelStep, hidle, hinitialized]
  rw [List.take_of_length_le (by rwa [List.length_map])] at hprocessed
  rw [← hprocessed, CallingChannel.inHand, hidle]
  exact (List.append_nil _).symm

/-- The request of a call that waits is with a service. -/
theorem AtRest.invoked (hrest : AtRest mergeFrom services link)
    (hinvariant : LinkInvariant mergeFrom services link)
    (hconnected : link.client.connected = true) {call : BlockingCall Prototype Message}
    (hcall : link.client.calls[index]? = some call) (hwaiting : call.phase = .waiting) :
    ∃ served ∈ link.server.served, served.message = call.message ∧
      ∃ service method request, served.progress = .invoked service method request call.id := by
  have hheader := getElem?_headers hcall
  obtain ⟨-, hmessageId, -⟩ := hinvariant.requests.drawn index _ hheader
  have hid : call.message.getId = call.id := by
    rw [RpcMessage.getId]
    exact (congrArg (Option.getD · 0) hmessageId).trans rfl
  have hwritten : call.message ∈ link.client.written := by
    refine (hinvariant.requests.written _).mpr ⟨_, List.mem_of_getElem? hheader, rfl, ?_⟩
    simp [BlockingCall.header, hwaiting, CallPhase.sent]
  rw [← hrest.arrived hinvariant, ← hinvariant.served] at hwritten
  obtain ⟨served, hserved, hsame⟩ := List.mem_map.mp hwritten
  obtain ⟨position, hposition⟩ := List.getElem?_of_mem hserved
  refine ⟨served, hserved, hsame, ?_⟩
  have haccounted := hinvariant.server.accounted position served hposition
  rw [Accounted] at haccounted
  cases hprogress : served.progress with
  | invoked service method request id =>
    rw [hprogress] at haccounted
    refine ⟨service, method, request, ?_⟩
    rw [haccounted.2.1, hsame, hid]
  | finished response =>
    -- the reply was processed, so the call cannot wait for it
    rw [hprogress] at haccounted
    obtain ⟨-, reply, hreplies, hright⟩ := haccounted
    have hbefore := hinvariant.wakeups.calls index call hcall
    have hawaited := hbefore.awaited {
      noResponse := hbefore.early (Or.inr (Or.inr hwaiting))
      notPast := by simp [hwaiting, CallPhase.Past]
      condition := Or.inr (Or.inr hwaiting) }
    have hprocessed : reply ∈ link.client.processed := by
      have hmem : reply ∈ link.server.repliesTo position := by
        rw [hreplies]
        exact List.mem_singleton_self reply
      obtain ⟨pair, hpair, rfl⟩ := List.mem_map.mp hmem
      rw [hrest.received hinvariant hconnected]
      exact List.mem_map_of_mem (List.mem_of_mem_filter hpair)
    refine absurd ?_ (hawaited.unanswered reply hprocessed)
    rw [RpcMessage.getId, hright.id, Option.getD_some, hsame, hid]
  | refused =>
    rw [hprogress] at haccounted
    exact haccounted.elim
  | threw text =>
    rw [hprogress] at haccounted
    obtain ⟨header, hold, hequal⟩ := List.mem_map.mp (hinvariant.mem_messages hserved)
    exact absurd (hequal ▸ hinvariant.callable header hold) haccounted.1

/-- While the connection is up and neither end can do anything by itself, a call has returned with a
response, or its thread waits and its service has not run the callback. -/
theorem waiting_of_run {actions : List (LinkAction Prototype Message)}
    (hrun : (linkSystem mergeFrom services).RunWhen (Cooperates mergeFrom services) actions link)
    (hconnected : link.client.connected = true) (hrest : AtRest mergeFrom services link)
    {call : BlockingCall Prototype Message} (hcall : link.client.calls[index]? = some call) :
    (∃ response, call.phase = .returned (some response)) ∨
      (call.phase = .waiting ∧ ∃ served ∈ link.server.served, served.message = call.message ∧
        ∃ service method request,
          served.progress = .invoked service method request call.id) := by
  have hinvariant := linkInvariant_of_run hrun
  rcases hrest.phase hcall with hwaiting | ⟨response, hreturned⟩
  · exact Or.inr ⟨hwaiting, hrest.invoked hinvariant hconnected hcall hwaiting⟩
  · cases response with
    | some response => exact Or.inl ⟨response, hreturned⟩
    | none =>
      have hlost := hinvariant.results.empty index call hcall (Or.inr hreturned)
      rw [hconnected] at hlost
      cases hlost

/-! ### Two threads, whose requests overtake each other -/

/-- The two channels after some steps. -/
def afterSteps (actions : List (LinkAction Unit UInt8)) : Link Unit Unit Unit UInt8 :=
  let system := linkSystem oneByte solveOnly
  (system.execute system.start actions).getD system.start

/-- No call, and no service that returns. -/
def LinkAction.isPlain : LinkAction Unit UInt8 → Bool
  | .client (.call _ _ _ _) => false
  | .callback _ _ => false
  | _ => true

theorem cooperates_of_isPlain (link : Link Unit Unit Unit UInt8) (action : LinkAction Unit UInt8)
    (hplain : action.isPlain = true) : Cooperates oneByte solveOnly link action := by
  cases action with
  | client action =>
    cases action with
    | call service method request responsePrototype => cases hplain
    | _ => trivial
  | callback position response => cases hplain
  | _ => trivial

/-- A byte that a service returns parses. -/
theorem parses_byte (link : Link Unit Unit Unit UInt8) (message : RpcMessage) (byte : UInt8) :
    Parses oneByte solveOnly link message byte :=
  fun _ _ _ _ ↦ ⟨byte, rfl⟩

/-- The thread of a call, up to the wait set. -/
def park (index : ℕ) : List (LinkAction Unit UInt8) :=
  [.client (.put index), .client (.write index), .client (.thread index .enter),
    .client (.thread index .test), .client (.thread index .wait)]

/-- A reply, and the thread of its call. -/
def wake (index : ℕ) : List (LinkAction Unit UInt8) :=
  [.reply, .client .run, .client (.thread index .enter), .client (.thread index .test),
    .client (.thread index .leave)]

/-- The call of a thread. -/
def solveCall (byte : UInt8) : LinkAction Unit UInt8 :=
  .client (.call "sudoku.SudokuService" "Solve" [byte] ())

/-- Two calls are made, the second is written first, and both requests arrive. -/
def bothWait : List (LinkAction Unit UInt8) :=
  [solveCall 7, solveCall 8] ++ (park 1 ++ park 0 ++ [.request, .request])

/-- The second call has returned. -/
def oneWaits : List (LinkAction Unit UInt8) :=
  bothWait ++ [.callback 0 (some 4)] ++ wake 1

/-- The first one has returned, too. -/
def noneWaits : List (LinkAction Unit UInt8) :=
  oneWaits ++ [.callback 1 (some 9)] ++ wake 0

theorem run_bothWait : (linkSystem oneByte solveOnly).RunWhen (Cooperates oneByte solveOnly)
    bothWait (afterSteps bothWait) := by
  have hfirst : (linkSystem oneByte solveOnly).RunWhen (Cooperates oneByte solveOnly)
      ([] ++ [solveCall 7]) (afterSteps [solveCall 7]) :=
    .step .start ⟨by decide, (), (), 7, rfl, rfl, rfl⟩ rfl
  have hsecond : (linkSystem oneByte solveOnly).RunWhen (Cooperates oneByte solveOnly)
      ([solveCall 7] ++ [solveCall 8]) (afterSteps [solveCall 7, solveCall 8]) :=
    .step hfirst ⟨by decide, (), (), 8, rfl, rfl, rfl⟩ rfl
  exact hsecond.extend cooperates_of_isPlain rfl

theorem run_oneWaits : (linkSystem oneByte solveOnly).RunWhen (Cooperates oneByte solveOnly)
    oneWaits (afterSteps oneWaits) := by
  have hreturned : (linkSystem oneByte solveOnly).RunWhen (Cooperates oneByte solveOnly)
      (bothWait ++ [.callback 0 (some 4)]) (afterSteps (bothWait ++ [.callback 0 (some 4)])) :=
    .step run_bothWait (fun _ _ ↦ ⟨4, rfl, parses_byte _ _ 4⟩) rfl
  exact hreturned.extend cooperates_of_isPlain rfl

theorem run_noneWaits : (linkSystem oneByte solveOnly).RunWhen (Cooperates oneByte solveOnly)
    noneWaits (afterSteps noneWaits) := by
  have hreturned : (linkSystem oneByte solveOnly).RunWhen (Cooperates oneByte solveOnly)
      (oneWaits ++ [.callback 1 (some 9)]) (afterSteps (oneWaits ++ [.callback 1 (some 9)])) :=
    .step run_oneWaits (fun _ _ ↦ ⟨9, rfl, parses_byte _ _ 9⟩) rfl
  exact hreturned.extend cooperates_of_isPlain rfl

/-- The responses of the two calls. -/
def returnedResponses (link : Link Unit Unit Unit UInt8) : List (Option UInt8) :=
  link.client.calls.map fun call ↦
    match call.phase with
    | .returned response => response
    | _ => none

/-- Each call has returned what its own service has returned. -/
theorem blockingGuarantees_noneWaits :
    (linkSystem oneByte solveOnly).RunWhen (Cooperates oneByte solveOnly) noneWaits
      (afterSteps noneWaits) ∧
    returnedResponses (afterSteps noneWaits) = [some 9, some 4] ∧
      BlockingGuarantees oneByte solveOnly (afterSteps noneWaits) :=
  ⟨run_noneWaits, by decide +kernel, blockingGuarantees_of_run run_noneWaits⟩

theorem atRest_oneWaits : AtRest oneByte solveOnly (afterSteps oneWaits) := by
  intro action hstep
  by_contra houtside
  refine hstep ?_
  cases action with
  | client action =>
    cases action with
    | call service method request responsePrototype => exact absurd trivial houtside
    | disconnect => exact absurd trivial houtside
    | thread index event =>
      cases event with
      | interrupt => exact absurd trivial houtside
      | _ => rcases index with _ | _ | index <;> rfl
    | put index => rcases index with _ | _ | index <;> rfl
    | write index => rcases index with _ | _ | index <;> rfl
    | _ => rfl
  | callback position response => exact absurd trivial houtside
  | _ => rfl

/-- The second call has returned, and the first one waits for its service. -/
theorem waiting_oneWaits : ∃ first second,
    (linkSystem oneByte solveOnly).RunWhen (Cooperates oneByte solveOnly) oneWaits
      (afterSteps oneWaits) ∧
    (afterSteps oneWaits).client.calls = [first, second] ∧ first.phase = .waiting ∧
      ((∃ response, first.phase = .returned (some response)) ∨
        (first.phase = .waiting ∧ ∃ served ∈ (afterSteps oneWaits).server.served,
          served.message = first.message ∧ ∃ service method request,
            served.progress = .invoked service method request first.id)) := by
  have hfirst : (afterSteps oneWaits).client.calls[0]? =
      some (afterSteps oneWaits).client.calls[0] :=
    rfl
  exact ⟨_, _, run_oneWaits, rfl, rfl, waiting_of_run run_oneWaits rfl atRest_oneWaits hfirst⟩

end MuduoProtorpc.JavaChannel
