import MuduoProtorpc.JavaChannel.BlockingCall

/-!
# Threads that wait for a reply of the Java channel

A blocking call is stuck when its thread waits although a reply with its identifier was processed or
`disconnected()` has returned: no one is left to notify it. `MayWait` says of a call that its thread
waits, or can still come to wait; `Awaited` is what has to hold of such a call, so that someone is.

No call is stuck (`neverStuck_of_run`) as long as each reply to a call that may wait is a RESPONSE
that finds the entry of the call and parses (`RepliesWell`), and identifiers are new when they are
handed out. An ERROR is ignored, and a RESPONSE that does not parse takes the entry of its call away
and leaves the call waiting (`not_neverStuck_of_error`).
-/

set_option autoImplicit false
set_option relaxedAutoImplicit false

namespace MuduoProtorpc.JavaChannel

open Foundation

variable {Prototype Message : Type}

/-! ### Calls that may wait -/

/-- The thread waits, or is about to. -/
def CallPhase.AtWait (phase : CallPhase Prototype Message) : Prop :=
  phase = .blocking ∨ phase = .waiting

/-- The thread is behind the loop. -/
def CallPhase.Past (phase : CallPhase Prototype Message) : Prop :=
  phase = .leaving ∨ ∃ response, phase = .returned response

/-- The call is not in the table yet. -/
def CallPhase.Unregistered (phase : CallPhase Prototype Message) : Prop :=
  ∃ responsePrototype, phase = .taken responsePrototype

/-- The thread of a call waits, or can still find the loop condition true. -/
structure MayWait (connected : Bool) (call : BlockingCall Prototype Message) : Prop where
  noResponse : call.response = none
  notPast : ¬ call.phase.Past
  condition : connected = true ∨ call.phase.AtWait

/-- A reply to a call that may wait is a RESPONSE that finds an entry and parses, and an identifier
that is handed out was neither handed out before nor in a reply. -/
def RepliesWell (mergeFrom : Prototype → Bytes → Except String Message)
    (channel : CallingChannel Prototype Message) : ChannelAction Prototype → Prop
  | .call _ _ _ _ => (∀ call ∈ channel.calls, call.id ≠ channel.id) ∧
      ∀ reply ∈ channel.processed, reply.getId ≠ channel.id
  | .receive message => message.getType ≠ .request →
      ∀ call ∈ channel.calls, call.id = message.getId → MayWait channel.connected call →
        message.getType = .response ∧ ∃ o response,
          channel.outstandings.find message.getId = some o ∧
            fromByteString (mergeFrom o.responsePrototype) message.getResponse = some response
  | _ => True

/-- No call waits for which a reply was processed, or after `disconnected()` has returned. -/
def NeverStuck (channel : CallingChannel Prototype Message) : Prop :=
  ∀ call ∈ channel.calls, call.phase = .waiting →
    (∀ reply ∈ channel.processed, reply.getId ≠ call.id) ∧ channel.completed = false

/-! ### The invariant -/

/-- A call that may wait: no reply to it was processed, it will be or is in the table, or the I/O
thread is about to hand its response over; `disconnected()` has not returned, and when it runs it
will get to the call. -/
structure Awaited (channel : CallingChannel Prototype Message) (index : ℕ)
    (call : BlockingCall Prototype Message) : Prop where
  unanswered : ∀ reply ∈ channel.processed, reply.getId ≠ call.id
  expected : call.phase.Unregistered ∨
    (∃ o, channel.outstandings.find call.id = some o) ∨
      ∃ message response, channel.io = .running message index (some response)
  notCompleted : channel.completed = false
  remaining : ∀ remaining, channel.io = .notifying remaining → index ∈ remaining

/-- What holds of each call. -/
structure CallInvariant (channel : CallingChannel Prototype Message) (index : ℕ)
    (call : BlockingCall Prototype Message) : Prop where
  early : call.phase.Unregistered ∨ call.phase.AtWait → call.response = none
  entered : ∀ o, channel.outstandings.find call.id = some o →
    o.done = index ∧ call.response = none ∧ ¬ call.phase.Unregistered
  running : ∀ message done response, channel.io = .running message done response →
    (call.id = message.getId ↔ index = done) ∧ (index = done →
      call.response = none ∧ ¬ call.phase.Unregistered ∧
        channel.outstandings.find call.id = none)
  awaited : MayWait channel.connected call → Awaited channel index call

/-- The identifiers of the calls. -/
def CallingChannel.ids (channel : CallingChannel Prototype Message) : List (BitVec 64) :=
  channel.calls.map BlockingCall.id

/-- The invariant of the channel. -/
structure WakeupInvariant (channel : CallingChannel Prototype Message) : Prop where
  calls : ∀ index call, channel.calls[index]? = some call → CallInvariant channel index call
  distinct : channel.ids.Nodup
  entries : ∀ id o, channel.outstandings.find id = some o → channel.ids[o.done]? = some id
  handed : ∀ message done response, channel.io = .running message done response →
    channel.ids[done]? = some message.getId
  connected : channel.connected = true →
    channel.completed = false ∧ ∀ remaining, channel.io ≠ .notifying remaining

section Calls

variable {mergeFrom : Prototype → Bytes → Except String Message}
  {channel next : CallingChannel Prototype Message} {action : ChannelAction Prototype}
  {index other : ℕ} {call moved : BlockingCall Prototype Message}

theorem getElem?_ids (hcall : channel.calls[index]? = some call) :
    channel.ids[index]? = some call.id := by
  rw [CallingChannel.ids, List.getElem?_map, hcall]
  rfl

/-- A call that changes keeps its identifier. -/
theorem ids_setCall (hcall : channel.calls[index]? = some call) (hid : moved.id = call.id) :
    (channel.setCall index moved).ids = channel.ids := by
  apply List.ext_getElem?
  intro other
  by_cases heq : other = index
  · subst heq
    obtain ⟨hlt, -⟩ := List.getElem?_eq_some_iff.mp hcall
    rw [getElem?_ids hcall, ← hid]
    exact getElem?_ids (List.getElem?_set_self hlt)
  · simp only [CallingChannel.ids, CallingChannel.setCall, List.getElem?_map]
    rw [List.getElem?_set_ne (fun hsame ↦ heq hsame.symm)]

/-- Two calls have different identifiers. -/
theorem WakeupInvariant.index_eq (hinvariant : WakeupInvariant channel) {id : BitVec 64}
    (hfirst : channel.ids[index]? = some id) (hsecond : channel.ids[other]? = some id) :
    index = other := by
  obtain ⟨hlt, -⟩ := List.getElem?_eq_some_iff.mp hfirst
  exact (List.getElem?_inj hlt hinvariant.distinct).mp (hfirst.trans hsecond.symm)

/-- Every call of a channel with one call changed is that one or was there before. -/
theorem getElem?_setCall (hcall : channel.calls[index]? = some call)
    {found : BlockingCall Prototype Message}
    (hfound : (channel.setCall index moved).calls[other]? = some found) :
    (other = index ∧ found = moved) ∨ (other ≠ index ∧ channel.calls[other]? = some found) := by
  obtain ⟨hlt, -⟩ := List.getElem?_eq_some_iff.mp hcall
  simp only [CallingChannel.setCall] at hfound
  by_cases heq : other = index
  · subst heq
    rw [List.getElem?_set_self hlt] at hfound
    exact Or.inl ⟨rfl, (Option.some.inj hfound).symm⟩
  · rw [List.getElem?_set_ne (fun hsame ↦ heq hsame.symm)] at hfound
    exact Or.inr ⟨heq, hfound⟩

/-- The identifiers after a step are those before it, or one more that was drawn. -/
theorem ChannelMoved.ids (hmoved : ChannelMoved mergeFrom channel action next) :
    next.ids = channel.ids ∨ (next.ids = channel.ids ++ [channel.id] ∧
      ∃ service method request responsePrototype,
        action = .call service method request responsePrototype) := by
  cases hmoved with
  | call hid hresponse hphase =>
    refine Or.inr ⟨?_, _, _, _, _, rfl⟩
    simp [CallingChannel.ids, hid]
  | put hcall hphase => exact Or.inl (ids_setCall hcall rfl)
  | write hcall hphase => exact Or.inl (ids_setCall hcall rfl)
  | thread hcall hcallMoved =>
    refine Or.inl (ids_setCall hcall ?_)
    cases hcallMoved <;> rfl
  | run hio hcall hmonitor =>
    refine Or.inl (ids_setCall hcall ?_)
    unfold BlockingCall.notify
    split <;> rfl
  | notify hio hcall hmonitor =>
    refine Or.inl (ids_setCall hcall ?_)
    unfold BlockingCall.notify
    split <;> rfl
  | _ => exact Or.inl rfl

/-- A call keeps its identifier. -/
theorem ChannelMoved.getElem?_ids (hmoved : ChannelMoved mergeFrom channel action next)
    {id : BitVec 64} (hid : channel.ids[index]? = some id) : next.ids[index]? = some id := by
  rcases hmoved.ids with hids | ⟨hids, -⟩
  · rwa [hids]
  · obtain ⟨hlt, -⟩ := List.getElem?_eq_some_iff.mp hid
    rwa [hids, List.getElem?_append_left hlt]

/-! ### What a step does to a call -/

/-- What holds of a call depends on what the I/O thread can see only. -/
theorem CallInvariant.congr (hinvariant : CallInvariant channel index call)
    (houtstandings : next.outstandings = channel.outstandings) (hio : next.io = channel.io)
    (hprocessed : next.processed = channel.processed)
    (hcompleted : next.completed = channel.completed)
    (hconnected : next.connected = channel.connected) : CallInvariant next index call := by
  refine ⟨hinvariant.early, ?_, ?_, fun hwait ↦ ?_⟩
  · rw [houtstandings]
    exact hinvariant.entered
  · rw [hio, houtstandings]
    exact hinvariant.running
  · rw [hconnected] at hwait
    obtain ⟨hunanswered, hexpected, hnotCompleted, hremaining⟩ := hinvariant.awaited hwait
    refine ⟨?_, ?_, ?_, ?_⟩
    · rwa [hprocessed]
    · rwa [houtstandings, hio]
    · rwa [hcompleted]
    · rwa [hio]

/-- A thread that goes on keeps what holds of its call, unless it comes to wait when it could not
before. -/
theorem CallInvariant.rephase (hinvariant : CallInvariant channel index call)
    {phase : CallPhase Prototype Message} (hbefore : ¬ call.phase.Unregistered)
    (hafter : ¬ phase.Unregistered) (hearly : phase.AtWait → call.response = none)
    (hwait : MayWait channel.connected { call with phase := phase } →
      MayWait channel.connected call) :
    CallInvariant channel index { call with phase := phase } := by
  refine ⟨fun hphase ↦ ?_, fun o hfind ↦ ?_, fun message done response hio ↦ ?_, fun hmay ↦ ?_⟩
  · exact hearly (hphase.resolve_left hafter)
  · obtain ⟨hdone, hresponse, -⟩ := hinvariant.entered o hfind
    exact ⟨hdone, hresponse, hafter⟩
  · obtain ⟨hiff, hrunning⟩ := hinvariant.running message done response hio
    refine ⟨hiff, fun hindex ↦ ?_⟩
    obtain ⟨hresponse, -, hfind⟩ := hrunning hindex
    exact ⟨hresponse, hafter, hfind⟩
  · obtain ⟨hunanswered, hexpected, hnotCompleted, hremaining⟩ := hinvariant.awaited (hwait hmay)
    exact ⟨hunanswered, Or.inr (hexpected.resolve_left hbefore), hnotCompleted, hremaining⟩

/-- What a thread does on its own keeps what holds of its call. -/
theorem CallInvariant.thread (hinvariant : CallInvariant channel index call) {event : CallEvent}
    (hmoved : CallMoved channel.connected call event moved) :
    CallInvariant channel index moved := by
  have hconnected : ∀ {phase : CallPhase Prototype Message}, ¬ phase.AtWait →
      ¬ call.phase.Past → MayWait channel.connected { call with phase := phase } →
        MayWait channel.connected call := by
    intro phase hphase hpast hmay
    exact ⟨hmay.noResponse, hpast, Or.inl (hmay.condition.resolve_right hphase)⟩
  cases hmoved with
  | enter hphase =>
    apply hinvariant.rephase
    · rcases hphase with hphase | hphase <;> simp [hphase, CallPhase.Unregistered]
    · simp [CallPhase.Unregistered]
    · simp [CallPhase.AtWait]
    · apply hconnected
      · simp [CallPhase.AtWait]
      · rcases hphase with hphase | hphase <;> simp [hphase, CallPhase.Past]
  | block hphase hresponse htrue =>
    apply hinvariant.rephase
    · simp [hphase, CallPhase.Unregistered]
    · simp [CallPhase.Unregistered]
    · exact fun _ ↦ hresponse
    · exact fun hmay ↦ ⟨hresponse, by simp [hphase, CallPhase.Past], Or.inl htrue⟩
  | pass hphase =>
    apply hinvariant.rephase
    · simp [hphase, CallPhase.Unregistered]
    · simp [CallPhase.Unregistered]
    · simp [CallPhase.AtWait]
    · exact fun hmay ↦ absurd (Or.inl rfl) hmay.notPast
  | wait hphase =>
    apply hinvariant.rephase
    · simp [hphase, CallPhase.Unregistered]
    · simp [CallPhase.Unregistered]
    · exact fun _ ↦ hinvariant.early (Or.inr (Or.inl hphase))
    · exact fun hmay ↦
        ⟨hmay.noResponse, by simp [hphase, CallPhase.Past], Or.inr (Or.inl hphase)⟩
  | interrupt hphase =>
    apply hinvariant.rephase
    · simp [hphase, CallPhase.Unregistered]
    · simp [CallPhase.Unregistered]
    · simp [CallPhase.AtWait]
    · apply hconnected
      · simp [CallPhase.AtWait]
      · simp [hphase, CallPhase.Past]
  | leave hphase =>
    apply hinvariant.rephase
    · simp [hphase, CallPhase.Unregistered]
    · simp [CallPhase.Unregistered]
    · simp [CallPhase.AtWait]
    · exact fun hmay ↦ absurd (Or.inr ⟨_, rfl⟩) hmay.notPast

/-- A call that is put into the table. -/
theorem CallInvariant.put (hinvariant : CallInvariant channel index call)
    {responsePrototype : Prototype} (hphase : call.phase = .taken responsePrototype) :
    CallInvariant { channel with
      outstandings := channel.outstandings.insert call.id
        { responsePrototype := responsePrototype, done := index } } index
      { call with phase := .registered } := by
  have hbefore : call.phase.Unregistered := ⟨responsePrototype, hphase⟩
  have hresponse : call.response = none := hinvariant.early (Or.inl hbefore)
  have hafter : ¬ (CallPhase.registered : CallPhase Prototype Message).Unregistered := by
    simp [CallPhase.Unregistered]
  refine ⟨fun _ ↦ hresponse, fun o hfind ↦ ?_, fun message done response hio ↦ ?_, fun hmay ↦ ?_⟩
  · rw [Table.find_insert_self] at hfind
    obtain rfl := Option.some.inj hfind
    exact ⟨rfl, hresponse, hafter⟩
  · obtain ⟨hiff, hrunning⟩ := hinvariant.running message done response hio
    exact ⟨hiff, fun hindex ↦ absurd hbefore (hrunning hindex).2.1⟩
  · have hconnected : channel.connected = true := by
      apply hmay.condition.resolve_right
      simp [CallPhase.AtWait]
    obtain ⟨hunanswered, -, hnotCompleted, hremaining⟩ :=
      hinvariant.awaited ⟨hresponse, by simp [hphase, CallPhase.Past], Or.inl hconnected⟩
    exact ⟨hunanswered, Or.inr (Or.inl ⟨_, Table.find_insert_self _ _ _⟩), hnotCompleted,
      hremaining⟩

/-- A call with another identifier does not notice. -/
theorem CallInvariant.put_other (hinvariant : CallInvariant channel index call)
    {id : BitVec 64} (hne : call.id ≠ id) (o : Outstanding Prototype) :
    CallInvariant { channel with outstandings := channel.outstandings.insert id o } index
      call := by
  have hfind := Table.find_insert_of_ne channel.outstandings o hne
  refine ⟨hinvariant.early, ?_, ?_, fun hmay ↦ ?_⟩
  · simp only [hfind]
    exact hinvariant.entered
  · simp only [hfind]
    exact hinvariant.running
  · obtain ⟨hunanswered, hexpected, hnotCompleted, hremaining⟩ := hinvariant.awaited hmay
    refine ⟨hunanswered, ?_, hnotCompleted, hremaining⟩
    simpa only [hfind] using hexpected

/-- A RESPONSE that finds an entry is handed over to the call it is for. -/
theorem CallInvariant.found (hinvariant : CallInvariant channel index call)
    (hentries : ∀ id o, channel.outstandings.find id = some o → channel.ids[o.done]? = some id)
    (hcall : channel.calls[index]? = some call) (hio : channel.io = .idle) {message : RpcMessage}
    {o : Outstanding Prototype} (hfind : channel.outstandings.find message.getId = some o)
    {response : Option Message}
    (hparses : call.id = message.getId → MayWait channel.connected call →
      ∃ value, response = some value) :
    CallInvariant { channel with
      outstandings := channel.outstandings.erase message.getId
      io := .running message o.done response } index call := by
  refine ⟨hinvariant.early, fun other hother ↦ ?_, fun running done value hrunning ↦ ?_,
    fun hmay ↦ ?_⟩
  · exact hinvariant.entered other (Table.find_erase_eq_some.mp hother).2
  · obtain ⟨rfl, rfl, rfl⟩ := IoPhase.running.inj hrunning
    have hiff : call.id = message.getId ↔ index = o.done := by
      constructor
      · intro hid
        exact (hinvariant.entered o (by rw [hid, hfind])).1.symm
      · rintro rfl
        exact Option.some.inj ((getElem?_ids hcall).symm.trans (hentries _ o hfind))
    refine ⟨hiff, fun hindex ↦ ?_⟩
    have hid := hiff.mpr hindex
    obtain ⟨-, hresponse, hregistered⟩ := hinvariant.entered o (by rw [hid, hfind])
    exact ⟨hresponse, hregistered, by rw [hid]; exact Table.find_erase_self _ _⟩
  · obtain ⟨hunanswered, hexpected, hnotCompleted, -⟩ := hinvariant.awaited hmay
    refine ⟨hunanswered, ?_, hnotCompleted, fun _ hnotifying ↦ by cases hnotifying⟩
    by_cases hid : call.id = message.getId
    · obtain ⟨value, rfl⟩ := hparses hid hmay
      have hdone := (hinvariant.entered o (by rw [hid, hfind])).1
      exact Or.inr (Or.inr ⟨message, value, by rw [hdone]⟩)
    · rcases hexpected with hearly | ⟨entry, hentry⟩ | ⟨running, value, hrunning⟩
      · exact Or.inl hearly
      · exact Or.inr (Or.inl ⟨entry, by rwa [Table.find_erase_of_ne _ hid]⟩)
      · rw [hio] at hrunning
        cases hrunning

/-- A reply that is processed without effect is for no call that may wait. -/
theorem CallInvariant.ignored (hinvariant : CallInvariant channel index call)
    {message : RpcMessage}
    (hother : MayWait channel.connected call → call.id ≠ message.getId) :
    CallInvariant { channel with processed := channel.processed ++ [message] } index call := by
  refine ⟨hinvariant.early, hinvariant.entered, hinvariant.running, fun hmay ↦ ?_⟩
  obtain ⟨hunanswered, hexpected, hnotCompleted, hremaining⟩ := hinvariant.awaited hmay
  refine ⟨fun reply hreply ↦ ?_, hexpected, hnotCompleted, hremaining⟩
  rcases List.mem_append.mp hreply with hold | hnew
  · exact hunanswered reply hold
  · rw [List.mem_singleton.mp hnew]
    exact fun hid ↦ hother hmay hid.symm

/-- A thread outside the monitor that was notified is not about to wait. -/
theorem BlockingCall.not_atWait_notify (hmonitor : call.phase.inMonitor = false) :
    ¬ call.notify.phase.AtWait := by
  unfold BlockingCall.notify
  split
  · simp [CallPhase.AtWait]
  · rename_i hwaiting
    rintro (hblocking | hequal)
    · rw [hblocking] at hmonitor
      cases hmonitor
    · exact hwaiting hequal

theorem BlockingCall.notify_eq (call : BlockingCall Prototype Message) :
    call.notify.id = call.id ∧ call.notify.response = call.response ∧
      (call.notify.phase.Unregistered ↔ call.phase.Unregistered) ∧
        (call.notify.phase.Past ↔ call.phase.Past) := by
  unfold BlockingCall.notify
  split
  · rename_i hphase
    simp [hphase, CallPhase.Unregistered, CallPhase.Past]
  · simp

/-- The call that a response is handed to does not wait any more, or will not wait. -/
theorem CallInvariant.run (hinvariant : CallInvariant channel index call) {message : RpcMessage}
    {response : Option Message} (hio : channel.io = .running message index response)
    (hmonitor : call.phase.inMonitor = false) :
    CallInvariant { channel with
      io := .idle
      processed := channel.processed ++ [message] } index
      { call with response := response }.notify := by
  obtain ⟨-, hrunning⟩ := hinvariant.running message index response hio
  obtain ⟨hresponse, hregistered, hfind⟩ := hrunning rfl
  obtain ⟨hid, hsame, hunregistered, hpast⟩ := { call with response := response }.notify_eq
  have hwait : ¬ { call with response := response }.notify.phase.AtWait :=
    BlockingCall.not_atWait_notify hmonitor
  refine ⟨fun hphase ↦ ?_, fun o hfound ↦ ?_, (fun _ _ _ hidle ↦ by cases hidle), fun hmay ↦ ?_⟩
  · rcases hphase with hearly | hatWait
    · exact absurd (hunregistered.mp hearly) hregistered
    · exact absurd hatWait hwait
  · rw [hid, hfind] at hfound
    cases hfound
  · have hnone : response = none := hsame.symm.trans hmay.noResponse
    have hbefore := hinvariant.awaited ⟨hresponse, fun hleft ↦ hmay.notPast (hpast.mpr hleft),
      Or.inl (hmay.condition.resolve_right hwait)⟩
    rcases hbefore.expected with hearly | ⟨o, hentry⟩ | ⟨other, value, hother⟩
    · exact absurd hearly hregistered
    · rw [hfind] at hentry
      cases hentry
    · rw [hio, hnone] at hother
      cases hother

/-- A call that the response is not for goes on waiting for its own. -/
theorem CallInvariant.run_other (hinvariant : CallInvariant channel index call)
    {message : RpcMessage} {response : Option Message}
    (hio : channel.io = .running message other response) (hne : index ≠ other) :
    CallInvariant { channel with
      io := .idle
      processed := channel.processed ++ [message] } index call := by
  obtain ⟨hiff, -⟩ := hinvariant.running message other response hio
  refine ⟨hinvariant.early, hinvariant.entered, (fun _ _ _ hidle ↦ by cases hidle), fun hmay ↦ ?_⟩
  have hignored : CallInvariant { channel with processed := channel.processed ++ [message] }
      index call := hinvariant.ignored fun _ hid ↦ hne (hiff.mp hid)
  obtain ⟨hunanswered, hexpected, hnotCompleted, -⟩ := hignored.awaited hmay
  refine ⟨hunanswered, ?_, hnotCompleted, fun _ hidle ↦ by cases hidle⟩
  rcases hexpected with hearly | hentry | ⟨running, value, hrunning⟩
  · exact Or.inl hearly
  · exact Or.inr (Or.inl hentry)
  · simp only [hio] at hrunning
    exact absurd (IoPhase.running.inj hrunning).2.1.symm hne

/-- A call that is notified while the channel is disconnected will not wait again. -/
theorem CallInvariant.notify (hinvariant : CallInvariant channel index call)
    {remaining : List ℕ} (hdisconnected : channel.connected = false)
    (hmonitor : call.phase.inMonitor = false) :
    CallInvariant { channel with io := .notifying remaining } index call.notify := by
  obtain ⟨hid, hsame, hunregistered, -⟩ := call.notify_eq
  have hwait := BlockingCall.not_atWait_notify hmonitor
  refine ⟨fun hphase ↦ ?_, fun o hfound ↦ ?_, (fun _ _ _ hother ↦ by cases hother), fun hmay ↦ ?_⟩
  · rw [hsame]
    exact hinvariant.early (Or.inl (hunregistered.mp (hphase.resolve_right hwait)))
  · rw [hsame, hunregistered]
    rw [hid] at hfound
    exact hinvariant.entered o hfound
  · rcases hmay.condition with hconnected | hatWait
    · rw [hdisconnected] at hconnected
      cases hconnected
    · exact absurd hatWait hwait

/-- A call that is not the one notified is still to be notified. -/
theorem CallInvariant.notify_other (hinvariant : CallInvariant channel index call)
    {remaining : List ℕ} (hio : channel.io = .notifying remaining) (hne : index ≠ other) :
    CallInvariant { channel with io := .notifying (remaining.erase other) } index call := by
  refine ⟨hinvariant.early, hinvariant.entered, (fun _ _ _ hother ↦ by cases hother),
    fun hmay ↦ ?_⟩
  obtain ⟨hunanswered, hexpected, hnotCompleted, hremaining⟩ := hinvariant.awaited hmay
  refine ⟨hunanswered, ?_, hnotCompleted, fun others hothers ↦ ?_⟩
  · rcases hexpected with hearly | hentry | ⟨running, value, hrunning⟩
    · exact Or.inl hearly
    · exact Or.inr (Or.inl hentry)
    · rw [hio] at hrunning
      cases hrunning
  · obtain rfl := IoPhase.notifying.inj hothers
    exact (List.mem_erase_of_ne hne).mpr (hremaining remaining hio)

/-- A call that may wait when `disconnected()` starts is among those it notifies. -/
theorem CallInvariant.disconnected (hinvariant : CallInvariant channel index call)
    (hcall : channel.calls[index]? = some call) (hio : channel.io = .idle)
    (hdisconnected : channel.connected = false) :
    CallInvariant { channel with io := .notifying channel.registered } index call := by
  refine ⟨hinvariant.early, hinvariant.entered, (fun _ _ _ hother ↦ by cases hother),
    fun hmay ↦ ?_⟩
  obtain ⟨hunanswered, hexpected, hnotCompleted, -⟩ := hinvariant.awaited hmay
  have hatWait : call.phase.AtWait := by
    apply hmay.condition.resolve_left
    simp [hdisconnected]
  obtain ⟨o, hentry⟩ : ∃ o, channel.outstandings.find call.id = some o := by
    rcases hexpected with ⟨prototype, hearly⟩ | hentry | ⟨running, value, hrunning⟩
    · rw [hearly] at hatWait
      simp [CallPhase.AtWait] at hatWait
    · exact hentry
    · rw [hio] at hrunning
      cases hrunning
  refine ⟨hunanswered, Or.inr (Or.inl ⟨o, hentry⟩), hnotCompleted, fun others hothers ↦ ?_⟩
  obtain rfl := IoPhase.notifying.inj hothers
  obtain ⟨hlt, -⟩ := List.getElem?_eq_some_iff.mp hcall
  have hdone := (hinvariant.entered o hentry).1
  refine List.mem_filter.mpr ⟨List.mem_range.mpr hlt, ?_⟩
  simp only [hcall, hentry, hdone, decide_true]

/-- When `disconnected()` has notified every call, none may wait. -/
theorem CallInvariant.finish (hinvariant : CallInvariant channel index call)
    (hio : channel.io = .notifying []) :
    CallInvariant { channel with io := .idle, completed := true } index call := by
  refine ⟨hinvariant.early, hinvariant.entered, (fun _ _ _ hother ↦ by cases hother),
    fun hmay ↦ ?_⟩
  have hnone := (hinvariant.awaited hmay).remaining [] hio
  simp at hnone

/-- Fewer calls may wait on a channel that is disconnected. -/
theorem CallInvariant.disconnect (hinvariant : CallInvariant channel index call) :
    CallInvariant { channel with connected := false } index call := by
  refine ⟨hinvariant.early, hinvariant.entered, hinvariant.running, fun hmay ↦ ?_⟩
  have hatWait : call.phase.AtWait := by
    apply hmay.condition.resolve_left
    simp
  obtain ⟨hunanswered, hexpected, hnotCompleted, hremaining⟩ :=
    hinvariant.awaited ⟨hmay.noResponse, hmay.notPast, Or.inr hatWait⟩
  exact ⟨hunanswered, hexpected, hnotCompleted, hremaining⟩

/-! ### Every step -/

/-- What a new identifier is drawn for may wait, and is not in the table yet. -/
theorem WakeupInvariant.fresh (hinvariant : WakeupInvariant channel)
    (hids : ∀ call ∈ channel.calls, call.id ≠ channel.id)
    (hreplies : ∀ reply ∈ channel.processed, reply.getId ≠ channel.id)
    (hid : call.id = channel.id) (hresponse : call.response = none)
    {responsePrototype : Prototype} (hphase : call.phase = .taken responsePrototype) :
    CallInvariant channel channel.calls.length call := by
  have hnew : ∀ done : ℕ, channel.ids[done]? ≠ some call.id := by
    intro done hdone
    obtain ⟨old, hold, hsame⟩ := List.mem_map.mp (List.mem_of_getElem? hdone)
    exact hids old hold (hsame.trans hid)
  refine ⟨fun _ ↦ hresponse, fun o hfind ↦ ?_, fun message done response hio ↦ ?_, fun hmay ↦ ?_⟩
  · exact absurd (hinvariant.entries _ o hfind) (hnew o.done)
  · have hhanded := hinvariant.handed message done response hio
    obtain ⟨hlt, -⟩ := List.getElem?_eq_some_iff.mp hhanded
    have hlength : channel.ids.length = channel.calls.length := List.length_map _
    refine ⟨⟨fun hsame ↦ ?_, fun hindex ↦ by omega⟩, fun hindex ↦ by omega⟩
    rw [← hsame] at hhanded
    exact absurd hhanded (hnew done)
  · have hconnected : channel.connected = true := by
      apply hmay.condition.resolve_right
      simp [hphase, CallPhase.AtWait]
    obtain ⟨hnotCompleted, hnotNotifying⟩ := hinvariant.connected hconnected
    refine ⟨?_, Or.inl ⟨responsePrototype, hphase⟩, hnotCompleted, fun others hothers ↦ ?_⟩
    · rwa [hid]
    · exact absurd hothers (hnotNotifying others)

/-- Every step keeps what holds of each call. -/
theorem WakeupInvariant.call_step (hinvariant : WakeupInvariant channel)
    (hwell : RepliesWell mergeFrom channel action)
    (hmoved : ChannelMoved mergeFrom channel action next)
    (hnext : next.calls[index]? = some call) : CallInvariant next index call := by
  cases hmoved with
  | @call service method request responsePrototype new hid hresponse hphase =>
    simp only at hnext
    rcases getElem?_append_singleton_eq_some hnext with hold | ⟨rfl, rfl⟩
    · exact (hinvariant.calls index call hold).congr rfl rfl rfl rfl rfl
    · exact (hinvariant.fresh hwell.1 hwell.2 hid hresponse hphase).congr rfl rfl rfl rfl rfl
  | @put changed old responsePrototype hcall hphase =>
    rcases getElem?_setCall hcall hnext with ⟨rfl, rfl⟩ | ⟨hne, hother⟩
    · exact ((hinvariant.calls _ old hcall).put hphase).congr rfl rfl rfl rfl rfl
    · have hids : call.id ≠ old.id := fun hsame ↦ hne
        (hinvariant.index_eq (getElem?_ids hother) (hsame ▸ getElem?_ids hcall))
      exact ((hinvariant.calls _ _ hother).put_other hids _).congr rfl rfl rfl rfl rfl
  | @write changed old hcall hphase =>
    rcases getElem?_setCall hcall hnext with ⟨rfl, rfl⟩ | ⟨hne, hother⟩
    · have hwritten : CallInvariant channel index { old with phase := .written } := by
        apply (hinvariant.calls _ old hcall).rephase
        · simp [hphase, CallPhase.Unregistered]
        · simp [CallPhase.Unregistered]
        · simp [CallPhase.AtWait]
        · intro hmay
          refine ⟨hmay.noResponse, by simp [hphase, CallPhase.Past], Or.inl ?_⟩
          apply hmay.condition.resolve_right
          simp [CallPhase.AtWait]
      exact hwritten.congr rfl rfl rfl rfl rfl
    · exact (hinvariant.calls _ _ hother).congr rfl rfl rfl rfl rfl
  | @thread changed event old moved hcall hthread =>
    rcases getElem?_setCall hcall hnext with ⟨rfl, rfl⟩ | ⟨hne, hother⟩
    · exact ((hinvariant.calls _ old hcall).thread hthread).congr rfl rfl rfl rfl rfl
    · exact (hinvariant.calls _ _ hother).congr rfl rfl rfl rfl rfl
  | request hio htype => exact hinvariant.calls index call hnext
  | @found message o hio htype hfind =>
    apply (hinvariant.calls index call hnext).found hinvariant.entries hnext hio hfind
    intro hid hmay
    have hrequest : message.getType ≠ .request := by simp [htype]
    obtain ⟨-, entry, value, hentry, hvalue⟩ :=
      hwell hrequest call (List.mem_of_getElem? hnext) hid hmay
    rw [hfind] at hentry
    obtain rfl := Option.some.inj hentry
    exact ⟨value, hvalue⟩
  | @ignored message hio hignored =>
    apply (hinvariant.calls index call hnext).ignored
    intro hmay hid
    have hrequest : message.getType ≠ .request := by
      rcases hignored with ⟨htype, -⟩ | htype <;> simp [htype]
    obtain ⟨hresponse, o, value, hentry, -⟩ :=
      hwell hrequest call (List.mem_of_getElem? hnext) hid hmay
    rcases hignored with ⟨-, hnone⟩ | htype
    · rw [hnone] at hentry
      cases hentry
    · rw [htype] at hresponse
      cases hresponse
  | @run message done response old hio hcall hmonitor =>
    rcases getElem?_setCall hcall hnext with ⟨rfl, rfl⟩ | ⟨hne, hother⟩
    · exact ((hinvariant.calls _ old hcall).run hio hmonitor).congr rfl rfl rfl rfl rfl
    · exact ((hinvariant.calls _ _ hother).run_other hio hne).congr rfl rfl rfl rfl rfl
  | disconnect => exact (hinvariant.calls index call hnext).disconnect
  | disconnected hio hdisconnected =>
    exact (hinvariant.calls index call hnext).disconnected hnext hio hdisconnected
  | @notify changed remaining old hio hcall hmonitor =>
    have hdisconnected : channel.connected = false := by
      rw [← Bool.not_eq_true]
      exact fun hconnected ↦ (hinvariant.connected hconnected).2 remaining hio
    rcases getElem?_setCall hcall hnext with ⟨rfl, rfl⟩ | ⟨hne, hother⟩
    · exact ((hinvariant.calls _ old hcall).notify hdisconnected hmonitor).congr
        rfl rfl rfl rfl rfl
    · exact ((hinvariant.calls _ _ hother).notify_other hio hne).congr rfl rfl rfl rfl rfl
  | finish hio => exact (hinvariant.calls index call hnext).finish hio

/-- Every entry of the table is under the identifier of its call. -/
theorem WakeupInvariant.entries_step (hinvariant : WakeupInvariant channel)
    (hmoved : ChannelMoved mergeFrom channel action next) {id : BitVec 64}
    {o : Outstanding Prototype} (hfind : next.outstandings.find id = some o) :
    next.ids[o.done]? = some id := by
  apply hmoved.getElem?_ids
  cases hmoved with
  | put hcall hphase =>
    rcases Table.find_insert_eq_some.mp hfind with ⟨rfl, rfl⟩ | ⟨-, hold⟩
    · exact JavaChannel.getElem?_ids hcall
    · exact hinvariant.entries id o hold
  | found hio htype hfound => exact hinvariant.entries id o (Table.find_erase_eq_some.mp hfind).2
  | _ => exact hinvariant.entries id o hfind

/-- The response in the hand of the I/O thread is for the call with the identifier of its
message. -/
theorem WakeupInvariant.handed_step (hinvariant : WakeupInvariant channel)
    (hmoved : ChannelMoved mergeFrom channel action next) {message : RpcMessage} {done : ℕ}
    {response : Option Message} (hio : next.io = .running message done response) :
    next.ids[done]? = some message.getId := by
  apply hmoved.getElem?_ids
  cases hmoved with
  | found hidle htype hfound =>
    obtain ⟨rfl, rfl, -⟩ := IoPhase.running.inj hio
    exact hinvariant.entries _ _ hfound
  | run hrunning hcall hmonitor => cases hio
  | disconnected hidle hdisconnected => cases hio
  | notify hnotifying hcall hmonitor => cases hio
  | finish hnotifying => cases hio
  | _ => exact hinvariant.handed message done response hio

/-- While the channel is connected, `disconnected()` is not called. -/
theorem WakeupInvariant.connected_step (hinvariant : WakeupInvariant channel)
    (hmoved : ChannelMoved mergeFrom channel action next) (hconnected : next.connected = true) :
    next.completed = false ∧ ∀ remaining, next.io ≠ .notifying remaining := by
  cases hmoved with
  | disconnect => cases hconnected
  | disconnected hidle hdisconnected =>
    rw [hdisconnected] at hconnected
    cases hconnected
  | found hidle htype hfound =>
    exact ⟨(hinvariant.connected hconnected).1, fun _ hio ↦ by cases hio⟩
  | run hrunning hcall hmonitor =>
    exact ⟨(hinvariant.connected hconnected).1, fun _ hio ↦ by cases hio⟩
  | notify hnotifying hcall hmonitor =>
    exact absurd hnotifying ((hinvariant.connected hconnected).2 _)
  | finish hnotifying => exact absurd hnotifying ((hinvariant.connected hconnected).2 _)
  | _ => exact hinvariant.connected hconnected

/-- Every step keeps the invariant. -/
theorem WakeupInvariant.step (hinvariant : WakeupInvariant channel)
    (hwell : RepliesWell mergeFrom channel action)
    (hstep : channelStep mergeFrom channel action = some next) : WakeupInvariant next := by
  have hmoved := channel_cases hstep
  refine ⟨fun _ _ hnext ↦ hinvariant.call_step hwell hmoved hnext, ?_,
    fun _ _ ↦ hinvariant.entries_step hmoved, fun _ _ _ ↦ hinvariant.handed_step hmoved,
    hinvariant.connected_step hmoved⟩
  rcases hmoved.ids with hids | ⟨hids, service, method, request, prototype, rfl⟩
  · rw [hids]
    exact hinvariant.distinct
  · rw [hids, List.nodup_append]
    refine ⟨hinvariant.distinct, List.nodup_singleton _, fun id hid other hother ↦ ?_⟩
    obtain ⟨call, hcall, rfl⟩ := List.mem_map.mp hid
    rw [List.mem_singleton.mp hother]
    exact hwell.1 call hcall

theorem wakeupInvariant_initial :
    WakeupInvariant (CallingChannel.initial : CallingChannel Prototype Message) where
  calls := fun index call hcall ↦ by simp [CallingChannel.initial] at hcall
  distinct := List.nodup_nil
  entries := fun id o hfind ↦ by cases hfind
  handed := fun message done response hio ↦ by cases hio
  connected := fun _ ↦ ⟨rfl, fun _ hio ↦ by cases hio⟩

/-- While every reply to a call that may wait is a RESPONSE that finds its entry and parses, and
identifiers are new, no call is stuck. -/
theorem neverStuck_of_run {actions : List (ChannelAction Prototype)}
    (hrun : (channelSystem mergeFrom).RunWhen (RepliesWell mergeFrom) actions channel) :
    NeverStuck channel := by
  have hinvariant : WakeupInvariant channel :=
    hrun.invariant wakeupInvariant_initial fun _ _ _ hwell hstep hbefore ↦
      hbefore.step hwell hstep
  intro call hcall hphase
  obtain ⟨index, hindex⟩ := List.getElem?_of_mem hcall
  have hbefore := hinvariant.calls index call hindex
  have hawaited := hbefore.awaited {
    noResponse := hbefore.early (Or.inr (Or.inr hphase))
    notPast := by simp [hphase, CallPhase.Past]
    condition := Or.inr (Or.inr hphase) }
  exact ⟨hawaited.unanswered, hawaited.notCompleted⟩

end Calls

/-! ### A reply that wakes its call, and one that does not -/

/-- A response type of one byte. -/
def oneByte : Unit → Bytes → Except String UInt8
  | _, [byte] => .ok byte
  | _, _ => .error "Protocol message end-group tag did not match expected tag."

/-- A thread calls, and waits for its reply. -/
def callAndWait : List (ChannelAction Unit) :=
  [.call "sudoku.SudokuService" "Solve" [7] (), .put 0, .write 0, .thread 0 .enter,
    .thread 0 .test, .thread 0 .wait]

/-- The call, at a point in its thread. -/
def oneCall (phase : CallPhase Unit UInt8) (response : Option UInt8) :
    BlockingCall Unit UInt8 where
  id := 1
  message := {
    type := some .request
    id := some 1
    service := some "sudoku.SudokuService"
    method := some "Solve"
    request := some [7] }
  response := response
  phase := phase

/-- The channel whose only call waits. -/
def oneWaiting : CallingChannel Unit UInt8 where
  id := 2
  outstandings := Table.empty.insert 1 { responsePrototype := (), done := 0 }
  connected := true
  calls := [oneCall .waiting none]
  io := .idle
  written := [(oneCall .waiting none).message]
  processed := []
  completed := false

/-- A run in which the call waits and its response arrives. -/
theorem neverStuck_oneResponse : ∃ channel : CallingChannel Unit UInt8,
    (channelSystem oneByte).RunWhen (RepliesWell oneByte) (callAndWait ++ [
      .receive { type := some .response, id := some 1, response := some [9] }] ++ [.run]) channel ∧
    channel.calls = [oneCall .notified (some 9)] ∧ NeverStuck channel := by
  let message : RpcMessage := { type := some .response, id := some 1, response := some [9] }
  let answered : CallingChannel Unit UInt8 := { oneWaiting with
    outstandings := oneWaiting.outstandings.erase 1
    calls := [oneCall .notified (some 9)]
    processed := [message] }
  have hwaiting : (channelSystem oneByte).RunWhen (RepliesWell oneByte) callAndWait oneWaiting := by
    have hnew : RepliesWell oneByte (CallingChannel.initial : CallingChannel Unit UInt8)
        (.call "sudoku.SudokuService" "Solve" [7] ()) :=
      ⟨(fun call hcall ↦ by cases hcall), fun reply hreply ↦ by cases hreply⟩
    exact .step (.step (.step (.step (.step (.step .start hnew rfl) trivial rfl) trivial rfl)
      trivial rfl) trivial rfl) trivial rfl
  have hwell : RepliesWell oneByte oneWaiting (.receive message) :=
    fun _ _ _ _ _ ↦ ⟨rfl, { responsePrototype := (), done := 0 }, 9, rfl, rfl⟩
  have hanswered : (channelSystem oneByte).RunWhen (RepliesWell oneByte)
      (callAndWait ++ [.receive message] ++ [.run]) answered :=
    .step (.step hwaiting hwell rfl) trivial rfl
  exact ⟨answered, hanswered, rfl, neverStuck_of_run hanswered⟩

/-- An ERROR leaves the call for which it is waiting. -/
theorem not_neverStuck_of_error :
    ¬ ∀ (actions : List (ChannelAction Unit)) (channel : CallingChannel Unit UInt8),
      (channelSystem oneByte).Run actions channel → NeverStuck channel := by
  intro hall
  let message : RpcMessage := { type := some .error, id := some 1, error := some .noMethod }
  have hrun : (channelSystem oneByte).Run (callAndWait ++ [.receive message])
      { oneWaiting with processed := [message] } := .of_execute rfl
  have hstuck := hall _ _ hrun (oneCall .waiting none) (List.mem_singleton_self _) rfl
  exact hstuck.1 message (List.mem_singleton_self _) rfl

end MuduoProtorpc.JavaChannel
