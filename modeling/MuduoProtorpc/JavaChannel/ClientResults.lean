import MuduoProtorpc.JavaChannel.ClientRequests

/-!
# What the calls of a Java channel return

`ResultsRight` is said of a channel when the responses of its calls are the right ones, whatever
this means; the response prototypes of the calls are given along with it. It holds as long as the
replies that are received parse to the right responses (`ResultsRight.receive`): all other steps
only hand on what was received (`ResultsRight.step`). A call returns without a response only after
the connection was lost.
-/

set_option autoImplicit false
set_option relaxedAutoImplicit false

namespace MuduoProtorpc.JavaChannel

open Foundation

variable {Prototype Message : Type}

/-- The response prototype of the call that an action makes. -/
def ChannelAction.prototypes : ChannelAction Prototype → List Prototype
  | .call _ _ _ responsePrototype => [responsePrototype]
  | _ => []

/-- The action is no call, and nothing is received. -/
def ChannelAction.Inside : ChannelAction Prototype → Prop
  | .call _ _ _ _ => False
  | .receive _ => False
  | _ => True

/-- The call has no response and is behind the loop. -/
def BlockingCall.Empty (call : BlockingCall Prototype Message) : Prop :=
  (call.phase = .leaving ∧ call.response = none) ∨ call.phase = .returned none

/-- The call has the response, or has returned it. -/
def BlockingCall.Has (call : BlockingCall Prototype Message) (response : Message) : Prop :=
  call.response = some response ∨ call.phase = .returned (some response)

/-- The responses of the calls are right, and so is the one that the I/O thread is about to hand
over; the prototypes in the table are those of the calls. -/
structure ResultsRight (right : ℕ → Message → Prop) (prototypes : List Prototype)
    (channel : CallingChannel Prototype Message) : Prop where
  length : prototypes.length = channel.calls.length
  results : ∀ (index : ℕ) call response, channel.calls[index]? = some call → call.Has response →
    right index response
  running : ∀ message done resp, channel.io = .running message done resp →
    ∃ response, resp = some response ∧ right done response
  entries : ∀ (index : ℕ) call o, channel.calls[index]? = some call →
    channel.outstandings.find call.id = some o → prototypes[index]? = some o.responsePrototype
  taken : ∀ (index : ℕ) call prototype, channel.calls[index]? = some call →
    call.phase = .taken prototype → prototypes[index]? = some prototype
  empty : ∀ (index : ℕ) call, channel.calls[index]? = some call → call.Empty →
    channel.connected = false

section Results

variable {mergeFrom : Prototype → Bytes → Except String Message} {right other : ℕ → Message → Prop}
  {prototypes : List Prototype} {channel next : CallingChannel Prototype Message}
  {action : ChannelAction Prototype} {index : ℕ} {call moved : BlockingCall Prototype Message}

theorem ResultsRight.mono (hresults : ResultsRight right prototypes channel)
    (hmono : ∀ index response, right index response → other index response) :
    ResultsRight other prototypes channel where
  length := hresults.length
  results := fun index call response hcall hhas ↦
    hmono index response (hresults.results index call response hcall hhas)
  running := by
    intro message done resp hio
    obtain ⟨response, hresp, hright⟩ := hresults.running message done resp hio
    exact ⟨response, hresp, hmono done response hright⟩
  entries := hresults.entries
  taken := hresults.taken
  empty := hresults.empty

theorem resultsRight_initial (right : ℕ → Message → Prop) :
    ResultsRight right [] (CallingChannel.initial : CallingChannel Prototype Message) where
  length := rfl
  results := fun index call response hcall ↦ by cases hcall
  running := fun message done resp hio ↦ by cases hio
  entries := fun index call o hcall ↦ by cases hcall
  taken := fun index call prototype hcall ↦ by cases hcall
  empty := fun index call hcall ↦ by cases hcall

/-! ### Steps of one call -/

/-- A call that comes to have no response behind the loop has found the connection lost. -/
theorem empty_of_callStep {connected : Bool} {event : CallEvent}
    (hstep : callStep connected call event = some moved) (hempty : moved.Empty) :
    connected = false ∨ call.Empty := by
  cases event with
  | test =>
    simp only [callStep] at hstep
    split at hstep
    · split_ifs at hstep with htest
      · obtain rfl := Option.some.inj hstep
        simp [BlockingCall.Empty] at hempty
      · obtain rfl := Option.some.inj hstep
        have hresponse : call.response = none := by simpa [BlockingCall.Empty] using hempty
        left
        simpa [hresponse] using htest
    · cases hstep
  | leave =>
    simp only [callStep] at hstep
    split at hstep
    · rename_i hphase
      obtain rfl := Option.some.inj hstep
      have hresponse : call.response = none := by simpa [BlockingCall.Empty] using hempty
      exact Or.inr (Or.inl ⟨hphase, hresponse⟩)
    · cases hstep
  | _ =>
    cases call_cases hstep
    simp [BlockingCall.Empty] at hempty

theorem has_of_callMoved {connected : Bool} {event : CallEvent} {response : Message}
    (hmoved : CallMoved connected call event moved) (hhas : moved.Has response) :
    call.Has response := by
  cases hmoved with
  | leave hphase =>
    rcases hhas with hresponse | hreturned
    · exact Or.inl hresponse
    · exact Or.inl (CallPhase.returned.inj hreturned)
  | _ =>
    rcases hhas with hresponse | hreturned
    · exact Or.inl hresponse
    · cases hreturned

theorem has_notify {response : Message} (hhas : call.notify.Has response) : call.Has response := by
  unfold BlockingCall.notify at hhas
  split at hhas
  · rcases hhas with hresponse | hreturned
    · exact Or.inl hresponse
    · cases hreturned
  · exact hhas

theorem taken_notify {prototype : Prototype} (hphase : call.notify.phase = .taken prototype) :
    call.phase = .taken prototype := by
  unfold BlockingCall.notify at hphase
  split at hphase
  · cases hphase
  · exact hphase

theorem empty_notify (hempty : call.notify.Empty) : call.Empty := by
  unfold BlockingCall.notify at hempty
  split at hempty
  · simp [BlockingCall.Empty] at hempty
  · exact hempty

/-! ### Steps of the channel -/

/-- Only one call changes. -/
theorem ResultsRight.set (hresults : ResultsRight right prototypes channel)
    (hcall : channel.calls[index]? = some call)
    (hcalls : next.calls = channel.calls.set index moved)
    (hid : moved.id = call.id) (hhas : ∀ response, moved.Has response → right index response)
    (hrunning : ∀ message done resp, next.io = .running message done resp →
      ∃ response, resp = some response ∧ right done response)
    (hentries : ∀ (other : ℕ) found o, channel.calls[other]? = some found →
      next.outstandings.find found.id = some o → prototypes[other]? = some o.responsePrototype)
    (htaken : ∀ prototype, moved.phase = .taken prototype → call.phase = .taken prototype)
    (hconnected : channel.connected = false → next.connected = false)
    (hempty : moved.Empty → next.connected = false) : ResultsRight right prototypes next where
  length := by rw [hcalls, List.length_set, hresults.length]
  results := by
    intro other found response hfound hfoundHas
    rw [hcalls] at hfound
    rcases getElem?_set_cases hfound with ⟨rfl, rfl⟩ | ⟨-, hold⟩
    · exact hhas response hfoundHas
    · exact hresults.results other found response hold hfoundHas
  running := hrunning
  entries := by
    intro other found o hfound hfind
    rw [hcalls] at hfound
    rcases getElem?_set_cases hfound with ⟨rfl, rfl⟩ | ⟨-, hold⟩
    · rw [hid] at hfind
      exact hentries _ call o hcall hfind
    · exact hentries other found o hold hfind
  taken := by
    intro other found prototype hfound hphase
    rw [hcalls] at hfound
    rcases getElem?_set_cases hfound with ⟨rfl, rfl⟩ | ⟨-, hold⟩
    · exact hresults.taken _ call prototype hcall (htaken prototype hphase)
    · exact hresults.taken other found prototype hold hphase
  empty := by
    intro other found hfound hfoundEmpty
    rw [hcalls] at hfound
    rcases getElem?_set_cases hfound with ⟨rfl, rfl⟩ | ⟨-, hold⟩
    · exact hempty hfoundEmpty
    · exact hconnected (hresults.empty other found hold hfoundEmpty)

/-- No call changes. -/
theorem ResultsRight.congr (hresults : ResultsRight right prototypes channel)
    (hcalls : next.calls = channel.calls)
    (hrunning : ∀ message done resp, next.io = .running message done resp →
      ∃ response, resp = some response ∧ right done response)
    (hentries : ∀ id o, next.outstandings.find id = some o → channel.outstandings.find id = some o)
    (hconnected : channel.connected = false → next.connected = false) :
    ResultsRight right prototypes next where
  length := by rw [hcalls, hresults.length]
  results := by
    rw [hcalls]
    exact hresults.results
  running := hrunning
  entries := by
    rw [hcalls]
    exact fun index call o hcall hfind ↦ hresults.entries index call o hcall (hentries _ o hfind)
  taken := by
    rw [hcalls]
    exact hresults.taken
  empty := by
    rw [hcalls]
    exact fun index call hcall hempty ↦ hconnected (hresults.empty index call hcall hempty)

/-- A new call has no response. -/
theorem ResultsRight.newCall (hresults : ResultsRight right prototypes channel)
    (hwakeups : WakeupInvariant channel) {service method : String} {request : Bytes}
    {responsePrototype : Prototype} (hfresh : ∀ call ∈ channel.calls, call.id ≠ channel.id)
    (hstep : channelStep mergeFrom channel (.call service method request responsePrototype) =
      some next) :
    ResultsRight right (prototypes ++ [responsePrototype]) next := by
  obtain rfl := Option.some.inj hstep
  refine ⟨by simp [hresults.length], fun index call response hcall hhas ↦ ?_, hresults.running,
    fun index call o hcall hfind ↦ ?_, fun index call prototype hcall hphase ↦ ?_,
    fun index call hcall hempty ↦ ?_⟩
  · rcases getElem?_append_singleton_eq_some hcall with hold | ⟨rfl, rfl⟩
    · exact hresults.results index call response hold hhas
    · simp [BlockingCall.Has] at hhas
  · rcases getElem?_append_singleton_eq_some hcall with hold | ⟨rfl, rfl⟩
    · exact getElem?_append_of_eq_some (hresults.entries index call o hold hfind) _
    · have hid := List.mem_of_getElem? (hwakeups.entries _ o hfind)
      obtain ⟨old, hold, hsame⟩ := List.mem_map.mp hid
      exact absurd hsame (hfresh old hold)
  · rcases getElem?_append_singleton_eq_some hcall with hold | ⟨rfl, rfl⟩
    · exact getElem?_append_of_eq_some (hresults.taken index call prototype hold hphase) _
    · rw [← hresults.length, List.getElem?_concat_length, CallPhase.taken.inj hphase]
  · rcases getElem?_append_singleton_eq_some hcall with hold | ⟨rfl, rfl⟩
    · exact hresults.empty index call hold hempty
    · simp [BlockingCall.Empty] at hempty

/-- What the threads, and the I/O thread behind `messageReceived`, do keeps the responses right. -/
theorem ResultsRight.step (hresults : ResultsRight right prototypes channel)
    (hwakeups : WakeupInvariant channel) (hinside : action.Inside)
    (hstep : channelStep mergeFrom channel action = some next) :
    ResultsRight right prototypes next := by
  have hmoved := channel_cases hstep
  cases hmoved with
  | @put index call responsePrototype hcall hphase =>
    refine hresults.set hcall rfl rfl ?_ hresults.running ?_ (by simp) id
      (by simp [BlockingCall.Empty])
    · rintro response (hresponse | hreturned)
      · exact hresults.results index call response hcall (Or.inl hresponse)
      · cases hreturned
    · intro other found o hfound hfind
      rcases Table.find_insert_eq_some.mp hfind with ⟨hid, rfl⟩ | ⟨-, hold⟩
      · have hids := getElem?_ids hfound
        rw [hid] at hids
        rw [hwakeups.index_eq hids (getElem?_ids hcall)]
        exact hresults.taken index call responsePrototype hcall hphase
      · exact hresults.entries other found o hfound hold
  | @write index call hcall hphase =>
    refine hresults.set hcall rfl rfl ?_ hresults.running hresults.entries (by simp) id
      (by simp [BlockingCall.Empty])
    rintro response (hresponse | hreturned)
    · exact hresults.results index call response hcall (Or.inl hresponse)
    · cases hreturned
  | @thread index event call moved hcall _ =>
    simp only [channelStep, hcall] at hstep
    obtain ⟨next, hcallStep, hnext⟩ := Option.map_eq_some_iff.mp hstep
    have hcallMoved := call_cases hcallStep
    rw [← hnext]
    refine hresults.set hcall rfl ?_ (fun response hhas ↦ ?_) hresults.running hresults.entries ?_
      id fun hempty ↦ ?_
    · cases hcallMoved <;> rfl
    · exact hresults.results index call response hcall (has_of_callMoved hcallMoved hhas)
    · cases hcallMoved <;> simp
    · rcases empty_of_callStep hcallStep hempty with hlost | hbefore
      · exact hlost
      · exact hresults.empty index call hcall hbefore
  | @run message done resp call hio hcall hmonitor =>
    obtain ⟨response, rfl, hright⟩ := hresults.running message done resp hio
    refine hresults.set hcall rfl ?_ (fun other hhas ↦ ?_) (by simp) hresults.entries ?_ id
      fun hempty ↦ ?_
    · exact (BlockingCall.notify_eq _).1
    · rcases has_notify hhas with hresponse | hreturned
      · obtain rfl := Option.some.inj hresponse
        exact hright
      · exact hresults.results done call other hcall (Or.inr hreturned)
    · exact fun _ ↦ taken_notify
    · rcases empty_notify hempty with ⟨-, hnone⟩ | hreturned
      · cases hnone
      · exact hresults.empty done call hcall (Or.inr hreturned)
  | disconnect => exact hresults.congr rfl hresults.running (fun _ _ ↦ id) fun _ ↦ rfl
  | disconnected _ _ => exact hresults.congr rfl (by simp) (fun _ _ ↦ id) id
  | @notify index remaining call hio hcall hmonitor =>
    refine hresults.set hcall rfl ?_ (fun other hhas ↦ ?_) (by simp) hresults.entries ?_ id
      fun hempty ↦ ?_
    · exact (BlockingCall.notify_eq _).1
    · exact hresults.results index call other hcall (has_notify hhas)
    · exact fun _ ↦ taken_notify
    · exact hresults.empty index call hcall (empty_notify hempty)
  | finish _ => exact hresults.congr rfl (by simp) (fun _ _ ↦ id) id
  | call _ _ _ => exact hinside.elim
  | request _ _ => exact hinside.elim
  | found _ _ _ => exact hinside.elim
  | ignored _ _ => exact hinside.elim

/-- A reply that is received and parses to the right response. -/
theorem ResultsRight.receive (hresults : ResultsRight right prototypes channel)
    {message : RpcMessage} (hright : ∀ o, channel.outstandings.find message.getId = some o →
      ∃ response, fromByteString (mergeFrom o.responsePrototype) message.getResponse =
        some response ∧ right o.done response)
    (hstep : channelStep mergeFrom channel (.receive message) = some next) :
    ResultsRight right prototypes next := by
  have hmoved := channel_cases hstep
  cases hmoved with
  | request _ _ => exact hresults
  | found hio htype hfind =>
    refine hresults.congr rfl (fun other done resp hrunning ↦ ?_) (fun id o hfound ↦ ?_) id
    · obtain ⟨response, hparse, hresponse⟩ := hright _ hfind
      obtain ⟨-, rfl, rfl⟩ := IoPhase.running.inj hrunning
      exact ⟨response, hparse, hresponse⟩
    · exact (Table.find_erase_eq_some.mp hfound).2
  | ignored _ _ => exact hresults.congr rfl hresults.running (fun _ _ ↦ id) id

end Results

end MuduoProtorpc.JavaChannel
