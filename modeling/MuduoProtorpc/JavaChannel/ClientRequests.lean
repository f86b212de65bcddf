import MuduoProtorpc.JavaChannel.Wakeups

/-!
# What the calls of a Java channel write

Each call writes its request once, under an identifier of its own. `Header` is what of a call has to
do with this, and only a new call and a call that is written change the headers of a channel
(`ChannelMoved.headers_eq`); so `WritesOnce` holds in every run of fewer than `2 ^ 64` calls.
-/

set_option autoImplicit false
set_option relaxedAutoImplicit false

namespace MuduoProtorpc.JavaChannel

open Foundation

variable {Prototype Message : Type}

/-! ### Headers -/

/-- The request of the call was written. -/
def CallPhase.sent : CallPhase Prototype Message → Bool
  | .taken _ => false
  | .registered => false
  | _ => true

/-- The identifier and the request of a call, and whether it was written. -/
structure Header where
  id : BitVec 64
  message : RpcMessage
  sent : Bool

def BlockingCall.header (call : BlockingCall Prototype Message) : Header where
  id := call.id
  message := call.message
  sent := call.phase.sent

def CallingChannel.headers (channel : CallingChannel Prototype Message) : List Header :=
  channel.calls.map BlockingCall.header

/-- The requests of the calls. -/
def CallingChannel.messages (channel : CallingChannel Prototype Message) : List RpcMessage :=
  channel.headers.map Header.message

/-- The message of a call. -/
def requestOf (id : BitVec 64) (service method : String) (request : Bytes) : RpcMessage where
  type := some .request
  id := some id
  service := some service
  method := some method
  request := some request

/-- The step draws an identifier, or writes a request. -/
def ChannelAction.Sends : ChannelAction Prototype → Prop
  | .call _ _ _ _ => True
  | .write _ => True
  | _ => False

/-- What is written are the requests of the calls that have come to it, each once; their identifiers
are drawn one after the other. -/
structure WritesOnce (channel : CallingChannel Prototype Message) : Prop where
  few : channel.headers.length ≤ 2 ^ 64
  next : channel.id = drawnId 1 channel.headers.length
  drawn : ∀ (index : ℕ) header, channel.headers[index]? = some header →
    header.id = drawnId 1 index ∧ header.message.id = some header.id ∧
      header.message.type = some .request
  written : ∀ message, message ∈ channel.written ↔
    ∃ header ∈ channel.headers, header.message = message ∧ header.sent = true
  once : channel.written.Nodup

section Headers

variable {mergeFrom : Prototype → Bytes → Except String Message}
  {channel next : CallingChannel Prototype Message} {action : ChannelAction Prototype}
  {index : ℕ} {call moved : BlockingCall Prototype Message} {header : Header}

theorem getElem?_headers (hcall : channel.calls[index]? = some call) :
    channel.headers[index]? = some call.header := by
  rw [CallingChannel.headers, List.getElem?_map, hcall]
  rfl

theorem exists_call (hheader : channel.headers[index]? = some header) :
    ∃ call, channel.calls[index]? = some call ∧ call.header = header := by
  rw [CallingChannel.headers, List.getElem?_map] at hheader
  exact Option.map_eq_some_iff.mp hheader

/-- A call that changes and keeps its header. -/
theorem headers_setCall (hcall : channel.calls[index]? = some call)
    (hheader : moved.header = call.header) :
    (channel.setCall index moved).headers = channel.headers :=
  map_set_of_eq_some hcall BlockingCall.header hheader

/-- A call that changes and keeps its request. -/
theorem messages_setCall (hcall : channel.calls[index]? = some call)
    (hmessage : moved.message = call.message) :
    (channel.setCall index moved).messages = channel.messages := by
  rw [CallingChannel.messages, CallingChannel.messages, CallingChannel.headers,
    CallingChannel.headers, List.map_map, List.map_map]
  exact map_set_of_eq_some hcall _ hmessage

theorem BlockingCall.header_notify (call : BlockingCall Prototype Message) :
    call.notify.header = call.header := by
  unfold BlockingCall.notify
  split
  · rename_i hphase
    simp [BlockingCall.header, hphase, CallPhase.sent]
  · rfl

theorem CallMoved.header_eq {connected : Bool} {event : CallEvent}
    (hmoved : CallMoved connected call event moved) : moved.header = call.header := by
  cases hmoved with
  | enter hphase =>
    rcases hphase with hphase | hphase <;> simp [BlockingCall.header, hphase, CallPhase.sent]
  | block hphase _ _ => simp [BlockingCall.header, hphase, CallPhase.sent]
  | pass hphase => simp [BlockingCall.header, hphase, CallPhase.sent]
  | wait hphase => simp [BlockingCall.header, hphase, CallPhase.sent]
  | interrupt hphase => simp [BlockingCall.header, hphase, CallPhase.sent]
  | leave hphase => simp [BlockingCall.header, hphase, CallPhase.sent]

/-- All other steps leave the headers and what is written as they are. -/
theorem ChannelMoved.headers_eq (hmoved : ChannelMoved mergeFrom channel action next)
    (hsends : ¬ action.Sends) :
    next.headers = channel.headers ∧ next.written = channel.written ∧ next.id = channel.id := by
  cases hmoved with
  | call _ _ _ => exact absurd trivial hsends
  | write _ _ => exact absurd trivial hsends
  | put hcall hphase =>
    refine ⟨headers_setCall hcall ?_, rfl, rfl⟩
    simp [BlockingCall.header, hphase, CallPhase.sent]
  | thread hcall hcallMoved => exact ⟨headers_setCall hcall hcallMoved.header_eq, rfl, rfl⟩
  | run hio hcall hmonitor =>
    refine ⟨headers_setCall hcall ?_, rfl, rfl⟩
    rw [BlockingCall.header_notify]
    rfl
  | notify hio hcall hmonitor =>
    exact ⟨headers_setCall hcall (BlockingCall.header_notify _), rfl, rfl⟩
  | _ => exact ⟨rfl, rfl, rfl⟩

/-! ### Every step keeps it -/

/-- Two calls have different identifiers. -/
theorem WritesOnce.index_eq (honce : WritesOnce channel) {other : ℕ} {found : Header}
    (hheader : channel.headers[index]? = some header)
    (hfound : channel.headers[other]? = some found)
    (hid : header.message.getId = found.message.getId) : index = other := by
  obtain ⟨hfirst, hfirstId, -⟩ := honce.drawn index header hheader
  obtain ⟨hsecond, hsecondId, -⟩ := honce.drawn other found hfound
  have hindex := (List.getElem?_eq_some_iff.mp hheader).1
  have hother := (List.getElem?_eq_some_iff.mp hfound).1
  have hfew := honce.few
  simp only [RpcMessage.getId, hfirstId, hsecondId, Option.getD_some] at hid
  exact drawnId_inj 1 (by omega) (by omega) (hfirst.symm.trans (hid.trans hsecond))

/-- The next identifier is new. -/
theorem WritesOnce.fresh (honce : WritesOnce channel) (hfew : channel.headers.length < 2 ^ 64)
    (hheader : header ∈ channel.headers) : header.message.getId ≠ channel.id := by
  obtain ⟨index, hindex⟩ := List.getElem?_of_mem hheader
  obtain ⟨hid, hmessage, -⟩ := honce.drawn index header hindex
  have hlt := (List.getElem?_eq_some_iff.mp hindex).1
  intro hsame
  simp only [RpcMessage.getId, hmessage, Option.getD_some, honce.next] at hsame
  have hequal := drawnId_inj 1 (by omega) hfew (hid.symm.trans hsame)
  omega

theorem writesOnce_initial :
    WritesOnce (CallingChannel.initial : CallingChannel Prototype Message) where
  few := Nat.zero_le _
  next := (drawnId_zero 1).symm
  drawn := fun index header hheader ↦ by cases hheader
  written := fun message ↦ by simp [CallingChannel.initial, CallingChannel.headers]
  once := List.nodup_nil

/-- A call draws the next identifier. -/
theorem WritesOnce.newCall (honce : WritesOnce channel) (hfew : channel.headers.length < 2 ^ 64)
    {service method : String} {request : Bytes} {responsePrototype : Prototype}
    (hstep : channelStep mergeFrom channel (.call service method request responsePrototype) =
      some next) :
    WritesOnce next ∧ next.headers = channel.headers ++ [{
      id := channel.id
      message := requestOf channel.id service method request
      sent := false }] ∧ next.written = channel.written := by
  obtain rfl := Option.some.inj hstep
  refine ⟨⟨?_, ?_, fun index header hheader ↦ ?_, fun message ↦ ?_, honce.once⟩,
    List.map_append, rfl⟩
  · simp only [CallingChannel.headers, List.map_append, List.map_singleton, List.length_append,
      List.length_singleton]
    exact hfew
  · simp only [CallingChannel.headers, List.map_append, List.map_singleton, List.length_append,
      List.length_singleton, drawnId_succ]
    rw [honce.next]
    rfl
  · simp only [CallingChannel.headers, List.map_append, List.map_singleton] at hheader
    rcases getElem?_append_singleton_eq_some hheader with hold | ⟨rfl, rfl⟩
    · exact honce.drawn index header hold
    · exact ⟨honce.next, rfl, rfl⟩
  · rw [show (_ : CallingChannel Prototype Message).written = channel.written from rfl,
      honce.written message]
    simp [CallingChannel.headers, BlockingCall.header, CallPhase.sent]

/-- What was written are not the requests of calls that have not come to it. -/
theorem WritesOnce.notMem_written (honce : WritesOnce channel)
    (hcall : channel.calls[index]? = some call) (hunsent : call.header.sent = false) :
    call.message ∉ channel.written := by
  intro hwritten
  obtain ⟨other, hother, hmessage, hsent⟩ := (honce.written _).mp hwritten
  obtain ⟨position, hposition⟩ := List.getElem?_of_mem hother
  have hequal := honce.index_eq hposition (getElem?_headers hcall) (by rw [hmessage]; rfl)
  rw [hequal, getElem?_headers hcall] at hposition
  rw [← Option.some.inj hposition, hunsent] at hsent
  cases hsent

/-- A call that is written had not been. -/
theorem WritesOnce.write (honce : WritesOnce channel)
    (hstep : channelStep mergeFrom channel (.write index) = some next) :
    WritesOnce next ∧ ∃ call, channel.calls[index]? = some call ∧ call.phase = .registered ∧
      next = { channel.setCall index { call with phase := .written } with
        written := channel.written ++ [call.message] } := by
  simp only [channelStep] at hstep
  split at hstep
  · rename_i call hcall
    split at hstep
    · rename_i hphase
      obtain rfl := Option.some.inj hstep
      refine ⟨?_, call, hcall, hphase, rfl⟩
      have hlt := (List.getElem?_eq_some_iff.mp (getElem?_headers hcall)).1
      have hheaders : CallingChannel.headers { channel.setCall index { call with
            phase := .written } with written := channel.written ++ [call.message] } =
          channel.headers.set index { call.header with sent := true } := List.map_set
      have hunsent : call.header.sent = false := by
        simp [BlockingCall.header, hphase, CallPhase.sent]
      have hnew := honce.notMem_written hcall hunsent
      refine ⟨?_, ?_, fun other found hfound ↦ ?_, fun message ↦ ?_, ?_⟩
      · rw [hheaders, List.length_set]
        exact honce.few
      · rw [hheaders, List.length_set]
        exact honce.next
      · rw [hheaders] at hfound
        rcases getElem?_set_cases hfound with ⟨rfl, rfl⟩ | ⟨-, hold⟩
        · exact honce.drawn _ call.header (getElem?_headers hcall)
        · exact honce.drawn other found hold
      · rw [hheaders]
        simp only [List.mem_append, List.mem_singleton, honce.written message]
        constructor
        · rintro (⟨other, hother, hmessage, hsent⟩ | rfl)
          · obtain ⟨position, hposition⟩ := List.getElem?_of_mem hother
            have hne : index ≠ position := by
              rintro rfl
              rw [getElem?_headers hcall] at hposition
              rw [← Option.some.inj hposition, hunsent] at hsent
              cases hsent
            exact ⟨other, List.mem_of_getElem? ((List.getElem?_set_ne hne).trans hposition),
              hmessage, hsent⟩
          · exact ⟨_, List.mem_set hlt _, rfl, rfl⟩
        · rintro ⟨other, hother, hmessage, hsent⟩
          rcases List.mem_or_eq_of_mem_set hother with hold | rfl
          · exact Or.inl ⟨other, hold, hmessage, hsent⟩
          · exact Or.inr hmessage.symm
      · rw [List.nodup_append]
        refine ⟨honce.once, List.nodup_singleton _, fun message hmessage other hother ↦ ?_⟩
        rw [List.mem_singleton.mp hother]
        rintro rfl
        exact hnew hmessage
    · cases hstep
  · cases hstep

end Headers

end MuduoProtorpc.JavaChannel
