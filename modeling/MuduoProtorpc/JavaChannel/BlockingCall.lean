import MuduoProtorpc.Foundation.PendingTable
import MuduoProtorpc.Foundation.TransitionSystem
import MuduoProtorpc.JavaChannel.RpcChannel

/-!
# Blocking calls of the Java channel

Any number of threads in `callBlockingMethod` on one channel, and the I/O thread, which receives
messages and calls `disconnected()`, as a transition system. The steps of a thread are those between
which another thread can run: drawing an identifier, putting the call into the table, writing the
request, entering the monitor of its callback, testing the loop condition, waiting, and leaving.

A monitor has one thread of a call and the I/O thread after it; what the I/O thread does within it
(`run`, or one `notify` of `disconnected()`) is one step, taken when the thread of the call is not
inside. A thread that waits can be interrupted, or wake up for no reason.

`ChannelMoved` lists the steps, one constructor for each branch of `channelStep`.
-/

set_option autoImplicit false
set_option relaxedAutoImplicit false

namespace MuduoProtorpc.JavaChannel

open Foundation

variable {Prototype Message : Type}

/-! ### Calls -/

/-- `Outstanding`; the callback is represented by the number of its call. -/
structure Outstanding (Prototype : Type) where
  responsePrototype : Prototype
  done : ℕ

/-- Where the thread of a call stands: behind `getAndIncrement`, `outstandings.put` or
`channel.write`; in the monitor of its callback in front of the loop condition, or of `wait()`; in
the wait set, or out of it and in front of the monitor again; behind the `synchronized` block, or
behind `callBlockingMethod`. -/
inductive CallPhase (Prototype Message : Type)
  | taken (responsePrototype : Prototype)
  | registered
  | written
  | testing
  | blocking
  | waiting
  | notified
  | leaving
  | returned (response : Option Message)

/-- The thread is inside the monitor of its callback. -/
def CallPhase.inMonitor : CallPhase Prototype Message → Bool
  | .testing => true
  | .blocking => true
  | _ => false

/-- A call of `callBlockingMethod`: its identifier, its request, and the `response` field of its
callback. -/
structure BlockingCall (Prototype Message : Type) where
  id : BitVec 64
  message : RpcMessage
  response : Option Message
  phase : CallPhase Prototype Message

/-- What the thread of a call does on its own, once the request is written. -/
inductive CallEvent
  | enter
  | test
  | wait
  | interrupt
  | leave

/-- One step of the thread of a call in the second half of `callBlockingMethod`. -/
def callStep (connected : Bool) (call : BlockingCall Prototype Message) :
    CallEvent → Option (BlockingCall Prototype Message)
  | .enter =>
    match call.phase with
    | .written => some { call with phase := .testing }
    | .notified => some { call with phase := .testing }
    | _ => none
  | .test =>
    match call.phase with
    | .testing =>
      if call.response.isNone && connected then some { call with phase := .blocking }
      else some { call with phase := .leaving }
    | _ => none
  | .wait =>
    match call.phase with
    | .blocking => some { call with phase := .waiting }
    | _ => none
  | .interrupt =>
    match call.phase with
    | .waiting => some { call with phase := .notified }
    | _ => none
  | .leave =>
    match call.phase with
    | .leaving => some { call with phase := .returned call.response }
    | _ => none

/-- `done.notify()`. -/
def BlockingCall.notify (call : BlockingCall Prototype Message) : BlockingCall Prototype Message :=
  match call.phase with
  | .waiting => { call with phase := .notified }
  | _ => call

/-! ### The channel -/

/-- Where the I/O thread stands: between two events; in `messageReceived`, in front of
`o.done.run(resp)`; or in `disconnected()`, with the calls it has still to notify. -/
inductive IoPhase (Message : Type)
  | idle
  | running (message : RpcMessage) (done : ℕ) (resp : Option Message)
  | notifying (remaining : List ℕ)

/-- A channel with the calls made on it. -/
structure CallingChannel (Prototype Message : Type) where
  id : BitVec 64
  outstandings : Table (BitVec 64) (Outstanding Prototype)
  connected : Bool
  calls : List (BlockingCall Prototype Message)
  io : IoPhase Message
  -- the messages written, the replies that were fully processed, and whether `disconnected()` has
  -- returned
  written : List RpcMessage
  processed : List RpcMessage
  completed : Bool

/-- A channel just connected. -/
def CallingChannel.initial : CallingChannel Prototype Message where
  id := 1
  outstandings := Table.empty
  connected := true
  calls := []
  io := .idle
  written := []
  processed := []
  completed := false

/-- What can happen next. -/
inductive ChannelAction (Prototype : Type)
  | call (service method : String) (request : Bytes) (responsePrototype : Prototype)
  | put (index : ℕ)
  | write (index : ℕ)
  | thread (index : ℕ) (event : CallEvent)
  | receive (message : RpcMessage)
  | run
  | disconnect
  | disconnected
  | notify (index : ℕ)
  | finish

/-- A channel with one call changed. -/
def CallingChannel.setCall (channel : CallingChannel Prototype Message) (index : ℕ)
    (call : BlockingCall Prototype Message) : CallingChannel Prototype Message :=
  { channel with calls := channel.calls.set index call }

/-- The calls whose callbacks are among `outstandings.values()`. -/
def CallingChannel.registered (channel : CallingChannel Prototype Message) : List ℕ :=
  (List.range channel.calls.length).filter fun index ↦
    match channel.calls[index]? with
    | some call =>
      match channel.outstandings.find call.id with
      | some o => o.done = index
      | none => false
    | none => false

/-- `messageReceived`, up to `o.done.run(resp)`. A REQUEST is for the server side of the channel,
and an ERROR is for no one. -/
def messageReceived (mergeFrom : Prototype → Bytes → Except String Message)
    (channel : CallingChannel Prototype Message) (message : RpcMessage) :
    CallingChannel Prototype Message :=
  match message.getType with
  | .request => channel
  | .response =>
    match channel.outstandings.find message.getId with
    | some o => { channel with
        outstandings := channel.outstandings.erase message.getId
        io := .running message o.done
          (fromByteString (mergeFrom o.responsePrototype) message.getResponse) }
    | none => { channel with processed := channel.processed ++ [message] }
  | .error => { channel with processed := channel.processed ++ [message] }

/-- One step of the channel. The iterator of `disconnected()` visits every callback that was in the
table when it was made, and may visit those that were put there since. -/
def channelStep (mergeFrom : Prototype → Bytes → Except String Message)
    (channel : CallingChannel Prototype Message) :
    ChannelAction Prototype → Option (CallingChannel Prototype Message)
  | .call service method request responsePrototype =>
    some { channel with
      id := channel.id + 1
      calls := channel.calls ++ [{
        id := channel.id
        message := {
          type := some .request
          id := some channel.id
          service := some service
          method := some method
          request := some request }
        response := none
        phase := .taken responsePrototype }] }
  | .put index =>
    match channel.calls[index]? with
    | some call =>
      match call.phase with
      | .taken responsePrototype =>
        some { channel.setCall index { call with phase := .registered } with
          outstandings := channel.outstandings.insert call.id
            { responsePrototype := responsePrototype, done := index } }
      | _ => none
    | none => none
  | .write index =>
    match channel.calls[index]? with
    | some call =>
      match call.phase with
      | .registered => some { channel.setCall index { call with phase := .written } with
          written := channel.written ++ [call.message] }
      | _ => none
    | none => none
  | .thread index event =>
    match channel.calls[index]? with
    | some call => (callStep channel.connected call event).map fun next ↦
        channel.setCall index next
    | none => none
  | .receive message =>
    match channel.io with
    | .idle =>
      if message.isInitialized then some (messageReceived mergeFrom channel message) else none
    | _ => none
  | .run =>
    match channel.io with
    | .running message done resp =>
      match channel.calls[done]? with
      | some call =>
        if call.phase.inMonitor then none
        else some { channel.setCall done { call with response := resp }.notify with
          io := .idle
          processed := channel.processed ++ [message] }
      | none => none
    | _ => none
  | .disconnect => some { channel with connected := false }
  | .disconnected =>
    match channel.io with
    | .idle =>
      if channel.connected then none
      else some { channel with io := .notifying channel.registered }
    | _ => none
  | .notify index =>
    match channel.io with
    | .notifying remaining =>
      if index ∈ remaining ++ channel.registered then
        match channel.calls[index]? with
        | some call =>
          if call.phase.inMonitor then none
          else some { channel.setCall index call.notify with
            io := .notifying (remaining.erase index) }
        | none => none
      else none
    | _ => none
  | .finish =>
    match channel.io with
    | .notifying [] => some { channel with io := .idle, completed := true }
    | _ => none

/-- A channel on which blocking calls are made. -/
def channelSystem (mergeFrom : Prototype → Bytes → Except String Message) :
    TransitionSystem (CallingChannel Prototype Message) (ChannelAction Prototype) where
  start := CallingChannel.initial
  step := channelStep mergeFrom

/-! ### What each step does -/

/-- The steps of the thread of a call. -/
inductive CallMoved (connected : Bool) (call : BlockingCall Prototype Message) :
    CallEvent → BlockingCall Prototype Message → Prop
  | enter : call.phase = .written ∨ call.phase = .notified →
      CallMoved connected call .enter { call with phase := .testing }
  | block : call.phase = .testing → call.response = none → connected = true →
      CallMoved connected call .test { call with phase := .blocking }
  | pass : call.phase = .testing → CallMoved connected call .test { call with phase := .leaving }
  | wait : call.phase = .blocking → CallMoved connected call .wait { call with phase := .waiting }
  | interrupt : call.phase = .waiting →
      CallMoved connected call .interrupt { call with phase := .notified }
  | leave : call.phase = .leaving →
      CallMoved connected call .leave { call with phase := .returned call.response }

/-- The steps of the channel. -/
inductive ChannelMoved (mergeFrom : Prototype → Bytes → Except String Message)
    (channel : CallingChannel Prototype Message) :
    ChannelAction Prototype → CallingChannel Prototype Message → Prop
  | call {service method : String} {request : Bytes} {responsePrototype : Prototype}
      {call : BlockingCall Prototype Message} : call.id = channel.id → call.response = none →
        call.phase = .taken responsePrototype →
          ChannelMoved mergeFrom channel (.call service method request responsePrototype)
            { channel with id := channel.id + 1, calls := channel.calls ++ [call] }
  | put {index : ℕ} {call : BlockingCall Prototype Message} {responsePrototype : Prototype} :
      channel.calls[index]? = some call → call.phase = .taken responsePrototype →
        ChannelMoved mergeFrom channel (.put index)
          { channel.setCall index { call with phase := .registered } with
            outstandings := channel.outstandings.insert call.id
              { responsePrototype := responsePrototype, done := index } }
  | write {index : ℕ} {call : BlockingCall Prototype Message} :
      channel.calls[index]? = some call → call.phase = .registered →
        ChannelMoved mergeFrom channel (.write index)
          { channel.setCall index { call with phase := .written } with
            written := channel.written ++ [call.message] }
  | thread {index : ℕ} {event : CallEvent} {call next : BlockingCall Prototype Message} :
      channel.calls[index]? = some call → CallMoved channel.connected call event next →
        ChannelMoved mergeFrom channel (.thread index event) (channel.setCall index next)
  | request {message : RpcMessage} : channel.io = .idle → message.getType = .request →
      ChannelMoved mergeFrom channel (.receive message) channel
  | found {message : RpcMessage} {o : Outstanding Prototype} : channel.io = .idle →
      message.getType = .response → channel.outstandings.find message.getId = some o →
        ChannelMoved mergeFrom channel (.receive message) { channel with
          outstandings := channel.outstandings.erase message.getId
          io := .running message o.done
            (fromByteString (mergeFrom o.responsePrototype) message.getResponse) }
  | ignored {message : RpcMessage} : channel.io = .idle →
      (message.getType = .response ∧ channel.outstandings.find message.getId = none) ∨
        message.getType = .error →
        ChannelMoved mergeFrom channel (.receive message)
          { channel with processed := channel.processed ++ [message] }
  | run {message : RpcMessage} {done : ℕ} {resp : Option Message}
      {call : BlockingCall Prototype Message} : channel.io = .running message done resp →
        channel.calls[done]? = some call → call.phase.inMonitor = false →
          ChannelMoved mergeFrom channel .run
            { channel.setCall done { call with response := resp }.notify with
              io := .idle
              processed := channel.processed ++ [message] }
  | disconnect : ChannelMoved mergeFrom channel .disconnect { channel with connected := false }
  | disconnected : channel.io = .idle → channel.connected = false →
      ChannelMoved mergeFrom channel .disconnected
        { channel with io := .notifying channel.registered }
  | notify {index : ℕ} {remaining : List ℕ} {call : BlockingCall Prototype Message} :
      channel.io = .notifying remaining → channel.calls[index]? = some call →
        call.phase.inMonitor = false → ChannelMoved mergeFrom channel (.notify index)
          { channel.setCall index call.notify with io := .notifying (remaining.erase index) }
  | finish : channel.io = .notifying [] →
      ChannelMoved mergeFrom channel .finish { channel with io := .idle, completed := true }

section Cases

variable {mergeFrom : Prototype → Bytes → Except String Message}
  {channel next : CallingChannel Prototype Message} {action : ChannelAction Prototype}

/-- A step of the thread of a call is one of these. -/
theorem call_cases {connected : Bool} {call moved : BlockingCall Prototype Message}
    {event : CallEvent} (hstep : callStep connected call event = some moved) :
    CallMoved connected call event moved := by
  cases event with
  | enter =>
    simp only [callStep] at hstep
    split at hstep
    · rename_i hphase
      obtain rfl := Option.some.inj hstep
      exact .enter (Or.inl hphase)
    · rename_i hphase
      obtain rfl := Option.some.inj hstep
      exact .enter (Or.inr hphase)
    · cases hstep
  | test =>
    simp only [callStep] at hstep
    split at hstep
    · rename_i hphase
      split_ifs at hstep with htest
      · obtain rfl := Option.some.inj hstep
        simp only [Bool.and_eq_true, Option.isNone_iff_eq_none] at htest
        exact .block hphase htest.1 htest.2
      · obtain rfl := Option.some.inj hstep
        exact .pass hphase
    · cases hstep
  | wait =>
    simp only [callStep] at hstep
    split at hstep
    · rename_i hphase
      obtain rfl := Option.some.inj hstep
      exact .wait hphase
    · cases hstep
  | interrupt =>
    simp only [callStep] at hstep
    split at hstep
    · rename_i hphase
      obtain rfl := Option.some.inj hstep
      exact .interrupt hphase
    · cases hstep
  | leave =>
    simp only [callStep] at hstep
    split at hstep
    · rename_i hphase
      obtain rfl := Option.some.inj hstep
      exact .leave hphase
    · cases hstep

/-- A message is for the server side, finds its entry, or is ignored. -/
theorem receive_cases {message : RpcMessage} (hio : channel.io = .idle) :
    ChannelMoved mergeFrom channel (.receive message)
      (messageReceived mergeFrom channel message) := by
  unfold messageReceived
  split
  · rename_i htype
    exact .request hio htype
  · rename_i htype
    split
    · rename_i o hfind
      exact .found hio htype hfind
    · rename_i hfind
      exact .ignored hio (Or.inl ⟨htype, hfind⟩)
  · rename_i htype
    exact .ignored hio (Or.inr htype)

/-- A step of the channel is one of these. -/
theorem channel_cases (hstep : channelStep mergeFrom channel action = some next) :
    ChannelMoved mergeFrom channel action next := by
  cases action with
  | call service method request responsePrototype =>
    obtain rfl := Option.some.inj hstep
    exact .call rfl rfl rfl
  | put index =>
    simp only [channelStep] at hstep
    split at hstep
    · rename_i call hcall
      split at hstep
      · rename_i responsePrototype hphase
        obtain rfl := Option.some.inj hstep
        exact .put hcall hphase
      · cases hstep
    · cases hstep
  | write index =>
    simp only [channelStep] at hstep
    split at hstep
    · rename_i call hcall
      split at hstep
      · rename_i hphase
        obtain rfl := Option.some.inj hstep
        exact .write hcall hphase
      · cases hstep
    · cases hstep
  | thread index event =>
    simp only [channelStep] at hstep
    split at hstep
    · rename_i call hcall
      obtain ⟨moved, hmoved, rfl⟩ := Option.map_eq_some_iff.mp hstep
      exact .thread hcall (call_cases hmoved)
    · cases hstep
  | receive message =>
    simp only [channelStep] at hstep
    split at hstep
    · rename_i hio
      split_ifs at hstep
      obtain rfl := Option.some.inj hstep
      exact receive_cases hio
    · cases hstep
  | run =>
    simp only [channelStep] at hstep
    split at hstep
    · rename_i message done resp hio
      split at hstep
      · rename_i call hcall
        split_ifs at hstep with hmonitor
        obtain rfl := Option.some.inj hstep
        exact .run hio hcall (by simpa using hmonitor)
      · cases hstep
    · cases hstep
  | disconnect =>
    obtain rfl := Option.some.inj hstep
    exact .disconnect
  | disconnected =>
    simp only [channelStep] at hstep
    split at hstep
    · rename_i hio
      split_ifs at hstep with hconnected
      obtain rfl := Option.some.inj hstep
      exact .disconnected hio (by simpa using hconnected)
    · cases hstep
  | notify index =>
    simp only [channelStep] at hstep
    split at hstep
    · rename_i remaining hio
      split_ifs at hstep
      split at hstep
      · rename_i call hcall
        split_ifs at hstep with hmonitor
        obtain rfl := Option.some.inj hstep
        exact .notify hio hcall (by simpa using hmonitor)
      · cases hstep
    · cases hstep
  | finish =>
    simp only [channelStep] at hstep
    split at hstep
    · rename_i hio
      obtain rfl := Option.some.inj hstep
      exact .finish hio
    · cases hstep

end Cases

end MuduoProtorpc.JavaChannel
