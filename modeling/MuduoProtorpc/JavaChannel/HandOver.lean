import MuduoProtorpc.Foundation.TransitionSystem

/-!
# The first connection of a Java client

`startConnect` starts the connection and stores the callback for the new channel after that. When
the connection is established, the I/O thread calls `channelConnected`, which makes the
`RpcChannel`, sets it up and reads the callback, twice: to see whether there is one, and to run it.
The two threads are a transition system whose steps are the reads and writes of the fields.

A connection that is established quickly is set up before the callback is stored, and the callback
is not run. Otherwise it is run once, with the channel of the client (`handedOver_iff`).
-/

set_option autoImplicit false
set_option relaxedAutoImplicit false

namespace MuduoProtorpc.JavaChannel

open Foundation

/-! ### The threads -/

/-- Where the thread in `startConnect` or `blockingConnect` stands: in front of
`bootstrap.connect`, behind it, behind the assignment of `newChannelCallback`, or behind
`blockingConnect`. -/
inductive CallerPhase
  | starting
  | connecting
  | stored
  | returned (channel : Option ℕ)
  deriving DecidableEq

/-- Where the I/O thread stands: not in `channelConnected` yet; in front of `rpcChannel == null`, or
of `new RpcChannel(channel)`; in `setupNewChannel`, in front of `handler.setChannel`, of
`setServiceMap`, of `newChannelCallback != null`, or of `newChannelCallback.run`; or behind
`channelConnected`. -/
inductive ConnectedPhase
  | idle
  | entered
  | creating
  | settingUp (channel : ℕ)
  | handlerSet (channel : ℕ)
  | testing (channel : ℕ)
  | running (channel : ℕ)
  | finished
  deriving DecidableEq

/-- An `RpcClient`, and the two threads. The `RpcChannel`s are numbered in the order in which they
are made. -/
structure ConnectingClient (Callback : Type*) where
  caller : CallerPhase
  io : ConnectedPhase
  newChannelCallback : Option Callback
  rpcChannel : Option ℕ
  -- the channel that `RpcMessageHandler` has, and those that have a service map
  handlerChannel : Option ℕ
  withServices : List ℕ
  -- how many channels were made, and the callbacks that were run
  created : ℕ
  ran : List (Callback × ℕ)

variable {Callback : Type*}

/-- What can happen next. -/
inductive ConnectAction
  | connect
  | storeCallback
  | await (timedOut : Bool)
  | channelConnected
  | io
  deriving DecidableEq

/-- A step of the I/O thread in `channelConnected`. -/
def ioStep (client : ConnectingClient Callback) : Option (ConnectingClient Callback) :=
  match client.io with
  | .idle => none
  | .entered =>
    match client.rpcChannel with
    | none => some { client with io := .creating }
    | some _ => some { client with io := .finished }
  | .creating => some { client with
      created := client.created + 1
      rpcChannel := some client.created
      io := .settingUp client.created }
  | .settingUp channel =>
    some { client with handlerChannel := some channel, io := .handlerSet channel }
  | .handlerSet channel => some { client with
      withServices := client.withServices ++ [channel]
      io := .testing channel }
  | .testing channel =>
    match client.newChannelCallback with
    | some _ => some { client with io := .running channel }
    | none => some { client with io := .finished }
  | .running channel =>
    match client.newChannelCallback with
    | some callback => some { client with
        ran := client.ran ++ [(callback, channel)]
        io := .finished }
    -- a `NullPointerException`
    | none => some { client with io := .finished }
  | .finished => none

/-- One step of the two threads. The callback of `blockingConnect` counts its latch down. -/
def connectStep [DecidableEq Callback] (passed : Callback) (blocking : Bool)
    (client : ConnectingClient Callback) : ConnectAction → Option (ConnectingClient Callback)
  | .connect =>
    match client.caller with
    | .starting => some { client with caller := .connecting }
    | _ => none
  | .storeCallback =>
    match client.caller with
    | .connecting =>
      some { client with caller := .stored, newChannelCallback := some passed }
    | _ => none
  | .await timedOut =>
    match client.caller with
    | .stored =>
      if blocking && (timedOut || client.ran.any fun run ↦ run.1 = passed) then
        some { client with caller := .returned client.rpcChannel }
      else none
    | _ => none
  | .channelConnected =>
    match client.io with
    | .idle =>
      match client.caller with
      | .starting => none
      | _ => some { client with io := .entered }
    | _ => none
  | .io => ioStep client

/-- A client that has not been connected yet, and is now given a callback; it may have one from
`setNewChannelCallback`. -/
def connectSystem [DecidableEq Callback] (previous : Option Callback) (passed : Callback)
    (blocking : Bool) : TransitionSystem (ConnectingClient Callback) ConnectAction where
  start := {
    caller := .starting
    io := .idle
    newChannelCallback := previous
    rpcChannel := none
    handlerChannel := none
    withServices := []
    created := 0
    ran := [] }
  step := connectStep passed blocking

/-! ### The hand-over -/

/-- The callback was run once, and no other was, with the channel that the handler has and that
`getChannel` returns. -/
def HandedOver (passed : Callback) (client : ConnectingClient Callback) : Prop :=
  ∃ channel, client.ran = [(passed, channel)] ∧ client.handlerChannel = some channel ∧
    client.rpcChannel = some channel

/-- The I/O thread finds a callback, and the one it runs is the one that was passed. -/
def InTime (passed : Callback) (client : ConnectingClient Callback) (action : ConnectAction) :
    Prop :=
  action = .io → ∀ channel,
    (client.io = .testing channel → client.newChannelCallback ≠ none) ∧
      (client.io = .running channel → client.newChannelCallback = some passed)

/-- What the I/O thread has done, by where it stands. -/
def Prepared (client : ConnectingClient Callback) : Prop :=
  match client.io with
  | .idle => client.rpcChannel = none ∧ client.ran = []
  | .entered => client.rpcChannel = none ∧ client.ran = []
  | .creating => client.ran = []
  | .settingUp channel => client.rpcChannel = some channel ∧ client.ran = []
  | .handlerSet channel =>
    client.rpcChannel = some channel ∧ client.handlerChannel = some channel ∧ client.ran = []
  | .testing channel =>
    client.rpcChannel = some channel ∧ client.handlerChannel = some channel ∧ client.ran = []
  | .running channel =>
    client.rpcChannel = some channel ∧ client.handlerChannel = some channel ∧ client.ran = []
  | .finished => client.ran = [] ∨ ∃ callback channel, client.ran = [(callback, channel)] ∧
    client.handlerChannel = some channel ∧ client.rpcChannel = some channel

/-! ### What each step does -/

/-- The steps of the I/O thread in `channelConnected`. -/
inductive IoMoved (client : ConnectingClient Callback) : ConnectingClient Callback → Prop
  | first : client.io = .entered → client.rpcChannel = none →
      IoMoved client { client with io := .creating }
  | again {channel : ℕ} : client.io = .entered → client.rpcChannel = some channel →
      IoMoved client { client with io := .finished }
  | create : client.io = .creating → IoMoved client { client with
      created := client.created + 1
      rpcChannel := some client.created
      io := .settingUp client.created }
  | setChannel {channel : ℕ} : client.io = .settingUp channel →
      IoMoved client { client with handlerChannel := some channel, io := .handlerSet channel }
  | setServiceMap {channel : ℕ} : client.io = .handlerSet channel → IoMoved client { client with
      withServices := client.withServices ++ [channel]
      io := .testing channel }
  | present {channel : ℕ} {callback : Callback} : client.io = .testing channel →
      client.newChannelCallback = some callback →
        IoMoved client { client with io := .running channel }
  | absent {channel : ℕ} : client.io = .testing channel → client.newChannelCallback = none →
      IoMoved client { client with io := .finished }
  | run {channel : ℕ} {callback : Callback} : client.io = .running channel →
      client.newChannelCallback = some callback → IoMoved client { client with
        ran := client.ran ++ [(callback, channel)]
        io := .finished }
  | null {channel : ℕ} : client.io = .running channel → client.newChannelCallback = none →
      IoMoved client { client with io := .finished }

/-- The other steps, which change the phase of the caller, the callback, or let the I/O thread enter
`channelConnected`. -/
structure OtherMoved (client next : ConnectingClient Callback) : Prop where
  ran : next.ran = client.ran
  rpcChannel : next.rpcChannel = client.rpcChannel
  handlerChannel : next.handlerChannel = client.handlerChannel
  io : next.io = client.io ∨ client.io = .idle ∧ next.io = .entered

section HandOver

variable {client next : ConnectingClient Callback} {passed : Callback}

theorem ioMoved_of_ioStep (hstep : ioStep client = some next) : IoMoved client next := by
  unfold ioStep at hstep
  split at hstep
  · cases hstep
  · rename_i hio
    split at hstep
    · rename_i hnone
      obtain rfl := Option.some.inj hstep
      exact .first hio hnone
    · rename_i hchannel
      obtain rfl := Option.some.inj hstep
      exact .again hio hchannel
  · rename_i hio
    obtain rfl := Option.some.inj hstep
    exact .create hio
  · rename_i hio
    obtain rfl := Option.some.inj hstep
    exact .setChannel hio
  · rename_i hio
    obtain rfl := Option.some.inj hstep
    exact .setServiceMap hio
  · rename_i hio
    split at hstep
    · rename_i hcallback
      obtain rfl := Option.some.inj hstep
      exact .present hio hcallback
    · rename_i hnone
      obtain rfl := Option.some.inj hstep
      exact .absent hio hnone
  · rename_i hio
    split at hstep
    · rename_i hcallback
      obtain rfl := Option.some.inj hstep
      exact .run hio hcallback
    · rename_i hnone
      obtain rfl := Option.some.inj hstep
      exact .null hio hnone
  · cases hstep

/-- Every step is one of the I/O thread in `channelConnected`, or another. -/
theorem connectStep_cases [DecidableEq Callback] {blocking : Bool} {action : ConnectAction}
    (hstep : connectStep passed blocking client action = some next) :
    action = .io ∧ IoMoved client next ∨ action ≠ .io ∧ OtherMoved client next := by
  cases action with
  | connect =>
    right
    simp only [connectStep] at hstep
    split at hstep
    · obtain rfl := Option.some.inj hstep
      exact ⟨nofun, rfl, rfl, rfl, Or.inl rfl⟩
    · cases hstep
  | storeCallback =>
    right
    simp only [connectStep] at hstep
    split at hstep
    · obtain rfl := Option.some.inj hstep
      exact ⟨nofun, rfl, rfl, rfl, Or.inl rfl⟩
    · cases hstep
  | await timedOut =>
    right
    simp only [connectStep] at hstep
    split at hstep
    · split_ifs at hstep
      obtain rfl := Option.some.inj hstep
      exact ⟨nofun, rfl, rfl, rfl, Or.inl rfl⟩
    · cases hstep
  | channelConnected =>
    right
    simp only [connectStep] at hstep
    split at hstep
    · rename_i hidle
      split at hstep
      · cases hstep
      · obtain rfl := Option.some.inj hstep
        exact ⟨nofun, rfl, rfl, rfl, Or.inr ⟨hidle, rfl⟩⟩
    · cases hstep
  | io => exact Or.inl ⟨rfl, ioMoved_of_ioStep hstep⟩

/-- Every step of the I/O thread leaves things prepared for the next. -/
theorem Prepared.ioMoved (hprepared : Prepared client) (hmoved : IoMoved client next) :
    Prepared next := by
  unfold Prepared at hprepared
  cases hmoved with
  | first hio _ =>
    rw [hio] at hprepared
    exact hprepared.2
  | again hio _ =>
    rw [hio] at hprepared
    exact Or.inl hprepared.2
  | create hio =>
    rw [hio] at hprepared
    exact ⟨rfl, hprepared⟩
  | setChannel hio =>
    rw [hio] at hprepared
    exact ⟨hprepared.1, rfl, hprepared.2⟩
  | setServiceMap hio =>
    rw [hio] at hprepared
    exact hprepared
  | present hio _ =>
    rw [hio] at hprepared
    exact hprepared
  | absent hio _ =>
    rw [hio] at hprepared
    exact Or.inl hprepared.2.2
  | @run channel callback hio _ =>
    rw [hio] at hprepared
    obtain ⟨hrpc, hhandler, hran⟩ := hprepared
    refine Or.inr ⟨callback, channel, ?_, hhandler, hrpc⟩
    show client.ran ++ [(callback, channel)] = [(callback, channel)]
    rw [hran, List.nil_append]
  | null hio _ =>
    rw [hio] at hprepared
    exact Or.inl hprepared.2.2

theorem Prepared.otherMoved (hprepared : Prepared client) (hmoved : OtherMoved client next) :
    Prepared next := by
  unfold Prepared at hprepared ⊢
  rw [hmoved.ran, hmoved.rpcChannel, hmoved.handlerChannel]
  rcases hmoved.io with hio | ⟨hidle, hentered⟩
  · rw [hio]
    exact hprepared
  · rw [hidle] at hprepared
    rw [hentered]
    exact hprepared

/-! ### Runs -/

/-- A callback that was found and run in time is handed over. -/
theorem handedOver_of_inTime (hprepared : Prepared client) (hintime : InTime passed client .io)
    (hmoved : IoMoved client next) (hfinished : next.io = .finished) : HandedOver passed next := by
  unfold Prepared at hprepared
  cases hmoved with
  | first _ _ => cases hfinished
  | again hio hchannel =>
    rw [hio] at hprepared
    rw [hprepared.1] at hchannel
    cases hchannel
  | create _ => cases hfinished
  | setChannel _ => cases hfinished
  | setServiceMap _ => cases hfinished
  | present _ _ => cases hfinished
  | absent hio hnone => exact absurd hnone ((hintime rfl _).1 hio)
  | @run channel callback hio hcallback =>
    rw [hio] at hprepared
    obtain ⟨hrpc, hhandler, hran⟩ := hprepared
    have hpassed := (hintime rfl channel).2 hio
    rw [hcallback] at hpassed
    refine ⟨channel, ?_, hhandler, hrpc⟩
    show client.ran ++ [(callback, channel)] = [(passed, channel)]
    rw [hran, List.nil_append, Option.some.inj hpassed]
  | null hio hnone =>
    have hpassed := (hintime rfl _).2 hio
    rw [hnone] at hpassed
    cases hpassed

/-- A step that is not in time finds no callback, or runs another. -/
theorem missed_of_not_inTime (hprepared : Prepared client) (hlate : ¬ InTime passed client .io)
    (hstep : ioStep client = some next) : next.io = .finished ∧ ¬ HandedOver passed next := by
  have hlate : ∃ channel, client.io = .testing channel ∧ client.newChannelCallback = none ∨
      client.io = .running channel ∧ client.newChannelCallback ≠ some passed := by
    by_contra hnever
    apply hlate
    intro _ channel
    constructor
    · intro hio hnone
      exact hnever ⟨channel, Or.inl ⟨hio, hnone⟩⟩
    · intro hio
      by_contra hother
      exact hnever ⟨channel, Or.inr ⟨hio, hother⟩⟩
  obtain ⟨channel, ⟨hio, hnone⟩ | ⟨hio, hother⟩⟩ := hlate
  · rw [Prepared, hio] at hprepared
    simp only [ioStep, hio, hnone] at hstep
    obtain rfl := Option.some.inj hstep
    refine ⟨rfl, ?_⟩
    rintro ⟨_, hran, -⟩
    rw [hprepared.2.2] at hran
    cases hran
  · rw [Prepared, hio] at hprepared
    cases hcallback : client.newChannelCallback with
    | none =>
      simp only [ioStep, hio, hcallback] at hstep
      obtain rfl := Option.some.inj hstep
      refine ⟨rfl, ?_⟩
      rintro ⟨_, hran, -⟩
      rw [hprepared.2.2] at hran
      cases hran
    | some callback =>
      simp only [ioStep, hio, hcallback] at hstep
      obtain rfl := Option.some.inj hstep
      refine ⟨rfl, ?_⟩
      rintro ⟨_, hran, -⟩
      rw [hprepared.2.2, List.nil_append] at hran
      rw [hcallback] at hother
      exact hother (congrArg some (Prod.mk.inj (List.singleton_inj.mp hran)).1)

/-- What was handed over, or was not, stays so. -/
theorem OtherMoved.handedOver_congr (hmoved : OtherMoved client next) :
    HandedOver passed next ↔ HandedOver passed client := by
  rw [HandedOver, HandedOver, hmoved.ran, hmoved.rpcChannel, hmoved.handlerChannel]

theorem OtherMoved.finished_iff (hmoved : OtherMoved client next) :
    next.io = .finished ↔ client.io = .finished := by
  rcases hmoved.io with hio | ⟨hidle, hentered⟩
  · rw [hio]
  · rw [hidle, hentered]
    constructor
    · exact nofun
    · exact nofun

/-- The I/O thread does not move when it is through. -/
theorem ioStep_finished (hfinished : client.io = .finished) : ioStep client = none := by
  rw [ioStep, hfinished]

/-- How many steps of `channelConnected` the I/O thread has in front of it. -/
def ConnectedPhase.remaining : ConnectedPhase → ℕ
  | .idle => 7
  | .entered => 6
  | .creating => 5
  | .settingUp _ => 4
  | .handlerSet _ => 3
  | .testing _ => 2
  | .running _ => 1
  | .finished => 0

/-- Inside `channelConnected` the I/O thread has a step, and comes nearer to the end by it. -/
theorem exists_ioStep (hentered : client.io ≠ .idle) (hgoes : client.io ≠ .finished) :
    ∃ next, ioStep client = some next ∧ next.io.remaining < client.io.remaining ∧
      next.io ≠ .idle := by
  unfold ioStep
  cases hio : client.io with
  | idle => exact absurd hio hentered
  | entered =>
    cases client.rpcChannel with
    | none => exact ⟨_, rfl, Nat.lt_succ_self 5, nofun⟩
    | some channel => exact ⟨_, rfl, Nat.succ_pos 5, nofun⟩
  | creating => exact ⟨_, rfl, Nat.lt_succ_self 4, nofun⟩
  | settingUp channel => exact ⟨_, rfl, Nat.lt_succ_self 3, nofun⟩
  | handlerSet channel => exact ⟨_, rfl, Nat.lt_succ_self 2, nofun⟩
  | testing channel =>
    cases client.newChannelCallback with
    | none => exact ⟨_, rfl, Nat.two_pos, nofun⟩
    | some callback => exact ⟨_, rfl, Nat.lt_succ_self 1, nofun⟩
  | running channel =>
    cases client.newChannelCallback with
    | none => exact ⟨_, rfl, Nat.one_pos, nofun⟩
    | some callback => exact ⟨_, rfl, Nat.one_pos, nofun⟩
  | finished => exact absurd hio hgoes

end HandOver

section Runs

variable [DecidableEq Callback] {previous : Option Callback} {passed : Callback} {blocking : Bool}
  {client : ConnectingClient Callback} {actions : List ConnectAction}

theorem prepared_of_run (hrun : (connectSystem previous passed blocking).Run actions client) :
    Prepared client := by
  apply TransitionSystem.RunWhen.invariant _ _ hrun
  · exact ⟨rfl, rfl⟩
  · intro state action next _ hstep hprepared
    rcases connectStep_cases hstep with ⟨-, hmoved⟩ | ⟨-, hmoved⟩
    · exact hprepared.ioMoved hmoved
    · exact hprepared.otherMoved hmoved

/-- A run whose steps are in time hands the callback over. -/
theorem handedOver_of_runWhen
    (hrun : (connectSystem previous passed blocking).RunWhen (InTime passed) actions client)
    (hfinished : client.io = .finished) : HandedOver passed client := by
  have hinvariant : Prepared client ∧ (client.io = .finished → HandedOver passed client) := by
    apply TransitionSystem.RunWhen.invariant _ _ hrun
    · exact ⟨⟨rfl, rfl⟩, nofun⟩
    · rintro state action next hintime hstep ⟨hprepared, hhanded⟩
      rcases connectStep_cases hstep with ⟨haction, hmoved⟩ | ⟨-, hmoved⟩
      · rw [haction] at hintime
        exact ⟨hprepared.ioMoved hmoved, handedOver_of_inTime hprepared hintime hmoved⟩
      · rw [hmoved.finished_iff, hmoved.handedOver_congr]
        exact ⟨hprepared.otherMoved hmoved, hhanded⟩
  exact hinvariant.2 hfinished

/-- A run has all its steps in time, or it ends without the callback. -/
theorem runWhen_or_missed (hrun : (connectSystem previous passed blocking).Run actions client) :
    (connectSystem previous passed blocking).RunWhen (InTime passed) actions client ∨
      client.io = .finished ∧ ¬ HandedOver passed client := by
  induction hrun with
  | start => exact Or.inl .start
  | @step actions state next action hbefore _ hstep ih =>
    rcases ih with hintimes | ⟨hfinished, hmissed⟩
    · by_cases hintime : InTime passed state action
      · exact Or.inl (.step hintimes hintime hstep)
      · right
        have haction : action = .io := by
          by_contra hother
          exact hintime fun hio ↦ absurd hio hother
        subst haction
        exact missed_of_not_inTime (prepared_of_run hbefore) hintime hstep
    · right
      rcases connectStep_cases hstep with ⟨haction, -⟩ | ⟨-, hmoved⟩
      · subst haction
        have hnone : ioStep state = some next := hstep
        rw [ioStep_finished hfinished] at hnone
        cases hnone
      · rw [hmoved.finished_iff, hmoved.handedOver_congr]
        exact ⟨hfinished, hmissed⟩

/-- Once entered, `channelConnected` comes to its end: its steps are few, and wait for no one. -/
theorem exists_finished (hrun : (connectSystem previous passed blocking).Run actions client)
    (hentered : client.io ≠ .idle) :
    ∃ count last, (connectSystem previous passed blocking).Run
      (actions ++ List.replicate count .io) last ∧ last.io = .finished := by
  induction hremaining : client.io.remaining using Nat.strongRecOn generalizing
    client actions with
  | ind remaining ih =>
    by_cases hfinished : client.io = .finished
    · refine ⟨0, client, ?_, hfinished⟩
      rw [List.replicate_zero, List.append_nil]
      exact hrun
    · obtain ⟨next, hstep, hless, hnext⟩ := exists_ioStep hentered hfinished
      rw [hremaining] at hless
      have hlonger : (connectSystem previous passed blocking).Run (actions ++ [.io]) next :=
        .step hrun trivial hstep
      obtain ⟨count, last, hlast, hthrough⟩ := ih _ hless hlonger hnext rfl
      refine ⟨count + 1, last, ?_, hthrough⟩
      rw [List.replicate_succ, List.append_cons]
      exact hlast

/-- `blockingConnect` gets past its latch before the time is out exactly if the callback was handed
over. -/
theorem await_iff (hrun : (connectSystem previous passed true).Run actions client)
    (hfinished : client.io = .finished) (hstored : client.caller = .stored) :
    connectStep passed true client (.await false) ≠ none ↔ HandedOver passed client := by
  have hprepared := prepared_of_run hrun
  rw [Prepared, hfinished] at hprepared
  simp only [connectStep, hstored]
  rcases hprepared with hnone | ⟨callback, channel, hran, hhandler, hrpc⟩
  · simp [hnone, HandedOver]
  · simp [hran, HandedOver, hhandler, hrpc]

end Runs

/-- In every run in which the connection is established the I/O thread can go on to the end of
`channelConnected`; and when it is there, the callback was handed over exactly if all its reads were
in time. -/
theorem handedOver_iff [DecidableEq Callback] {previous : Option Callback} {passed : Callback}
    {blocking : Bool} {actions : List ConnectAction} {client : ConnectingClient Callback}
    (hrun : (connectSystem previous passed blocking).Run actions client) :
    (client.io ≠ .idle → ∃ count last, (connectSystem previous passed blocking).Run
      (actions ++ List.replicate count .io) last ∧ last.io = .finished) ∧
    (client.io = .finished → (HandedOver passed client ↔
      (connectSystem previous passed blocking).RunWhen (InTime passed) actions client)) := by
  constructor
  · intro hentered
    exact exists_finished hrun hentered
  · intro hfinished
    constructor
    · intro hhanded
      rcases runWhen_or_missed hrun with hintimes | ⟨-, hmissed⟩
      · exact hintimes
      · exact absurd hhanded hmissed
    · intro hintimes
      exact handedOver_of_runWhen hintimes hfinished

/-- A client whose callback was stored, and run as these say. -/
def connectedClient (ran : List (ℕ × ℕ)) : ConnectingClient ℕ where
  caller := .stored
  io := .finished
  newChannelCallback := some 7
  rpcChannel := some 0
  handlerChannel := some 0
  withServices := [0]
  created := 1
  ran := ran

/-- The callback is stored before the connection is established. -/
def storedFirst : List ConnectAction :=
  [.connect, .storeCallback, .channelConnected, .io, .io, .io, .io, .io, .io]

/-- The connection is established, and set up, before the callback is stored. -/
def connectedFirst : List ConnectAction :=
  [.connect, .channelConnected, .io, .io, .io, .io, .io, .storeCallback]

theorem handedOver_storedFirst :
    (connectSystem none 7 true).Run storedFirst (connectedClient [(7, 0)]) ∧
      HandedOver 7 (connectedClient [(7, 0)]) := by
  have hexecute : (connectSystem none 7 true).execute (connectSystem none 7 true).start
      storedFirst = some (connectedClient [(7, 0)]) :=
    rfl
  have hstored : ∀ (client : ConnectingClient ℕ) (action : ConnectAction),
      client.newChannelCallback = some 7 ∨ action ≠ .io → InTime 7 client action := by
    intro client action hor haction channel
    rcases hor with hcallback | hother
    · rw [hcallback]
      exact ⟨fun _ ↦ nofun, fun _ ↦ rfl⟩
    · exact absurd haction hother
  have hintimes : (connectSystem none 7 true).RunWhen (InTime 7) storedFirst
      (connectedClient [(7, 0)]) :=
    TransitionSystem.RunWhen.extend .start hstored rfl
  have hrun := TransitionSystem.Run.of_execute hexecute
  exact ⟨hrun, ((handedOver_iff hrun).2 rfl).mpr hintimes⟩

theorem not_handedOver_connectedFirst :
    (connectSystem none 7 true).Run connectedFirst (connectedClient []) ∧
      ¬ HandedOver 7 (connectedClient []) := by
  constructor
  · exact TransitionSystem.Run.of_execute rfl
  · rintro ⟨channel, hran, -⟩
    cases hran

end MuduoProtorpc.JavaChannel
