import MuduoProtorpc.Foundation.TransitionSystem
import MuduoProtorpc.WordFreq.Shards

/-!
# The controller of wordfreq

`Controller::prepare` of `examples/wordfreq/control.cc`. It runs in a thread of its own and waits on
latches that the callbacks in the event loop count down: for the connection to the head worker, for
the reply of the head, which names the peers, for the connections to all peers, and for their
replies. Then it adds up what the workers have told. A step is one of the thread, a connection that
comes up or goes down, or a reply.

`LOG_FATAL` and a failed assertion end the process; so does a call on a channel that has no
connection yet.
-/

set_option autoImplicit false
set_option relaxedAutoImplicit false

namespace MuduoProtorpc.WordFreq

open Foundation Ascii

/-! ### The state -/

/-- `RpcClient` of the controller: whether `connect` was called, so that connections may come up;
whether `connectLatch_` is set; whether its channel has a connection; and whether a call of
`GetInfo` has no reply yet. -/
structure ControlClient where
  address : InetAddress
  started : Bool := false
  connectLatch : Bool := false
  connection : Bool := false
  asked : Bool := false
  deriving DecidableEq, Repr

/-- `Worker` of the controller. -/
structure WorkerInfo where
  gotInfo : Bool := false
  ready : Bool := false
  shardMaxKey : ℤ := -1
  shardKeyCount : ℤ := -1
  peers : Bytes := []
  deriving DecidableEq, Repr

/-- How far `prepare` is: it waits for the head to be connected, then for its reply; it has called
`connect`, then `getInfo`, of so many clients, and waits when this are all; it has returned; or the
process has ended. -/
inductive ControlPhase
  | connectingHead
  | askingHead
  | connecting (next : ℕ)
  | asking (next : ℕ)
  | prepared
  | aborted (message : Bytes)
  | crashed
  deriving DecidableEq, Repr

/-- `Controller`, with the client of the head, and the count of the latch on which it waits. -/
structure Controller where
  head : ControlClient
  phase : ControlPhase := .connectingHead
  latch : ℤ := 1
  peers : Bytes := []
  clients : List ControlClient := []
  workers : List WorkerInfo := []
  maxKey : ℤ := 0
  keyCount : ℤ := 0
  deriving DecidableEq, Repr

/-! ### Callbacks -/

/-- `RpcClient::onConnection`, and the count of the latch after it. -/
def onConnection (client : ControlClient) (connected : Bool) (latch : ℤ) : ControlClient × ℤ :=
  if connected then
    ({ client with connection := true, connectLatch := false },
      if client.connectLatch then latch - 1 else latch)
  else (client, latch)

/-- The loop of `getHeadInfoCb` over the peers, and the count of its latch. -/
def getHeadInfoCb (format : IpNotation) : List Bytes → Controller → Controller
  | [], controller => { controller with latch := controller.latch - 1 }
  | addr :: rest, controller =>
    match InetAddress.fromText format addr with
    | none => { controller with
        peers := controller.peers ++ addr ++ [comma]
        phase := .aborted (bytes "Invalid peer address: " ++ addr) }
    | some address => getHeadInfoCb format rest { controller with
        peers := controller.peers ++ addr ++ [comma]
        clients := controller.clients ++ [{ address := address }] }

/-- `getInfoCb`. -/
def getInfoCb (controller : Controller) (part : ℕ) (response : GetInfoResponse) : Controller :=
  match controller.workers[part]? with
  | none => { controller with phase := .crashed }
  | some worker =>
    if worker.gotInfo then { controller with phase := .aborted (bytes "!worker.gotInfo") }
    else if response.ready = false then
      { controller with
        workers := controller.workers.set part { worker with gotInfo := true, ready := false }
        phase := .aborted (bytes "worker " ++ decimal part ++ bytes " is not ready.") }
    else
      { controller with
        workers := controller.workers.set part {
          gotInfo := true
          ready := true
          shardMaxKey := response.maxKey
          shardKeyCount := response.keyCount
          peers := worker.peers ++ (response.peers.map fun addr ↦ addr ++ [comma]).flatten }
        latch := controller.latch - 1 }

/-! ### The thread -/

/-- The loop of `prepare` over the workers. -/
def checkWorkers : List WorkerInfo → Controller → Controller
  | [], controller => { controller with phase := .prepared }
  | worker :: rest, controller =>
    let counted : Controller := { controller with
      keyCount := controller.keyCount + worker.shardKeyCount
      maxKey := if worker.shardMaxKey > controller.maxKey then worker.shardMaxKey
        else controller.maxKey }
    if worker.ready = false then
      { counted with phase := .aborted (bytes "Worker is not ready") }
    else if worker.peers ≠ controller.peers then
      { counted with phase := .aborted (bytes "Different peer address list of workers") }
    else checkWorkers rest counted

/-- The call of `getInfo` of a client; its channel needs a connection to send the request. -/
def ControlClient.getInfo (client : ControlClient) : Option ControlClient :=
  if client.connection then some { client with asked := true } else none

/-- The next step of the thread; none where it waits, or has ended. -/
def prepareStep (controller : Controller) : Option Controller :=
  match controller.phase with
  | .connectingHead =>
    if controller.latch > 0 then none
    else
      match controller.head.getInfo with
      | none => some { controller with phase := .crashed }
      | some head => some { controller with head := head, phase := .askingHead, latch := 1 }
  | .askingHead =>
    if controller.latch > 0 then none
    else some { controller with phase := .connecting 0, latch := controller.clients.length }
  | .connecting next =>
    match controller.clients[next]? with
    | some client => some { controller with
        clients := controller.clients.set next { client with started := true, connectLatch := true }
        phase := .connecting (next + 1) }
    | none =>
      if controller.latch > 0 then none
      else some { controller with
        workers := List.replicate controller.clients.length {}
        phase := .asking 0
        latch := controller.clients.length }
  | .asking next =>
    match controller.clients[next]? with
    | some client =>
      match client.getInfo with
      | none => some { controller with phase := .crashed }
      | some client => some { controller with
          clients := controller.clients.set next client
          phase := .asking (next + 1) }
    | none =>
      if controller.latch > 0 then none else some (checkWorkers controller.workers controller)
  | .prepared => none
  | .aborted _ => none
  | .crashed => none

/-! ### The system -/

/-- What can happen next. The worker that replies has connections to some of its peers. -/
inductive ControlAction
  | prepare
  | headConnection (connected : Bool)
  | headReply (flags : List Bool)
  | connection (index : ℕ) (connected : Bool)
  | reply (index : ℕ) (flags : List Bool)
  deriving DecidableEq, Repr

/-- The process has ended. -/
def ControlPhase.hasEnded : ControlPhase → Bool
  | .aborted _ => true
  | .crashed => true
  | _ => false

/-- The client of the head is an object of `getPeers`. -/
def ControlPhase.hasHead : ControlPhase → Bool
  | .connectingHead => true
  | .askingHead => true
  | _ => false

/-- One step, where a worker with this shard listens at an address. -/
def controlStep (format : IpNotation) (shards : InetAddress → Shard) (controller : Controller)
    (action : ControlAction) : Option Controller :=
  if controller.phase.hasEnded then none
  else
    match action with
    | .prepare => prepareStep controller
    | .headConnection connected =>
      if controller.phase.hasHead then
        let (head, latch) := onConnection controller.head connected controller.latch
        some { controller with head := head, latch := latch }
      else none
    | .headReply flags =>
      if controller.phase.hasHead ∧ controller.head.asked then
        let response := getInfo format (shards controller.head.address) flags
        some (getHeadInfoCb format response.peers
          { controller with head := { controller.head with asked := false } })
      else none
    | .connection index connected =>
      match controller.clients[index]? with
      | none => none
      | some client =>
        if client.started then
          let (client, latch) := onConnection client connected controller.latch
          some { controller with clients := controller.clients.set index client, latch := latch }
        else none
    | .reply index flags =>
      match controller.clients[index]? with
      | none => none
      | some client =>
        if client.asked then
          let response := getInfo format (shards client.address) flags
          let clients := controller.clients.set index { client with asked := false }
          some (getInfoCb { controller with clients := clients } index response)
        else none

/-- The controller that is given the address of the head worker. It has called `connect`. -/
def controlSystem (format : IpNotation) (shards : InetAddress → Shard) (headWorker : InetAddress) :
    TransitionSystem Controller ControlAction where
  start := { head := { address := headWorker, started := true, connectLatch := true } }
  step := controlStep format shards

/-! ### What a step does -/

section Steps

variable {format : IpNotation} {shards : InetAddress → Shard} {controller next : Controller}

/-- The head is asked when the latch is counted down, if it has a connection then. -/
theorem prepareStep_connectingHead (hphase : controller.phase = .connectingHead)
    (hconnection : controller.latch ≤ 0 → controller.head.connection = true)
    (hprepare : prepareStep controller = some next) :
    controller.latch ≤ 0 ∧ next = { controller with
      head := { controller.head with asked := true }
      phase := .askingHead
      latch := 1 } := by
  unfold prepareStep at hprepare
  simp only [hphase] at hprepare
  split_ifs at hprepare with hlatch
  have hasked : controller.head.getInfo = some { controller.head with asked := true } :=
    if_pos (hconnection (not_lt.mp hlatch))
  simp only [hasked] at hprepare
  exact ⟨not_lt.mp hlatch, (Option.some.inj hprepare).symm⟩

theorem prepareStep_askingHead (hphase : controller.phase = .askingHead)
    (hprepare : prepareStep controller = some next) :
    controller.latch ≤ 0 ∧ next = { controller with
      phase := .connecting 0
      latch := controller.clients.length } := by
  unfold prepareStep at hprepare
  simp only [hphase] at hprepare
  split_ifs at hprepare with hlatch
  exact ⟨not_lt.mp hlatch, (Option.some.inj hprepare).symm⟩

/-- The next client is told to connect; behind the last one the thread waits for the latch. -/
theorem prepareStep_connecting {started : ℕ} (hphase : controller.phase = .connecting started)
    (hprepare : prepareStep controller = some next) :
    (∃ client, controller.clients[started]? = some client ∧ next = { controller with
      clients := controller.clients.set started
        { client with started := true, connectLatch := true }
      phase := .connecting (started + 1) }) ∨
    (controller.clients.length ≤ started ∧ controller.latch ≤ 0 ∧ next = { controller with
      workers := List.replicate controller.clients.length {}
      phase := .asking 0
      latch := controller.clients.length }) := by
  unfold prepareStep at hprepare
  simp only [hphase] at hprepare
  cases hclient : controller.clients[started]? with
  | some client =>
    simp only [hclient] at hprepare
    exact Or.inl ⟨client, rfl, (Option.some.inj hprepare).symm⟩
  | none =>
    simp only [hclient] at hprepare
    split_ifs at hprepare with hlatch
    exact Or.inr ⟨List.getElem?_eq_none_iff.mp hclient, not_lt.mp hlatch,
      (Option.some.inj hprepare).symm⟩

/-- The next client is asked, if it has a connection; behind the last one the thread waits for the
latch, and then looks at what the workers have told. -/
theorem prepareStep_asking {asked : ℕ} (hphase : controller.phase = .asking asked)
    (hconnected : ∀ client ∈ controller.clients, client.connection = true)
    (hprepare : prepareStep controller = some next) :
    (∃ client, controller.clients[asked]? = some client ∧ next = { controller with
      clients := controller.clients.set asked { client with asked := true }
      phase := .asking (asked + 1) }) ∨
    (controller.clients.length ≤ asked ∧ controller.latch ≤ 0 ∧
      next = checkWorkers controller.workers controller) := by
  unfold prepareStep at hprepare
  simp only [hphase] at hprepare
  cases hclient : controller.clients[asked]? with
  | some client =>
    have hcalled : client.getInfo = some { client with asked := true } :=
      if_pos (hconnected client (List.mem_of_getElem? hclient))
    simp only [hclient, hcalled] at hprepare
    exact Or.inl ⟨client, rfl, (Option.some.inj hprepare).symm⟩
  | none =>
    simp only [hclient] at hprepare
    split_ifs at hprepare with hlatch
    exact Or.inr ⟨List.getElem?_eq_none_iff.mp hclient, not_lt.mp hlatch,
      (Option.some.inj hprepare).symm⟩

/-- A process that has ended takes no step. -/
theorem not_hasEnded_of_controlStep {action : ControlAction}
    (hstep : controlStep format shards controller action = some next) :
    controller.phase.hasEnded = false := by
  by_contra hended
  rw [Bool.not_eq_false] at hended
  unfold controlStep at hstep
  rw [if_pos hended] at hstep
  cases hstep

theorem controlStep_prepare
    (hstep : controlStep format shards controller .prepare = some next) :
    prepareStep controller = some next := by
  have hended := not_hasEnded_of_controlStep hstep
  rwa [controlStep, hended, if_neg Bool.false_ne_true] at hstep

theorem controlStep_headConnection {connected : Bool}
    (hstep : controlStep format shards controller (.headConnection connected) = some next) :
    controller.phase.hasHead = true ∧ next = { controller with
      head := (onConnection controller.head connected controller.latch).1
      latch := (onConnection controller.head connected controller.latch).2 } := by
  have hended := not_hasEnded_of_controlStep hstep
  rw [controlStep, hended, if_neg Bool.false_ne_true] at hstep
  simp only at hstep
  split_ifs at hstep with hhead
  exact ⟨hhead, (Option.some.inj hstep).symm⟩

theorem controlStep_headReply {flags : List Bool}
    (hstep : controlStep format shards controller (.headReply flags) = some next) :
    controller.phase.hasHead = true ∧ controller.head.asked = true ∧
      next = getHeadInfoCb format (getInfo format (shards controller.head.address) flags).peers
        { controller with head := { controller.head with asked := false } } := by
  have hended := not_hasEnded_of_controlStep hstep
  rw [controlStep, hended, if_neg Bool.false_ne_true] at hstep
  simp only at hstep
  split_ifs at hstep with hhead
  exact ⟨hhead.1, hhead.2, (Option.some.inj hstep).symm⟩

theorem controlStep_connection {index : ℕ} {connected : Bool}
    (hstep : controlStep format shards controller (.connection index connected) = some next) :
    ∃ client, controller.clients[index]? = some client ∧ client.started = true ∧
      next = { controller with
        clients := controller.clients.set index (onConnection client connected controller.latch).1
        latch := (onConnection client connected controller.latch).2 } := by
  have hended := not_hasEnded_of_controlStep hstep
  rw [controlStep, hended, if_neg Bool.false_ne_true] at hstep
  cases hclient : controller.clients[index]? with
  | none => simp [hclient] at hstep
  | some client =>
    simp only [hclient] at hstep
    split_ifs at hstep with hstarted
    exact ⟨client, rfl, hstarted, (Option.some.inj hstep).symm⟩

theorem controlStep_reply {index : ℕ} {flags : List Bool}
    (hstep : controlStep format shards controller (.reply index flags) = some next) :
    ∃ client, controller.clients[index]? = some client ∧ client.asked = true ∧
      next = getInfoCb { controller with
        clients := controller.clients.set index { client with asked := false } } index
        (getInfo format (shards client.address) flags) := by
  have hended := not_hasEnded_of_controlStep hstep
  rw [controlStep, hended, if_neg Bool.false_ne_true] at hstep
  cases hclient : controller.clients[index]? with
  | none => simp [hclient] at hstep
  | some client =>
    simp only [hclient] at hstep
    split_ifs at hstep with hasked
    exact ⟨client, rfl, hasked, (Option.some.inj hstep).symm⟩

end Steps

end MuduoProtorpc.WordFreq
