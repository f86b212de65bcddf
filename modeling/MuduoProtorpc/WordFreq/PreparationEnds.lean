import MuduoProtorpc.WordFreq.Preparation

/-!
# The controller of wordfreq does not wait for nothing

Besides connections that come up again or go down, only so many things happen in a run of
`prepare`: `remaining` goes down with each step of the thread and each reply. When every connection
that was begun has come up and every call has its reply, the thread is not left waiting on a latch:
`prepare` has returned, or the process has ended with a message. If all workers are ready when they
reply, and have the same peers, `prepare` has returned.
-/

set_option autoImplicit false
set_option relaxedAutoImplicit false

namespace MuduoProtorpc.WordFreq

open Foundation Ascii

/-! ### What is to be shown -/

/-- A connection comes up or goes down. -/
def ControlAction.isConnection : ControlAction → Bool
  | .headConnection _ => true
  | .connection _ _ => true
  | _ => false

/-- The thread has nothing to do, every connection that was begun has come up, and every call has
its reply. -/
structure AwaitsNothing (controller : Controller) : Prop where
  thread : prepareStep controller = none
  head : controller.phase.hasHead = true →
    controller.head.connectLatch = false ∧ controller.head.asked = false
  clients : ∀ client ∈ controller.clients, client.connectLatch = false ∧ client.asked = false

section Statement

variable (format : IpNotation) (shards : InetAddress → Shard) (headWorker : InetAddress)

/-- The workers are ready when they reply, and have the peers of the head. -/
structure WorkersAgree (actions : List ControlAction) : Prop where
  ready : ∀ index flags address, .reply index flags ∈ actions →
    ((shards headWorker).addresses format)[index]? = some address →
      isReady ((shards address).addresses format).length flags = true
  samePeers : ∀ address ∈ (shards headWorker).addresses format,
    (shards address).addresses format = (shards headWorker).addresses format

/-- `prepare` comes to an end. -/
structure PreparationEnds (actions : List ControlAction) (controller : Controller) : Prop where
  bounded : (actions.countP fun action ↦ !action.isConnection) ≤
    3 * ((shards headWorker).addresses format).length + 5
  ends : AwaitsNothing controller →
    controller.phase = .prepared ∨ ∃ message, controller.phase = .aborted message
  returns : AwaitsNothing controller → WorkersAgree format shards headWorker actions →
    controller.phase = .prepared

end Statement

/-- How many steps of the thread and replies there can still be, with so many peers. -/
def Controller.remaining (peers : ℕ) (controller : Controller) : ℕ :=
  match controller.phase with
  | .connectingHead => 3 * peers + 5
  | .askingHead => if controller.head.asked then 3 * peers + 4 else 3 * peers + 3
  | .connecting next => 3 * peers + 2 - next
  | .asking next =>
    peers - next + 1 + controller.workers.countP fun worker ↦ !worker.gotInfo
  | .prepared => 0
  | .aborted _ => 0
  | .crashed => 0

/-! ### Fewer and fewer steps -/

section Steps

variable {format : IpNotation} {shards : InetAddress → Shard} {headWorker : InetAddress}
  {actions : List ControlAction} {controller next : Controller}

theorem Named.length (hnamed : Named format shards headWorker controller) :
    controller.clients.length = ((shards headWorker).addresses format).length := by
  rw [← hnamed.addresses, List.length_map]

theorem remaining_checkWorkers (peers : ℕ) (workers : List WorkerInfo) (controller : Controller) :
    (checkWorkers workers controller).remaining peers = 0 := by
  induction workers generalizing controller with
  | nil => rfl
  | cons worker rest ih =>
    rw [checkWorkers]
    by_cases hready : worker.ready = false
    · rw [if_pos hready]
      rfl
    · rw [if_neg hready]
      by_cases hpeers : worker.peers ≠ controller.peers
      · rw [if_pos hpeers]
        rfl
      · rw [if_neg hpeers]
        exact ih _

/-- Each step of the thread leaves fewer. -/
theorem remaining_prepareStep
    (hinvariant : PhaseInvariant format shards headWorker actions controller)
    (hprepare : prepareStep controller = some next) :
    next.remaining ((shards headWorker).addresses format).length <
      controller.remaining ((shards headWorker).addresses format).length := by
  cases hphase : controller.phase with
  | connectingHead =>
    have hconnecting := hinvariant.connectingHead hphase
    obtain ⟨-, rfl⟩ := prepareStep_connectingHead hphase
      (fun hlatch ↦ hconnecting.connection (hconnecting.connectLatch hlatch)) hprepare
    simp [Controller.remaining, hphase]
  | askingHead =>
    obtain ⟨-, rfl⟩ := prepareStep_askingHead hphase hprepare
    simp only [Controller.remaining, hphase]
    split_ifs <;> omega
  | connecting started =>
    have hconnecting := hinvariant.connecting hphase
    have hlength := hconnecting.toNamed.length
    have hle := hconnecting.le
    rcases prepareStep_connecting hphase hprepare with
      ⟨client, hclient, rfl⟩ | ⟨hall, -, rfl⟩
    · obtain ⟨hlt, -⟩ := List.getElem?_eq_some_iff.mp hclient
      simp only [Controller.remaining, hphase]
      omega
    · have hcount := List.countP_le_length (p := fun worker : WorkerInfo ↦ !worker.gotInfo)
        (l := List.replicate controller.clients.length {})
      rw [List.length_replicate] at hcount
      simp only [Controller.remaining, hphase]
      omega
  | asking asked =>
    have hasking := hinvariant.asking hphase
    have hlength := hasking.toNamed.length
    rcases prepareStep_asking hphase hasking.connection hprepare with
      ⟨client, hclient, rfl⟩ | ⟨-, -, rfl⟩
    · obtain ⟨hlt, -⟩ := List.getElem?_eq_some_iff.mp hclient
      simp only [Controller.remaining, hphase]
      omega
    · rw [remaining_checkWorkers]
      simp only [Controller.remaining, hphase]
      omega
  | prepared => simp [prepareStep, hphase] at hprepare
  | aborted message => simp [prepareStep, hphase] at hprepare
  | crashed => simp [prepareStep, hphase] at hprepare

/-- The reply of the head leaves one step less. -/
theorem remaining_headReply (peers : ℕ)
    (hinvariant : PhaseInvariant format shards headWorker actions controller)
    (hhead : controller.phase.hasHead = true) (hasked : controller.head.asked = true)
    (flags : List Bool) :
    (getHeadInfoCb format (getInfo format (shards controller.head.address) flags).peers
      { controller with head := { controller.head with asked := false } }).remaining peers <
        controller.remaining peers := by
  have hphase := hinvariant.phase_of_headAsked hhead hasked
  unfold getInfo
  rw [getHeadInfoCb_toIpPort fun address haddress ↦ wellFormed_of_mem_addresses haddress]
  simp [Controller.remaining, hphase, hasked]

/-- The reply of a worker leaves one step less, or none. -/
theorem remaining_reply {index : ℕ} {client : ControlClient}
    (hinvariant : PhaseInvariant format shards headWorker actions controller)
    (hended : controller.phase.hasEnded = false)
    (hclient : controller.clients[index]? = some client) (hasked : client.asked = true)
    (flags : List Bool) (peers : ℕ) :
    (getInfoCb { controller with
      clients := controller.clients.set index { client with asked := false } } index
      (getInfo format (shards client.address) flags)).remaining peers <
        controller.remaining peers := by
  obtain ⟨asked, hphase⟩ := hinvariant.exists_phase_of_asked hended
    (List.mem_of_getElem? hclient) hasked
  have hasking := hinvariant.asking hphase
  obtain ⟨worker, hworker⟩ := hasking.exists_worker hclient
  have hnew := hasking.gotInfo_of_asked hclient hworker hasked
  unfold getInfoCb
  simp only [hworker, hnew, Bool.false_eq_true, if_false]
  by_cases hready : (getInfo format (shards client.address) flags).ready = false
  · rw [if_pos hready]
    simp only [Controller.remaining, hphase]
    omega
  · rw [if_neg hready]
    have hcount := countP_set_add hworker (fun worker ↦ !worker.gotInfo) {
      gotInfo := true
      ready := true
      shardMaxKey := (getInfo format (shards client.address) flags).maxKey
      shardKeyCount := (getInfo format (shards client.address) flags).keyCount
      peers := worker.peers ++ ((getInfo format (shards client.address) flags).peers.map
        fun addr ↦ addr ++ [comma]).flatten }
    simp only [hnew, Bool.not_false, if_true, Bool.not_true, Bool.false_eq_true,
      if_false] at hcount
    simp only [Controller.remaining, hphase]
    omega

/-- A connection makes no difference, and any other step leaves fewer. -/
theorem remaining_step {action : ControlAction}
    (hinvariant : PhaseInvariant format shards headWorker actions controller)
    (hstep : controlStep format shards controller action = some next) :
    next.remaining ((shards headWorker).addresses format).length +
      (if action.isConnection then 0 else 1) ≤
        controller.remaining ((shards headWorker).addresses format).length := by
  have hended := not_hasEnded_of_controlStep hstep
  cases action with
  | prepare => exact remaining_prepareStep hinvariant (controlStep_prepare hstep)
  | headConnection connected =>
    obtain ⟨-, rfl⟩ := controlStep_headConnection hstep
    unfold Controller.remaining
    simp only [asked_onConnection]
    exact le_rfl
  | headReply flags =>
    obtain ⟨hhead, hasked, rfl⟩ := controlStep_headReply hstep
    exact remaining_headReply _ hinvariant hhead hasked flags
  | connection index connected =>
    obtain ⟨client, -, -, rfl⟩ := controlStep_connection hstep
    exact le_rfl
  | reply index flags =>
    obtain ⟨client, hclient, hasked, rfl⟩ := controlStep_reply hstep
    exact remaining_reply hinvariant hended hclient hasked flags _

/-- The steps that were taken, and those that are left. -/
theorem countP_add_remaining_le
    (hrun : (controlSystem format shards headWorker).Run actions controller) :
    (actions.countP fun action ↦ !action.isConnection) +
      controller.remaining ((shards headWorker).addresses format).length ≤
        3 * ((shards headWorker).addresses format).length + 5 := by
  induction hrun with
  | start => exact le_of_eq (Nat.zero_add _)
  | @step actions state next action hrun _ hstep ih =>
    have hless := remaining_step (phaseInvariant_of_run hrun) hstep
    rw [List.countP_append, List.countP_singleton]
    cases hconnection : action.isConnection with
    | false =>
      rw [hconnection, if_neg Bool.false_ne_true] at hless
      rw [Bool.not_false, if_pos rfl]
      omega
    | true =>
      rw [hconnection, if_pos rfl] at hless
      rw [Bool.not_true, if_neg Bool.false_ne_true]
      omega

/-! ### Waiting -/

/-- The head is not waited for. -/
theorem HeadConnecting.exists_prepareStep (hconnecting : HeadConnecting headWorker controller)
    (hphase : controller.phase = .connectingHead)
    (hcounted : controller.head.connectLatch = false) : prepareStep controller ≠ none := by
  have hlatch := hconnecting.latch
  rw [hcounted, if_neg Bool.false_ne_true] at hlatch
  unfold prepareStep
  simp only [hphase, hlatch, lt_self_iff_false, if_false]
  cases controller.head.getInfo <;> simp

/-- All clients are connected when none is waited for. -/
theorem Connecting.exists_prepareStep {started : ℕ}
    (hconnecting : Connecting format shards headWorker started controller)
    (hphase : controller.phase = .connecting started)
    (hcounted : ∀ client ∈ controller.clients, client.connectLatch = false) :
    prepareStep controller ≠ none := by
  unfold prepareStep
  simp only [hphase]
  cases hclient : controller.clients[started]? with
  | some client => simp
  | none =>
    have hlength := List.getElem?_eq_none_iff.mp hclient
    have hnone : controller.clients.countP ControlClient.isAwaited = 0 := by
      refine List.countP_eq_zero.mpr fun client hmem ↦ ?_
      obtain ⟨index, hindex⟩ := List.getElem?_of_mem hmem
      obtain ⟨hlt, -⟩ := List.getElem?_eq_some_iff.mp hindex
      have hstarted := (hconnecting.started index client hindex (by omega)).1
      simp [ControlClient.isAwaited, hstarted, hcounted client hmem]
    have hlatch := hconnecting.latch
    rw [hnone] at hlatch
    simp [hlatch]

/-- All workers have replied when no reply is waited for. -/
theorem Asking.exists_prepareStep {asked : ℕ}
    (hasking : Asking format shards headWorker asked actions controller)
    (hphase : controller.phase = .asking asked)
    (hreplied : ∀ client ∈ controller.clients, client.asked = false) :
    prepareStep controller ≠ none := by
  unfold prepareStep
  simp only [hphase]
  cases hclient : controller.clients[asked]? with
  | some client =>
    cases hcalled : client.getInfo with
    | none => simp [hcalled]
    | some called => simp [hcalled]
  | none =>
    have hlength := List.getElem?_eq_none_iff.mp hclient
    have hnone : controller.workers.countP (fun worker ↦ !worker.gotInfo) = 0 := by
      refine List.countP_eq_zero.mpr fun worker hmem ↦ ?_
      obtain ⟨index, hindex⟩ := List.getElem?_of_mem hmem
      obtain ⟨hlt, -⟩ := List.getElem?_eq_some_iff.mp hindex
      have hother := List.getElem?_eq_getElem (hasking.length ▸ hlt)
      cases hgot : worker.gotInfo with
      | true => simp
      | false =>
        have hpending := (hasking.pending index _ worker hother hindex hgot).2.mpr (by
          rw [hasking.length] at hlt
          omega)
        rw [hreplied _ (List.getElem_mem _)] at hpending
        cases hpending
    have hlatch := hasking.latch
    rw [hnone] at hlatch
    simp [hlatch]

/-- When nothing is awaited, the thread has come to an end. -/
theorem PhaseInvariant.ends
    (hinvariant : PhaseInvariant format shards headWorker actions controller)
    (hawaits : AwaitsNothing controller) :
    controller.phase = .prepared ∨ ∃ message, controller.phase = .aborted message := by
  cases hphase : controller.phase with
  | connectingHead =>
    have hcounted := (hawaits.head (by rw [hphase]; rfl)).1
    exact absurd hawaits.thread ((hinvariant.connectingHead hphase).exists_prepareStep hphase
      hcounted)
  | askingHead =>
    have hasked := (hawaits.head (by rw [hphase]; rfl)).2
    have hlatch := ((hinvariant.askingHead hphase).replied hasked).2.1
    have hthread := hawaits.thread
    simp [prepareStep, hphase, hlatch] at hthread
  | connecting started =>
    exact absurd hawaits.thread ((hinvariant.connecting hphase).exists_prepareStep hphase
      fun client hmem ↦ (hawaits.clients client hmem).1)
  | asking asked =>
    exact absurd hawaits.thread ((hinvariant.asking hphase).exists_prepareStep hphase
      fun client hmem ↦ (hawaits.clients client hmem).2)
  | prepared => exact Or.inl rfl
  | aborted message => exact Or.inr ⟨message, rfl⟩
  | crashed =>
    unfold PhaseInvariant at hinvariant
    simp only [hphase] at hinvariant

/-- `prepare` takes a bounded number of steps, and waits for nothing but connections and replies;
it returns if the workers agree. -/
theorem preparationEnds_of_run
    (hrun : (controlSystem format shards headWorker).Run actions controller) :
    PreparationEnds format shards headWorker actions controller := by
  have hinvariant := phaseInvariant_of_run hrun
  constructor
  · exact (Nat.le_add_right _ _).trans (countP_add_remaining_le hrun)
  · exact hinvariant.ends
  · intro hawaits hagree
    rcases hinvariant.ends hawaits with hprepared | ⟨message, haborted⟩
    · exact hprepared
    · unfold PhaseInvariant at hinvariant
      simp only [haborted] at hinvariant
      cases hinvariant with
      | notReady index flags address hreply haddress hready =>
        rw [hagree.ready index flags address hreply haddress] at hready
        cases hready
      | otherPeers address haddress hother =>
        exact absurd (hagree.samePeers address haddress) hother

end Steps

theorem preparationEnds_twoPrepared : ∃ controller,
    (controlSystem localNotation twoShards firstWorker).Run twoPrepared controller ∧
    PreparationEnds localNotation twoShards firstWorker twoPrepared controller ∧
      controller.phase = .prepared := by
  obtain ⟨controller, hexecute, hphase, -⟩ := exists_execute_twoPrepared
  have hrun := TransitionSystem.Run.of_execute hexecute
  exact ⟨controller, hrun, preparationEnds_of_run hrun, hphase⟩

end MuduoProtorpc.WordFreq
