import Mathlib.Algebra.BigOperators.Group.List.Basic
import MuduoProtorpc.WordFreq.Controller
import MuduoProtorpc.WordFreq.PartitionBalance
import MuduoProtorpc.WordFreq.PoolReturns

/-!
# What the controller of wordfreq knows

Whatever the order in which connections come up and workers reply, `prepare` returns only when every
peer of the head is connected, has told that it is ready, and has the same peers; then `keyCount_`
and `maxKey_` are those of all shards together (`Prepared`). Otherwise the process ends with a
message for which there is a reason (`Rejected`). No call is made without a connection, and no
worker replies twice.
-/

set_option autoImplicit false
set_option relaxedAutoImplicit false

namespace MuduoProtorpc.WordFreq

open Foundation Ascii

/-! ### What is to be shown -/

section Statement

variable (format : IpNotation) (shards : InetAddress → Shard) (headWorker : InetAddress)

/-- `prepare` has returned, and what it knows is right. -/
structure Prepared (actions : List ControlAction) (controller : Controller) : Prop where
  addresses : controller.clients.map ControlClient.address =
    (shards headWorker).addresses format
  connections : ∀ client ∈ controller.clients, client.connection = true
  samePeers : ∀ client ∈ controller.clients,
    (shards client.address).addresses format = (shards headWorker).addresses format
  ready : ∀ index < controller.clients.length, ∃ flags, .reply index flags ∈ actions ∧
    isReady controller.clients.length flags = true
  keyCount : controller.keyCount =
    (controller.clients.map fun client ↦ (shards client.address).keys.length).sum
  maxKey : controller.maxKey =
    maxKey (controller.clients.flatMap fun client ↦ (shards client.address).keys)

/-- Why a process has ended: a worker has told that it is not ready, or its peers are not those of
the head. -/
inductive Rejected (actions : List ControlAction) : Bytes → Prop
  | notReady (index : ℕ) (flags : List Bool) (address : InetAddress) :
      .reply index flags ∈ actions →
      ((shards headWorker).addresses format)[index]? = some address →
      isReady ((shards address).addresses format).length flags = false →
      Rejected actions (bytes "worker " ++ decimal index ++ bytes " is not ready.")
  | otherPeers (address : InetAddress) :
      address ∈ (shards headWorker).addresses format →
      (shards address).addresses format ≠ (shards headWorker).addresses format →
      Rejected actions (bytes "Different peer address list of workers")

/-- What holds of the controller after these actions. -/
structure PreparationSound (actions : List ControlAction) (controller : Controller) : Prop where
  running : controller.phase ≠ .crashed
  prepared : controller.phase = .prepared →
    Prepared format shards headWorker actions controller
  aborted : ∀ message, controller.phase = .aborted message →
    Rejected format shards headWorker actions message

/-! ### The phases -/

/-- What a worker with this address tells. -/
def toldBy (address : InetAddress) : WorkerInfo where
  gotInfo := true
  ready := true
  shardMaxKey := maxKey (shards address).keys
  shardKeyCount := (shards address).keys.length
  peers := peersText ((shards address).addresses format)

/-- Nothing is known yet but the address of the head. -/
structure Fresh (controller : Controller) : Prop where
  peers : controller.peers = []
  clients : controller.clients = []
  uncounted : controller.keyCount = 0 ∧ controller.maxKey = 0

/-- The clients have the addresses of the peers of the head. -/
structure Named (controller : Controller) : Prop where
  peers : controller.peers = peersText ((shards headWorker).addresses format)
  addresses : controller.clients.map ControlClient.address =
    (shards headWorker).addresses format
  uncounted : controller.keyCount = 0 ∧ controller.maxKey = 0

/-- The head is to be connected. -/
structure HeadConnecting (controller : Controller) : Prop extends Fresh controller where
  address : controller.head.address = headWorker
  asked : controller.head.asked = false
  latch : controller.latch = if controller.head.connectLatch then 1 else 0
  connection : controller.head.connectLatch = false → controller.head.connection = true

/-- The head is to reply, or has named the peers. -/
structure HeadAsking (controller : Controller) : Prop where
  address : controller.head.address = headWorker
  counted : controller.head.connectLatch = false
  pending : controller.head.asked = true → Fresh controller ∧ controller.latch = 1
  replied : controller.head.asked = false →
    Named format shards headWorker controller ∧ controller.latch = 0 ∧
      ∀ client ∈ controller.clients, client = { address := client.address }

/-- The client is to be connected. -/
def ControlClient.isAwaited (client : ControlClient) : Bool :=
  !client.started || client.connectLatch

/-- So many clients were told to connect. -/
structure Connecting (next : ℕ) (controller : Controller) : Prop
    extends Named format shards headWorker controller where
  le : next ≤ controller.clients.length
  latch : controller.latch = controller.clients.countP ControlClient.isAwaited
  started : ∀ index client, controller.clients[index]? = some client → index < next →
    client.started = true ∧ (client.connectLatch = false → client.connection = true)
  asked : ∀ client ∈ controller.clients, client.asked = false
  fresh : ∀ index client, controller.clients[index]? = some client → next ≤ index →
    client = { address := client.address }

/-- So many clients were asked. -/
structure Asking (next : ℕ) (actions : List ControlAction) (controller : Controller) : Prop
    extends Named format shards headWorker controller where
  le : next ≤ controller.clients.length
  connected : ∀ client ∈ controller.clients, client.started = true ∧
    client.connectLatch = false ∧ client.connection = true
  length : controller.workers.length = controller.clients.length
  latch : controller.latch = controller.workers.countP fun worker ↦ !worker.gotInfo
  pending : ∀ index client worker, controller.clients[index]? = some client →
    controller.workers[index]? = some worker → worker.gotInfo = false →
      worker = {} ∧ (client.asked = true ↔ index < next)
  told : ∀ index client worker, controller.clients[index]? = some client →
    controller.workers[index]? = some worker → worker.gotInfo = true →
      client.asked = false ∧ index < next ∧ worker = toldBy format shards client.address ∧
        ∃ flags, .reply index flags ∈ actions ∧
          isReady ((shards client.address).addresses format).length flags = true

/-- What holds in each phase. -/
def PhaseInvariant (actions : List ControlAction) (controller : Controller) : Prop :=
  match controller.phase with
  | .connectingHead => HeadConnecting headWorker controller
  | .askingHead => HeadAsking format shards headWorker controller
  | .connecting next => Connecting format shards headWorker next controller
  | .asking next => Asking format shards headWorker next actions controller
  | .prepared => Prepared format shards headWorker actions controller ∧
      (∀ client ∈ controller.clients, client.connectLatch = false ∧ client.asked = false)
  | .aborted message => Rejected format shards headWorker actions message
  | .crashed => False

end Statement

/-! ### The numbers -/

section Numbers

variable {format : IpNotation} {addresses : List InetAddress}

theorem maxKey_nonneg (keys : List ℤ) : 0 ≤ maxKey keys := by
  induction keys using List.reverseRecOn with
  | nil => exact le_rfl
  | append_singleton keys key ih =>
    rw [maxKey, List.foldl_append]
    show 0 ≤ if key > maxKey keys then key else maxKey keys
    split_ifs <;> omega

/-- The greatest key of two lists. -/
theorem maxKey_append (first second : List ℤ) : maxKey (first ++ second) =
    if maxKey second > maxKey first then maxKey second else maxKey first := by
  have hfold : ∀ (keys : List ℤ) (largest : ℤ), 0 ≤ largest →
      keys.foldl (fun largest key ↦ if key > largest then key else largest) largest =
        if maxKey keys > largest then maxKey keys else largest := by
    intro keys
    induction keys using List.reverseRecOn with
    | nil =>
      intro largest hlargest
      exact (if_neg (not_lt.mpr hlargest)).symm
    | append_singleton keys key ih =>
      intro largest hlargest
      have hkeys : maxKey (keys ++ [key]) = if key > maxKey keys then key else maxKey keys := by
        rw [maxKey, List.foldl_append]
        rfl
      rw [List.foldl_append, ih largest hlargest, hkeys]
      simp only [List.foldl_cons, List.foldl_nil]
      split_ifs <;> omega
  rw [maxKey, List.foldl_append]
  exact hfold second (maxKey first) (maxKey_nonneg first)

/-- The loop over workers that have told ends with the sums of what they have told, or at the first
one whose peers are others. -/
theorem checkWorkers_toldBy (format : IpNotation) (shards : InetAddress → Shard)
    (addresses : List InetAddress) (controller : Controller) :
    (checkWorkers (addresses.map (toldBy format shards)) controller = { controller with
      phase := .prepared
      keyCount := controller.keyCount +
        (addresses.map fun address ↦ (shards address).keys.length).sum
      maxKey := addresses.foldl (fun largest address ↦
        if maxKey (shards address).keys > largest then maxKey (shards address).keys
        else largest) controller.maxKey } ∧
      ∀ address ∈ addresses,
        peersText ((shards address).addresses format) = controller.peers) ∨
    ((checkWorkers (addresses.map (toldBy format shards)) controller).phase =
        .aborted (bytes "Different peer address list of workers") ∧
      ∃ address ∈ addresses,
        peersText ((shards address).addresses format) ≠ controller.peers) := by
  induction addresses generalizing controller with
  | nil =>
    refine Or.inl ⟨?_, List.forall_mem_nil _⟩
    simp [checkWorkers]
  | cons address rest ih =>
    rw [List.map_cons, checkWorkers, if_neg (by simp [toldBy])]
    by_cases hpeers : peersText ((shards address).addresses format) = controller.peers
    · rw [if_neg (by simpa [toldBy] using hpeers)]
      rcases ih { controller with
        keyCount := controller.keyCount + (toldBy format shards address).shardKeyCount
        maxKey := if (toldBy format shards address).shardMaxKey > controller.maxKey then
          (toldBy format shards address).shardMaxKey else controller.maxKey } with
        ⟨heq, hall⟩ | ⟨hphase, other, hother, hdiffer⟩
      · refine Or.inl ⟨?_, List.forall_mem_cons.mpr ⟨hpeers, hall⟩⟩
        rw [heq]
        simp [toldBy, add_assoc]
      · exact Or.inr ⟨hphase, other, List.mem_cons_of_mem address hother, hdiffer⟩
    · rw [if_pos (by simpa [toldBy] using hpeers)]
      exact Or.inr ⟨rfl, address, List.mem_cons_self, hpeers⟩

theorem foldl_maxKey (shards : InetAddress → Shard) (addresses : List InetAddress)
    (keys : List ℤ) :
    addresses.foldl (fun largest address ↦
      if maxKey (shards address).keys > largest then maxKey (shards address).keys
      else largest) (maxKey keys) =
        maxKey (keys ++ addresses.flatMap fun address ↦ (shards address).keys) := by
  induction addresses generalizing keys with
  | nil => rw [List.flatMap_nil, List.append_nil, List.foldl_nil]
  | cons address rest ih =>
    rw [List.foldl_cons, ← maxKey_append, ih, List.flatMap_cons, List.append_assoc]

/-- The head names its peers. -/
theorem getHeadInfoCb_toIpPort (haddresses : ∀ address ∈ addresses, address.WellFormed format)
    (controller : Controller) :
    getHeadInfoCb format (addresses.map InetAddress.toIpPort) controller = { controller with
      latch := controller.latch - 1
      peers := controller.peers ++ peersText addresses
      clients := controller.clients ++ addresses.map fun address ↦ { address := address } } := by
  induction addresses generalizing controller with
  | nil => simp [getHeadInfoCb, peersText]
  | cons address rest ih =>
    obtain ⟨haddress, hrest⟩ := List.forall_mem_cons.mp haddresses
    rw [List.map_cons, getHeadInfoCb, fromText_toIpPort haddress]
    simp only
    rw [ih hrest]
    simp [peersText]

end Numbers

/-! ### The steps -/

section Steps

variable {format : IpNotation} {shards : InetAddress → Shard} {headWorker : InetAddress}
  {actions : List ControlAction} {controller next : Controller}

theorem onConnection_true (client : ControlClient) (latch : ℤ) : onConnection client true latch =
    ({ client with connection := true, connectLatch := false },
      if client.connectLatch then latch - 1 else latch) :=
  rfl

theorem onConnection_false (client : ControlClient) (latch : ℤ) :
    onConnection client false latch = (client, latch) :=
  rfl

theorem address_onConnection (client : ControlClient) (connected : Bool) (latch : ℤ) :
    (onConnection client connected latch).1.address = client.address := by
  cases connected <;> rfl

theorem asked_onConnection (client : ControlClient) (connected : Bool) (latch : ℤ) :
    (onConnection client connected latch).1.asked = client.asked := by
  cases connected <;> rfl

theorem HeadConnecting.onConnection (hconnecting : HeadConnecting headWorker controller)
    (connected : Bool) : HeadConnecting headWorker { controller with
      head := (onConnection controller.head connected controller.latch).1
      latch := (onConnection controller.head connected controller.latch).2 } := by
  cases connected with
  | false => exact hconnecting
  | true =>
    have hlatch := hconnecting.latch
    exact {
      peers := hconnecting.peers
      clients := hconnecting.clients
      uncounted := hconnecting.uncounted
      address := hconnecting.address
      asked := hconnecting.asked
      latch := by
        simp only [onConnection_true, hlatch]
        split_ifs <;> simp_all
      connection := fun _ ↦ rfl }

theorem HeadAsking.onConnection (hasking : HeadAsking format shards headWorker controller)
    (connected : Bool) : HeadAsking format shards headWorker { controller with
      head := (onConnection controller.head connected controller.latch).1
      latch := (onConnection controller.head connected controller.latch).2 } := by
  cases connected with
  | false => exact hasking
  | true =>
    have hlatch : (MuduoProtorpc.WordFreq.onConnection controller.head true controller.latch).2 =
        controller.latch := by
      rw [onConnection_true, hasking.counted]
      rfl
    exact {
      address := hasking.address
      counted := rfl
      pending := fun hasked ↦ by
        obtain ⟨⟨hpeers, hclients, huncounted⟩, hone⟩ := hasking.pending hasked
        exact ⟨⟨hpeers, hclients, huncounted⟩, hlatch.trans hone⟩
      replied := fun hasked ↦ by
        obtain ⟨⟨hpeers, haddresses, huncounted⟩, hzero, hfresh⟩ := hasking.replied hasked
        exact ⟨⟨hpeers, haddresses, huncounted⟩, hlatch.trans hzero, hfresh⟩ }

/-- The reply of the head names its peers. -/
theorem HeadAsking.reply (hasking : HeadAsking format shards headWorker controller)
    (hasked : controller.head.asked = true) (flags : List Bool) :
    HeadAsking format shards headWorker
      (getHeadInfoCb format (getInfo format (shards controller.head.address) flags).peers
        { controller with head := { controller.head with asked := false } }) := by
  obtain ⟨⟨hpeers, hclients, huncounted⟩, hlatch⟩ := hasking.pending hasked
  rw [hasking.address]
  show HeadAsking _ _ _ (getHeadInfoCb format
    (((shards headWorker).addresses format).map InetAddress.toIpPort) _)
  rw [getHeadInfoCb_toIpPort fun address haddress ↦ wellFormed_of_mem_addresses haddress]
  exact {
    address := hasking.address
    counted := hasking.counted
    pending := by simp
    replied := fun _ ↦ by
      refine ⟨⟨?_, ?_, huncounted⟩, ?_, ?_⟩
      · simp [hpeers]
      · simp [hclients, Function.comp_def]
      · simp [hlatch]
      · simp [hclients] }

/-- A client that was told to connect has a connection, or none any more. -/
theorem Connecting.connection {started index : ℕ} {client : ControlClient}
    (hconnecting : Connecting format shards headWorker started controller)
    (hclient : controller.clients[index]? = some client) (hstarted : client.started = true)
    (connected : Bool) : Connecting format shards headWorker started { controller with
      clients := controller.clients.set index (onConnection client connected controller.latch).1
      latch := (onConnection client connected controller.latch).2 } := by
  have hless : index < started := by
    by_contra hge
    have hfresh := hconnecting.fresh index client hclient (not_lt.mp hge)
    rw [hfresh] at hstarted
    cases hstarted
  have haddress := address_onConnection client connected controller.latch
  have hasked := asked_onConnection client connected controller.latch
  exact {
    peers := hconnecting.peers
    addresses := (map_set_of_eq_some hclient _ haddress).trans hconnecting.addresses
    uncounted := hconnecting.uncounted
    le := by
      rw [List.length_set]
      exact hconnecting.le
    latch := by
      have hcount := countP_set_add hclient ControlClient.isAwaited
        (onConnection client connected controller.latch).1
      have hlatch := hconnecting.latch
      cases connected with
      | false =>
        rw [onConnection_false] at hcount
        rw [onConnection_false, Nat.add_right_cancel hcount]
        exact hlatch
      | true =>
        simp only [onConnection_true, ControlClient.isAwaited, hstarted, Bool.not_true,
          Bool.false_or, Bool.false_eq_true, if_false] at hcount hlatch ⊢
        split_ifs at hcount ⊢ <;> omega
    started := by
      intro position other hother hposition
      rcases getElem?_set_cases hother with ⟨rfl, rfl⟩ | ⟨-, hold⟩
      · have hbefore := hconnecting.started _ client hclient hless
        cases connected with
        | false => exact hbefore
        | true => exact ⟨hstarted, fun _ ↦ rfl⟩
      · exact hconnecting.started position other hold hposition
    asked := by
      intro other hother
      rcases List.mem_or_eq_of_mem_set hother with hold | rfl
      · exact hconnecting.asked other hold
      · exact hasked.trans (hconnecting.asked client (List.mem_of_getElem? hclient))
    fresh := by
      intro position other hother hposition
      rcases getElem?_set_cases hother with ⟨rfl, rfl⟩ | ⟨-, hold⟩
      · exact absurd hless (not_lt.mpr hposition)
      · exact hconnecting.fresh position other hold hposition }

/-- A client that is connected and was counted is not counted again. -/
theorem onConnection_counted {client : ControlClient} (hcounted : client.connectLatch = false)
    (hconnection : client.connection = true) (connected : Bool) (latch : ℤ) :
    onConnection client connected latch = (client, latch) := by
  cases connected with
  | false => rfl
  | true =>
    rw [onConnection_true, hcounted]
    cases client
    cases hcounted
    cases hconnection
    rfl

/-- What is kept of a reply of a worker that is ready. -/
theorem workerInfo_getInfo (format : IpNotation) (shards : InetAddress → Shard)
    (address : InetAddress) (flags : List Bool) :
    ({ gotInfo := true
       ready := true
       shardMaxKey := (getInfo format (shards address) flags).maxKey
       shardKeyCount := (getInfo format (shards address) flags).keyCount
       peers := [] ++ ((getInfo format (shards address) flags).peers.map fun addr ↦
        addr ++ [comma]).flatten } : WorkerInfo) = toldBy format shards address := by
  simp [getInfo, toldBy, peersText, maxKey_readKeys, Function.comp_def]

theorem Asking.connection {asked : ℕ}
    (hasking : Asking format shards headWorker asked actions controller) :
    ∀ client ∈ controller.clients, client.connection = true :=
  fun client hclient ↦ (hasking.connected client hclient).2.2

theorem Asking.exists_worker {asked index : ℕ} {client : ControlClient}
    (hasking : Asking format shards headWorker asked actions controller)
    (hclient : controller.clients[index]? = some client) :
    ∃ worker, controller.workers[index]? = some worker := by
  obtain ⟨hlt, -⟩ := List.getElem?_eq_some_iff.mp hclient
  exact ⟨_, List.getElem?_eq_getElem (hasking.length.symm ▸ hlt)⟩

/-- A worker that is to reply has not replied. -/
theorem Asking.gotInfo_of_asked {asked index : ℕ} {client : ControlClient} {worker : WorkerInfo}
    (hasking : Asking format shards headWorker asked actions controller)
    (hclient : controller.clients[index]? = some client)
    (hworker : controller.workers[index]? = some worker) (hasked : client.asked = true) :
    worker.gotInfo = false := by
  cases hgot : worker.gotInfo with
  | false => rfl
  | true =>
    have hdone := (hasking.told index client worker hclient hworker hgot).1
    rw [hasked] at hdone
    cases hdone

/-- The reply of a worker that is ready is counted; one that is not ready ends the process. -/
theorem Asking.reply {asked index : ℕ} {client : ControlClient}
    (hasking : Asking format shards headWorker asked actions controller)
    (hclient : controller.clients[index]? = some client) (hasked : client.asked = true)
    (flags : List Bool) (hphase : controller.phase = .asking asked) :
    PhaseInvariant format shards headWorker (actions ++ [.reply index flags])
      (getInfoCb { controller with
        clients := controller.clients.set index { client with asked := false } } index
        (getInfo format (shards client.address) flags)) := by
  obtain ⟨worker, hworker⟩ := hasking.exists_worker hclient
  have hnew := hasking.gotInfo_of_asked hclient hworker hasked
  obtain ⟨rfl, hbefore⟩ := hasking.pending index client worker hclient hworker hnew
  have haddress : ((shards headWorker).addresses format)[index]? = some client.address := by
    rw [← hasking.addresses, List.getElem?_map, hclient]
    rfl
  have htold := workerInfo_getInfo format shards client.address flags
  unfold getInfoCb
  simp only [hworker, Bool.false_eq_true, if_false]
  by_cases hready : (getInfo format (shards client.address) flags).ready = false
  · rw [if_pos hready]
    exact .notReady index flags client.address (by simp) haddress hready
  · rw [if_neg hready, htold]
    rw [Bool.not_eq_false] at hready
    unfold PhaseInvariant
    simp only [hphase]
    exact {
      peers := hasking.peers
      addresses := by
        have hsame : ControlClient.address { client with asked := false } = client.address := rfl
        exact (map_set_of_eq_some hclient _ hsame).trans hasking.addresses
      connected := by
        intro other hother
        rcases List.mem_or_eq_of_mem_set hother with hold | rfl
        · exact hasking.connected other hold
        · exact hasking.connected client (List.mem_of_getElem? hclient)
      uncounted := hasking.uncounted
      le := by
        simp only [List.length_set]
        exact hasking.le
      length := by
        simp only [List.length_set]
        exact hasking.length
      latch := by
        have hcount := countP_set_add hworker (fun worker ↦ !worker.gotInfo)
          (toldBy format shards client.address)
        have hlatch := hasking.latch
        simp only [toldBy, Bool.not_false, Bool.not_true, if_true, Bool.false_eq_true,
          if_false] at hcount
        simp only [toldBy]
        omega
      pending := by
        intro position other found hother hfound hgot
        rcases getElem?_set_cases hfound with ⟨rfl, rfl⟩ | ⟨hposition, hold⟩
        · cases hgot
        · rcases getElem?_set_cases hother with ⟨rfl, -⟩ | ⟨-, holdClient⟩
          · exact absurd rfl hposition
          · exact hasking.pending position other found holdClient hold hgot
      told := by
        intro position other found hother hfound hgot
        rcases getElem?_set_cases hfound with ⟨rfl, rfl⟩ | ⟨hposition, hold⟩
        · rcases getElem?_set_cases hother with ⟨-, rfl⟩ | ⟨hposition, -⟩
          · exact ⟨rfl, hbefore.mp hasked, rfl, flags, by simp, hready⟩
          · exact absurd rfl hposition
        · rcases getElem?_set_cases hother with ⟨rfl, -⟩ | ⟨-, holdClient⟩
          · exact absurd rfl hposition
          · obtain ⟨hnone, hless, htold, others, hmem, hothers⟩ :=
              hasking.told position other found holdClient hold hgot
            exact ⟨hnone, hless, htold, others, List.mem_append_left _ hmem, hothers⟩ }

/-! ### The thread -/

theorem HeadConnecting.connectLatch (hconnecting : HeadConnecting headWorker controller)
    (hlatch : controller.latch ≤ 0) : controller.head.connectLatch = false := by
  have hcount := hconnecting.latch
  cases hcounted : controller.head.connectLatch with
  | false => rfl
  | true =>
    rw [hcounted, if_pos rfl] at hcount
    omega

/-- The head is asked when it is connected. -/
theorem HeadConnecting.prepare (hconnecting : HeadConnecting headWorker controller)
    (hphase : controller.phase = .connectingHead) (hprepare : prepareStep controller = some next) :
    PhaseInvariant format shards headWorker actions next := by
  obtain ⟨hlatch, rfl⟩ := prepareStep_connectingHead hphase
    (fun hlatch ↦ hconnecting.connection (hconnecting.connectLatch hlatch)) hprepare
  exact {
    address := hconnecting.address
    counted := hconnecting.connectLatch hlatch
    pending := fun _ ↦ ⟨⟨hconnecting.peers, hconnecting.clients, hconnecting.uncounted⟩, rfl⟩
    replied := by simp }

theorem HeadAsking.asked (hasking : HeadAsking format shards headWorker controller)
    (hlatch : controller.latch ≤ 0) : controller.head.asked = false := by
  cases hasked : controller.head.asked with
  | false => rfl
  | true =>
    have hone := (hasking.pending hasked).2
    omega

/-- The clients are told to connect when the head has named them. -/
theorem HeadAsking.prepare (hasking : HeadAsking format shards headWorker controller)
    (hphase : controller.phase = .askingHead) (hprepare : prepareStep controller = some next) :
    PhaseInvariant format shards headWorker actions next := by
  obtain ⟨hlatch, rfl⟩ := prepareStep_askingHead hphase hprepare
  obtain ⟨hnamed, -, hfresh⟩ := hasking.replied (hasking.asked hlatch)
  have hall : controller.clients.countP ControlClient.isAwaited = controller.clients.length := by
    refine List.countP_eq_length.mpr fun client hclient ↦ ?_
    rw [hfresh client hclient]
    rfl
  exact {
    peers := hnamed.peers
    addresses := hnamed.addresses
    uncounted := hnamed.uncounted
    le := Nat.zero_le _
    latch := congrArg Nat.cast hall.symm
    started := fun index client _ hless ↦ absurd hless (Nat.not_lt_zero index)
    asked := by
      intro client hclient
      rw [hfresh client hclient]
    fresh := fun _ client hclient _ ↦ hfresh client (List.mem_of_getElem? hclient) }

/-- When the latch is counted down, all clients are connected. -/
theorem Connecting.connected {started : ℕ}
    (hconnecting : Connecting format shards headWorker started controller)
    (hall : controller.clients.length ≤ started) (hlatch : controller.latch ≤ 0) :
    ∀ client ∈ controller.clients, client.started = true ∧ client.connectLatch = false ∧
      client.connection = true := by
  have hcount := hconnecting.latch
  have hnone : controller.clients.countP ControlClient.isAwaited = 0 := by omega
  intro client hmem
  obtain ⟨index, hindex⟩ := List.getElem?_of_mem hmem
  obtain ⟨hlt, -⟩ := List.getElem?_eq_some_iff.mp hindex
  have hawaited := List.countP_eq_zero.mp hnone client hmem
  rw [ControlClient.isAwaited, Bool.not_eq_true, Bool.or_eq_false_iff,
    Bool.not_eq_false'] at hawaited
  exact ⟨hawaited.1, hawaited.2, (hconnecting.started index client hindex (by omega)).2 hawaited.2⟩

/-- The next client is told to connect, or the first one is asked when all are connected. -/
theorem Connecting.prepare {started : ℕ}
    (hconnecting : Connecting format shards headWorker started controller)
    (hphase : controller.phase = .connecting started)
    (hprepare : prepareStep controller = some next) :
    PhaseInvariant format shards headWorker actions next := by
  rcases prepareStep_connecting hphase hprepare with ⟨client, hclient, rfl⟩ | ⟨hall, hlatch, rfl⟩
  · have hfresh := hconnecting.fresh started client hclient le_rfl
    have hsame : ControlClient.address { client with started := true, connectLatch := true } =
        client.address := rfl
    exact {
      peers := hconnecting.peers
      addresses := (map_set_of_eq_some hclient _ hsame).trans hconnecting.addresses
      uncounted := hconnecting.uncounted
      le := by
        rw [List.length_set]
        exact Nat.succ_le_of_lt (List.getElem?_eq_some_iff.mp hclient).1
      latch := by
        have hcount := countP_set_add hclient ControlClient.isAwaited
          { client with started := true, connectLatch := true }
        have hbefore : client.isAwaited = true := by
          rw [hfresh]
          rfl
        have hafter : ControlClient.isAwaited
          { client with started := true, connectLatch := true } = true := rfl
        rw [hbefore, hafter] at hcount
        exact hconnecting.latch.trans (congrArg Nat.cast (Nat.add_right_cancel hcount).symm)
      started := by
        intro index other hother hless
        rcases getElem?_set_cases hother with ⟨rfl, rfl⟩ | ⟨hindex, hold⟩
        · exact ⟨rfl, by simp⟩
        · exact hconnecting.started index other hold (by omega)
      asked := by
        intro other hother
        rcases List.mem_or_eq_of_mem_set hother with hold | rfl
        · exact hconnecting.asked other hold
        · exact hconnecting.asked client (List.mem_of_getElem? hclient)
      fresh := by
        intro index other hother hless
        rcases getElem?_set_cases hother with ⟨rfl, -⟩ | ⟨-, hold⟩
        · exact absurd hless (Nat.not_succ_le_self _)
        · exact hconnecting.fresh index other hold (by omega) }
  · exact {
      peers := hconnecting.peers
      addresses := hconnecting.addresses
      uncounted := hconnecting.uncounted
      le := Nat.zero_le _
      connected := hconnecting.connected hall hlatch
      length := List.length_replicate
      latch := by simp [List.countP_replicate]
      pending := by
        intro index client worker hindex hworker _
        have hworker := List.eq_of_mem_replicate (List.mem_of_getElem? hworker)
        refine ⟨hworker, ?_⟩
        simp [hconnecting.asked client (List.mem_of_getElem? hindex)]
      told := by
        intro index client worker _ hworker hgot
        rw [List.eq_of_mem_replicate (List.mem_of_getElem? hworker)] at hgot
        cases hgot }

/-- When the latch is counted down, every worker has told what it has. -/
theorem Asking.told_of_latch {asked index : ℕ} {client : ControlClient}
    (hasking : Asking format shards headWorker asked actions controller)
    (hlatch : controller.latch ≤ 0) (hclient : controller.clients[index]? = some client) :
    client.asked = false ∧
      controller.workers[index]? = some (toldBy format shards client.address) ∧
        ∃ flags, .reply index flags ∈ actions ∧
          isReady ((shards client.address).addresses format).length flags = true := by
  have hcount := hasking.latch
  have hnone : controller.workers.countP (fun worker ↦ !worker.gotInfo) = 0 := by omega
  obtain ⟨worker, hworker⟩ := hasking.exists_worker hclient
  have hgot : worker.gotInfo = true := by
    simpa using List.countP_eq_zero.mp hnone worker (List.mem_of_getElem? hworker)
  obtain ⟨hreplied, -, rfl, hflags⟩ := hasking.told index client worker hclient hworker hgot
  exact ⟨hreplied, hworker, hflags⟩

/-- Then `workers_` is what the peers of the head tell. -/
theorem Asking.workers_eq {asked : ℕ}
    (hasking : Asking format shards headWorker asked actions controller)
    (hlatch : controller.latch ≤ 0) : controller.workers =
      ((shards headWorker).addresses format).map (toldBy format shards) := by
  refine List.ext_getElem? fun index ↦ ?_
  rw [← hasking.addresses, List.getElem?_map, List.getElem?_map]
  cases hclient : controller.clients[index]? with
  | none =>
    rw [Option.map_none, Option.map_none, List.getElem?_eq_none_iff, hasking.length]
    exact List.getElem?_eq_none_iff.mp hclient
  | some client =>
    rw [(hasking.told_of_latch hlatch hclient).2.1]
    rfl

/-- When all have replied, their numbers are added up. -/
theorem Asking.checked {asked : ℕ}
    (hasking : Asking format shards headWorker asked actions controller)
    (hlatch : controller.latch ≤ 0) :
    PhaseInvariant format shards headWorker actions
      (checkWorkers controller.workers controller) := by
  rw [hasking.workers_eq hlatch]
  rcases checkWorkers_toldBy format shards
    ((shards headWorker).addresses format) controller with
    ⟨heq, hsame⟩ | ⟨hphase, address, haddress, hdiffer⟩
  · rw [heq]
    have hpeers : ∀ client ∈ controller.clients,
        (shards client.address).addresses format = (shards headWorker).addresses format := by
      intro client hclient
      have hmem : client.address ∈ (shards headWorker).addresses format := by
        rw [← hasking.addresses]
        exact List.mem_map_of_mem hclient
      have htext := hsame client.address hmem
      rw [hasking.peers] at htext
      exact peersText_injective (fun _ ↦ wellFormed_of_mem_addresses)
        (fun _ ↦ wellFormed_of_mem_addresses) htext
    refine ⟨{
      addresses := hasking.addresses
      connections := hasking.connection
      samePeers := hpeers
      ready := ?_
      keyCount := ?_
      maxKey := ?_ }, ?_⟩
    · intro index hlt
      obtain ⟨-, -, flags, hreply, hready⟩ :=
        hasking.told_of_latch hlatch (List.getElem?_eq_getElem hlt)
      rw [hpeers _ (List.getElem_mem hlt), ← hasking.addresses, List.length_map] at hready
      exact ⟨flags, hreply, hready⟩
    · simp only [hasking.uncounted.1, zero_add, ← hasking.addresses, List.map_map]
      rfl
    · have hkeys := foldl_maxKey shards ((shards headWorker).addresses format) []
      rw [List.nil_append] at hkeys
      simp only [hasking.uncounted.2]
      refine hkeys.trans ?_
      rw [← hasking.addresses, List.flatMap_map]
    · intro client hclient
      obtain ⟨index, hindex⟩ := List.getElem?_of_mem hclient
      exact ⟨(hasking.connected client hclient).2.1, (hasking.told_of_latch hlatch hindex).1⟩
  · unfold PhaseInvariant
    simp only [hphase]
    refine .otherPeers address haddress fun hsame ↦ hdiffer ?_
    rw [hsame, hasking.peers]

/-- The next client is asked, or the workers are checked when all have replied. -/
theorem Asking.prepare {asked : ℕ}
    (hasking : Asking format shards headWorker asked actions controller)
    (hphase : controller.phase = .asking asked) (hprepare : prepareStep controller = some next) :
    PhaseInvariant format shards headWorker actions next := by
  rcases prepareStep_asking hphase hasking.connection hprepare with
    ⟨client, hclient, rfl⟩ | ⟨-, hlatch, rfl⟩
  · have hmem := List.mem_of_getElem? hclient
    have hsame : ControlClient.address { client with asked := true } = client.address := rfl
    exact {
      peers := hasking.peers
      addresses := (map_set_of_eq_some hclient _ hsame).trans hasking.addresses
      uncounted := hasking.uncounted
      le := by
        rw [List.length_set]
        exact Nat.succ_le_of_lt (List.getElem?_eq_some_iff.mp hclient).1
      connected := by
        intro other hother
        rcases List.mem_or_eq_of_mem_set hother with hold | rfl
        · exact hasking.connected other hold
        · exact hasking.connected client hmem
      length := by
        simp only [List.length_set]
        exact hasking.length
      latch := hasking.latch
      pending := by
        intro index other worker hother hworker hgot
        rcases getElem?_set_cases hother with ⟨rfl, rfl⟩ | ⟨hindex, hold⟩
        · exact ⟨(hasking.pending _ client worker hclient hworker hgot).1, by simp⟩
        · obtain ⟨hworker, hasked⟩ := hasking.pending index other worker hold hworker hgot
          exact ⟨hworker, hasked.trans (by omega)⟩
      told := by
        intro index other worker hother hworker hgot
        rcases getElem?_set_cases hother with ⟨rfl, rfl⟩ | ⟨hindex, hold⟩
        · obtain ⟨-, hless, -⟩ := hasking.told _ client worker hclient hworker hgot
          exact absurd hless (lt_irrefl _)
        · obtain ⟨hnone, hless, hrest⟩ := hasking.told index other worker hold hworker hgot
          exact ⟨hnone, Nat.lt_succ_of_lt hless, hrest⟩ }
  · exact hasking.checked hlatch

/-! ### The runs -/

/-- What the controller knows stays right when it has had more time. -/
theorem Prepared.mono {later : List ControlAction}
    (hprepared : Prepared format shards headWorker actions controller)
    (hmore : ∀ action ∈ actions, action ∈ later) :
    Prepared format shards headWorker later controller where
  addresses := hprepared.addresses
  connections := hprepared.connections
  samePeers := hprepared.samePeers
  ready := by
    intro index hlt
    obtain ⟨flags, hreply, hready⟩ := hprepared.ready index hlt
    exact ⟨flags, hmore _ hreply, hready⟩
  keyCount := hprepared.keyCount
  maxKey := hprepared.maxKey

theorem Asking.mono {asked : ℕ} {later : List ControlAction}
    (hasking : Asking format shards headWorker asked actions controller)
    (hmore : ∀ action ∈ actions, action ∈ later) :
    Asking format shards headWorker asked later controller where
  toNamed := hasking.toNamed
  le := hasking.le
  connected := hasking.connected
  length := hasking.length
  latch := hasking.latch
  pending := hasking.pending
  told := by
    intro index client worker hclient hworker hgot
    obtain ⟨hnone, hless, htold, flags, hreply, hready⟩ :=
      hasking.told index client worker hclient hworker hgot
    exact ⟨hnone, hless, htold, flags, hmore _ hreply, hready⟩

theorem Rejected.mono {message : Bytes} {later : List ControlAction}
    (hrejected : Rejected format shards headWorker actions message)
    (hmore : ∀ action ∈ actions, action ∈ later) :
    Rejected format shards headWorker later message := by
  cases hrejected with
  | notReady index flags address hreply haddress hready =>
    exact .notReady index flags address (hmore _ hreply) haddress hready
  | otherPeers address haddress hother => exact .otherPeers address haddress hother

theorem phaseInvariant_congr_actions {later : List ControlAction}
    (hinvariant : PhaseInvariant format shards headWorker actions controller)
    (hmore : ∀ action ∈ actions, action ∈ later) :
    PhaseInvariant format shards headWorker later controller := by
  unfold PhaseInvariant at hinvariant ⊢
  cases hphase : controller.phase with
  | connectingHead => simpa only [hphase] using hinvariant
  | askingHead => simpa only [hphase] using hinvariant
  | connecting started => simpa only [hphase] using hinvariant
  | asking asked =>
    simp only [hphase] at hinvariant ⊢
    exact hinvariant.mono hmore
  | prepared =>
    simp only [hphase] at hinvariant ⊢
    exact ⟨hinvariant.1.mono hmore, hinvariant.2⟩
  | aborted message =>
    simp only [hphase] at hinvariant ⊢
    exact hinvariant.mono hmore
  | crashed => simp only [hphase] at hinvariant

theorem PhaseInvariant.connectingHead
    (hinvariant : PhaseInvariant format shards headWorker actions controller)
    (hphase : controller.phase = .connectingHead) : HeadConnecting headWorker controller := by
  unfold PhaseInvariant at hinvariant
  simpa only [hphase] using hinvariant

theorem PhaseInvariant.askingHead
    (hinvariant : PhaseInvariant format shards headWorker actions controller)
    (hphase : controller.phase = .askingHead) :
    HeadAsking format shards headWorker controller := by
  unfold PhaseInvariant at hinvariant
  simpa only [hphase] using hinvariant

theorem PhaseInvariant.connecting {started : ℕ}
    (hinvariant : PhaseInvariant format shards headWorker actions controller)
    (hphase : controller.phase = .connecting started) :
    Connecting format shards headWorker started controller := by
  unfold PhaseInvariant at hinvariant
  simpa only [hphase] using hinvariant

theorem PhaseInvariant.asking {asked : ℕ}
    (hinvariant : PhaseInvariant format shards headWorker actions controller)
    (hphase : controller.phase = .asking asked) :
    Asking format shards headWorker asked actions controller := by
  unfold PhaseInvariant at hinvariant
  simpa only [hphase] using hinvariant

theorem PhaseInvariant.prepared
    (hinvariant : PhaseInvariant format shards headWorker actions controller)
    (hphase : controller.phase = .prepared) :
    Prepared format shards headWorker actions controller ∧
      ∀ client ∈ controller.clients, client.connectLatch = false ∧ client.asked = false := by
  unfold PhaseInvariant at hinvariant
  simpa only [hphase] using hinvariant

/-- The head is to reply in one phase only. -/
theorem PhaseInvariant.phase_of_headAsked
    (hinvariant : PhaseInvariant format shards headWorker actions controller)
    (hhead : controller.phase.hasHead = true) (hasked : controller.head.asked = true) :
    controller.phase = .askingHead := by
  cases hphase : controller.phase with
  | connectingHead =>
    rw [(hinvariant.connectingHead hphase).asked] at hasked
    cases hasked
  | askingHead => rfl
  | connecting started => simp [hphase, ControlPhase.hasHead] at hhead
  | asking asked => simp [hphase, ControlPhase.hasHead] at hhead
  | prepared => simp [hphase, ControlPhase.hasHead] at hhead
  | aborted message => simp [hphase, ControlPhase.hasHead] at hhead
  | crashed => simp [hphase, ControlPhase.hasHead] at hhead

/-- The other workers are to reply in one phase only. -/
theorem PhaseInvariant.exists_phase_of_asked {client : ControlClient}
    (hinvariant : PhaseInvariant format shards headWorker actions controller)
    (hended : controller.phase.hasEnded = false) (hmem : client ∈ controller.clients)
    (hasked : client.asked = true) : ∃ asked, controller.phase = .asking asked := by
  cases hphase : controller.phase with
  | connectingHead =>
    rw [(hinvariant.connectingHead hphase).clients] at hmem
    exact absurd hmem List.not_mem_nil
  | askingHead =>
    have hasking := hinvariant.askingHead hphase
    cases hhead : controller.head.asked with
    | true =>
      rw [(hasking.pending hhead).1.clients] at hmem
      exact absurd hmem List.not_mem_nil
    | false =>
      rw [(hasking.replied hhead).2.2 client hmem] at hasked
      cases hasked
  | connecting started =>
    rw [(hinvariant.connecting hphase).asked client hmem] at hasked
    cases hasked
  | asking asked => exact ⟨asked, rfl⟩
  | prepared =>
    rw [((hinvariant.prepared hphase).2 client hmem).2] at hasked
    cases hasked
  | aborted message => simp [hphase, ControlPhase.hasEnded] at hended
  | crashed => simp [hphase, ControlPhase.hasEnded] at hended

/-- A step of the thread. -/
theorem phaseInvariant_prepare
    (hinvariant : PhaseInvariant format shards headWorker actions controller)
    (hprepare : prepareStep controller = some next) :
    PhaseInvariant format shards headWorker actions next := by
  cases hphase : controller.phase with
  | connectingHead => exact (hinvariant.connectingHead hphase).prepare hphase hprepare
  | askingHead => exact (hinvariant.askingHead hphase).prepare hphase hprepare
  | connecting started => exact (hinvariant.connecting hphase).prepare hphase hprepare
  | asking asked => exact (hinvariant.asking hphase).prepare hphase hprepare
  | prepared => simp [prepareStep, hphase] at hprepare
  | aborted message => simp [prepareStep, hphase] at hprepare
  | crashed => simp [prepareStep, hphase] at hprepare

/-- A connection to the head comes up or goes down. -/
theorem phaseInvariant_headConnection
    (hinvariant : PhaseInvariant format shards headWorker actions controller)
    (hhead : controller.phase.hasHead = true) (connected : Bool) :
    PhaseInvariant format shards headWorker actions { controller with
      head := (onConnection controller.head connected controller.latch).1
      latch := (onConnection controller.head connected controller.latch).2 } := by
  unfold PhaseInvariant at hinvariant ⊢
  cases hphase : controller.phase with
  | connectingHead =>
    simp only [hphase] at hinvariant
    simpa only [hphase] using hinvariant.onConnection connected
  | askingHead =>
    simp only [hphase] at hinvariant
    simpa only [hphase] using hinvariant.onConnection connected
  | connecting started => simp [hphase, ControlPhase.hasHead] at hhead
  | asking asked => simp [hphase, ControlPhase.hasHead] at hhead
  | prepared => simp [hphase, ControlPhase.hasHead] at hhead
  | aborted message => simp [hphase, ControlPhase.hasHead] at hhead
  | crashed => simp [hphase, ControlPhase.hasHead] at hhead

/-- A client that is counted stays as it is. -/
theorem set_onConnection_counted {index : ℕ} {client : ControlClient}
    (hclient : controller.clients[index]? = some client) (hcounted : client.connectLatch = false)
    (hconnection : client.connection = true) (connected : Bool) :
    ({ controller with
      clients := controller.clients.set index (onConnection client connected controller.latch).1
      latch := (onConnection client connected controller.latch).2 } : Controller) =
        controller := by
  obtain ⟨hlt, hitem⟩ := List.getElem?_eq_some_iff.mp hclient
  rw [onConnection_counted hcounted hconnection, ← hitem, List.set_getElem_self hlt]

/-- A connection to a peer comes up or goes down. -/
theorem phaseInvariant_connection {index : ℕ} {client : ControlClient}
    (hinvariant : PhaseInvariant format shards headWorker actions controller)
    (hended : controller.phase.hasEnded = false)
    (hclient : controller.clients[index]? = some client) (hstarted : client.started = true)
    (connected : Bool) :
    PhaseInvariant format shards headWorker actions { controller with
      clients := controller.clients.set index (onConnection client connected controller.latch).1
      latch := (onConnection client connected controller.latch).2 } := by
  have hmem := List.mem_of_getElem? hclient
  cases hphase : controller.phase with
  | connectingHead =>
    rw [(hinvariant.connectingHead hphase).clients] at hmem
    exact absurd hmem List.not_mem_nil
  | askingHead =>
    have hasking := hinvariant.askingHead hphase
    cases hasked : controller.head.asked with
    | true =>
      rw [(hasking.pending hasked).1.clients] at hmem
      exact absurd hmem List.not_mem_nil
    | false =>
      rw [(hasking.replied hasked).2.2 client hmem] at hstarted
      cases hstarted
  | connecting started =>
    unfold PhaseInvariant
    simpa only [hphase] using (hinvariant.connecting hphase).connection hclient hstarted connected
  | asking asked =>
    obtain ⟨-, hcounted, hconnection⟩ := (hinvariant.asking hphase).connected client hmem
    have heq := set_onConnection_counted hclient hcounted hconnection connected
    rw [hphase] at heq
    rwa [heq]
  | prepared =>
    obtain ⟨hprepared, hsettled⟩ := hinvariant.prepared hphase
    have heq := set_onConnection_counted hclient (hsettled client hmem).1
      (hprepared.connections client hmem) connected
    rw [hphase] at heq
    rwa [heq]
  | aborted message => simp [hphase, ControlPhase.hasEnded] at hended
  | crashed => simp [hphase, ControlPhase.hasEnded] at hended

/-- The worker of a client replies. -/
theorem phaseInvariant_reply {index : ℕ} {client : ControlClient}
    (hinvariant : PhaseInvariant format shards headWorker actions controller)
    (hended : controller.phase.hasEnded = false)
    (hclient : controller.clients[index]? = some client) (hasked : client.asked = true)
    (flags : List Bool) :
    PhaseInvariant format shards headWorker (actions ++ [.reply index flags])
      (getInfoCb { controller with
        clients := controller.clients.set index { client with asked := false } } index
        (getInfo format (shards client.address) flags)) := by
  obtain ⟨asked, hphase⟩ := hinvariant.exists_phase_of_asked hended
    (List.mem_of_getElem? hclient) hasked
  exact (hinvariant.asking hphase).reply hclient hasked flags hphase

/-- The head replies. -/
theorem phaseInvariant_headReply
    (hinvariant : PhaseInvariant format shards headWorker actions controller)
    (hhead : controller.phase.hasHead = true) (hasked : controller.head.asked = true)
    (flags : List Bool) : PhaseInvariant format shards headWorker actions
      (getHeadInfoCb format (getInfo format (shards controller.head.address) flags).peers
        { controller with head := { controller.head with asked := false } }) := by
  have hphase := hinvariant.phase_of_headAsked hhead hasked
  have hreply := (hinvariant.askingHead hphase).reply hasked flags
  have hsame : (getHeadInfoCb format (getInfo format (shards controller.head.address) flags).peers
      { controller with head := { controller.head with asked := false } }).phase =
        .askingHead := by
    unfold getInfo
    rw [getHeadInfoCb_toIpPort fun address haddress ↦ wellFormed_of_mem_addresses haddress]
    exact hphase
  unfold PhaseInvariant
  simpa only [hsame] using hreply

/-- Every step keeps the invariant. -/
theorem phaseInvariant_step {action : ControlAction}
    (hinvariant : PhaseInvariant format shards headWorker actions controller)
    (hstep : controlStep format shards controller action = some next) :
    PhaseInvariant format shards headWorker (actions ++ [action]) next := by
  have hmore : ∀ earlier ∈ actions, earlier ∈ actions ++ [action] :=
    fun _ hmem ↦ List.mem_append_left _ hmem
  have hended := not_hasEnded_of_controlStep hstep
  cases action with
  | prepare =>
    have hprepare := controlStep_prepare hstep
    exact phaseInvariant_congr_actions (phaseInvariant_prepare hinvariant hprepare) hmore
  | headConnection connected =>
    obtain ⟨hhead, rfl⟩ := controlStep_headConnection hstep
    exact phaseInvariant_congr_actions
      (phaseInvariant_headConnection hinvariant hhead connected) hmore
  | headReply flags =>
    obtain ⟨hhead, hasked, rfl⟩ := controlStep_headReply hstep
    exact phaseInvariant_congr_actions
      (phaseInvariant_headReply hinvariant hhead hasked flags) hmore
  | connection index connected =>
    obtain ⟨client, hclient, hstarted, rfl⟩ := controlStep_connection hstep
    exact phaseInvariant_congr_actions
      (phaseInvariant_connection hinvariant hended hclient hstarted connected) hmore
  | reply index flags =>
    obtain ⟨client, hclient, hasked, rfl⟩ := controlStep_reply hstep
    exact phaseInvariant_reply hinvariant hended hclient hasked flags

theorem phaseInvariant_of_run
    (hrun : (controlSystem format shards headWorker).Run actions controller) :
    PhaseInvariant format shards headWorker actions controller := by
  refine hrun.historyInvariant ?_ fun _ _ _ _ _ hstep hinvariant ↦
    phaseInvariant_step hinvariant hstep
  exact {
    peers := rfl
    clients := rfl
    uncounted := ⟨rfl, rfl⟩
    address := rfl
    asked := rfl
    latch := rfl
    connection := by simp [controlSystem] }

/-- `prepare` returns only with what is right, and the process ends only for a reason, in whatever
order the connections come up and the workers reply. -/
theorem preparationSound_of_run
    (hrun : (controlSystem format shards headWorker).Run actions controller) :
    PreparationSound format shards headWorker actions controller := by
  have hinvariant := phaseInvariant_of_run hrun
  refine ⟨?_, fun hphase ↦ (hinvariant.prepared hphase).1, ?_⟩
  · intro hphase
    unfold PhaseInvariant at hinvariant
    simp only [hphase] at hinvariant
  · intro message hphase
    unfold PhaseInvariant at hinvariant
    simpa only [hphase] using hinvariant

end Steps

/-! ### Two workers -/

/-- An ip address of the host itself is written as it is; what is none is written as zeros. -/
def localNotation : IpNotation where
  text ip := if ip = bytes "127.0.0.1" then ip else bytes "0.0.0.0"
  colon_notMem ip _ := by
    split_ifs with hip
    · rw [hip]
      decide
    · decide
  comma_notMem ip _ := by
    split_ifs with hip
    · rw [hip]
      decide
    · decide
  text_text ip _ := by
    split_ifs with hip hagain
    · rfl
    · rfl
    · rfl

/-- Two workers on one host: the first has the keys 5 and 3, the second the key 9. -/
def twoShards (address : InetAddress) : Shard where
  file := bytes (if address.port = 9001 then "a\t5\nb\t3\n" else "c\t9")
  peers := bytes "127.0.0.1:9001,127.0.0.1:9002"

/-- The first worker. -/
def firstWorker : InetAddress where
  ip := bytes "127.0.0.1"
  port := 9001

/-- The second client is connected before the first, and the second worker replies first. -/
def twoPrepared : List ControlAction :=
  [.headConnection true, .prepare, .headReply [true, false], .prepare, .prepare, .prepare,
    .connection 1 true, .connection 0 true, .prepare, .prepare, .prepare, .reply 1 [true, true],
    .reply 0 [true, true], .connection 0 false, .prepare]

theorem exists_execute_twoPrepared : ∃ controller,
    (controlSystem localNotation twoShards firstWorker).execute
      (controlSystem localNotation twoShards firstWorker).start twoPrepared = some controller ∧
    controller.phase = .prepared ∧ controller.keyCount = 3 ∧ controller.maxKey = 9 := by
  have hphase : ((controlSystem localNotation twoShards firstWorker).execute
      (controlSystem localNotation twoShards firstWorker).start twoPrepared).map
        (fun controller ↦ (controller.phase, controller.keyCount, controller.maxKey)) =
          some (.prepared, 3, 9) := by
    decide +kernel
  obtain ⟨controller, hexecute, hsame⟩ := Option.map_eq_some_iff.mp hphase
  simp only [Prod.mk.injEq] at hsame
  exact ⟨controller, hexecute, hsame⟩

theorem preparationSound_twoPrepared : ∃ controller,
    (controlSystem localNotation twoShards firstWorker).Run twoPrepared controller ∧
    PreparationSound localNotation twoShards firstWorker twoPrepared controller ∧
      controller.phase = .prepared ∧ controller.keyCount = 3 ∧ controller.maxKey = 9 := by
  obtain ⟨controller, hexecute, hresult⟩ := exists_execute_twoPrepared
  have hrun := TransitionSystem.Run.of_execute hexecute
  exact ⟨controller, hrun, preparationSound_of_run hrun, hresult⟩

end MuduoProtorpc.WordFreq
