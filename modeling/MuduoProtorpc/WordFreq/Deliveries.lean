import Mathlib.Algebra.BigOperators.Group.Finset.Basic
import Mathlib.Data.Multiset.Basic
import Mathlib.Data.Fintype.Basic
import MuduoProtorpc.WordFreq.Cluster
import MuduoProtorpc.WordFreq.PoolReturns

/-!
# The keys of a cluster

Where the keys of all workers are while they are shuffled. What a worker does by itself is
`LocalInvariant`; the network joins the workers in `ClusterInvariant`: the keys that a worker has
received, with those on their way to it, are the keys that the workers have sent to it
(`ClusterInvariant.delivered`). Each step takes a call from the network to a worker, or adds calls
to the network that a worker has made; both keep this sum.
-/

set_option autoImplicit false
set_option relaxedAutoImplicit false

namespace MuduoProtorpc.WordFreq

open Foundation

/-! ### A worker by itself -/

/-- What holds of a worker with these keys that gets these pivots, whatever the others do. -/
structure LocalInvariant (peers : ℕ) (keys pivots : List ℤ) (worker : Worker) : Prop where
  peers : worker.peers = peers
  ownKeys : worker.keys = keys
  running : worker.aborted = none
  idle : worker.shuffling = false → worker.thread = none
  input : ∀ thread, worker.thread = some thread → thread.input = { pivots := pivots, keys := keys }
  shuffle : ∀ thread, worker.thread = some thread →
    ∃ actions, (shuffleSystem thread.input).Run actions thread.shuffle
  unassigned : worker.partition = -1 → worker.partitionKeys = []

/-- The keys that a worker gets in a step. -/
def receivedKeys : WorkerAction → List ℤ
  | .shardKey request => request.keys
  | _ => []

section Local

variable {size : ℕ} {keys pivots : List ℤ} {worker next : Worker} {action : WorkerAction}
  {thread : ShuffleThread}

theorem localInvariant_initial (size : ℕ) (keys pivots : List ℤ) :
    LocalInvariant size keys pivots { peers := size, keys := keys } where
  peers := rfl
  ownKeys := rfl
  running := rfl
  idle := fun _ ↦ rfl
  input := fun _ hthread ↦ by cases hthread
  shuffle := fun _ hthread ↦ by cases hthread
  unassigned := fun _ ↦ rfl

/-- The thread of a worker goes one step further. -/
theorem LocalInvariant.set_thread (hlocal : LocalInvariant size keys pivots worker)
    (hthread : worker.thread = some thread) {shuffle : Shuffle} (action : ShuffleAction)
    (hstep : (shuffleSystem thread.input).step thread.shuffle action = some shuffle)
    (replies : List (ℕ × ShuffleKeyResponse)) :
    LocalInvariant size keys pivots
      { worker with thread := some { thread with shuffle := shuffle }, replies := replies } where
  peers := hlocal.peers
  ownKeys := hlocal.ownKeys
  running := hlocal.running
  idle := by
    intro hshuffling
    rw [hlocal.idle hshuffling] at hthread
    cases hthread
  input := by
    intro later hlater
    obtain rfl := Option.some.inj hlater
    exact hlocal.input thread hthread
  shuffle := by
    intro later hlater
    obtain rfl := Option.some.inj hlater
    obtain ⟨actions, hrun⟩ := hlocal.shuffle thread hthread
    exact ⟨actions ++ [action], .step hrun trivial hstep⟩
  unassigned := hlocal.unassigned

/-- Every step of a worker keeps its invariant: only these pivots are given to it, and it accepts
them. -/
theorem LocalInvariant.moved (hlocal : LocalInvariant size keys pivots worker)
    (haccepted : acceptsPivots size keys pivots = some true)
    (hgiven : ∀ given, action = .shuffleKey given → given = pivots)
    (hmoved : WorkerMoved worker action next) : LocalInvariant size keys pivots next := by
  cases hmoved with
  | @accept given hshuffling _ =>
    obtain rfl := hgiven given rfl
    refine { hlocal with idle := fun hidle ↦ (by cases hidle), input := ?_, shuffle := ?_ }
    · intro thread hthread
      obtain rfl := Option.some.inj hthread
      rw [hlocal.ownKeys]
    · intro thread hthread
      obtain rfl := Option.some.inj hthread
      exact ⟨[], .start⟩
  | refuse => exact { hlocal with }
  | @run _ thread _ hthread hstep _ =>
    exact hlocal.set_thread hthread .thread hstep worker.replies
  | reply hthread hstep _ => exact hlocal.set_thread hthread .thread hstep _
  | @complete shardReq _ _ hthread hstep =>
    exact hlocal.set_thread hthread (.complete shardReq) hstep worker.replies
  | @receive request =>
    refine { hlocal with unassigned := fun hpartition ↦ ?_ }
    by_cases hunassigned : worker.partition = -1
    · have hassigned : (request.partition.getD 0 : ℤ) ≠ -1 := by omega
      rw [if_pos hunassigned] at hpartition
      exact absurd hpartition hassigned
    · rw [if_neg hunassigned] at hpartition
      exact absurd hpartition hunassigned
  | @unaddressed given hnone =>
    obtain rfl := hgiven given rfl
    rw [hlocal.peers, hlocal.ownKeys, haccepted] at hnone
    cases hnone
  | occupied hpartition hkeys => exact absurd (hlocal.unassigned hpartition) hkeys

/-- A worker keeps the keys that it has, and adds those that it gets. -/
theorem LocalInvariant.partitionKeys_moved (hlocal : LocalInvariant size keys pivots worker)
    (hmoved : WorkerMoved worker action next) :
    next.partitionKeys = worker.partitionKeys ++ receivedKeys action := by
  cases hmoved with
  | receive => rfl
  | occupied hpartition hkeys => exact absurd (hlocal.unassigned hpartition) hkeys
  | _ => simp [receivedKeys]

/-- The partition of a worker is that of its first request. -/
theorem partition_moved (hmoved : WorkerMoved worker action next) {part : ℕ}
    (hpartition : worker.partition = -1 ∨ worker.partition = part)
    (hrequest : ∀ request, action = .shardKey request → request.partition = some part) :
    next.partition = -1 ∨ next.partition = part := by
  cases hmoved with
  | @receive request =>
    dsimp only
    split_ifs with hunassigned
    · rw [hrequest request rfl]
      exact Or.inr rfl
    · exact hpartition
  | _ => exact hpartition

/-- A shuffle keeps the calls that it has made. -/
theorem sent_shuffleStep {input : ShuffleInput} {shuffle later : Shuffle}
    (hstep : shuffleStep input shuffle = some later) : shuffle.sent <+: later.sent := by
  cases shuffleStep_cases hstep with
  | send => exact List.prefix_append _ _
  | flush => exact List.prefix_append _ _
  | _ => exact List.prefix_refl _

/-- A worker keeps the calls that it has made. -/
theorem LocalInvariant.sent_moved (hlocal : LocalInvariant size keys pivots worker)
    (hmoved : WorkerMoved worker action next) : worker.sent <+: next.sent := by
  cases hmoved with
  | accept hshuffling _ =>
    have hnone : worker.sent = [] := by simp only [Worker.sent, hlocal.idle hshuffling]
    rw [hnone]
    exact List.nil_prefix
  | run hthread hstep _ =>
    simp only [Worker.sent, hthread]
    exact sent_shuffleStep hstep
  | reply hthread hstep _ =>
    simp only [Worker.sent, hthread]
    exact sent_shuffleStep hstep
  | complete hthread hstep =>
    obtain ⟨-, rfl⟩ := doneShardKey_cases hstep
    simp only [Worker.sent, hthread]
    exact List.prefix_refl _
  | _ => exact List.prefix_refl _

/-- The keys of a worker are where they should be. -/
theorem LocalInvariant.keyInvariant (hlocal : LocalInvariant size keys pivots worker)
    (haccepted : acceptsPivots size keys pivots = some true)
    (hthread : worker.thread = some thread) :
    KeyInvariant { pivots := pivots, keys := keys } thread.shuffle := by
  obtain ⟨-, -, hplaced⟩ := keysPlaced_of_accepted haccepted
  obtain ⟨actions, hrun⟩ := hlocal.shuffle thread hthread
  rw [hlocal.input thread hthread] at hrun
  exact keyInvariant_of_run hplaced hrun

/-- Every call of a worker is addressed to a peer, and says so. -/
theorem LocalInvariant.addressed (hlocal : LocalInvariant size keys pivots worker)
    (haccepted : acceptsPivots size keys pivots = some true) {call : ShardKeyCall}
    (hcall : call ∈ worker.sent) : call.request.partition = some call.peer := by
  cases hthread : worker.thread with
  | none => simp [Worker.sent, hthread] at hcall
  | some thread =>
    simp only [Worker.sent, hthread] at hcall
    obtain ⟨-, hpartition, -⟩ := (hlocal.keyInvariant haccepted hthread).sent call hcall
    exact hpartition

end Local

/-! ### The workers and the network -/

/-- The keys on their way to a worker. -/
def Cluster.onTheWay {size : ℕ} (cluster : Cluster size) (part : Fin size) : List ℤ :=
  keysSentTo (cluster.calls.map Prod.snd) part

/-- The keys that are received, with those on their way, are those that were sent. -/
structure ClusterInvariant {size : ℕ} (keys : Fin size → List ℤ) (pivots : List ℤ)
    (cluster : Cluster size) : Prop where
  workers : ∀ index, LocalInvariant size (keys index) pivots (cluster.workers index)
  partition : ∀ part : Fin size, (cluster.workers part).partition = -1 ∨
    (cluster.workers part).partition = (part : ℕ)
  addressed : ∀ item ∈ cluster.calls, item.2.request.partition = some item.2.peer
  delivered : ∀ part : Fin size, ((cluster.workers part).partitionKeys : Multiset ℤ) +
    (cluster.onTheWay part : Multiset ℤ) =
      ∑ index, (keysSentTo (cluster.workers index).sent part : Multiset ℤ)

section Network

variable {size : ℕ} {keys : Fin size → List ℤ} {pivots : List ℤ} {cluster next : Cluster size}

theorem keysSentTo_append_list (first second : List ShardKeyCall) (peer : ℕ) :
    keysSentTo (first ++ second) peer = keysSentTo first peer ++ keysSentTo second peer := by
  simp [keysSentTo]

/-- The keys that are sent to a peer do not depend on the order of the calls, as a multiset. -/
theorem keysSentTo_perm {first second : List ShardKeyCall} (hperm : first.Perm second)
    (peer : ℕ) : (keysSentTo first peer : Multiset ℤ) = keysSentTo second peer :=
  Multiset.coe_eq_coe.mpr ((hperm.filter _).map _).flatten

/-- A sum over the workers, when one of them has more. -/
theorem sum_update {Value : Type*} [AddCommMonoid Value] (workers : Fin size → Worker)
    (index : Fin size) (worker : Worker) (value : Worker → Value) (more : Value)
    (hvalue : value worker = value (workers index) + more) :
    ∑ other, value (Function.update workers index worker other) =
      ∑ other, value (workers other) + more := by
  have hothers : ∑ other ∈ Finset.univ.erase index,
      value (Function.update workers index worker other) =
        ∑ other ∈ Finset.univ.erase index, value (workers other) := by
    refine Finset.sum_congr rfl fun other hother ↦ ?_
    rw [Function.update_of_ne (Finset.ne_of_mem_erase hother)]
  rw [← Finset.add_sum_erase _ _ (Finset.mem_univ index), hothers, Function.update_self, hvalue,
    ← Finset.add_sum_erase _ (fun other ↦ value (workers other)) (Finset.mem_univ index),
    add_right_comm]

theorem clusterInvariant_start :
    ClusterInvariant keys pivots (clusterSystem keys pivots).start where
  workers := fun index ↦ localInvariant_initial size (keys index) pivots
  partition := fun _ ↦ Or.inl rfl
  addressed := fun item hitem ↦ by cases hitem
  delivered := by
    intro part
    have hnone : ∀ index, (keysSentTo ((clusterSystem keys pivots).start.workers index).sent part :
        Multiset ℤ) = 0 := fun _ ↦ rfl
    rw [Finset.sum_congr rfl fun index _ ↦ hnone index, Finset.sum_const_zero]
    rfl

/-- A step of a worker of a cluster is a step of this worker, whose calls go to the network. -/
theorem Cluster.workerStep_cases {index : Fin size} {action : WorkerAction}
    (hstep : cluster.workerStep index action = some next) :
    ∃ worker, WorkerMoved (cluster.workers index) action worker ∧ next = { cluster with
      workers := Function.update cluster.workers index worker
      calls := cluster.calls ++
        (worker.sent.drop (cluster.workers index).sent.length).map fun call ↦ (index, call) } := by
  unfold Cluster.workerStep at hstep
  split at hstep
  · cases hstep
  · rename_i worker hworker
    exact ⟨worker, WordFreq.workerStep_cases hworker, (Option.some.inj hstep).symm⟩

/-- A request is delivered to its addressee, and the response is on its way. -/
theorem deliver_cases {position : ℕ}
    (hstep : clusterStep pivots cluster (.deliver position) = some next) :
    ∃ sender call, ∃ hpeer : call.peer < size, cluster.calls[position]? = some (sender, call) ∧
      Cluster.workerStep { cluster with
        calls := cluster.calls.eraseIdx position
        responses := cluster.responses ++ [(sender, call.shardReq)] }
          ⟨call.peer, hpeer⟩ (.shardKey call.request) = some next := by
  simp only [clusterStep] at hstep
  split at hstep
  · cases hstep
  · rename_i sender call hcall
    split_ifs at hstep with hpeer
    exact ⟨sender, call, hpeer, hcall, hstep⟩

/-- A response is handled by the sender of the request. -/
theorem respond_cases {position : ℕ}
    (hstep : clusterStep pivots cluster (.respond position) = some next) :
    ∃ sender shardReq, cluster.responses[position]? = some (sender, shardReq) ∧
      Cluster.workerStep { cluster with responses := cluster.responses.eraseIdx position } sender
        (.complete shardReq) = some next := by
  simp only [clusterStep] at hstep
  split at hstep
  · cases hstep
  · rename_i sender shardReq hresponse
    exact ⟨sender, shardReq, hresponse, hstep⟩

/-- A step of one worker, which gets keys that were taken from the network. -/
theorem ClusterInvariant.workerStep {index : Fin size} {action : WorkerAction}
    (hstep : cluster.workerStep index action = some next)
    (haccepted : ∀ index, acceptsPivots size (keys index) pivots = some true)
    (hworkers : ∀ index, LocalInvariant size (keys index) pivots (cluster.workers index))
    (hpartition : ∀ part : Fin size, (cluster.workers part).partition = -1 ∨
      (cluster.workers part).partition = (part : ℕ))
    (haddressed : ∀ item ∈ cluster.calls, item.2.request.partition = some item.2.peer)
    (hdelivered : ∀ part : Fin size, ((cluster.workers part).partitionKeys : Multiset ℤ) +
      ((if part = index then receivedKeys action else [] : List ℤ) : Multiset ℤ) +
        (cluster.onTheWay part : Multiset ℤ) =
          ∑ index, (keysSentTo (cluster.workers index).sent part : Multiset ℤ))
    (hgiven : ∀ given, action = .shuffleKey given → given = pivots)
    (hrequest : ∀ request, action = .shardKey request → request.partition = some (index : ℕ)) :
    ClusterInvariant keys pivots next := by
  obtain ⟨worker, hmoved, rfl⟩ := Cluster.workerStep_cases hstep
  have hlocal := hworkers index
  have hnext := hlocal.moved (haccepted index) hgiven hmoved
  obtain ⟨more, hmore⟩ := hlocal.sent_moved hmoved
  have hdrop : worker.sent.drop (cluster.workers index).sent.length = more := by
    rw [← hmore, List.drop_left]
  refine ⟨fun other ↦ ?_, fun part ↦ ?_, fun item hitem ↦ ?_, fun part ↦ ?_⟩
  · by_cases hsame : other = index
    · subst hsame
      simpa using hnext
    · simpa [hsame] using hworkers other
  · by_cases hsame : part = index
    · subst hsame
      simpa using partition_moved hmoved (hpartition part) hrequest
    · simpa [hsame] using hpartition part
  · rcases List.mem_append.mp hitem with hold | hnew
    · exact haddressed item hold
    · obtain ⟨call, hcall, rfl⟩ := List.mem_map.mp hnew
      rw [hdrop] at hcall
      exact hnext.addressed (haccepted index) (by rw [← hmore]; simp [hcall])
  · have hsum := sum_update cluster.workers index worker
      (fun worker ↦ (keysSentTo worker.sent part : Multiset ℤ)) (keysSentTo more part)
      (by simp only [← hmore, keysSentTo_append_list, ← Multiset.coe_add])
    have hkept : ((Function.update cluster.workers index worker part).partitionKeys :
        Multiset ℤ) = ((cluster.workers part).partitionKeys : Multiset ℤ) +
          ((if part = index then receivedKeys action else [] : List ℤ) : Multiset ℤ) := by
      by_cases hsame : part = index
      · subst hsame
        rw [Function.update_self, if_pos rfl, hlocal.partitionKeys_moved hmoved,
          Multiset.coe_add]
      · rw [Function.update_of_ne hsame, if_neg hsame, Multiset.coe_nil, add_zero]
    have hway : (Cluster.onTheWay { cluster with
          workers := Function.update cluster.workers index worker
          calls := cluster.calls ++ more.map fun call ↦ (index, call) } part : Multiset ℤ) =
        (cluster.onTheWay part : Multiset ℤ) + (keysSentTo more part : Multiset ℤ) := by
      simp only [Cluster.onTheWay, List.map_append, List.map_map, keysSentTo_append_list,
        ← Multiset.coe_add]
      congr 2
      exact congrArg (keysSentTo · part) (List.map_id more)
    simp only [hdrop]
    rw [hsum, hkept, hway, ← add_assoc, hdelivered part]

/-- Every step of a cluster keeps the keys together. -/
theorem ClusterInvariant.step {action : ClusterAction size}
    (haccepted : ∀ index, acceptsPivots size (keys index) pivots = some true)
    (hinvariant : ClusterInvariant keys pivots cluster)
    (hstep : clusterStep pivots cluster action = some next) :
    ClusterInvariant keys pivots next := by
  have hidle : ∀ (part : Fin size) {index : Fin size} {action : WorkerAction},
      receivedKeys action = [] → ((cluster.workers part).partitionKeys : Multiset ℤ) +
        ((if part = index then receivedKeys action else [] : List ℤ) : Multiset ℤ) +
          (cluster.onTheWay part : Multiset ℤ) =
            ∑ index, (keysSentTo (cluster.workers index).sent part : Multiset ℤ) := by
    intro part index action hnone
    rw [hnone, ite_self, Multiset.coe_nil, add_zero, hinvariant.delivered part]
  cases action with
  | shuffleKey worker =>
    refine ClusterInvariant.workerStep hstep haccepted hinvariant.workers hinvariant.partition
      hinvariant.addressed (fun part ↦ hidle part rfl) ?_ (fun request hrequest ↦ ?_)
    · intro given hgiven
      cases hgiven
      rfl
    · cases hrequest
  | thread worker elapsed =>
    refine ClusterInvariant.workerStep hstep haccepted hinvariant.workers hinvariant.partition
      hinvariant.addressed (fun part ↦ hidle part rfl) (fun given hgiven ↦ ?_)
      (fun request hrequest ↦ ?_)
    · cases hgiven
    · cases hrequest
  | respond position =>
    obtain ⟨sender, shardReq, -, hmoved⟩ := respond_cases hstep
    refine ClusterInvariant.workerStep hmoved haccepted hinvariant.workers hinvariant.partition
      hinvariant.addressed (fun part ↦ hidle part rfl) (fun given hgiven ↦ ?_)
      (fun request hrequest ↦ ?_)
    · cases hgiven
    · cases hrequest
  | deliver position =>
    obtain ⟨sender, call, hpeer, hcall, hmoved⟩ := deliver_cases hstep
    obtain ⟨hposition, hitem⟩ := List.getElem?_eq_some_iff.mp hcall
    have hperm : (cluster.calls.map Prod.snd).Perm
        (call :: (cluster.calls.eraseIdx position).map Prod.snd) := by
      have herase := (List.getElem_cons_eraseIdx_perm hposition).map Prod.snd
      rw [hitem] at herase
      exact herase.symm
    have hmem : (sender, call) ∈ cluster.calls := List.mem_of_getElem? hcall
    refine ClusterInvariant.workerStep hmoved haccepted hinvariant.workers hinvariant.partition
      (fun item hitem ↦ ?_) (fun part ↦ ?_) (fun given hgiven ↦ ?_)
      (fun request hrequest ↦ ?_)
    · exact hinvariant.addressed item (List.mem_of_mem_eraseIdx hitem)
    · rw [← hinvariant.delivered part, add_assoc]
      congr 1
      have hsplit : (cluster.onTheWay part : Multiset ℤ) =
          (if call.peer = part then (call.request.keys : Multiset ℤ) else 0) +
            (keysSentTo ((cluster.calls.eraseIdx position).map Prod.snd) part :
              Multiset ℤ) := by
        rw [Cluster.onTheWay, keysSentTo_perm hperm]
        rw [← List.singleton_append, keysSentTo_append_list, ← Multiset.coe_add]
        congr 1
        by_cases hsame : call.peer = part
        · simp [keysSentTo, hsame]
        · simp [keysSentTo, hsame]
      rw [hsplit]
      by_cases hsame : call.peer = part
      · have hindex : part = ⟨call.peer, hpeer⟩ := Fin.ext hsame.symm
        rw [if_pos hindex, if_pos hsame]
        rfl
      · have hindex : part ≠ ⟨call.peer, hpeer⟩ := fun hequal ↦
          hsame (congrArg Fin.val hequal).symm
        rw [if_neg hindex, if_neg hsame]
        rfl
    · cases hgiven
    · cases hrequest
      exact hinvariant.addressed _ hmem

/-- In every run of workers that accept the pivots, no key is lost between them. -/
theorem clusterInvariant_of_run {actions : List (ClusterAction size)}
    (haccepted : ∀ index, acceptsPivots size (keys index) pivots = some true)
    (hrun : (clusterSystem keys pivots).Run actions cluster) :
    ClusterInvariant keys pivots cluster :=
  TransitionSystem.RunWhen.invariant clusterInvariant_start
    (fun _ _ _ _ hstep hinvariant ↦ hinvariant.step haccepted hstep) hrun

end Network

end MuduoProtorpc.WordFreq
