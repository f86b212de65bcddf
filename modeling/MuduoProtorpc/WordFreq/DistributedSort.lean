import Mathlib.Algebra.BigOperators.Fin
import Mathlib.Algebra.BigOperators.Group.Finset.Piecewise
import Mathlib.Data.List.OfFn
import MuduoProtorpc.Foundation.OrderStatistics
import MuduoProtorpc.WordFreq.Deliveries

/-!
# The distributed sort of wordfreq

When every worker has sent all its keys and all calls are delivered, the keys that a worker has
received are the keys of all workers between its two pivots (`SortCorrect.received`), and the sorted
partitions make up the sorted list of all keys, one after the other (`SortCorrect.sorted` and
`SortCorrect.permutation`).
-/

set_option autoImplicit false
set_option relaxedAutoImplicit false

namespace MuduoProtorpc.WordFreq

open Foundation

/-! ### What is to be shown -/

/-- No assertion of a worker has failed, neither in its event loop nor in its thread. -/
def Worker.Running (worker : Worker) : Prop :=
  worker.aborted = none ∧ ∀ thread, worker.thread = some thread →
    ∀ assertion, thread.shuffle.phase ≠ .aborted assertion

/-- The shuffle has behind it the two loops that send. -/
def Worker.SentAll (worker : Worker) : Prop :=
  ∃ thread, worker.thread = some thread ∧
    (thread.shuffle.phase = .replied ∨ ∃ taken, thread.shuffle.phase = .draining taken)

/-- Every worker has sent its keys, and all that was sent is delivered. -/
def Cluster.AllDelivered {size : ℕ} (cluster : Cluster size) : Prop :=
  (∀ index, (cluster.workers index).SentAll) ∧ cluster.calls = []

/-- All is delivered where the threads have only responses left to wait for. -/
theorem allDelivered_of_draining {size : ℕ} {cluster : Cluster size}
    (hdraining : ∀ index, (cluster.workers index).thread.map (·.shuffle.phase) =
      some (.draining 0)) (hcalls : cluster.calls = []) : cluster.AllDelivered := by
  refine ⟨fun index ↦ ?_, hcalls⟩
  obtain ⟨thread, hthread, hphase⟩ := Option.map_eq_some_iff.mp (hdraining index)
  exact ⟨thread, hthread, Or.inr ⟨0, hphase⟩⟩

/-- The partitions after `SortKey`, in the order of the workers, one after the other. -/
def Cluster.sortedKeys {size : ℕ} (cluster : Cluster size) : List ℤ :=
  (List.ofFn fun part ↦ (sortKey (cluster.workers part)).1.partitionKeys).flatten

open Classical in
/-- The partitions hold what they should, and are sorted together. -/
structure SortCorrect {size : ℕ} (keys : Fin size → List ℤ) (pivots : List ℤ)
    (cluster : Cluster size) : Prop where
  received : ∀ part : Fin size, ((cluster.workers part).partitionKeys : Multiset ℤ) =
    (∑ index, (keys index : Multiset ℤ)).filter (InPart pivots part)
  sorted : cluster.sortedKeys.Pairwise (· ≤ ·)
  permutation : cluster.sortedKeys.Perm (List.ofFn keys).flatten

/-! ### What the workers have received -/

section Received

variable {size : ℕ} {keys : Fin size → List ℤ} {pivots : List ℤ} {cluster : Cluster size}
  {actions : List (ClusterAction size)}

/-- No assertion fails, whatever the order of the steps. -/
theorem ClusterInvariant.running (hinvariant : ClusterInvariant keys pivots cluster)
    (haccepted : ∀ index, acceptsPivots size (keys index) pivots = some true)
    (index : Fin size) : (cluster.workers index).Running :=
  ⟨(hinvariant.workers index).running, fun _ hthread ↦
    ((hinvariant.workers index).keyInvariant (haccepted index) hthread).running⟩

/-- A worker that has received a key has its own number as its partition. -/
theorem ClusterInvariant.own_partition (hinvariant : ClusterInvariant keys pivots cluster)
    (part : Fin size) (hreceived : (cluster.workers part).partitionKeys ≠ []) :
    (cluster.workers part).partition = (part : ℕ) := by
  rcases hinvariant.partition part with hunassigned | hassigned
  · exact absurd ((hinvariant.workers part).unassigned hunassigned) hreceived
  · exact hassigned

/-- What a worker has sent to a peer in the end are its keys of this part. -/
theorem LocalInvariant.sent_eq {worker : Worker} {own : List ℤ}
    (hlocal : LocalInvariant size own pivots worker)
    (haccepted : acceptsPivots size own pivots = some true) (hsent : worker.SentAll)
    (part : Fin size) : keysSentTo worker.sent part = keysOfPart pivots part own := by
  obtain ⟨thread, hthread, hphase⟩ := hsent
  obtain ⟨-, hlength, -⟩ := keysPlaced_of_accepted haccepted
  have hpart := (hlocal.keyInvariant haccepted hthread).parts part (hlength ▸ part.isLt)
  have hflushed : FlushedPart { pivots := pivots, keys := own } thread.shuffle part := by
    rcases hphase with hreplied | ⟨taken, hdraining⟩
    · simpa only [PartInvariant, hreplied] using hpart
    · simpa only [PartInvariant, hdraining] using hpart
  simp only [Worker.sent, hthread]
  exact hflushed.keys.symm

/-- The keys of a part, of all workers together. -/
theorem count_received (hinvariant : ClusterInvariant keys pivots cluster)
    (haccepted : ∀ index, acceptsPivots size (keys index) pivots = some true)
    (hdelivered : cluster.AllDelivered) (part : Fin size) (key : ℤ) :
    (cluster.workers part).partitionKeys.count key =
      if lowerBound pivots key = part then ∑ index, (keys index).count key else 0 := by
  obtain ⟨hsent, hcalls⟩ := hdelivered
  have hkeys := hinvariant.delivered part
  rw [Cluster.onTheWay, hcalls] at hkeys
  have hcount := congrArg (Multiset.count key) hkeys
  have hnone : keysSentTo (([] : List (Fin size × ShardKeyCall)).map Prod.snd) part = [] := rfl
  rw [hnone, Multiset.coe_nil, add_zero, Multiset.coe_count, Multiset.count_sum'] at hcount
  have hindex : ∀ index, (keysSentTo (cluster.workers index).sent part : Multiset ℤ).count key =
      (keysOfPart pivots part (keys index)).count key := by
    intro index
    rw [(hinvariant.workers index).sent_eq (haccepted index) (hsent index) part,
      Multiset.coe_count]
  rw [hcount, Finset.sum_congr rfl fun index _ ↦ hindex index]
  by_cases hpart : lowerBound pivots key = part
  · rw [if_pos hpart]
    refine Finset.sum_congr rfl fun index _ ↦ ?_
    exact List.count_filter (by simpa using hpart)
  · rw [if_neg hpart]
    refine Finset.sum_eq_zero fun index _ ↦ List.count_eq_zero.mpr fun hmem ↦ ?_
    exact hpart (by simpa [keysOfPart] using (List.mem_filter.mp hmem).2)

/-- A key that a worker has received belongs to its part. -/
theorem lowerBound_of_received (hinvariant : ClusterInvariant keys pivots cluster)
    (haccepted : ∀ index, acceptsPivots size (keys index) pivots = some true)
    (hdelivered : cluster.AllDelivered) {part : Fin size} {key : ℤ}
    (hkey : key ∈ (cluster.workers part).partitionKeys) : lowerBound pivots key = part := by
  by_contra hother
  have hcount := count_received hinvariant haccepted hdelivered part key
  rw [if_neg hother, List.count_eq_zero] at hcount
  exact hcount hkey

open Classical in
/-- A worker has received the keys of all workers between its two pivots. -/
theorem received_eq (hinvariant : ClusterInvariant keys pivots cluster)
    (haccepted : ∀ index, acceptsPivots size (keys index) pivots = some true)
    (hdelivered : cluster.AllDelivered) (part : Fin size) :
    ((cluster.workers part).partitionKeys : Multiset ℤ) =
      (∑ index, (keys index : Multiset ℤ)).filter (InPart pivots part) := by
  obtain ⟨-, hlength, -⟩ := keysPlaced_of_accepted (haccepted part)
  have hpart : (part : ℕ) < pivots.length := by rw [hlength]; exact part.isLt
  have hpivots := pairwise_of_accepted (haccepted part)
  ext key
  rw [Multiset.coe_count, count_received hinvariant haccepted hdelivered part key,
    Multiset.count_filter, Multiset.count_sum']
  simp only [lowerBound_eq_iff hpivots hpart, Multiset.coe_count]

/-! ### The sorted partitions, one after the other -/

theorem sortKey_perm (worker : Worker) :
    (sortKey worker).1.partitionKeys.Perm worker.partitionKeys :=
  List.mergeSort_perm _ _

theorem pairwise_sortKey (worker : Worker) :
    (sortKey worker).1.partitionKeys.Pairwise (· ≤ ·) :=
  pairwise_mergeSort worker.partitionKeys

/-- The sorted partitions are in order, for the keys of a part are below those of a later one. -/
theorem pairwise_sortedKeys (hinvariant : ClusterInvariant keys pivots cluster)
    (haccepted : ∀ index, acceptsPivots size (keys index) pivots = some true)
    (hdelivered : cluster.AllDelivered) : cluster.sortedKeys.Pairwise (· ≤ ·) := by
  refine List.pairwise_flatten.mpr ⟨fun partition hpartition ↦ ?_, ?_⟩
  · obtain ⟨part, rfl⟩ := (List.mem_ofFn' _ _).mp hpartition
    exact pairwise_sortKey _
  · refine List.pairwise_ofFn.mpr fun part later hless first hfirst second hsecond ↦ ?_
    have hpart := lowerBound_of_received hinvariant haccepted hdelivered
      ((sortKey_perm _).mem_iff.mp hfirst)
    have hlater := lowerBound_of_received hinvariant haccepted hdelivered
      ((sortKey_perm _).mem_iff.mp hsecond)
    by_contra hgreater
    have hmono := lowerBound_mono pivots (le_of_lt (not_le.mp hgreater))
    rw [hpart, hlater] at hmono
    exact absurd hless (not_lt.mpr hmono)

/-- The number of times that a key is in lists, one after the other. -/
theorem count_flatten_ofFn (lists : Fin size → List ℤ) (key : ℤ) :
    (List.ofFn lists).flatten.count key = ∑ index, (lists index).count key := by
  rw [List.count_flatten, List.map_ofFn, List.sum_ofFn]
  rfl

/-- The sorted partitions hold every key as often as the workers had it. -/
theorem sortedKeys_perm (hinvariant : ClusterInvariant keys pivots cluster)
    (haccepted : ∀ index, acceptsPivots size (keys index) pivots = some true)
    (hdelivered : cluster.AllDelivered) :
    cluster.sortedKeys.Perm (List.ofFn keys).flatten := by
  refine List.perm_iff_count.mpr fun key ↦ ?_
  have hparts : ∀ part : Fin size, ((sortKey (cluster.workers part)).1.partitionKeys).count key =
      if lowerBound pivots key = part then ∑ index, (keys index).count key else 0 := by
    intro part
    rw [(sortKey_perm _).count_eq, count_received hinvariant haccepted hdelivered part key]
  rw [Cluster.sortedKeys, count_flatten_ofFn, count_flatten_ofFn,
    Finset.sum_congr rfl fun part _ ↦ hparts part]
  by_cases hkey : ∃ index, key ∈ keys index
  · obtain ⟨index, hmem⟩ := hkey
    obtain ⟨-, hlength, hplaced⟩ := keysPlaced_of_accepted (haccepted index)
    have hpart : lowerBound pivots key < size := hlength ▸ hplaced key hmem
    have hsame : ∀ part : Fin size, lowerBound pivots key = part ↔
        part = ⟨lowerBound pivots key, hpart⟩ := fun part ↦ by
      rw [Fin.ext_iff]
      exact eq_comm
    simp only [hsame, Finset.sum_ite_eq', Finset.mem_univ, if_true]
  · have hnone : ∑ index, (keys index).count key = 0 :=
      Finset.sum_eq_zero fun index _ ↦ List.count_eq_zero.mpr fun hmem ↦ hkey ⟨index, hmem⟩
    rw [hnone]
    simp

/-- In every run of workers that accept the pivots no assertion fails, a worker that has received a
key has its own number as its partition, and once all is delivered the keys are sorted. -/
theorem distributedSort {actions : List (ClusterAction size)}
    (haccepted : ∀ index, acceptsPivots size (keys index) pivots = some true)
    (hrun : (clusterSystem keys pivots).Run actions cluster) :
    (∀ index, (cluster.workers index).Running) ∧
      (∀ part, (cluster.workers part).partitionKeys ≠ [] →
        (cluster.workers part).partition = (part : ℕ)) ∧
      (cluster.AllDelivered → SortCorrect keys pivots cluster) := by
  have hinvariant := clusterInvariant_of_run haccepted hrun
  refine ⟨hinvariant.running haccepted, hinvariant.own_partition, fun hdelivered ↦ ?_⟩
  exact {
    received := received_eq hinvariant haccepted hdelivered
    sorted := pairwise_sortedKeys hinvariant haccepted hdelivered
    permutation := sortedKeys_perm hinvariant haccepted hdelivered }

/-- The keys of two workers. -/
def twoKeys : Fin 2 → List ℤ :=
  fun index ↦ if index = 0 then [3] else [7, 2]

/-- Both workers shuffle, and all three calls are delivered. -/
def twoShuffles : List (ClusterAction 2) :=
  .shuffleKey 0 :: .shuffleKey 1 :: (List.replicate 5 (.thread 0 0) ++
    List.replicate 6 (.thread 1 0) ++ List.replicate 3 (.deliver 0))

theorem distributedSort_twoWorkers : ∃ cluster,
    (clusterSystem twoKeys [5, 9]).Run twoShuffles cluster ∧ cluster.AllDelivered ∧
      SortCorrect twoKeys [5, 9] cluster := by
  let phases : Cluster 2 → List (Option ShufflePhase) := fun cluster ↦
    List.ofFn fun index ↦ (cluster.workers index).thread.map (·.shuffle.phase)
  have hexecutes : ((clusterSystem twoKeys [5, 9]).execute (clusterSystem twoKeys [5, 9]).start
      twoShuffles).map (fun cluster ↦ (phases cluster, cluster.calls)) =
        some ([some (.draining 0), some (.draining 0)], []) := by
    decide +kernel
  obtain ⟨cluster, hexecute, hlast⟩ := Option.map_eq_some_iff.mp hexecutes
  obtain ⟨hphases, hcalls⟩ := Prod.mk.inj hlast
  have hsent : ∀ index, (cluster.workers index).thread.map (·.shuffle.phase) =
      some (.draining 0) := by
    simp only [phases, List.ofFn_succ, List.ofFn_zero, List.cons.injEq] at hphases
    exact Fin.forall_fin_two.mpr ⟨hphases.1, hphases.2.1⟩
  have hdelivered := allDelivered_of_draining hsent hcalls
  have haccepted : ∀ index, acceptsPivots 2 (twoKeys index) [5, 9] = some true := by decide
  have hrun := TransitionSystem.Run.of_execute hexecute
  obtain ⟨-, -, hcorrect⟩ := distributedSort haccepted hrun
  exact ⟨cluster, hrun, hdelivered, hcorrect hdelivered⟩

end Received

end MuduoProtorpc.WordFreq
