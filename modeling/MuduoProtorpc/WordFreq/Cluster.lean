import MuduoProtorpc.WordFreq.Batches
import MuduoProtorpc.WordFreq.Worker

/-!
# The workers of wordfreq and the network between them

The workers of a cluster, whose lists of peers agree in order: the peer at a position is the worker
with that number. A `ShardKey` request that was sent is in `calls` until it is delivered, in any
order, and its response in `responses` until the sender handles it. Each worker gets the pivots in a
`ShuffleKey` request at any time, and once more at any time after; its thread takes its steps at any
time.
-/

set_option autoImplicit false
set_option relaxedAutoImplicit false

namespace MuduoProtorpc.WordFreq

open Foundation

/-- The workers, the `ShardKey` requests that were sent and not delivered, each with its sender, and
the responses that were sent and not handled: to whom, and for which buffer. -/
structure Cluster (size : ℕ) where
  workers : Fin size → Worker
  calls : List (Fin size × ShardKeyCall)
  responses : List (Fin size × ℕ)

/-- What can happen next in a cluster: a worker gets a `ShuffleKey` request; its thread makes a
step; the request or the response at a position is delivered. -/
inductive ClusterAction (size : ℕ)
  | shuffleKey (worker : Fin size)
  | thread (worker : Fin size) (elapsed : ℕ)
  | deliver (position : ℕ)
  | respond (position : ℕ)
  deriving DecidableEq

/-- The calls that the thread of a worker has made. -/
def Worker.sent (worker : Worker) : List ShardKeyCall :=
  match worker.thread with
  | some thread => thread.shuffle.sent
  | none => []

/-- A step of one worker; the calls that it makes go to the network. -/
def Cluster.workerStep {size : ℕ} (cluster : Cluster size) (index : Fin size)
    (action : WorkerAction) : Option (Cluster size) :=
  match WordFreq.workerStep (cluster.workers index) action with
  | none => none
  | some next =>
    let sent := next.sent.drop (cluster.workers index).sent.length
    some { cluster with
      workers := Function.update cluster.workers index next
      calls := cluster.calls ++ sent.map fun call ↦ (index, call) }

/-- One step of a cluster. -/
def clusterStep {size : ℕ} (pivots : List ℤ) (cluster : Cluster size)
    (action : ClusterAction size) : Option (Cluster size) :=
  match action with
  | .shuffleKey worker => cluster.workerStep worker (.shuffleKey pivots)
  | .thread worker elapsed => cluster.workerStep worker (.thread elapsed)
  | .deliver position =>
    match cluster.calls[position]? with
    | none => none
    | some (sender, call) =>
      if hpeer : call.peer < size then
        { cluster with
          calls := cluster.calls.eraseIdx position
          responses := cluster.responses ++ [(sender, call.shardReq)] }.workerStep
            ⟨call.peer, hpeer⟩ (.shardKey call.request)
      else none
  | .respond position =>
    match cluster.responses[position]? with
    | none => none
    | some (sender, shardReq) =>
      { cluster with responses := cluster.responses.eraseIdx position }.workerStep sender
        (.complete shardReq)

/-- The workers with their keys, none of which has got a request. -/
def clusterSystem {size : ℕ} (keys : Fin size → List ℤ) (pivots : List ℤ) :
    TransitionSystem (Cluster size) (ClusterAction size) where
  start := {
    workers := fun index ↦ { peers := size, keys := keys index }
    calls := []
    responses := [] }
  step := clusterStep pivots

end MuduoProtorpc.WordFreq
