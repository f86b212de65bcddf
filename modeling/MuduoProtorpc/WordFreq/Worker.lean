import Mathlib.Data.List.Sort
import MuduoProtorpc.WordFreq.BufferPool

/-!
# A wordfreq worker

`Impl` of `examples/wordfreq/wordfreq.cc`: `ShuffleKey`, which refuses a request or starts the
thread that shuffles, `ShardKey`, which receives keys, and `SortKey`. The event loop runs these and
`doneShardKey` one after the other; the steps of the thread come in between.

Each call of a `done` callback of `ShuffleKey` is recorded in `replies`, with the request that it is
for: `RpcChannel::doneCallback` sends a RESPONSE to the caller every time it is called. At its end
the thread calls `done` twice.
-/

set_option autoImplicit false
set_option relaxedAutoImplicit false

namespace MuduoProtorpc.WordFreq

open Foundation

/-! ### The state of a worker -/

/-- `ShuffleKeyResponse`; the time that passed is in microseconds. -/
structure ShuffleKeyResponse where
  error : Option String := none
  elapsed : Option ℕ := none
  deriving DecidableEq, Repr

/-- `SortKeyResponse`. -/
structure SortKeyResponse where
  partition : ℤ
  count : ℕ
  minKey : Option ℤ
  maxKey : Option ℤ
  deriving DecidableEq, Repr

/-- The thread of `Impl::shuffle`: the request it is for, what it was given, and how far it is. -/
structure ShuffleThread where
  request : ℕ
  input : ShuffleInput
  shuffle : Shuffle

/-- A worker. `requests` counts the `ShuffleKey` requests that were handled, `calls` are the
`ShardKey` requests that were, and `aborted` is set when an assertion has failed. -/
structure Worker where
  peers : ℕ
  keys : List ℤ
  shuffling : Bool := false
  thread : Option ShuffleThread := none
  requests : ℕ := 0
  replies : List (ℕ × ShuffleKeyResponse) := []
  partition : ℤ := -1
  partitionKeys : List ℤ := []
  aborted : Option String := none

/-! ### What a worker does -/

/-- `ShuffleKey`. Its thread starts with an empty queue `freeShards_`, since it is the first. -/
def shuffleKey (worker : Worker) (pivots : List ℤ) : Worker :=
  match acceptsPivots worker.peers worker.keys pivots with
  | none => { worker with aborted := some "index >= 0" }
  | some accepted =>
    if accepted = true ∧ worker.shuffling = false then
      let input : ShuffleInput := { pivots := pivots, keys := worker.keys }
      { worker with
        shuffling := true
        thread := some { request := worker.requests, input := input, shuffle := .initial input }
        requests := worker.requests + 1 }
    else
      let error := if worker.shuffling then "Shuffling" else "Invalid pivots."
      { worker with
        requests := worker.requests + 1
        replies := worker.replies ++ [(worker.requests, { error := some error })] }

/-- A step of the thread. When the shuffle has replied, it has called `done` with the time that
passed, and again with the default instance. -/
def threadStep (worker : Worker) (elapsed : ℕ) : Option Worker :=
  match worker.thread with
  | none => none
  | some thread =>
    match shuffleStep thread.input thread.shuffle with
    | none => none
    | some next =>
      let done := if next.phase = .replied then
        [(thread.request, { elapsed := some elapsed }), (thread.request, {})] else []
      some { worker with
        thread := some { thread with shuffle := next }
        replies := worker.replies ++ done }

/-- `doneShardKey`. -/
def completeShardKey (worker : Worker) (shardReq : ℕ) : Option Worker :=
  match worker.thread with
  | none => none
  | some thread =>
    match doneShardKey thread.shuffle shardReq with
    | none => none
    | some next => some { worker with thread := some { thread with shuffle := next } }

/-- `ShardKey`, up to its call of `done`. The partition of the request is an `int32`, 0 where it is
not set. -/
def shardKey (worker : Worker) (request : ShardKeyRequest) : Worker :=
  let partition : ℤ := request.partition.getD 0
  if worker.partition = -1 then
    if worker.partitionKeys = [] then
      { worker with
        partition := partition
        partitionKeys := request.keys }
    else { worker with aborted := some "partitionKeys_.empty()" }
  else
    -- another partition is logged as an error, and the keys are kept all the same
    { worker with partitionKeys := worker.partitionKeys ++ request.keys }

/-- `SortKey`. -/
def sortKey (worker : Worker) : Worker × SortKeyResponse :=
  let sorted := worker.partitionKeys.mergeSort fun first second ↦ decide (first ≤ second)
  ({ worker with partitionKeys := sorted }, {
    partition := worker.partition
    count := sorted.length
    minKey := sorted.head?
    maxKey := sorted.getLast? })

/-- What can happen next on a worker. -/
inductive WorkerAction
  | shuffleKey (pivots : List ℤ)
  | thread (elapsed : ℕ)
  | complete (shardReq : ℕ)
  | shardKey (request : ShardKeyRequest)
  deriving DecidableEq, Repr

/-- One step of a worker. -/
def workerStep (worker : Worker) (action : WorkerAction) : Option Worker :=
  if worker.aborted.isSome then none
  else
    match action with
    | .shuffleKey pivots => some (shuffleKey worker pivots)
    | .thread elapsed => threadStep worker elapsed
    | .complete shardReq => completeShardKey worker shardReq
    | .shardKey request => some (shardKey worker request)

/-- A worker with these keys and so many peers. Its calls complete in any order. -/
def workerSystem (peers : ℕ) (keys : List ℤ) : TransitionSystem Worker WorkerAction where
  start := { peers := peers, keys := keys }
  step := workerStep

/-! ### What a worker does -/

/-- The steps of a worker. -/
inductive WorkerMoved (worker : Worker) : WorkerAction → Worker → Prop
  | accept {pivots : List ℤ} : worker.shuffling = false →
      acceptsPivots worker.peers worker.keys pivots = some true →
        WorkerMoved worker (.shuffleKey pivots) { worker with
          shuffling := true
          thread := some {
            request := worker.requests
            input := { pivots := pivots, keys := worker.keys }
            shuffle := .initial { pivots := pivots, keys := worker.keys } }
          requests := worker.requests + 1 }
  | refuse {pivots : List ℤ} {error : String} :
      (acceptsPivots worker.peers worker.keys pivots = some true → worker.shuffling = true) →
        WorkerMoved worker (.shuffleKey pivots) { worker with
          requests := worker.requests + 1
          replies := worker.replies ++ [(worker.requests, { error := some error })] }
  | run {elapsed : ℕ} {thread : ShuffleThread} {shuffle : Shuffle} :
      worker.thread = some thread → shuffleStep thread.input thread.shuffle = some shuffle →
        shuffle.phase ≠ .replied → WorkerMoved worker (.thread elapsed)
          { worker with thread := some { thread with shuffle := shuffle } }
  | reply {elapsed : ℕ} {thread : ShuffleThread} {shuffle : Shuffle} :
      worker.thread = some thread → shuffleStep thread.input thread.shuffle = some shuffle →
        shuffle.phase = .replied → WorkerMoved worker (.thread elapsed) { worker with
          thread := some { thread with shuffle := shuffle }
          replies := worker.replies ++
            [(thread.request, { elapsed := some elapsed }), (thread.request, {})] }
  | complete {shardReq : ℕ} {thread : ShuffleThread} {shuffle : Shuffle} :
      worker.thread = some thread → doneShardKey thread.shuffle shardReq = some shuffle →
        WorkerMoved worker (.complete shardReq)
          { worker with thread := some { thread with shuffle := shuffle } }
  | receive {request : ShardKeyRequest} :
      WorkerMoved worker (.shardKey request) { worker with
        partition := if worker.partition = -1 then request.partition.getD 0 else worker.partition
        partitionKeys := worker.partitionKeys ++ request.keys }
  | unaddressed {pivots : List ℤ} : acceptsPivots worker.peers worker.keys pivots = none →
      WorkerMoved worker (.shuffleKey pivots) { worker with aborted := some "index >= 0" }
  | occupied {request : ShardKeyRequest} : worker.partition = -1 → worker.partitionKeys ≠ [] →
      WorkerMoved worker (.shardKey request)
        { worker with aborted := some "partitionKeys_.empty()" }

section Steps

variable {worker next : Worker} {action : WorkerAction}

theorem threadStep_cases {elapsed : ℕ} (hstep : threadStep worker elapsed = some next) :
    WorkerMoved worker (.thread elapsed) next := by
  unfold threadStep at hstep
  split at hstep
  · cases hstep
  · rename_i thread hthread
    split at hstep
    · cases hstep
    · rename_i shuffle hshuffle
      obtain rfl := Option.some.inj hstep
      by_cases hreplied : shuffle.phase = .replied
      · rw [if_pos hreplied]
        exact .reply hthread hshuffle hreplied
      · rw [if_neg hreplied, List.append_nil]
        exact .run hthread hshuffle hreplied

/-- Every step of a worker is one of these. -/
theorem workerStep_cases (hstep : workerStep worker action = some next) :
    WorkerMoved worker action next := by
  unfold workerStep at hstep
  split_ifs at hstep
  cases action with
  | shuffleKey pivots =>
    obtain rfl := Option.some.inj hstep
    unfold shuffleKey
    split
    · rename_i haccepted
      exact .unaddressed haccepted
    · rename_i accepted haccepted
      by_cases hcondition : accepted = true ∧ worker.shuffling = false
      · rw [if_pos hcondition]
        obtain ⟨rfl, hshuffling⟩ := hcondition
        exact .accept hshuffling haccepted
      · rw [if_neg hcondition]
        refine .refuse fun haccepting ↦ ?_
        rw [haccepting] at haccepted
        obtain rfl := Option.some.inj haccepted
        simpa using hcondition
  | thread elapsed => exact threadStep_cases hstep
  | complete shardReq =>
    simp only [completeShardKey] at hstep
    split at hstep
    · cases hstep
    · rename_i thread hthread
      split at hstep
      · cases hstep
      · rename_i shuffle hshuffle
        obtain rfl := Option.some.inj hstep
        exact .complete hthread hshuffle
  | shardKey request =>
    obtain rfl := Option.some.inj hstep
    unfold shardKey
    dsimp only
    split_ifs with hpartition hempty
    · have hmoved : WorkerMoved worker (.shardKey request) _ := .receive
      rwa [if_pos hpartition, hempty, List.nil_append] at hmoved
    · exact .occupied hpartition hempty
    · have hmoved : WorkerMoved worker (.shardKey request) _ := .receive
      rwa [if_neg hpartition] at hmoved

end Steps

end MuduoProtorpc.WordFreq
