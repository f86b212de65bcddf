import Mathlib.Data.List.Range
import Mathlib.Data.List.Count
import Mathlib.Logic.Function.Basic
import MuduoProtorpc.Foundation.TransitionSystem

/-!
# The shuffle of a wordfreq worker

`Impl::shuffle` of `examples/wordfreq/wordfreq.cc`, which runs in a thread of its own, and
`Impl::doneShardKey`, which the thread of the event loop calls when a `ShardKey` call completes.
The two share the queue `freeShards_` of request buffers.

The buffers are objects with addresses, `0` to `concurrentRequests_ - 1`, and `heap` is what they
hold. A step of the shuffle is one round of its first loop up to a call of `freeShards_.take()`,
the return of this call, one round of the second loop, or one round of the third. The steps of
`doneShardKey` may come in between, for the calls in any order.

Keys are compared and nothing else, so they are integers. A failed assertion ends the process.
-/

set_option autoImplicit false
set_option relaxedAutoImplicit false

namespace MuduoProtorpc.WordFreq

open Foundation

/-! ### The state of a shuffle -/

/-- `ShardKeyRequest`. -/
structure ShardKeyRequest where
  partition : Option ℕ := none
  keys : List ℤ := []
  deriving DecidableEq, Repr

/-- `kConcurrency`. -/
def kConcurrency : ℕ :=
  4

/-- `kBatch`. -/
def kBatch : ℕ :=
  8192

/-- A call of `RpcClient::shardKey`: the peer, the request as it is serialized, and the buffer that
`doneShardKey` gets when the call completes. -/
structure ShardKeyCall where
  peer : ℕ
  request : ShardKeyRequest
  shardReq : ℕ
  deriving DecidableEq, Repr

/-- Where the shuffle stands: in its first loop, with the keys that are left; in `take` inside this
loop, with the part that the buffer is for; in its second loop, at a part; in its third loop, with
so many buffers taken; or behind its reply. -/
inductive ShufflePhase
  | filling (rest : List ℤ)
  | taking (part : ℕ) (rest : List ℤ)
  | flushing (part : ℕ)
  | draining (taken : ℕ)
  | replied
  | aborted (assertion : String)
  deriving DecidableEq, Repr

/-- A shuffle. `inFlight` are the buffers whose calls have not completed, `deleted` those that were
deleted, and `sent` the calls made. -/
structure Shuffle where
  heap : ℕ → ShardKeyRequest
  shardRequests : ℕ → ℕ
  freeShards : List ℕ
  inFlight : List ℕ
  deleted : List ℕ
  sent : List ShardKeyCall
  phase : ShufflePhase

/-- What a shuffle is given: the pivots of its request, and the keys of its worker. There are as
many pivots as peers. -/
structure ShuffleInput where
  pivots : List ℤ
  keys : List ℤ

/-- The number of peers. -/
def ShuffleInput.peers (input : ShuffleInput) : ℕ :=
  input.pivots.length

/-- `concurrentRequests_`. -/
def ShuffleInput.concurrentRequests (input : ShuffleInput) : ℕ :=
  input.peers * kConcurrency

/-- `std::lower_bound(pivots.begin(), pivots.end(), key) - pivots.begin()`, of pivots in ascending
order. -/
def lowerBound (pivots : List ℤ) (key : ℤ) : ℕ :=
  pivots.findIdx fun pivot ↦ key ≤ pivot

/-- The shuffle when its buffers have been allocated: one for each part, the others free. -/
def Shuffle.initial (input : ShuffleInput) : Shuffle where
  heap := fun _ ↦ {}
  shardRequests := id
  freeShards := List.range' input.peers (input.concurrentRequests - input.peers)
  inFlight := []
  deleted := []
  sent := []
  phase := .filling input.keys

/-! ### The steps -/

/-- `shardReq->add_keys(key)`. -/
def Shuffle.addKey (shuffle : Shuffle) (part : ℕ) (key : ℤ) : Shuffle :=
  let shardReq := shuffle.shardRequests part
  let request := { shuffle.heap shardReq with keys := (shuffle.heap shardReq).keys ++ [key] }
  { shuffle with heap := Function.update shuffle.heap shardReq request }

/-- `shardReq->set_partition(part)` and `peers_[part].shardKey(shardReq, ..)`. -/
def Shuffle.shardKey (shuffle : Shuffle) (part : ℕ) : Shuffle :=
  let shardReq := shuffle.shardRequests part
  let request := { shuffle.heap shardReq with partition := some part }
  { shuffle with
    heap := Function.update shuffle.heap shardReq request
    inFlight := shuffle.inFlight ++ [shardReq]
    sent := shuffle.sent ++ [{ peer := part, request := request, shardReq := shardReq }] }

/-- The buffer that holds the keys of a part. -/
def Shuffle.partKeys (shuffle : Shuffle) (part : ℕ) : List ℤ :=
  (shuffle.heap (shuffle.shardRequests part)).keys

/-- The next step of `Impl::shuffle`; there is none while it waits in `freeShards_.take()`. -/
def shuffleStep (input : ShuffleInput) (shuffle : Shuffle) : Option Shuffle :=
  match shuffle.phase with
  | .filling [] => some { shuffle with phase := .flushing 0 }
  | .filling (key :: rest) =>
    let part := lowerBound input.pivots key
    if part = input.pivots.length then
      some { shuffle with phase := .aborted "it != pivots.end()" }
    else
      let added := shuffle.addKey part key
      if kBatch ≤ (added.partKeys part).length then
        some { added.shardKey part with phase := .taking part rest }
      else some { added with phase := .filling rest }
  | .taking part rest =>
    match shuffle.freeShards with
    | [] => none
    | shardReq :: free => some { shuffle with
        heap := Function.update shuffle.heap shardReq {}
        shardRequests := Function.update shuffle.shardRequests part shardReq
        freeShards := free
        phase := .filling rest }
  | .flushing part =>
    if part < input.peers then
      if 0 < (shuffle.partKeys part).length then
        some { shuffle.shardKey part with phase := .flushing (part + 1) }
      else some { shuffle with phase := .flushing (part + 1) }
    else some { shuffle with phase := .draining 0 }
  | .draining taken =>
    if taken < input.concurrentRequests then
      match shuffle.freeShards with
      | [] => none
      | shardReq :: free => some { shuffle with
          freeShards := free
          deleted := shuffle.deleted ++ [shardReq]
          phase := .draining (taken + 1) }
    else some { shuffle with phase := .replied }
  | .replied => none
  | .aborted _ => none

/-- `Impl::doneShardKey`, which is called once for each call that was sent. -/
def doneShardKey (shuffle : Shuffle) (shardReq : ℕ) : Option Shuffle :=
  if shardReq ∈ shuffle.inFlight then some { shuffle with
    inFlight := shuffle.inFlight.erase shardReq
    freeShards := shuffle.freeShards ++ [shardReq] }
  else none

/-- What can happen next: a step of the shuffle, or a call completes. -/
inductive ShuffleAction
  | thread
  | complete (shardReq : ℕ)
  deriving DecidableEq, Repr

/-- A shuffle, with its calls completing in any order. -/
def shuffleSystem (input : ShuffleInput) : TransitionSystem Shuffle ShuffleAction where
  start := .initial input
  step := fun shuffle action ↦
    match action with
    | .thread => shuffleStep input shuffle
    | .complete shardReq => doneShardKey shuffle shardReq

/-! ### What `ShuffleKey` checks -/

/-- `isSorted`: no pivot is greater than or equal to the next. -/
def isSorted : List ℤ → Bool
  | first :: second :: rest => decide (first < second) && isSorted (second :: rest)
  | _ => true

/-- `maxKey_`, as `readKeys` computes it. -/
def maxKey (keys : List ℤ) : ℤ :=
  keys.foldl (fun largest key ↦ if key > largest then key else largest) 0

/-- Whether the pivots are accepted by a worker with these keys and so many peers, as far as
`shuffling_` is not concerned. It is `none` without peers and pivots, where the code reads the pivot
at the position -1. -/
def acceptsPivots (peers : ℕ) (keys pivots : List ℤ) : Option Bool :=
  if pivots.length ≠ peers then some false
  else
    match pivots.getLast? with
    | none => none
    | some last => some (decide (maxKey keys ≤ last) && isSorted pivots)

end MuduoProtorpc.WordFreq
