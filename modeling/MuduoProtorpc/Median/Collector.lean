import MuduoProtorpc.Foundation.TransitionSystem

/-!
# The collector and the sorters of the median example

`getKth` of `examples/median/kth.h`, `SorterImpl` of `examples/median/sorter.cc` and
`Collector::run` of `examples/median/collector.cc`. The collector sends a request to every sorter
and waits on a latch; the replies arrive in any order, each handled by a callback that adds it to
what is known. When the last has arrived the thread of `run` goes on.

Numbers are `int64` and wrap around, as the code relies on where it takes the distance of two of
them.
-/

set_option autoImplicit false
set_option relaxedAutoImplicit false

namespace MuduoProtorpc.Median

open Foundation

/-! ### The search for the k-th value -/

/-- The variables of the loop of `getKth`. -/
structure KthLoop where
  steps : ℕ
  guess : Int64
  min : Int64
  max : Int64
  deriving DecidableEq

/-- How a round of the loop ends: with another round, with the result of `getKth`, or with a failed
assertion. -/
inductive KthOutcome
  | next (loop : KthLoop)
  | result (guess : Int64) (succeed : Bool)
  | aborted (assertion : String)
  deriving DecidableEq

/-- The value in the middle: `min + static_cast<uint64_t>(max - min)/2`. -/
def middle (min max : Int64) : Int64 :=
  min + ((max - min).toUInt64 / 2).toInt64

/-- The next guess between these bounds, and the condition of the loop. -/
def nextGuess (steps : ℕ) (min max : Int64) : KthOutcome :=
  let guess := middle min max
  if ¬ (min ≤ guess ∧ guess ≤ max) then .aborted "min <= guess && guess <= max"
  else if min ≤ max then .next { steps := steps, guess := guess, min := min, max := max }
  else .result guess false

/-- The loop of `getKth` before its first round. -/
def startKth (min max : Int64) : KthOutcome :=
  if min ≤ max then .next { steps := 0, guess := max, min := min, max := max }
  else .result max false

/-- A round of the loop of `getKth`, when `search` has returned. -/
def kthStep (k smaller same : Int64) (loop : KthLoop) : KthOutcome :=
  let steps := loop.steps + 1
  if steps > 100 then .result loop.guess false
  else if smaller < k ∧ smaller + same ≥ k then .result loop.guess true
  else if smaller + same < k then nextGuess steps (loop.guess + 1) loop.max
  else if smaller ≥ k then nextGuess steps loop.min loop.guess
  else .result loop.guess false

/-! ### The sorters -/

/-- A sorter, whose data are sorted. -/
structure Sorter where
  data : List Int64
  sorted : data.Pairwise (· ≤ ·)

/-- `QueryResponse`. -/
structure QueryResponse where
  count : Int64 := 0
  min : Option Int64 := none
  max : Option Int64 := none
  sum : Option Int64 := none
  deriving DecidableEq

/-- `SearchResponse`. -/
structure SearchResponse where
  smaller : Int64 := 0
  same : Int64 := 0
  deriving DecidableEq

/-- `SorterImpl::Query`. -/
def query (sorter : Sorter) : QueryResponse :=
  let response : QueryResponse := { count := Int64.ofNat sorter.data.length }
  if 0 < sorter.data.length then
    { response with
      min := sorter.data.head?
      max := sorter.data.getLast?
      sum := some (sorter.data.foldl (· + ·) 0) }
  else response

/-- `std::lower_bound(data_.begin(), data_.end(), guess) - data_.begin()`. -/
def lowerBound (data : List Int64) (guess : Int64) : ℕ :=
  data.findIdx fun value ↦ !decide (value < guess)

/-- `std::upper_bound(data_.begin(), data_.end(), guess) - data_.begin()`. -/
def upperBound (data : List Int64) (guess : Int64) : ℕ :=
  data.findIdx fun value ↦ decide (guess < value)

/-- `SorterImpl::Search`. -/
def search (sorter : Sorter) (guess : Int64) : SearchResponse where
  smaller := Int64.ofNat (lowerBound sorter.data guess)
  same := Int64.ofNat (upperBound sorter.data guess) - Int64.ofNat (lowerBound sorter.data guess)

/-! ### The collector -/

/-- What the collector reports at its end. -/
inductive Report
  | noMedian
  | median (value : Int64)
  | notFound
  | aborted (assertion : String)
  deriving DecidableEq

/-- What the collector waits for: the replies to `Query`, those to `Search` in a round of `getKth`,
or nothing. -/
inductive CollectorPhase
  | querying (stats : QueryResponse)
  | searching (k : Int64) (loop : KthLoop) (counts : SearchResponse)
  | reported (report : Report)

/-- The collector. The latch counts the sorters that are `pending`. -/
structure Collector where
  phase : CollectorPhase
  pending : List Sorter

/-- The callback of `Query`. -/
def addStats (result response : QueryResponse) : QueryResponse :=
  let sums : QueryResponse := { result with
    count := result.count + response.count
    sum := some (result.sum.getD 0 + response.sum.getD 0) }
  if response.count > 0 then
    let least := if response.min.getD 0 < result.min.getD 0 then response.min else result.min
    let greatest := if response.max.getD 0 > result.max.getD 0 then response.max else result.max
    { sums with min := least, max := greatest }
  else sums

/-- The callback of `Search`. -/
def addCounts (result response : SearchResponse) : SearchResponse where
  smaller := result.smaller + response.smaller
  same := result.same + response.same

/-- The reply of a sorter is handled, before the latch counts down. -/
def CollectorPhase.addReply (phase : CollectorPhase) (sorter : Sorter) : CollectorPhase :=
  match phase with
  | .querying stats => .querying (addStats stats (query sorter))
  | .searching k loop counts => .searching k loop (addCounts counts (search sorter loop.guess))
  | .reported report => .reported report

/-- What `run` does when a round of `getKth` has ended. -/
def Collector.afterRound (sorters : List Sorter) (k : Int64) (outcome : KthOutcome) : Collector :=
  match outcome with
  | .next loop => { phase := .searching k loop {}, pending := sorters }
  | .result guess succeed =>
    { phase := .reported (if succeed then .median guess else .notFound), pending := [] }
  | .aborted assertion => { phase := .reported (.aborted assertion), pending := [] }

/-- What `run` does when its latch has counted down. -/
def Collector.wake (sorters : List Sorter) (collector : Collector) : Option Collector :=
  match collector.phase with
  | .querying stats =>
    if stats.count ≤ 0 then some { phase := .reported .noMedian, pending := [] }
    else
      let k := (stats.count + 1) / 2
      some (.afterRound sorters k (startKth (stats.min.getD 0) (stats.max.getD 0)))
  | .searching k loop counts =>
    some (.afterRound sorters k (kthStep k counts.smaller counts.same loop))
  | .reported _ => none

/-- What can happen next: one of the pending replies arrives, or the thread of `run` goes on. -/
inductive CollectorAction
  | reply (position : ℕ)
  | wake
  deriving DecidableEq

/-- One step of the collector. -/
def collectorStep (sorters : List Sorter) (collector : Collector) (action : CollectorAction) :
    Option Collector :=
  match action with
  | .reply position =>
    match collector.pending[position]? with
    | none => none
    | some sorter => some {
        phase := collector.phase.addReply sorter
        pending := collector.pending.eraseIdx position }
  | .wake => if collector.pending.isEmpty then collector.wake sorters else none

/-- `Collector::run`, with the replies in any order. -/
def collectorSystem (sorters : List Sorter) : TransitionSystem Collector CollectorAction where
  start := {
    phase := .querying { min := some Int64.maxValue, max := some Int64.minValue }
    pending := sorters }
  step := collectorStep sorters

end MuduoProtorpc.Median
