import MuduoProtorpc.Foundation.FanOut
import MuduoProtorpc.NQueens.BackTracking

/-!
# The clients of the nqueens example

`run` of `examples/nqueens/client.cc` and `mapper` and `reducer` of
`examples/nqueens/go/nqueens-client/client.go`. Both send all their requests at once. The responses
arrive in any order: at the callback of the C++ client, and at the channel from which the Go client
collects its shards.
-/

set_option autoImplicit false
set_option relaxedAutoImplicit false

namespace MuduoProtorpc.NQueens

open Foundation

/-! ### The C++ client -/

/-- `g_got`, `g_total`, and the totals that were logged. -/
@[ext]
structure Client where
  g_got : ℕ := 0
  g_total : ℕ := 0
  logged : List ℕ := []
  deriving DecidableEq, Repr

/-- The requests of `run`, by their column. -/
def requests (N : ℕ) : List ℕ :=
  List.range ((N + 1) / 2)

/-- The callback for the response to a column. There is none if the server has aborted. -/
def onResponse (N : ℕ) (client : Client) (col : ℕ) : Option Client :=
  match backtrackingsub N col (-1) with
  | none => none
  | some count =>
    let total :=
      if N % 2 = 1 ∧ col = N / 2 then client.g_total + count else client.g_total + 2 * count
    let got := client.g_got + 1
    some {
      g_got := got
      g_total := total
      logged := if got = (N + 1) / 2 then client.logged ++ [total] else client.logged }

/-- `run`, and the responses to its requests. -/
def clientSystem (N : ℕ) : TransitionSystem (FanOut ℕ Client) ℕ :=
  fanOutSystem (requests N) {} (onResponse N)

/-! ### The Go client -/

/-- `threshold`. -/
def threshold : ℕ :=
  14

/-- `Shard`. -/
structure Shard where
  first_row : ℕ
  second_row : ℤ
  count : ℤ
  deriving DecidableEq, Repr

/-- `solve`, which returns -1 if the call fails. -/
def solve (N first_row : ℕ) (second_row : Option ℕ) : ℤ :=
  match backtrackingsub N first_row (second_row.elim (-1) fun row ↦ row) with
  | some count => count
  | none => -1

/-- The calls of `mapper`: their first row, and their second row where there is one. -/
def calls (N : ℕ) : List (ℕ × Option ℕ) :=
  (List.range ((N + 1) / 2)).flatMap fun i ↦
    if N ≤ threshold then [(i, none)]
    else (List.range N).map fun j ↦ (i, some j)

/-- The shard of a call, as it comes out of the channel. -/
def shardOf (N : ℕ) (call : ℕ × Option ℕ) : Shard where
  first_row := call.1
  second_row := call.2.elim (-1) fun row ↦ row
  count := solve N call.1 call.2

/-- `mapper`, whose result are the shards in the order of their arrival. -/
def mapperSystem (N : ℕ) : TransitionSystem (FanOut (ℕ × Option ℕ) (List Shard)) ℕ :=
  fanOutSystem (calls N) [] fun result call ↦ some (result ++ [shardOf N call])

/-- The map `results` of `reducer`, in which a row that is not there counts as 0. -/
def results (shards : List Shard) : ℕ → ℤ :=
  shards.foldl (fun results shard ↦
    Function.update results shard.first_row (results shard.first_row + shard.count)) fun _ ↦ 0

/-- `reducer`. -/
def reducer (N : ℕ) (shards : List Shard) : ℤ :=
  (List.range ((N + 1) / 2)).foldl (fun total i ↦
    if N % 2 = 1 ∧ i = N / 2 then total + results shards i
    else total + 2 * results shards i) 0

end MuduoProtorpc.NQueens
