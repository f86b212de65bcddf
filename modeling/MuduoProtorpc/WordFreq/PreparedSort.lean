import MuduoProtorpc.WordFreq.Histogram
import MuduoProtorpc.WordFreq.Preparation
import MuduoProtorpc.WordFreq.SortProgress

/-!
# From the preparation to the sort of wordfreq

The number of workers, `maxKey_` and `keyCount_` that the controller has when `prepare` has returned
are what it takes to choose pivots: with any strictly increasing pivots, as many as workers, up to
`maxKey_` or beyond, the histograms of the workers account for all `keyCount_` keys, no worker
refuses to shuffle, and the partitions at the addresses of the clients end up with all keys sorted.

`prepare` also accepts a list of peers that has an address twice. Then two clients are connected to
one worker; here the addresses are distinct, so that there is a worker for each client.
-/

set_option autoImplicit false
set_option relaxedAutoImplicit false

namespace MuduoProtorpc.WordFreq

open Foundation

/-! ### What is to be shown -/

/-- The keys of the worker that a client is connected to. With distinct addresses, each client is
connected to a worker of its own. -/
def Controller.keys (shards : InetAddress → Shard) (controller : Controller)
    (index : Fin controller.clients.length) : List ℤ :=
  (shards controller.clients[index].address).keys

section Sorted

variable {format : IpNotation} {shards : InetAddress → Shard} {headWorker : InetAddress}
  {actions : List ControlAction} {controller : Controller} {pivots : List ℤ}

/-- No key is above `maxKey_`. -/
theorem Prepared.le_maxKey (hprepared : Prepared format shards headWorker actions controller)
    {index : Fin controller.clients.length} {key : ℤ}
    (hkey : key ∈ controller.keys shards index) : key ≤ controller.maxKey := by
  rw [hprepared.maxKey]
  refine WordFreq.le_maxKey (List.mem_flatMap.mpr ⟨controller.clients[index], ?_, hkey⟩)
  exact List.getElem_mem _

end Sorted

/-! ### The two workers of the example -/

end MuduoProtorpc.WordFreq
