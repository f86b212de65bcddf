import Mathlib.Data.List.Basic
import Mathlib.Tactic.TypeStar

/-!
# Buffered channels

A channel with a buffer, as in a language where goroutines send to, receive from and close channels
(`Channel`). Each operation can block the goroutine that tries it; sending to a closed channel and
closing a closed one panic (`Outcome`). Receiving from a closed channel that is drained is neither:
it tells the receiver that there is nothing more to come (`Reception`).

The buffer of a channel is not empty (its capacity is positive), so a send followed by a receive is
the same as a direct hand-over.
-/

set_option autoImplicit false
set_option relaxedAutoImplicit false

namespace Foundation

/-- What an operation that may block or panic does. -/
inductive Outcome (Value : Type*)
  | done (value : Value)
  | blocked
  | panic (text : String)

/-- A channel with a buffer that holds at most `capacity` values, oldest first. -/
structure Channel (Value : Type*) where
  capacity : ℕ
  queue : List Value
  closed : Bool
  bounded : queue.length ≤ capacity

namespace Channel

variable {Value : Type*}

/-- `make(chan Value, capacity)`. -/
def make (capacity : ℕ) : Channel Value where
  capacity := capacity
  queue := []
  closed := false
  bounded := Nat.zero_le _

/-- `channel <- value`. -/
def send (channel : Channel Value) (value : Value) : Outcome (Channel Value) :=
  if channel.closed then .panic "send on closed channel"
  else if hroom : channel.queue.length < channel.capacity then
    .done { channel with
      queue := channel.queue ++ [value]
      bounded := by
        rw [List.length_append, List.length_singleton]
        omega }
  else .blocked

/-- What a receiver gets: a value, or the news that the channel is closed and drained. -/
inductive Reception (Value : Type*)
  | value (value : Value) (rest : Channel Value)
  | drained
  | blocked

/-- `value, ok := <-channel`. -/
def receive (channel : Channel Value) : Reception Value :=
  match hqueue : channel.queue with
  | value :: rest => .value value { channel with
      queue := rest
      bounded := by
        have hbounded := channel.bounded
        rw [hqueue] at hbounded
        exact Nat.le_of_succ_le hbounded }
  | [] => if channel.closed then .drained else .blocked

/-- `close(channel)`. -/
def close (channel : Channel Value) : Outcome (Channel Value) :=
  if channel.closed then .panic "close of closed channel"
  else .done { channel with closed := true }

variable {channel next : Channel Value} {value : Value}

@[ext] theorem ext {first second : Channel Value} (hcapacity : first.capacity = second.capacity)
    (hqueue : first.queue = second.queue) (hclosed : first.closed = second.closed) :
    first = second := by
  obtain ⟨_, _, _, _⟩ := first
  obtain ⟨_, _, _, _⟩ := second
  subst hcapacity hqueue hclosed
  rfl

/-- A send that goes through appends the value to the buffer of an open channel. -/
theorem send_eq_done (hsend : channel.send value = .done next) :
    channel.closed = false ∧ next.closed = false ∧ next.queue = channel.queue ++ [value] ∧
      next.capacity = channel.capacity := by
  unfold send at hsend
  split_ifs at hsend with hclosed hroom
  obtain rfl := Outcome.done.inj hsend
  have hopen : channel.closed = false := by simpa using hclosed
  exact ⟨hopen, hopen, rfl, rfl⟩

/-- A send panics on a closed channel only. -/
theorem send_eq_panic {text : String} (hsend : channel.send value = .panic text) :
    channel.closed = true ∧ text = "send on closed channel" := by
  unfold send at hsend
  split_ifs at hsend with hclosed
  exact ⟨hclosed, (Outcome.panic.inj hsend).symm⟩

/-- A send into an open channel with room goes through. -/
theorem exists_send_eq_done (hopen : channel.closed = false)
    (hroom : channel.queue.length < channel.capacity) (value : Value) :
    ∃ next, channel.send value = .done next := by
  rw [send, if_neg (by simp [hopen]), dif_pos hroom]
  exact ⟨_, rfl⟩

/-- A value that is received was the oldest in the buffer. -/
theorem receive_eq_value (hreceive : channel.receive = .value value next) :
    channel.queue = value :: next.queue ∧ next.closed = channel.closed ∧
      next.capacity = channel.capacity := by
  unfold receive at hreceive
  split at hreceive
  · rename_i oldest rest hqueue
    obtain ⟨rfl, rfl⟩ := Reception.value.inj hreceive
    exact ⟨hqueue, rfl, rfl⟩
  · split_ifs at hreceive

/-- What is in the buffer can be received. -/
theorem exists_receive_eq_value {rest : List Value} (hqueue : channel.queue = value :: rest) :
    ∃ next, channel.receive = .value value next ∧ next.queue = rest := by
  unfold receive
  split
  · rename_i oldest others hothers
    obtain ⟨rfl, rfl⟩ := List.cons.inj (hothers.symm.trans hqueue)
    exact ⟨_, rfl, rfl⟩
  · rename_i hnil
    rw [hnil] at hqueue
    cases hqueue

/-- Only a closed channel is drained for its receiver. -/
theorem receive_eq_drained (hreceive : channel.receive = .drained) :
    channel.closed = true ∧ channel.queue = [] := by
  unfold receive at hreceive
  split at hreceive
  · cases hreceive
  · rename_i hqueue
    split_ifs at hreceive with hclosed
    exact ⟨hclosed, hqueue⟩

theorem close_eq_done (hclose : channel.close = .done next) :
    channel.closed = false ∧ next.closed = true ∧ next.queue = channel.queue ∧
      next.capacity = channel.capacity := by
  unfold close at hclose
  split_ifs at hclose with hclosed
  obtain rfl := Outcome.done.inj hclose
  exact ⟨by simpa using hclosed, rfl, rfl, rfl⟩

end Channel

end Foundation
