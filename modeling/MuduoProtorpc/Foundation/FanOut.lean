import Mathlib.Data.List.Perm.Basic
import MuduoProtorpc.Foundation.TransitionSystem

/-!
# Requests that are sent at once, and replies that arrive in any order

All requests are pending at the start. The reply to any of them may be handled next; no reply comes
where the handler gives no result. What was handled, in the order of arrival, and what is pending
are together the requests (`FanOut.exists_handled`). With a handler that always has a result, the
replies to all requests can arrive in every order (`FanOut.exists_run`).
-/

set_option autoImplicit false
set_option relaxedAutoImplicit false

namespace Foundation

/-- The requests without a reply, and what the handled replies have added up to. -/
structure FanOut (Request Result : Type*) where
  pending : List Request
  result : Result
  deriving DecidableEq

variable {Request Result : Type*}

/-- The system in which the pending request at a position gets its reply. -/
def fanOutSystem (requests : List Request) (start : Result)
    (handle : Result → Request → Option Result) :
    TransitionSystem (FanOut Request Result) ℕ where
  start := { pending := requests, result := start }
  step := fun state position ↦
    match state.pending[position]? with
    | none => none
    | some request => (handle state.result request).map fun result ↦
        { pending := state.pending.eraseIdx position, result := result }

/-- The requests whose replies arrive at these positions, in this order. -/
def arrivals : List Request → List ℕ → List Request
  | _, [] => []
  | pending, position :: rest =>
    match pending[position]? with
    | none => []
    | some request => request :: arrivals (pending.eraseIdx position) rest

section Handled

variable {requests : List Request} {start : Result} {handle : Result → Request → Option Result}
  {state next : FanOut Request Result} {actions : List ℕ}

/-- A step handles the reply to one pending request. -/
theorem fanOutStep_cases {position : ℕ}
    (hstep : (fanOutSystem requests start handle).step state position = some next) :
    ∃ request, state.pending.Perm (request :: next.pending) ∧
      handle state.result request = some next.result := by
  simp only [fanOutSystem] at hstep
  split at hstep
  · cases hstep
  · rename_i request hrequest
    obtain ⟨result, hresult, rfl⟩ := Option.map_eq_some_iff.mp hstep
    obtain ⟨hposition, hitem⟩ := List.getElem?_eq_some_iff.mp hrequest
    have herase := List.getElem_cons_eraseIdx_perm hposition
    rw [hitem] at herase
    exact ⟨request, herase.symm, hresult⟩

/-- The replies that were handled, in their order, and the pending requests. -/
theorem FanOut.exists_handled (hrun : (fanOutSystem requests start handle).Run actions state) :
    ∃ handled, (handled ++ state.pending).Perm requests ∧
      handled.foldlM handle start = some state.result := by
  induction hrun with
  | start => exact ⟨[], List.Perm.refl _, rfl⟩
  | step _ _ hstep ih =>
    obtain ⟨handled, hperm, hresult⟩ := ih
    obtain ⟨request, hpending, hhandle⟩ := fanOutStep_cases hstep
    refine ⟨handled ++ [request], ?_, ?_⟩
    · rw [List.append_assoc]
      exact (hpending.append_left handled).symm.trans hperm
    · rw [List.foldlM_append, hresult]
      show (List.foldlM handle _ [request]) = _
      rw [List.foldlM_cons, hhandle]
      rfl

/-- A handler that always has a result folds over the requests, in some order, until none is
pending. -/
theorem FanOut.exists_order {total : Result → Request → Result}
    (htotal : ∀ result, ∀ request ∈ requests, handle result request = some (total result request))
    (hrun : (fanOutSystem requests start handle).Run actions state) (hnone : state.pending = []) :
    ∃ order : List Request, order.Perm requests ∧ state.result = order.foldl total start := by
  obtain ⟨handled, hperm, hresult⟩ := FanOut.exists_handled hrun
  rw [hnone, List.append_nil] at hperm
  refine ⟨handled, hperm, ?_⟩
  have hfold : ∀ (order : List Request) (result : Result), (∀ request ∈ order, request ∈ requests) →
      order.foldlM handle result = some (order.foldl total result) := by
    intro order
    induction order with
    | nil => exact fun _ _ ↦ rfl
    | cons request rest ih =>
      intro result hmem
      rw [List.foldlM_cons, htotal result request (hmem request List.mem_cons_self)]
      exact ih _ fun later hlater ↦ hmem later (List.mem_cons_of_mem request hlater)
  rw [hfold handled start fun request hrequest ↦ hperm.mem_iff.mp hrequest] at hresult
  exact (Option.some.inj hresult).symm

/-- With such a handler the reply to each pending request can be the next. -/
theorem FanOut.exists_step {total : Result → Request → Result}
    (htotal : ∀ result, ∀ request ∈ requests, handle result request = some (total result request))
    (hrun : (fanOutSystem requests start handle).Run actions state) {position : ℕ}
    (hposition : position < state.pending.length) :
    ∃ next, (fanOutSystem requests start handle).step state position = some next := by
  obtain ⟨handled, hperm, -⟩ := FanOut.exists_handled hrun
  have hmem : state.pending[position] ∈ requests :=
    hperm.mem_iff.mp (List.mem_append_right _ (List.getElem_mem hposition))
  simp only [fanOutSystem, List.getElem?_eq_getElem hposition, htotal _ _ hmem]
  exact ⟨_, rfl⟩

/-- With such a handler the replies can arrive in every order. -/
theorem FanOut.exists_run {total : Result → Request → Result}
    (htotal : ∀ result, ∀ request ∈ requests, handle result request = some (total result request))
    {order : List Request} (horder : order.Perm requests) :
    ∃ actions, arrivals requests actions = order ∧
      (fanOutSystem requests start handle).Run actions
        { pending := [], result := order.foldl total start } := by
  have hexecute : ∀ (order pending : List Request) (result : Result), order.Perm pending →
      (∀ request ∈ order, request ∈ requests) → ∃ actions, arrivals pending actions = order ∧
        (fanOutSystem requests start handle).execute { pending := pending, result := result }
          actions = some { pending := [], result := order.foldl total result } := by
    intro order
    induction order with
    | nil =>
      intro pending result hperm _
      obtain rfl := hperm.nil_eq
      exact ⟨[], rfl, rfl⟩
    | cons request rest ih =>
      intro pending result hperm hmem
      -- The first reply is to the request wherever it is among the pending ones.
      obtain ⟨position, hposition, hitem⟩ :=
        List.mem_iff_getElem.mp (hperm.mem_iff.mp List.mem_cons_self)
      have hsome := List.getElem?_eq_some_iff.mpr ⟨hposition, hitem⟩
      have herase := List.getElem_cons_eraseIdx_perm hposition
      rw [hitem] at herase
      obtain ⟨actions, harrivals, hactions⟩ := ih (pending.eraseIdx position)
        (total result request) (hperm.trans herase.symm).cons_inv
        fun later hlater ↦ hmem later (List.mem_cons_of_mem request hlater)
      refine ⟨position :: actions, ?_, TransitionSystem.execute_cons _ ?_ hactions⟩
      · simp only [arrivals, hsome, harrivals]
      · simp only [fanOutSystem, hsome, htotal result request (hmem request List.mem_cons_self)]
        rfl
  obtain ⟨actions, harrivals, hactions⟩ := hexecute order requests start horder
    fun request hrequest ↦ horder.mem_iff.mp hrequest
  exact ⟨actions, harrivals, TransitionSystem.Run.of_execute hactions⟩

end Handled

end Foundation
