import Mathlib.Data.List.Perm.Basic
import Mathlib.Data.List.Nodup
import Mathlib.Tactic.SplitIfs
import MuduoProtorpc.Foundation.Termination
import MuduoProtorpc.WordFreq.Pivots

/-!
# The buffers of a shuffle

Each of the `concurrentRequests_` buffers is in one place: being filled, in flight, free, or deleted
(`PoolInvariant`). Every step keeps this (`PoolInvariant.moved`, `PoolInvariant.completed`), and a
buffer in flight is not written to (`PoolInvariant.heap_eq`).
-/

set_option autoImplicit false
set_option relaxedAutoImplicit false

namespace MuduoProtorpc.WordFreq

open Foundation

/-! ### What each step does -/

/-- The steps of a shuffle. -/
inductive ShuffleMoved (input : ShuffleInput) (shuffle : Shuffle) : Shuffle → Prop
  | filled : shuffle.phase = .filling [] →
      ShuffleMoved input shuffle { shuffle with phase := .flushing 0 }
  | misplaced {key : ℤ} {rest : List ℤ} : shuffle.phase = .filling (key :: rest) →
      lowerBound input.pivots key = input.pivots.length →
        ShuffleMoved input shuffle { shuffle with phase := .aborted "it != pivots.end()" }
  | add {key : ℤ} {rest : List ℤ} {part : ℕ} : shuffle.phase = .filling (key :: rest) →
      lowerBound input.pivots key = part → part < input.peers →
        (shuffle.addKey part key |>.partKeys part).length < kBatch →
          ShuffleMoved input shuffle { shuffle.addKey part key with phase := .filling rest }
  | send {key : ℤ} {rest : List ℤ} {part : ℕ} : shuffle.phase = .filling (key :: rest) →
      lowerBound input.pivots key = part → part < input.peers →
        kBatch ≤ (shuffle.addKey part key |>.partKeys part).length →
          ShuffleMoved input shuffle
            { (shuffle.addKey part key).shardKey part with phase := .taking part rest }
  | take {rest : List ℤ} {part shardReq : ℕ} {free : List ℕ} :
      shuffle.phase = .taking part rest → shuffle.freeShards = shardReq :: free →
        ShuffleMoved input shuffle { shuffle with
          heap := Function.update shuffle.heap shardReq {}
          shardRequests := Function.update shuffle.shardRequests part shardReq
          freeShards := free
          phase := .filling rest }
  | flush {part : ℕ} : shuffle.phase = .flushing part → part < input.peers →
      shuffle.partKeys part ≠ [] →
        ShuffleMoved input shuffle { shuffle.shardKey part with phase := .flushing (part + 1) }
  | skip {part : ℕ} : shuffle.phase = .flushing part → part < input.peers →
      shuffle.partKeys part = [] →
        ShuffleMoved input shuffle { shuffle with phase := .flushing (part + 1) }
  | flushed {part : ℕ} : shuffle.phase = .flushing part → input.peers ≤ part →
      ShuffleMoved input shuffle { shuffle with phase := .draining 0 }
  | drain {taken shardReq : ℕ} {free : List ℕ} : shuffle.phase = .draining taken →
      taken < input.concurrentRequests → shuffle.freeShards = shardReq :: free →
        ShuffleMoved input shuffle { shuffle with
          freeShards := free
          deleted := shuffle.deleted ++ [shardReq]
          phase := .draining (taken + 1) }
  | reply {taken : ℕ} : shuffle.phase = .draining taken → input.concurrentRequests ≤ taken →
      ShuffleMoved input shuffle { shuffle with phase := .replied }

section Steps

variable {input : ShuffleInput} {shuffle next : Shuffle}

/-- Every step of a shuffle is one of these. -/
theorem shuffleStep_cases (hstep : shuffleStep input shuffle = some next) :
    ShuffleMoved input shuffle next := by
  unfold shuffleStep at hstep
  split at hstep
  · rename_i hphase
    obtain rfl := Option.some.inj hstep
    exact .filled hphase
  · rename_i key rest hphase
    have hle := lowerBound_le input.pivots key
    simp only at hstep
    split_ifs at hstep with hend hbatch
    · obtain rfl := Option.some.inj hstep
      exact .misplaced hphase hend
    · obtain rfl := Option.some.inj hstep
      exact .send hphase rfl (Nat.lt_of_le_of_ne hle hend) hbatch
    · obtain rfl := Option.some.inj hstep
      exact .add hphase rfl (Nat.lt_of_le_of_ne hle hend) (Nat.lt_of_not_le hbatch)
  · rename_i part rest hphase
    split at hstep
    · cases hstep
    · rename_i shardReq free hfree
      obtain rfl := Option.some.inj hstep
      exact .take hphase hfree
  · rename_i part hphase
    split_ifs at hstep with hpart hkeys
    · obtain rfl := Option.some.inj hstep
      exact .flush hphase hpart (List.ne_nil_of_length_pos hkeys)
    · obtain rfl := Option.some.inj hstep
      exact .skip hphase hpart (List.length_eq_zero_iff.mp (Nat.eq_zero_of_not_pos hkeys))
    · obtain rfl := Option.some.inj hstep
      exact .flushed hphase (Nat.le_of_not_lt hpart)
  · rename_i taken hphase
    split_ifs at hstep with htaken
    · split at hstep
      · cases hstep
      · rename_i shardReq free hfree
        obtain rfl := Option.some.inj hstep
        exact .drain hphase htaken hfree
    · obtain rfl := Option.some.inj hstep
      exact .reply hphase (Nat.le_of_not_lt htaken)
  · cases hstep
  · cases hstep

/-- A call completes if and only if it is in flight. -/
theorem doneShardKey_cases {shardReq : ℕ} (hstep : doneShardKey shuffle shardReq = some next) :
    shardReq ∈ shuffle.inFlight ∧ next = { shuffle with
      inFlight := shuffle.inFlight.erase shardReq
      freeShards := shuffle.freeShards ++ [shardReq] } := by
  unfold doneShardKey at hstep
  split_ifs at hstep with hflight
  exact ⟨hflight, (Option.some.inj hstep).symm⟩

/-- Sending a buffer does not change the keys in any. -/
@[simp] theorem partKeys_shardKey (part other : ℕ) :
    (shuffle.shardKey part).partKeys other = shuffle.partKeys other := by
  simp only [Shuffle.partKeys, Shuffle.shardKey]
  by_cases hsame : shuffle.shardRequests other = shuffle.shardRequests part
  · simp [hsame]
  · simp [Function.update_of_ne hsame]

/-- A key goes to the end of the buffer of its part, and to no other buffer. -/
theorem partKeys_addKey (part other : ℕ) (key : ℤ) :
    (shuffle.addKey part key).partKeys other =
      if shuffle.shardRequests other = shuffle.shardRequests part then
        shuffle.partKeys other ++ [key]
      else shuffle.partKeys other := by
  simp only [Shuffle.partKeys, Shuffle.addKey]
  split_ifs with hsame
  · simp [hsame]
  · rw [Function.update_of_ne hsame]

end Steps

/-! ### The places of the buffers -/

/-- The buffer of a part has not been sent: in the first loop each, but for the one whose
replacement is waited for; in the second loop those that come later; and the empty ones, which are
never sent. -/
def Shuffle.unsent (shuffle : Shuffle) (part : ℕ) : Bool :=
  match shuffle.phase with
  | .filling _ => true
  | .taking taken _ => part ≠ taken
  | .flushing current => decide (current ≤ part) || (shuffle.partKeys part).isEmpty
  | .draining _ => (shuffle.partKeys part).isEmpty
  | .replied => (shuffle.partKeys part).isEmpty
  | .aborted _ => true

/-- The buffers being filled. -/
def Shuffle.beingFilled (input : ShuffleInput) (shuffle : Shuffle) : List ℕ :=
  ((List.range input.peers).filter shuffle.unsent).map shuffle.shardRequests

/-- How many buffers were deleted. -/
def Shuffle.deletedCount (input : ShuffleInput) (shuffle : Shuffle) : ℕ :=
  match shuffle.phase with
  | .draining taken => taken
  | .replied => input.concurrentRequests
  | _ => 0

/-- Each buffer is in one place. -/
structure PoolInvariant (input : ShuffleInput) (shuffle : Shuffle) : Prop where
  places : (shuffle.beingFilled input ++ shuffle.inFlight ++ shuffle.freeShards ++
    shuffle.deleted).Perm (List.range input.concurrentRequests)
  deleted : shuffle.deleted.length = shuffle.deletedCount input
  taking : ∀ part rest, shuffle.phase = .taking part rest → part < input.peers
  draining : ∀ taken, shuffle.phase = .draining taken → taken ≤ input.concurrentRequests

section Pool

variable {input : ShuffleInput} {shuffle next : Shuffle}

/-- A part that one test lets through and the other does not is what the filtered lists differ
in. -/
theorem filter_perm_cons {parts : List ℕ} {first second : ℕ → Bool} {part : ℕ}
    (hnodup : parts.Nodup) (hpart : part ∈ parts) (hfirst : first part = true)
    (hsecond : second part = false)
    (hother : ∀ other ∈ parts, other ≠ part → first other = second other) :
    (parts.filter first).Perm (part :: parts.filter second) := by
  have hnew : (part :: parts.filter second).Nodup := by
    rw [List.nodup_cons]
    exact ⟨by simp [hsecond], hnodup.filter second⟩
  rw [List.perm_ext_iff_of_nodup (hnodup.filter first) hnew]
  intro other
  simp only [List.mem_filter, List.mem_cons]
  by_cases hsame : other = part
  · simp [hsame, hpart, hfirst]
  · constructor
    · rintro ⟨hmem, htrue⟩
      exact Or.inr ⟨hmem, by rwa [← hother other hmem hsame]⟩
    · rintro (hequal | ⟨hmem, htrue⟩)
      · exact absurd hequal hsame
      · exact ⟨hmem, by rwa [hother other hmem hsame]⟩

/-- The buffers being filled are the same when the same parts are not sent. -/
theorem beingFilled_congr (hsame : next.shardRequests = shuffle.shardRequests)
    (hunsent : ∀ part < input.peers, next.unsent part = shuffle.unsent part) :
    next.beingFilled input = shuffle.beingFilled input := by
  rw [Shuffle.beingFilled, Shuffle.beingFilled, hsame]
  congr 1
  apply List.filter_congr
  intro part hpart
  exact hunsent part (List.mem_range.mp hpart)

/-- When a part is sent its buffer is no longer being filled. -/
theorem beingFilled_perm_cons {part : ℕ} (hpart : part < input.peers)
    (hsame : next.shardRequests = shuffle.shardRequests) (hbefore : shuffle.unsent part = true)
    (hafter : next.unsent part = false)
    (hother : ∀ other < input.peers, other ≠ part → next.unsent other = shuffle.unsent other) :
    (shuffle.beingFilled input).Perm
      (shuffle.shardRequests part :: next.beingFilled input) := by
  have hperm := filter_perm_cons (List.nodup_range) (List.mem_range.mpr hpart) hbefore hafter
    fun other hmem hne ↦ (hother other (List.mem_range.mp hmem) hne).symm
  rw [Shuffle.beingFilled, Shuffle.beingFilled, hsame]
  exact hperm.map shuffle.shardRequests

/-- A buffer that is sent goes from being filled to being in flight. -/
theorem places_send {filled flight free deleted later all : List ℕ} {shardReq : ℕ}
    (hplaces : (filled ++ flight ++ free ++ deleted).Perm all)
    (hfilled : filled.Perm (shardReq :: later)) :
    (later ++ (flight ++ [shardReq]) ++ free ++ deleted).Perm all := by
  rw [List.perm_iff_count] at hplaces hfilled ⊢
  intro buffer
  have hbefore := hplaces buffer
  have hmoved := hfilled buffer
  simp only [List.count_append, List.count_cons, List.count_nil] at hbefore hmoved ⊢
  omega

/-- A buffer that is taken goes from being free to being filled. -/
theorem places_take {filled flight free deleted later all : List ℕ} {shardReq : ℕ}
    (hplaces : (filled ++ flight ++ (shardReq :: free) ++ deleted).Perm all)
    (hfilled : later.Perm (shardReq :: filled)) :
    (later ++ flight ++ free ++ deleted).Perm all := by
  rw [List.perm_iff_count] at hplaces hfilled ⊢
  intro buffer
  have hbefore := hplaces buffer
  have hmoved := hfilled buffer
  simp only [List.count_append, List.count_cons] at hbefore hmoved ⊢
  omega

/-- A buffer that is drained goes from being free to being deleted. -/
theorem places_drain {filled flight free deleted all : List ℕ} {shardReq : ℕ}
    (hplaces : (filled ++ flight ++ (shardReq :: free) ++ deleted).Perm all) :
    (filled ++ flight ++ free ++ (deleted ++ [shardReq])).Perm all := by
  rw [List.perm_iff_count] at hplaces ⊢
  intro buffer
  have hbefore := hplaces buffer
  simp only [List.count_append, List.count_cons, List.count_nil] at hbefore ⊢
  omega

/-- A buffer whose call completes goes from being in flight to being free. -/
theorem places_complete {filled flight free deleted all : List ℕ} {shardReq : ℕ}
    (hplaces : (filled ++ flight ++ free ++ deleted).Perm all) (hflight : shardReq ∈ flight) :
    (filled ++ flight.erase shardReq ++ (free ++ [shardReq]) ++ deleted).Perm all := by
  have hmoved := List.perm_cons_erase hflight
  rw [List.perm_iff_count] at hplaces hmoved ⊢
  intro buffer
  have hbefore := hplaces buffer
  have hsplit := hmoved buffer
  simp only [List.count_append, List.count_cons, List.count_nil] at hbefore hsplit ⊢
  omega

/-! ### Every step keeps the buffers in one place -/

theorem poolInvariant_initial (input : ShuffleInput) : PoolInvariant input (.initial input) := by
  have hpeers : input.peers ≤ input.concurrentRequests :=
    Nat.le_mul_of_pos_right input.peers (by decide)
  refine ⟨?_, rfl, fun part rest hphase ↦ ?_, fun taken hphase ↦ ?_⟩
  · have hall : (Shuffle.initial input).beingFilled input = List.range input.peers := by
      simp [Shuffle.beingFilled, Shuffle.unsent, Shuffle.initial]
    rw [hall]
    simp only [Shuffle.initial, List.append_nil]
    have happend := List.range'_append_1 (s := 0) (m := input.peers)
      (n := input.concurrentRequests - input.peers)
    rw [Nat.zero_add, Nat.add_sub_cancel' hpeers] at happend
    rw [List.range_eq_range', List.range_eq_range', happend]
  · simp [Shuffle.initial] at hphase
  · simp [Shuffle.initial] at hphase

/-- A part for which a request is taken is being filled in it, as the others are in theirs. -/
theorem beingFilled_take {part : ℕ} {rest : List ℤ} (shardReq : ℕ) (free : List ℕ)
    (hpart : part < input.peers) (hphase : shuffle.phase = .taking part rest) :
    (({ shuffle with
        heap := Function.update shuffle.heap shardReq {}
        shardRequests := Function.update shuffle.shardRequests part shardReq
        freeShards := free
        phase := .filling rest } : Shuffle).beingFilled input).Perm
      (shardReq :: shuffle.beingFilled input) := by
  have hperm : ((List.range input.peers).filter fun _ ↦ true).Perm
      (part :: (List.range input.peers).filter shuffle.unsent) :=
    filter_perm_cons List.nodup_range (List.mem_range.mpr hpart) rfl
      (by simp [Shuffle.unsent, hphase]) fun other _ hne ↦ by simp [Shuffle.unsent, hphase, hne]
  have hmap := hperm.map (Function.update shuffle.shardRequests part shardReq)
  rw [List.map_cons, Function.update_self] at hmap
  have hothers : ((List.range input.peers).filter shuffle.unsent).map
      (Function.update shuffle.shardRequests part shardReq) = shuffle.beingFilled input := by
    apply List.map_congr_left
    intro other hother
    have hne : other ≠ part := by
      rintro rfl
      simp [Shuffle.unsent, hphase] at hother
    exact Function.update_of_ne hne _ _
  rwa [hothers] at hmap

/-- When the rest of a part is flushed, its buffer is no longer being filled. -/
theorem beingFilled_flush {part : ℕ} (hpart : part < input.peers)
    (hphase : shuffle.phase = .flushing part) (hkeys : shuffle.partKeys part ≠ []) :
    (shuffle.beingFilled input).Perm (shuffle.shardRequests part ::
      ({ shuffle.shardKey part with phase := .flushing (part + 1) } : Shuffle).beingFilled
        input) := by
  have hkept (other : ℕ) : ({ shuffle.shardKey part with
      phase := .flushing (part + 1) } : Shuffle).partKeys other = shuffle.partKeys other :=
    partKeys_shardKey part other
  refine beingFilled_perm_cons hpart rfl (by simp [Shuffle.unsent, hphase]) ?_ ?_
  · simp [Shuffle.unsent, hkept, hkeys]
  · intro other _ hne
    have hnext : part + 1 ≤ other ↔ part ≤ other := by omega
    simp [Shuffle.unsent, hphase, hkept, hnext]

/-- A part without keys is skipped, and its buffer stays where it is. -/
theorem beingFilled_skip (input : ShuffleInput) {part : ℕ}
    (hphase : shuffle.phase = .flushing part) (hkeys : shuffle.partKeys part = []) :
    ({ shuffle with phase := .flushing (part + 1) } : Shuffle).beingFilled input =
      shuffle.beingFilled input := by
  refine beingFilled_congr rfl fun other _ ↦ ?_
  by_cases hequal : other = part
  · subst hequal
    simp_all [Shuffle.unsent, Shuffle.partKeys]
  · have hnext : part + 1 ≤ other ↔ part ≤ other := by omega
    simp [Shuffle.unsent, Shuffle.partKeys, hphase, hnext]

theorem PoolInvariant.moved (hinvariant : PoolInvariant input shuffle)
    (hmoved : ShuffleMoved input shuffle next) : PoolInvariant input next := by
  obtain ⟨hplaces, hdeleted, htaking, hdraining⟩ := hinvariant
  cases hmoved with
  | filled hphase =>
    have hsame : ({ shuffle with phase := .flushing 0 } : Shuffle).beingFilled input =
        shuffle.beingFilled input :=
      beingFilled_congr rfl fun part _ ↦ by simp [Shuffle.unsent, hphase]
    refine ⟨by rwa [hsame], ?_, by simp, by simp⟩
    simpa [Shuffle.deletedCount, hphase] using hdeleted
  | misplaced hphase hend =>
    have hsame : ({ shuffle with phase := .aborted "it != pivots.end()" } : Shuffle).beingFilled
        input = shuffle.beingFilled input :=
      beingFilled_congr rfl fun part _ ↦ by simp [Shuffle.unsent, hphase]
    refine ⟨by rwa [hsame], ?_, by simp, by simp⟩
    simpa [Shuffle.deletedCount, hphase] using hdeleted
  | @add key rest part hphase hbound hpart hbatch =>
    have hsame : ({ shuffle.addKey part key with phase := .filling rest } : Shuffle).beingFilled
        input = shuffle.beingFilled input :=
      beingFilled_congr rfl fun part _ ↦ by simp [Shuffle.unsent, hphase]
    refine ⟨by rwa [hsame], ?_, by simp, by simp⟩
    simpa [Shuffle.deletedCount, Shuffle.addKey, hphase] using hdeleted
  | @send key rest part hphase hbound hpart hbatch =>
    have hfilled : (shuffle.beingFilled input).Perm (shuffle.shardRequests part ::
        ({ (shuffle.addKey part key).shardKey part with
          phase := .taking part rest } : Shuffle).beingFilled input) :=
      beingFilled_perm_cons hpart rfl (by simp [Shuffle.unsent, hphase]) (by simp [Shuffle.unsent])
        fun other _ hne ↦ by simp [Shuffle.unsent, hphase, hne]
    refine ⟨places_send hplaces hfilled, ?_, ?_, by simp⟩
    · simpa [Shuffle.deletedCount, Shuffle.addKey, Shuffle.shardKey, hphase] using hdeleted
    · rintro other found hother
      obtain ⟨rfl, -⟩ := ShufflePhase.taking.inj hother
      exact hpart
  | @take rest part shardReq free hphase hfree =>
    have hpart := htaking part rest hphase
    have hfilled := beingFilled_take shardReq free hpart hphase
    rw [hfree] at hplaces
    refine ⟨places_take hplaces hfilled, ?_, by simp, by simp⟩
    simpa [Shuffle.deletedCount, hphase] using hdeleted
  | @flush part hphase hpart hkeys =>
    have hfilled := beingFilled_flush hpart hphase hkeys
    refine ⟨places_send hplaces hfilled, ?_, by simp, by simp⟩
    simpa [Shuffle.deletedCount, Shuffle.shardKey, hphase] using hdeleted
  | @skip part hphase hpart hkeys =>
    have hsame := beingFilled_skip input hphase hkeys
    refine ⟨by rwa [hsame], ?_, by simp, by simp⟩
    simpa [Shuffle.deletedCount, hphase] using hdeleted
  | @flushed part hphase hpart =>
    have hsame : ({ shuffle with phase := .draining 0 } : Shuffle).beingFilled input =
        shuffle.beingFilled input := by
      refine beingFilled_congr rfl fun other hother ↦ ?_
      have hless : ¬ part ≤ other := by omega
      simp [Shuffle.unsent, Shuffle.partKeys, hphase, hless]
    refine ⟨by rwa [hsame], ?_, by simp, ?_⟩
    · simpa [Shuffle.deletedCount, hphase] using hdeleted
    · intro taken hother
      obtain rfl := ShufflePhase.draining.inj hother
      exact Nat.zero_le _
  | @drain taken shardReq free hphase htaken hfree =>
    have hsame : ({ shuffle with
        freeShards := free
        deleted := shuffle.deleted ++ [shardReq]
        phase := .draining (taken + 1) } : Shuffle).beingFilled input =
          shuffle.beingFilled input :=
      beingFilled_congr rfl fun part _ ↦ by simp [Shuffle.unsent, Shuffle.partKeys, hphase]
    rw [hfree] at hplaces
    refine ⟨?_, ?_, by simp, ?_⟩
    · rw [hsame]
      exact places_drain hplaces
    · simpa [Shuffle.deletedCount, hphase] using hdeleted
    · intro other hother
      obtain rfl := ShufflePhase.draining.inj hother
      exact htaken
  | @reply taken hphase htaken =>
    have hsame : ({ shuffle with phase := .replied } : Shuffle).beingFilled input =
        shuffle.beingFilled input :=
      beingFilled_congr rfl fun part _ ↦ by simp [Shuffle.unsent, Shuffle.partKeys, hphase]
    refine ⟨by rwa [hsame], ?_, by simp, by simp⟩
    have hall := Nat.le_antisymm (hdraining taken hphase) htaken
    simpa [Shuffle.deletedCount, hphase, hall] using hdeleted

theorem PoolInvariant.completed (hinvariant : PoolInvariant input shuffle) {shardReq : ℕ}
    (hflight : shardReq ∈ shuffle.inFlight) : PoolInvariant input { shuffle with
      inFlight := shuffle.inFlight.erase shardReq
      freeShards := shuffle.freeShards ++ [shardReq] } := by
  obtain ⟨hplaces, hdeleted, htaking, hdraining⟩ := hinvariant
  have hsame : ({ shuffle with
      inFlight := shuffle.inFlight.erase shardReq
      freeShards := shuffle.freeShards ++ [shardReq] } : Shuffle).beingFilled input =
        shuffle.beingFilled input :=
    beingFilled_congr rfl fun part _ ↦ rfl
  refine ⟨?_, hdeleted, htaking, hdraining⟩
  rw [hsame]
  exact places_complete hplaces hflight

/-- Each buffer is in one place in every state that a shuffle reaches. -/
theorem poolInvariant_of_run {actions : List ShuffleAction}
    (hrun : (shuffleSystem input).Run actions shuffle) : PoolInvariant input shuffle := by
  refine hrun.invariant (poolInvariant_initial input) fun state action next _ hstep hbefore ↦ ?_
  cases action with
  | thread => exact hbefore.moved (shuffleStep_cases hstep)
  | complete shardReq =>
    obtain ⟨hflight, rfl⟩ := doneShardKey_cases hstep
    exact hbefore.completed hflight

/-! ### Buffers in flight -/

/-- No buffer is in two places, or twice in one. -/
theorem PoolInvariant.nodup (hinvariant : PoolInvariant input shuffle) :
    (shuffle.beingFilled input ++ shuffle.inFlight ++ shuffle.freeShards ++
      shuffle.deleted).Nodup :=
  hinvariant.places.nodup_iff.mpr List.nodup_range

/-- The buffer of a part that was not sent is being filled. -/
theorem mem_beingFilled {part : ℕ} (hpart : part < input.peers)
    (hunsent : shuffle.unsent part = true) :
    shuffle.shardRequests part ∈ shuffle.beingFilled input :=
  List.mem_map_of_mem (List.mem_filter.mpr ⟨List.mem_range.mpr hpart, hunsent⟩)

/-- A buffer that is being filled is not in flight, and not free. -/
theorem PoolInvariant.filled_notMem (hinvariant : PoolInvariant input shuffle) {part : ℕ}
    (hpart : part < input.peers) (hunsent : shuffle.unsent part = true) :
    shuffle.shardRequests part ∉ shuffle.inFlight ∧
      shuffle.shardRequests part ∉ shuffle.freeShards := by
  have hnodup := hinvariant.nodup
  have hmem := mem_beingFilled hpart hunsent
  simp only [List.append_assoc] at hnodup
  have hdisjoint := (List.nodup_append.mp hnodup).2.2 _ hmem
  constructor
  · intro hflight
    exact hdisjoint _ (by simp [hflight]) rfl
  · intro hfree
    exact hdisjoint _ (by simp [hfree]) rfl

/-- A free buffer is not in flight. -/
theorem PoolInvariant.free_notMem (hinvariant : PoolInvariant input shuffle) {shardReq : ℕ}
    (hfree : shardReq ∈ shuffle.freeShards) : shardReq ∉ shuffle.inFlight := by
  intro hflight
  have hnodup := hinvariant.nodup
  simp only [List.append_assoc] at hnodup
  have hrest := (List.nodup_append.mp hnodup).2.1
  exact (List.nodup_append.mp hrest).2.2 _ hflight _ (by simp [hfree]) rfl

/-- Two parts that were not sent have two buffers. -/
theorem PoolInvariant.shardRequests_inj (hinvariant : PoolInvariant input shuffle) {part other : ℕ}
    (hpart : part < input.peers) (hother : other < input.peers)
    (hunsent : shuffle.unsent part = true) (hotherUnsent : shuffle.unsent other = true)
    (hsame : shuffle.shardRequests part = shuffle.shardRequests other) : part = other := by
  have hnodup := hinvariant.nodup
  simp only [List.append_assoc] at hnodup
  have hfilled := (List.nodup_append.mp hnodup).1
  exact List.inj_on_of_nodup_map hfilled
    (List.mem_filter.mpr ⟨List.mem_range.mpr hpart, hunsent⟩)
    (List.mem_filter.mpr ⟨List.mem_range.mpr hother, hotherUnsent⟩) hsame

/-- No step writes to a buffer in flight. -/
theorem PoolInvariant.heap_eq (hinvariant : PoolInvariant input shuffle)
    (hmoved : ShuffleMoved input shuffle next) {shardReq : ℕ}
    (hflight : shardReq ∈ shuffle.inFlight) : next.heap shardReq = shuffle.heap shardReq := by
  cases hmoved with
  | filled => rfl
  | misplaced => rfl
  | @add key rest part hphase _ hpart _ =>
    obtain ⟨hfilled, -⟩ :=
      hinvariant.filled_notMem hpart (by simp [Shuffle.unsent, hphase])
    have hne : shardReq ≠ shuffle.shardRequests part := fun hsame ↦ hfilled (hsame ▸ hflight)
    exact Function.update_of_ne hne _ _
  | @send key rest part hphase _ hpart _ =>
    obtain ⟨hfilled, -⟩ :=
      hinvariant.filled_notMem hpart (by simp [Shuffle.unsent, hphase])
    have hne : shardReq ≠ shuffle.shardRequests part := fun hsame ↦ hfilled (hsame ▸ hflight)
    simp only [Shuffle.shardKey, Shuffle.addKey]
    rw [Function.update_of_ne hne, Function.update_of_ne hne]
  | @take rest part taken free hphase hfree =>
    have htaken : taken ∉ shuffle.inFlight :=
      hinvariant.free_notMem (hfree ▸ List.mem_cons_self)
    have hne : shardReq ≠ taken := fun hsame ↦ htaken (hsame ▸ hflight)
    exact Function.update_of_ne hne _ _
  | @flush part hphase hpart _ =>
    obtain ⟨hfilled, -⟩ :=
      hinvariant.filled_notMem hpart (by simp [Shuffle.unsent, hphase])
    have hne : shardReq ≠ shuffle.shardRequests part := fun hsame ↦ hfilled (hsame ▸ hflight)
    exact Function.update_of_ne hne _ _
  | skip => rfl
  | flushed => rfl
  | drain => rfl
  | reply => rfl

end Pool

end MuduoProtorpc.WordFreq
