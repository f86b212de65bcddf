import Mathlib.Tactic.NormNum.Basic
import MuduoProtorpc.WordFreq.Batches

/-!
# Whether a shuffle gets its buffers back

The third loop of a shuffle takes `concurrentRequests_` buffers from `freeShards_`, which get there
when their calls complete. A buffer that the second loop finds empty is not sent, so it never gets
there. A shuffle whose calls all complete therefore replies if and only if no buffer is left empty:
if and only if no part has a number of keys that is a multiple of the batch size, zero among them
(`poolCorrect_iff`). The places of the buffers, and that none is written to in flight, hold in any
case.
-/

set_option autoImplicit false
set_option relaxedAutoImplicit false

namespace MuduoProtorpc.WordFreq

open Foundation

/-! ### What should hold of the buffers -/

/-- The buffers of a shuffle are handled as they should: each is in one place at any time; none is
written to in flight; and when all calls have completed and nothing more happens, the shuffle has
taken and deleted every buffer once, and has replied. It comes to this after finitely many steps. -/
structure PoolCorrect (input : ShuffleInput) : Prop where
  places : ∀ actions shuffle, (shuffleSystem input).Run actions shuffle →
    (shuffle.beingFilled input ++ shuffle.inFlight ++ shuffle.freeShards ++ shuffle.deleted).Perm
      (List.range input.concurrentRequests)
  frozen : ∀ actions shuffle action next, (shuffleSystem input).Run actions shuffle →
    (shuffleSystem input).step shuffle action = some next →
      ∀ shardReq ∈ shuffle.inFlight, next.heap shardReq = shuffle.heap shardReq
  finite : ∃ bound, ∀ actions shuffle, (shuffleSystem input).Run actions shuffle →
    actions.length ≤ bound
  replies : ∀ actions shuffle, (shuffleSystem input).Run actions shuffle →
    (shuffleSystem input).Settled shuffle → shuffle.inFlight = [] ∧ shuffle.phase = .replied ∧
      shuffle.deleted.Perm (List.range input.concurrentRequests)

/-! ### Every shuffle comes to an end -/

/-- A bound on the steps that are left. -/
def remainingSteps (input : ShuffleInput) (shuffle : Shuffle) : ℕ :=
  let drain := input.concurrentRequests + 1
  let flush := 2 * input.peers + 1 + drain
  shuffle.inFlight.length +
    match shuffle.phase with
    | .filling rest => 3 * rest.length + 1 + flush
    | .taking _ rest => 3 * rest.length + 2 + flush
    | .flushing part => 2 * (input.peers - part) + 1 + drain
    | .draining taken => input.concurrentRequests - taken + 1
    | _ => 0

section Returns

variable {input : ShuffleInput} {shuffle next : Shuffle} {part : ℕ}

theorem remainingSteps_moved (hmoved : ShuffleMoved input shuffle next) :
    remainingSteps input next < remainingSteps input shuffle := by
  cases hmoved with
  | filled hphase =>
    simp only [remainingSteps, hphase, List.length_nil]
    omega
  | misplaced hphase =>
    simp only [remainingSteps, hphase, List.length_cons]
    omega
  | add hphase =>
    simp only [remainingSteps, hphase, List.length_cons, Shuffle.addKey]
    omega
  | send hphase =>
    simp only [remainingSteps, hphase, List.length_cons, Shuffle.shardKey, Shuffle.addKey,
      List.length_append, List.length_nil]
    omega
  | take hphase =>
    simp only [remainingSteps, hphase]
    omega
  | flush hphase hpart =>
    simp only [remainingSteps, hphase, Shuffle.shardKey, List.length_append, List.length_cons,
      List.length_nil]
    omega
  | skip hphase hpart =>
    simp only [remainingSteps, hphase]
    omega
  | flushed hphase =>
    simp only [remainingSteps, hphase]
    omega
  | drain hphase htaken =>
    simp only [remainingSteps, hphase]
    omega
  | reply hphase =>
    simp only [remainingSteps, hphase]
    omega

theorem decreasing_remainingSteps (input : ShuffleInput) :
    (shuffleSystem input).Decreasing (remainingSteps input) := by
  intro actions shuffle action next _ hstep
  cases action with
  | thread => exact remainingSteps_moved (shuffleStep_cases hstep)
  | complete shardReq =>
    obtain ⟨hflight, rfl⟩ := doneShardKey_cases hstep
    have hlength := List.length_erase_of_mem hflight
    have hpositive := List.length_pos_of_mem hflight
    simp only [remainingSteps, hlength]
    omega

/-! ### How many buffers are missing at the end -/

/-- The buffers in the four places are all buffers. -/
theorem PoolInvariant.length_eq (hpool : PoolInvariant input shuffle) :
    (shuffle.beingFilled input).length + shuffle.inFlight.length + shuffle.freeShards.length +
      shuffle.deletedCount input = input.concurrentRequests := by
  have hlength := hpool.places.length_eq
  simp only [List.length_append, List.length_range, hpool.deleted] at hlength
  exact hlength

theorem length_beingFilled_le (input : ShuffleInput) (shuffle : Shuffle) :
    (shuffle.beingFilled input).length ≤ input.peers := by
  have hle := List.length_filter_le shuffle.unsent (List.range input.peers)
  rw [List.length_range] at hle
  rw [Shuffle.beingFilled, List.length_map]
  exact hle

/-- When nothing more happens, no call is in flight. -/
theorem inFlight_of_settled (hsettled : (shuffleSystem input).Settled shuffle) :
    shuffle.inFlight = [] := by
  rw [List.eq_nil_iff_forall_not_mem]
  intro shardReq hflight
  have hnone : doneShardKey shuffle shardReq = none := hsettled (.complete shardReq)
  rw [doneShardKey, if_pos hflight] at hnone
  cases hnone

/-- When nothing more happens, the shuffle has replied or waits in its third loop: in the first one
there are more buffers than parts. -/
theorem phase_of_settled (hpool : PoolInvariant input shuffle) (hkeys : KeyInvariant input shuffle)
    (hsettled : (shuffleSystem input).Settled shuffle) :
    shuffle.phase = .replied ∨ ∃ taken, shuffle.phase = .draining taken ∧
      taken < input.concurrentRequests ∧ shuffle.freeShards = [] := by
  have hnone : shuffleStep input shuffle = none := hsettled .thread
  have hflight := inFlight_of_settled hsettled
  have hlength := hpool.length_eq
  unfold shuffleStep at hnone
  split at hnone
  · cases hnone
  · simp only at hnone
    split_ifs at hnone
  · rename_i taken rest hphase
    have hpart := hpool.taking taken rest hphase
    split at hnone
    · rename_i hfree
      have hfilled := length_beingFilled_le input shuffle
      have hnothing : shuffle.deletedCount input = 0 := by
        simp only [Shuffle.deletedCount, hphase]
      have hfour : input.concurrentRequests = input.peers * 4 := rfl
      rw [hflight, hfree, hnothing, List.length_nil] at hlength
      omega
    · cases hnone
  · split_ifs at hnone
  · rename_i taken hphase
    split_ifs at hnone with htaken
    split at hnone
    · rename_i hfree
      exact Or.inr ⟨taken, hphase, htaken, hfree⟩
    · cases hnone
  · rename_i hphase
    exact Or.inl hphase
  · rename_i assertion hphase
    exact absurd hphase (hkeys.running assertion)

/-- Behind the second loop, a part is left with an empty buffer if and only if the number of its
keys is a multiple of the batch size. -/
theorem unsent_iff (hkeys : KeyInvariant input shuffle) (hpart : part < input.peers)
    (hphase : shuffle.phase = .replied ∨ ∃ taken, shuffle.phase = .draining taken) :
    shuffle.unsent part = true ↔
      (keysOfPart input.pivots part input.keys).length % kBatch = 0 := by
  have hflushed : FlushedPart input shuffle part := by
    have hbefore := hkeys.parts part hpart
    rcases hphase with hphase | ⟨taken, hphase⟩
    · simpa [PartInvariant, hphase] using hbefore
    · simpa [PartInvariant, hphase] using hbefore
  rw [← hflushed.empty, ← List.isEmpty_iff]
  rcases hphase with hphase | ⟨taken, hphase⟩
  · simp only [Shuffle.unsent, hphase]
  · simp only [Shuffle.unsent, hphase]

/-- A shuffle none of whose parts is left with an empty buffer replies, with every buffer
deleted. -/
theorem replied_of_settled (hpool : PoolInvariant input shuffle)
    (hkeys : KeyInvariant input shuffle) (hsettled : (shuffleSystem input).Settled shuffle)
    (hparts : ∀ part < input.peers,
      (keysOfPart input.pivots part input.keys).length % kBatch ≠ 0) :
    shuffle.phase = .replied ∧
      shuffle.deleted.Perm (List.range input.concurrentRequests) := by
  have hflight := inFlight_of_settled hsettled
  have hphase := phase_of_settled hpool hkeys hsettled
  have hlast : shuffle.phase = .replied ∨ ∃ taken, shuffle.phase = .draining taken := by
    rcases hphase with hphase | ⟨taken, hphase, -⟩
    · exact Or.inl hphase
    · exact Or.inr ⟨taken, hphase⟩
  have hfilled : shuffle.beingFilled input = [] := by
    have hnone : ∀ part ∈ List.range input.peers, ¬ shuffle.unsent part = true :=
      fun part hmem hunsent ↦ hparts part (List.mem_range.mp hmem)
        ((unsent_iff hkeys (List.mem_range.mp hmem) hlast).mp hunsent)
    rw [Shuffle.beingFilled, List.filter_eq_nil_iff.mpr hnone, List.map_nil]
  have hlength := hpool.length_eq
  rw [hfilled, hflight, List.length_nil] at hlength
  rcases hphase with hphase | ⟨taken, hphase, htaken, hfree⟩
  · have hplaces := hpool.places
    have hcount : shuffle.deletedCount input = input.concurrentRequests := by
      simp only [Shuffle.deletedCount, hphase]
    have hfree : shuffle.freeShards = [] := by
      rw [hcount] at hlength
      exact List.eq_nil_of_length_eq_zero (by omega)
    rw [hfilled, hflight, hfree] at hplaces
    exact ⟨hphase, by simpa using hplaces⟩
  · have hcount : shuffle.deletedCount input = taken := by
      simp only [Shuffle.deletedCount, hphase]
    rw [hfree, hcount, List.length_nil] at hlength
    omega

/-- A shuffle with a part that is left with an empty buffer does not reply. -/
theorem not_replied (hpool : PoolInvariant input shuffle) (hkeys : KeyInvariant input shuffle)
    (hpart : part < input.peers)
    (hmultiple : (keysOfPart input.pivots part input.keys).length % kBatch = 0) :
    shuffle.phase ≠ .replied := by
  intro hphase
  have hunsent := (unsent_iff hkeys hpart (Or.inl hphase)).mpr hmultiple
  have hpositive := List.length_pos_of_mem (mem_beingFilled hpart hunsent)
  have hlength := hpool.length_eq
  have hcount : shuffle.deletedCount input = input.concurrentRequests := by
    simp only [Shuffle.deletedCount, hphase]
  omega

/-! ### Accepted pivots -/

/-- Every key is at most `maxKey_`. -/
theorem le_maxKey {keys : List ℤ} {key : ℤ} (hkey : key ∈ keys) : key ≤ maxKey keys := by
  have hfold : ∀ (keys : List ℤ) (largest : ℤ),
      largest ≤ keys.foldl (fun largest key ↦ if key > largest then key else largest) largest ∧
        ∀ key ∈ keys,
          key ≤ keys.foldl (fun largest key ↦ if key > largest then key else largest) largest := by
    intro keys
    induction keys with
    | nil => simp
    | cons first rest ih =>
      intro largest
      obtain ⟨hlargest, hrest⟩ := ih (if first > largest then first else largest)
      rw [List.foldl_cons]
      refine ⟨?_, fun key hkey ↦ ?_⟩
      · split_ifs at hlargest ⊢ with hgreater
        · omega
        · exact hlargest
      · rcases List.mem_cons.mp hkey with rfl | hlater
        · split_ifs at hlargest ⊢ with hgreater
          · exact hlargest
          · omega
        · exact hrest key hlater
  exact (hfold keys 0).2 key hkey

/-- Accepted pivots are there, and give every key a part. -/
theorem keysPlaced_of_accepted {peers : ℕ} {keys pivots : List ℤ}
    (haccepted : acceptsPivots peers keys pivots = some true) :
    0 < peers ∧ pivots.length = peers ∧ KeysPlaced { pivots := pivots, keys := keys } := by
  unfold acceptsPivots at haccepted
  split_ifs at haccepted with hlength
  · simp at haccepted
  · have hlength : pivots.length = peers := by simpa using hlength
    cases hlast : pivots.getLast? with
    | none => simp [hlast] at haccepted
    | some last =>
      have hmem : last ∈ pivots := List.mem_of_getLast? hlast
      have hmax : maxKey keys ≤ last := by
        simp only [hlast, Option.some.injEq, Bool.and_eq_true, decide_eq_true_eq] at haccepted
        exact haccepted.1
      refine ⟨hlength ▸ List.length_pos_of_mem hmem, hlength, fun key hkey ↦ ?_⟩
      have hle : key ≤ last := Int.le_trans (le_maxKey hkey) hmax
      exact List.findIdx_lt_length_of_exists ⟨last, hmem, by simpa using hle⟩

/-- The buffers are handled as they should if and only if no part has a number of keys that is a
multiple of the batch size. -/
theorem poolCorrect_iff
    (haccepted : acceptsPivots input.peers input.keys input.pivots = some true) :
    PoolCorrect input ↔ ∀ part < input.peers,
      (keysOfPart input.pivots part input.keys).length % kBatch ≠ 0 := by
  obtain ⟨-, -, hplaced⟩ := keysPlaced_of_accepted haccepted
  constructor
  · intro hcorrect part hpart hmultiple
    obtain ⟨actions, shuffle, hrun, hsettled⟩ :=
      TransitionSystem.Run.exists_settled (decreasing_remainingSteps input) .start
    obtain ⟨-, hreplied, -⟩ := hcorrect.replies _ shuffle hrun hsettled
    exact not_replied (poolInvariant_of_run hrun) (keyInvariant_of_run hplaced hrun) hpart
      hmultiple hreplied
  · intro hparts
    refine ⟨fun actions shuffle hrun ↦ (poolInvariant_of_run hrun).places,
      fun actions shuffle action next hrun hstep shardReq hflight ↦ ?_,
      ⟨remainingSteps input (.initial input), fun actions shuffle hrun ↦ ?_⟩,
      fun actions shuffle hrun hsettled ↦ ?_⟩
    · cases action with
      | thread => exact (poolInvariant_of_run hrun).heap_eq (shuffleStep_cases hstep) hflight
      | complete completed =>
        obtain ⟨-, rfl⟩ := doneShardKey_cases hstep
        rfl
    · have hlength := TransitionSystem.Run.length_le (decreasing_remainingSteps input) hrun
      exact (Nat.le_add_right _ _).trans hlength
    · obtain ⟨hreplied, hdeleted⟩ := replied_of_settled (poolInvariant_of_run hrun)
        (keyInvariant_of_run hplaced hrun) hsettled hparts
      exact ⟨inFlight_of_settled hsettled, hreplied, hdeleted⟩

end Returns

/-! ### A part with a key, and a part without -/

/-- A worker with one key and one peer. -/
theorem poolCorrect_oneKey : PoolCorrect { pivots := [5], keys := [3] } := by
  refine (poolCorrect_iff (by decide)).mpr fun part hpart ↦ ?_
  have hzero : part = 0 := Nat.lt_one_iff.mp hpart
  subst hzero
  decide

/-- A worker whose only key belongs to the first of two peers never replies: the buffer of the
second part does not come back. -/
theorem not_poolCorrect_of_emptyPart :
    ¬ ∀ input : ShuffleInput, acceptsPivots input.peers input.keys input.pivots = some true →
      PoolCorrect input := by
  intro hall
  have hcorrect := hall { pivots := [5, 9], keys := [3] } (by decide)
  let input : ShuffleInput := { pivots := [5, 9], keys := [3] }
  have haccepted : acceptsPivots input.peers input.keys input.pivots = some true := by decide
  obtain ⟨-, -, hplaced⟩ := keysPlaced_of_accepted haccepted
  obtain ⟨actions, shuffle, hrun, hsettled⟩ :=
    TransitionSystem.Run.exists_settled (decreasing_remainingSteps input) .start
  obtain ⟨-, hreplied, -⟩ := hcorrect.replies _ shuffle hrun hsettled
  have hpart : 1 < input.peers := by decide
  exact not_replied (poolInvariant_of_run hrun) (keyInvariant_of_run hplaced hrun) hpart
    (by decide) hreplied

end MuduoProtorpc.WordFreq
