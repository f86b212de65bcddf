import MuduoProtorpc.WordFreq.BufferPool

/-!
# The keys of a shuffle

Where the keys of a worker are while it shuffles them. The keys of a part, in their order, are those
that were sent to its peer, then those in its buffer, then those that were not looked at yet
(`OpenPart`); in the end all of them were sent (`FlushedPart`), and the buffer is left empty if and
only if their number is a multiple of the batch size. `keyInvariant_of_run` is that this holds in
every run on keys that have a part.
-/

set_option autoImplicit false
set_option relaxedAutoImplicit false

namespace MuduoProtorpc.WordFreq

open Foundation

/-! ### The keys of a part -/

/-- The keys of a part. -/
def keysOfPart (pivots : List ℤ) (part : ℕ) (keys : List ℤ) : List ℤ :=
  keys.filter fun key ↦ lowerBound pivots key = part

/-- The keys that were not looked at yet. -/
def Shuffle.rest (shuffle : Shuffle) : List ℤ :=
  match shuffle.phase with
  | .filling rest => rest
  | .taking _ rest => rest
  | _ => []

/-- The keys in the requests to a peer. -/
def keysSentTo (calls : List ShardKeyCall) (peer : ℕ) : List ℤ :=
  ((calls.filter fun call ↦ call.peer = peer).map fun call ↦ call.request.keys).flatten

/-- A part whose buffer is being filled: only full batches were sent. -/
structure OpenPart (input : ShuffleInput) (shuffle : Shuffle) (part : ℕ) : Prop where
  keys : keysOfPart input.pivots part input.keys = keysSentTo shuffle.sent part ++
    shuffle.partKeys part ++ keysOfPart input.pivots part shuffle.rest
  batches : (keysSentTo shuffle.sent part).length % kBatch = 0
  short : (shuffle.partKeys part).length < kBatch

/-- A part whose buffer was sent, and a new one is waited for. -/
structure SentPart (input : ShuffleInput) (shuffle : Shuffle) (part : ℕ) : Prop where
  keys : keysOfPart input.pivots part input.keys = keysSentTo shuffle.sent part ++
    keysOfPart input.pivots part shuffle.rest
  batches : (keysSentTo shuffle.sent part).length % kBatch = 0

/-- A part that the second loop has left behind. -/
structure FlushedPart (input : ShuffleInput) (shuffle : Shuffle) (part : ℕ) : Prop where
  keys : keysOfPart input.pivots part input.keys = keysSentTo shuffle.sent part
  empty : shuffle.partKeys part = [] ↔
    (keysOfPart input.pivots part input.keys).length % kBatch = 0

/-- What holds of a part, depending on where the shuffle stands. -/
def PartInvariant (input : ShuffleInput) (shuffle : Shuffle) (part : ℕ) : Prop :=
  match shuffle.phase with
  | .filling _ => OpenPart input shuffle part
  | .taking taken _ =>
    if part = taken then SentPart input shuffle part else OpenPart input shuffle part
  | .flushing current =>
    if current ≤ part then OpenPart input shuffle part else FlushedPart input shuffle part
  | .draining _ => FlushedPart input shuffle part
  | .replied => FlushedPart input shuffle part
  | .aborted _ => False

/-- Every key has a part. -/
def KeysPlaced (input : ShuffleInput) : Prop :=
  ∀ key ∈ input.keys, lowerBound input.pivots key < input.peers

/-- The keys are where they should be, and what was sent is addressed as it should be. -/
structure KeyInvariant (input : ShuffleInput) (shuffle : Shuffle) : Prop where
  parts : ∀ part < input.peers, PartInvariant input shuffle part
  rest : ∀ key ∈ shuffle.rest, key ∈ input.keys
  running : ∀ assertion, shuffle.phase ≠ .aborted assertion
  sent : ∀ call ∈ shuffle.sent, call.peer < input.peers ∧
    call.request.partition = some call.peer ∧ call.request.keys ≠ []

section Keys

variable {input : ShuffleInput} {shuffle next : Shuffle} {part : ℕ}

theorem keysSentTo_append (calls : List ShardKeyCall) (call : ShardKeyCall) (peer : ℕ) :
    keysSentTo (calls ++ [call]) peer =
      keysSentTo calls peer ++ if call.peer = peer then call.request.keys else [] := by
  simp only [keysSentTo, List.filter_append, List.map_append, List.flatten_append]
  congr 1
  by_cases hpeer : call.peer = peer
  · simp [hpeer]
  · simp [hpeer]

/-- What is sent to a peer by `shardKey` are the keys in the buffer. -/
theorem keysSentTo_shardKey (shuffle : Shuffle) (part other : ℕ) :
    keysSentTo (shuffle.shardKey part).sent other =
      keysSentTo shuffle.sent other ++ if part = other then shuffle.partKeys part else [] :=
  keysSentTo_append _ _ _

theorem keysOfPart_cons (pivots : List ℤ) (part : ℕ) (key : ℤ) (rest : List ℤ) :
    keysOfPart pivots part (key :: rest) =
      (if lowerBound pivots key = part then [key] else []) ++ keysOfPart pivots part rest := by
  by_cases hpart : lowerBound pivots key = part
  · simp [keysOfPart, hpart]
  · simp [keysOfPart, hpart]

/-- A part that is left behind with its last keys sent, or with none left. -/
theorem OpenPart.flushed (hopen : OpenPart input shuffle part) (hrest : shuffle.rest = [])
    (hkept : next.partKeys part = shuffle.partKeys part)
    (hsent : keysSentTo next.sent part = keysSentTo shuffle.sent part ++ shuffle.partKeys part) :
    FlushedPart input next part := by
  have hkeys : keysOfPart input.pivots part input.keys =
      keysSentTo shuffle.sent part ++ shuffle.partKeys part := by
    rw [hopen.keys, hrest]
    simp [keysOfPart]
  refine ⟨hkeys.trans hsent.symm, ?_⟩
  have hbatches := hopen.batches
  have hshort := hopen.short
  rw [hkept, hkeys, List.length_append, ← List.length_eq_zero_iff]
  simp only [kBatch] at hbatches hshort ⊢
  omega

/-- A key of another part changes nothing for a part. -/
theorem OpenPart.add_other (hopen : OpenPart input shuffle part) {key : ℤ} {rest : List ℤ}
    (hphase : shuffle.rest = key :: rest) (hne : lowerBound input.pivots key ≠ part)
    (hrest : next.rest = rest) (hkept : next.partKeys part = shuffle.partKeys part)
    (hsent : keysSentTo next.sent part = keysSentTo shuffle.sent part) :
    OpenPart input next part := by
  obtain ⟨hkeys, hbatches, hshort⟩ := hopen
  rw [hphase, keysOfPart_cons, if_neg hne, List.nil_append] at hkeys
  exact ⟨by rw [hkeys, hrest, hkept, hsent], by rwa [hsent], by rwa [hkept]⟩

/-- Nothing that a part depends on has changed. -/
theorem OpenPart.congr (hopen : OpenPart input shuffle part) (hrest : next.rest = shuffle.rest)
    (hkept : next.partKeys part = shuffle.partKeys part)
    (hsent : keysSentTo next.sent part = keysSentTo shuffle.sent part) :
    OpenPart input next part :=
  ⟨by rw [hrest, hkept, hsent]; exact hopen.keys, by rw [hsent]; exact hopen.batches,
    by rw [hkept]; exact hopen.short⟩

theorem FlushedPart.congr (hflushed : FlushedPart input shuffle part)
    (hkept : next.partKeys part = shuffle.partKeys part)
    (hsent : keysSentTo next.sent part = keysSentTo shuffle.sent part) :
    FlushedPart input next part :=
  ⟨by rw [hsent]; exact hflushed.keys, by rw [hkept]; exact hflushed.empty⟩

/-! ### Every step keeps the keys in their places -/

variable {key : ℤ} {rest free : List ℤ}

/-- In the first loop a key goes to the buffer of its part alone. -/
theorem PoolInvariant.partKeys_addKey (hpool : PoolInvariant input shuffle)
    (hphase : shuffle.phase = .filling (key :: rest)) (hpart : part < input.peers) {other : ℕ}
    (hother : other < input.peers) : (shuffle.addKey part key).partKeys other =
      if other = part then shuffle.partKeys other ++ [key] else shuffle.partKeys other := by
  have hunsent : ∀ part, shuffle.unsent part = true := by simp [Shuffle.unsent, hphase]
  rw [MuduoProtorpc.WordFreq.partKeys_addKey]
  by_cases hsame : other = part
  · rw [if_pos (congrArg shuffle.shardRequests hsame), if_pos hsame]
  · have hne : shuffle.shardRequests other ≠ shuffle.shardRequests part := fun hequal ↦
      hsame (hpool.shardRequests_inj hother hpart (hunsent other) (hunsent part) hequal)
    rw [if_neg hne, if_neg hsame]

/-- The keys of the part to which the next key belongs, with this key. -/
theorem OpenPart.keys_add (hopen : OpenPart input shuffle part)
    (hrest : shuffle.rest = key :: rest) (hbound : lowerBound input.pivots key = part) :
    keysOfPart input.pivots part input.keys = keysSentTo shuffle.sent part ++
      (shuffle.partKeys part ++ [key]) ++ keysOfPart input.pivots part rest := by
  rw [hopen.keys, hrest, keysOfPart_cons, if_pos hbound]
  simp only [List.append_assoc]

/-- A key is added to the buffer of its part. -/
theorem KeyInvariant.add (hinvariant : KeyInvariant input shuffle)
    (hpool : PoolInvariant input shuffle) (hphase : shuffle.phase = .filling (key :: rest))
    (hbound : lowerBound input.pivots key = part) (hpart : part < input.peers)
    (hbatch : (shuffle.addKey part key |>.partKeys part).length < kBatch) :
    KeyInvariant input { shuffle.addKey part key with phase := .filling rest } := by
  have hrest : shuffle.rest = key :: rest := by simp [Shuffle.rest, hphase]
  refine ⟨fun other hother ↦ ?_, fun found hfound ↦ hinvariant.rest found ?_, by simp,
    hinvariant.sent⟩
  · have hopen := hinvariant.parts other hother
    simp only [PartInvariant, hphase] at hopen
    have hkept := hpool.partKeys_addKey hphase hpart hother
    show OpenPart input _ other
    by_cases hsame : other = part
    · subst hsame
      rw [if_pos rfl] at hkept
      exact {
        keys := by
          rw [hopen.keys_add hrest hbound, ← hkept]
          rfl
        batches := hopen.batches
        short := hbatch }
    · rw [if_neg hsame] at hkept
      exact hopen.add_other hrest (fun hequal ↦ hsame (hequal.symm.trans hbound)) rfl hkept rfl
  · rw [hrest]
    exact List.mem_cons_of_mem key hfound

/-- A key fills the buffer of its part, and the buffer is sent. -/
theorem KeyInvariant.send (hinvariant : KeyInvariant input shuffle)
    (hpool : PoolInvariant input shuffle) (hphase : shuffle.phase = .filling (key :: rest))
    (hbound : lowerBound input.pivots key = part) (hpart : part < input.peers)
    (hbatch : kBatch ≤ (shuffle.addKey part key |>.partKeys part).length) :
    KeyInvariant input
      { (shuffle.addKey part key).shardKey part with phase := .taking part rest } := by
  have hrest : shuffle.rest = key :: rest := by simp [Shuffle.rest, hphase]
  have hunsent : ∀ part, shuffle.unsent part = true := by simp [Shuffle.unsent, hphase]
  have hopen := hinvariant.parts part hpart
  simp only [PartInvariant, hphase] at hopen
  have hadded := hpool.partKeys_addKey hphase hpart hpart
  rw [if_pos rfl] at hadded
  refine ⟨fun other hother ↦ ?_, fun found hfound ↦ hinvariant.rest found ?_, by simp,
    fun call hcall ↦ ?_⟩
  · have hsent := keysSentTo_shardKey (shuffle.addKey part key) part other
    by_cases hsame : other = part
    · subst hsame
      rw [if_pos rfl, hadded] at hsent
      have hfull : (shuffle.partKeys other ++ [key]).length = kBatch := by
        have hshort := hopen.short
        rw [hadded] at hbatch
        rw [List.length_append, List.length_singleton] at hbatch ⊢
        omega
      have hnext : SentPart input { (shuffle.addKey other key).shardKey other with
          phase := .taking other rest } other := {
        keys := by
          rw [hopen.keys_add hrest hbound]
          exact congrArg (· ++ _) hsent.symm
        batches := by
          have hlength := congrArg List.length hsent
          rw [List.length_append, hfull] at hlength
          refine (congrArg (· % kBatch) hlength).trans ?_
          simp only [Nat.add_mod_right]
          exact hopen.batches }
      simpa [PartInvariant] using hnext
    · rw [if_neg (Ne.symm hsame), List.append_nil] at hsent
      have hkept := hpool.partKeys_addKey hphase hpart hother
      rw [if_neg hsame, ← partKeys_shardKey part] at hkept
      have hbefore := hinvariant.parts other hother
      simp only [PartInvariant, hphase] at hbefore
      have hnext : OpenPart input { (shuffle.addKey part key).shardKey part with
          phase := .taking part rest } other :=
        hbefore.add_other hrest (fun hequal ↦ hsame (hequal.symm.trans hbound)) rfl hkept hsent
      simpa [PartInvariant, hsame] using hnext
  · rw [hrest]
    exact List.mem_cons_of_mem key hfound
  · rcases List.mem_append.mp hcall with hold | hnew
    · exact hinvariant.sent call hold
    · obtain rfl := List.mem_singleton.mp hnew
      refine ⟨hpart, rfl, ?_⟩
      have hkeys : (shuffle.addKey part key).partKeys part ≠ [] := by simp [hadded]
      exact hkeys

/-- A new buffer is taken for the part whose buffer was sent. -/
theorem KeyInvariant.take (hinvariant : KeyInvariant input shuffle)
    (hpool : PoolInvariant input shuffle) {shardReq : ℕ} {freeShards : List ℕ}
    (hphase : shuffle.phase = .taking part rest)
    (hfree : shuffle.freeShards = shardReq :: freeShards) :
    KeyInvariant input { shuffle with
      heap := Function.update shuffle.heap shardReq {}
      shardRequests := Function.update shuffle.shardRequests part shardReq
      freeShards := freeShards
      phase := .filling rest } := by
  have hrest : shuffle.rest = rest := by simp [Shuffle.rest, hphase]
  refine ⟨fun other hother ↦ ?_, fun found hfound ↦ hinvariant.rest found ?_, by simp,
    hinvariant.sent⟩
  · have hbefore := hinvariant.parts other hother
    simp only [PartInvariant, hphase] at hbefore
    show OpenPart input _ other
    by_cases hsame : other = part
    · subst hsame
      rw [if_pos rfl] at hbefore
      obtain ⟨hkeys, hbatches⟩ := hbefore
      rw [hrest] at hkeys
      refine ⟨?_, hbatches, ?_⟩
      · simpa [Shuffle.partKeys, Shuffle.rest] using hkeys
      · simp [Shuffle.partKeys, kBatch]
    · rw [if_neg hsame] at hbefore
      have hunsent : shuffle.unsent other = true := by simp [Shuffle.unsent, hphase, hsame]
      have hne : shuffle.shardRequests other ≠ shardReq := by
        rintro rfl
        exact (hpool.filled_notMem hother hunsent).2 (by simp [hfree])
      refine hbefore.congr ?_ ?_ rfl
      · simp [Shuffle.rest, hphase]
      · simp only [Shuffle.partKeys, Function.update_of_ne hsame, Function.update_of_ne hne]
  · rwa [hrest]

/-- The second loop goes on to the next part, with the keys in the buffer of this one sent. -/
theorem PartInvariant.next_part {other : ℕ} (hbefore : PartInvariant input shuffle other)
    (hphase : shuffle.phase = .flushing part) (hnext : next.phase = .flushing (part + 1))
    (hkept : next.partKeys other = shuffle.partKeys other)
    (hsent : keysSentTo next.sent other =
      keysSentTo shuffle.sent other ++ if part = other then shuffle.partKeys part else []) :
    PartInvariant input next other := by
  have hrest : shuffle.rest = [] := by simp [Shuffle.rest, hphase]
  have hnextRest : next.rest = [] := by simp [Shuffle.rest, hnext]
  simp only [PartInvariant, hphase, hnext] at hbefore ⊢
  rcases Nat.lt_trichotomy other part with hless | rfl | hgreater
  · rw [if_neg (by omega)] at hbefore ⊢
    rw [if_neg (by omega), List.append_nil] at hsent
    exact hbefore.congr hkept hsent
  · rw [if_pos (Nat.le_refl other)] at hbefore
    rw [if_neg (by omega)]
    rw [if_pos rfl] at hsent
    exact hbefore.flushed hrest hkept hsent
  · rw [if_pos (by omega)] at hbefore ⊢
    rw [if_neg (by omega), List.append_nil] at hsent
    exact hbefore.congr (hnextRest.trans hrest.symm) hkept hsent

/-- The second loop sends the buffer of a part. -/
theorem KeyInvariant.flush (hinvariant : KeyInvariant input shuffle)
    (hphase : shuffle.phase = .flushing part) (hpart : part < input.peers)
    (hkeys : shuffle.partKeys part ≠ []) :
    KeyInvariant input { shuffle.shardKey part with phase := .flushing (part + 1) } := by
  refine ⟨fun other hother ↦ ?_, fun found hfound ↦ (by cases hfound), by simp,
    fun call hcall ↦ ?_⟩
  · exact (hinvariant.parts other hother).next_part hphase rfl (partKeys_shardKey part other)
      (keysSentTo_shardKey shuffle part other)
  · rcases List.mem_append.mp hcall with hold | hnew
    · exact hinvariant.sent call hold
    · obtain rfl := List.mem_singleton.mp hnew
      exact ⟨hpart, rfl, hkeys⟩

/-- Every step of a shuffle whose keys have parts keeps the keys in their places. -/
theorem KeyInvariant.moved (hinvariant : KeyInvariant input shuffle)
    (hpool : PoolInvariant input shuffle) (hplaced : KeysPlaced input)
    (hmoved : ShuffleMoved input shuffle next) : KeyInvariant input next := by
  cases hmoved with
  | filled hphase =>
    refine ⟨fun part hpart ↦ ?_, fun found hfound ↦ (by cases hfound), by simp, hinvariant.sent⟩
    have hbefore := hinvariant.parts part hpart
    simp only [PartInvariant, hphase] at hbefore ⊢
    rw [if_pos (Nat.zero_le part)]
    refine hbefore.congr ?_ rfl rfl
    simp [Shuffle.rest, hphase]
  | @misplaced key rest hphase hend =>
    have hkey := hinvariant.rest key (by simp [Shuffle.rest, hphase])
    exact absurd hend (Nat.ne_of_lt (hplaced key hkey))
  | add hphase hbound hpart hbatch => exact hinvariant.add hpool hphase hbound hpart hbatch
  | send hphase hbound hpart hbatch => exact hinvariant.send hpool hphase hbound hpart hbatch
  | take hphase hfree => exact hinvariant.take hpool hphase hfree
  | flush hphase hpart hkeys => exact hinvariant.flush hphase hpart hkeys
  | @skip part hphase hpart hkeys =>
    refine ⟨fun other hother ↦ ?_, fun found hfound ↦ (by cases hfound), by simp, hinvariant.sent⟩
    refine (hinvariant.parts other hother).next_part hphase rfl rfl ?_
    simp [hkeys]
  | @flushed part hphase hpart =>
    refine ⟨fun other hother ↦ ?_, fun found hfound ↦ (by cases hfound), by simp, hinvariant.sent⟩
    have hbefore := hinvariant.parts other hother
    simp only [PartInvariant, hphase] at hbefore
    rw [if_neg (by omega)] at hbefore
    exact hbefore.congr rfl rfl
  | drain hphase _ _ =>
    refine ⟨fun other hother ↦ ?_, fun found hfound ↦ (by cases hfound), by simp, hinvariant.sent⟩
    have hbefore := hinvariant.parts other hother
    simp only [PartInvariant, hphase] at hbefore
    exact hbefore.congr rfl rfl
  | reply hphase _ =>
    refine ⟨fun other hother ↦ ?_, fun found hfound ↦ (by cases hfound), by simp, hinvariant.sent⟩
    have hbefore := hinvariant.parts other hother
    simp only [PartInvariant, hphase] at hbefore
    exact hbefore.congr rfl rfl

theorem keyInvariant_initial (input : ShuffleInput) : KeyInvariant input (.initial input) := by
  refine ⟨fun part _ ↦ ?_, fun key hkey ↦ hkey, by simp [Shuffle.initial],
    fun call hcall ↦ (by cases hcall)⟩
  show OpenPart input (.initial input) part
  exact ⟨rfl, rfl, by simp [Shuffle.partKeys, Shuffle.initial, kBatch]⟩

/-- What holds of a part does not depend on which buffers are free or in flight. -/
theorem PartInvariant.congr (hbefore : PartInvariant input shuffle part)
    (hphase : next.phase = shuffle.phase) (hkept : next.partKeys part = shuffle.partKeys part)
    (hsent : keysSentTo next.sent part = keysSentTo shuffle.sent part) :
    PartInvariant input next part := by
  have hrest : next.rest = shuffle.rest := by simp only [Shuffle.rest, hphase]
  unfold PartInvariant at hbefore ⊢
  rw [hphase]
  split at hbefore
  · exact hbefore.congr hrest hkept hsent
  · split_ifs at hbefore ⊢ with hpart
    · exact ⟨by rw [hrest, hsent]; exact hbefore.keys, by rw [hsent]; exact hbefore.batches⟩
    · exact hbefore.congr hrest hkept hsent
  · split_ifs at hbefore ⊢ with hpart
    · exact hbefore.congr hrest hkept hsent
    · exact hbefore.congr hkept hsent
  · exact hbefore.congr hkept hsent
  · exact hbefore.congr hkept hsent
  · exact hbefore

/-- In every run on keys that have parts, the keys are where they should be. -/
theorem keyInvariant_of_run {actions : List ShuffleAction} (hplaced : KeysPlaced input)
    (hrun : (shuffleSystem input).Run actions shuffle) : KeyInvariant input shuffle := by
  induction hrun with
  | start => exact keyInvariant_initial input
  | @step actions state next action hrun _ hstep ih =>
    cases action with
    | thread => exact ih.moved (poolInvariant_of_run hrun) hplaced (shuffleStep_cases hstep)
    | complete shardReq =>
      obtain ⟨-, rfl⟩ := doneShardKey_cases hstep
      exact ⟨fun part hpart ↦ (ih.parts part hpart).congr rfl rfl rfl, ih.rest, ih.running,
        ih.sent⟩

end Keys

end MuduoProtorpc.WordFreq
