import MuduoProtorpc.Collect.CacheEntries
import MuduoProtorpc.Foundation.TransitionSystem
import MuduoProtorpc.Wire.RpcMessage

/-!
# `ProcFs::readFile`

The calls that `ProcFs` makes of its file cache: `readFile`, and the sentry set and the sweep of
`fill`. `getFile` with `kKeep` opens a file again when it has no descriptor. With `kLRU` it does not
look at the descriptor that it finds in `map_`, so a file whose `open` has failed is not opened
again as long as its entry is there (`failedOpen_forgotten_iff`).
-/

set_option autoImplicit false
set_option relaxedAutoImplicit false

namespace MuduoProtorpc.Collect

open Foundation

/-! ### The calls -/

/-- `readFile`, with what `open` returns if it is called and what `pread` reads, if it reads.
The result is what `content_` is set to, if the file could be read. -/
def FileCache.readFile (cache : FileCache) (filename : String) (level : CacheLevel) (result : ℤ)
    (content : Option Bytes) : Option (Option Bytes × FileCache) :=
  if level = .noCache then some (content, cache)
  else do
    let (fd, next) ← cache.getFile filename level result
    if 0 ≤ fd then
      match content with
      | some content => return (some content, next)
      | none =>
        let closed ← next.closeFile filename
        return (none, closed)
    else return (none, next)

/-- The calls, with the results of the calls of the system. -/
inductive CollectCall
  | readFile (filename : String) (level : CacheLevel) (result : ℤ) (content : Option Bytes)
  | setSentryFile (sentry : String) (result : ℤ)
  | closeUnusedFiles (sentry : String)

/-- The cache of a `ProcFs`, and the calls it gets. -/
def collectSystem (maxFiles : ℕ) : TransitionSystem FileCache CollectCall where
  start := FileCache.new maxFiles
  step := fun cache call ↦
    match call with
    | .readFile filename level result content =>
      (cache.readFile filename level result content).map Prod.snd
    | .setSentryFile sentry result => (cache.getFile sentry .lru result).map Prod.snd
    | .closeUnusedFiles sentry => cache.closeUnusedFiles sentry

/-! ### Failed attempts to open a file -/

/-- If `getFile` returns a negative descriptor, it has called `open`, and `open` has failed. -/
def FileCache.OpensOnFailure (cache : FileCache) (filename : String) (level : CacheLevel)
    (result : ℤ) : Prop :=
  ∀ fd next, cache.getFile filename level result = some (fd, next) → fd < 0 →
    next.opened = cache.opened ++ [result] ∧ result < 0

/-- What is promised of a call: `getFile` returns a negative descriptor only after an attempt to
open the file, and a file that can be opened and read is read. -/
def CollectCall.Promised (cache : FileCache) : CollectCall → Prop
  | .readFile filename level result content =>
    cache.OpensOnFailure filename level result ∧
      ∀ bytes next, 0 ≤ result →
        cache.readFile filename level result content = some (bytes, next) → bytes = content
  | .setSentryFile sentry result => cache.OpensOnFailure sentry .lru result
  | .closeUnusedFiles _ => True

/-- `map_` has an entry of the file that `open` has failed for. -/
def FileCache.Remembers (cache : FileCache) (filename : String) : Prop :=
  ∃ entry, cache.map.lookup filename = some entry ∧ entry.first.valid = false

/-- A call with `kLRU` does not find such an entry. -/
def CollectCall.Fresh (cache : FileCache) : CollectCall → Prop
  | .readFile filename level _ _ => ¬ (level = .lru ∧ cache.Remembers filename)
  | .setSentryFile sentry _ => ¬ cache.Remembers sentry
  | .closeUnusedFiles _ => True

section GetFile

variable {cache next : FileCache} {filename : String} {level : CacheLevel} {result fd : ℤ}
  {content : Option Bytes}

theorem valid_iff (file : File) : file.valid = true ↔ 0 ≤ file.fd :=
  decide_eq_true_iff

theorem valid_eq_false_iff (file : File) : file.valid = false ↔ file.fd < 0 := by
  rw [← Bool.not_eq_true, valid_iff, not_le]

/-- With `kKeep`, a negative descriptor is what `open` has just returned. -/
theorem opensOnFailure_keep (cache : FileCache) (filename : String) (result : ℤ) :
    cache.OpensOnFailure filename .keep result := by
  intro fd next hget hnegative
  simp only [FileCache.getFile] at hget
  split_ifs at hget with hvalid
  · obtain ⟨rfl, -⟩ := Prod.mk.inj (Option.some.inj hget)
    exact absurd ((valid_iff _).mp hvalid) (not_le.mpr hnegative)
  · obtain ⟨rfl, rfl⟩ := Prod.mk.inj (Option.some.inj hget)
    exact ⟨rfl, hnegative⟩

/-- With `kLRU`, that is so unless `map_` has the file without a descriptor. -/
theorem opensOnFailure_lru_iff (hget : cache.getFile filename .lru result = some (fd, next)) :
    cache.OpensOnFailure filename .lru result ↔ ¬ cache.Remembers filename := by
  constructor
  · rintro hopens ⟨entry, hentry, hinvalid⟩
    rcases FileCache.getFile_lru_cases hget with ⟨found, list, hfound, rfl, rfl⟩ | ⟨hnew, -, -⟩
    · obtain rfl := Option.some.inj (hentry.symm.trans hfound)
      obtain ⟨hopened, -⟩ := hopens _ _ hget ((valid_eq_false_iff _).mp hinvalid)
      exact absurd hopened (by simp)
    · rw [hnew] at hentry
      cases hentry
  · intro hfresh fd next hget hnegative
    rcases FileCache.getFile_lru_cases hget with ⟨found, list, hfound, rfl, -⟩ | ⟨-, hdrops, rfl⟩
    · exact absurd ⟨found, hfound, (valid_eq_false_iff _).mpr hnegative⟩ hfresh
    · exact ⟨hdrops.opened_eq, hnegative⟩

/-- A call of `readFile` with a cache level begins with `getFile`. -/
theorem readFile_eq_some {bytes : Option Bytes} (hlevel : level ≠ .noCache)
    (hread : cache.readFile filename level result content = some (bytes, next)) :
    ∃ fd found, cache.getFile filename level result = some (fd, found) ∧
      bytes = if 0 ≤ fd then content else none := by
  rw [FileCache.readFile, if_neg hlevel] at hread
  obtain ⟨⟨fd, found⟩, hget, hread⟩ := Option.bind_eq_some_iff.mp hread
  refine ⟨fd, found, hget, ?_⟩
  simp only at hread
  split_ifs at hread ⊢ with hopen
  · cases content with
    | some content =>
      obtain ⟨rfl, -⟩ := Prod.mk.inj (Option.some.inj hread)
      rfl
    | none =>
      obtain ⟨closed, -, hread⟩ := Option.bind_eq_some_iff.mp hread
      obtain ⟨rfl, -⟩ := Prod.mk.inj (Option.some.inj hread)
      rfl
  · obtain ⟨rfl, -⟩ := Prod.mk.inj (Option.some.inj hread)
    rfl

/-- If negative descriptors come from failed attempts, a file that can be opened is read. -/
theorem FileCache.OpensOnFailure.reads (hopens : cache.OpensOnFailure filename level result)
    {bytes : Option Bytes} (hresult : 0 ≤ result)
    (hread : cache.readFile filename level result content = some (bytes, next)) :
    bytes = content := by
  by_cases hlevel : level = .noCache
  · rw [FileCache.readFile, if_pos hlevel] at hread
    exact (Prod.mk.inj (Option.some.inj hread)).1.symm
  · obtain ⟨fd, found, hget, rfl⟩ := readFile_eq_some hlevel hread
    apply if_pos
    by_contra hnegative
    obtain ⟨-, hfailed⟩ := hopens fd found hget (not_le.mp hnegative)
    exact absurd hresult (not_le.mpr hfailed)

end GetFile

section Calls

variable {maxFiles : ℕ} {cache next : FileCache} {call : CollectCall}

/-- A call is as promised if and only if it does not meet a failed attempt. -/
theorem promised_iff_fresh (hstep : (collectSystem maxFiles).step cache call = some next) :
    call.Promised cache ↔ call.Fresh cache := by
  cases call with
  | closeUnusedFiles sentry => exact Iff.rfl
  | setSentryFile sentry result =>
    obtain ⟨⟨fd, found⟩, hget, -⟩ := Option.map_eq_some_iff.mp hstep
    exact opensOnFailure_lru_iff hget
  | readFile filename level result content =>
    obtain ⟨⟨bytes, last⟩, hread, -⟩ := Option.map_eq_some_iff.mp hstep
    have hpromised : (CollectCall.readFile filename level result content).Promised cache ↔
        cache.OpensOnFailure filename level result :=
      ⟨And.left, fun hopens ↦ ⟨hopens, fun _ _ hresult hread ↦ hopens.reads hresult hread⟩⟩
    rw [hpromised]
    cases level with
    | noCache =>
      constructor
      · rintro - ⟨hlevel, -⟩
        cases hlevel
      · rintro - fd found hget
        cases hget
    | keep =>
      constructor
      · rintro - ⟨hlevel, -⟩
        cases hlevel
      · intro _
        exact opensOnFailure_keep cache filename result
    | lru =>
      obtain ⟨fd, found, hget, -⟩ := readFile_eq_some (by decide) hread
      rw [opensOnFailure_lru_iff hget]
      exact not_congr (and_iff_right rfl).symm

end Calls

/-- A statement about a cache and a call holds of all calls of a sequence. -/
def EachCall (maxFiles : ℕ) (calls : List CollectCall) (holds : FileCache → CollectCall → Prop) :
    Prop :=
  ∀ before call after cache, calls = before ++ call :: after →
    (collectSystem maxFiles).execute (collectSystem maxFiles).start before = some cache →
      holds cache call

/-- Each call of an execution has its step. -/
theorem eachCall_congr {maxFiles : ℕ} {calls : List CollectCall} {last : FileCache}
    {left right : FileCache → CollectCall → Prop}
    (hrun : (collectSystem maxFiles).execute (collectSystem maxFiles).start calls = some last)
    (hcall : ∀ cache call next, (collectSystem maxFiles).step cache call = some next →
      (left cache call ↔ right cache call)) :
    EachCall maxFiles calls left ↔ EachCall maxFiles calls right := by
  have hstep : ∀ before call after cache, calls = before ++ call :: after →
      (collectSystem maxFiles).execute (collectSystem maxFiles).start before = some cache →
        (left cache call ↔ right cache call) := by
    intro before call after cache hcalls hbefore
    rw [hcalls] at hrun
    obtain ⟨next, hnext⟩ := TransitionSystem.exists_step_of_execute _ hbefore hrun
    exact hcall cache call next hnext
  constructor
  · intro hleft before call after cache hcalls hbefore
    exact (hstep before call after cache hcalls hbefore).mp (hleft _ _ _ _ hcalls hbefore)
  · intro hright before call after cache hcalls hbefore
    exact (hstep before call after cache hcalls hbefore).mpr (hright _ _ _ _ hcalls hbefore)

/-- In a run, all calls are as promised if and only if none finds an entry that `open` has failed
for. -/
theorem failedOpen_forgotten_iff {maxFiles : ℕ} {calls : List CollectCall} {last : FileCache}
    (hrun : (collectSystem maxFiles).execute (collectSystem maxFiles).start calls = some last) :
    EachCall maxFiles calls (fun cache call ↦ call.Promised cache) ↔
      EachCall maxFiles calls (fun cache call ↦ call.Fresh cache) :=
  eachCall_congr hrun fun _ _ _ ↦ promised_iff_fresh

/-- The descriptors run out when a stat file is read for the first time, and are there again in the
next cycle. -/
def outOfDescriptors : List CollectCall :=
  [.setSentryFile "/dev/null" 3, .readFile "/proc/1/stat" .lru (-1) none,
    .closeUnusedFiles "/dev/null", .setSentryFile "/dev/null" (-1),
    .readFile "/proc/1/stat" .lru 4 (some [49]), .closeUnusedFiles "/dev/null"]

theorem failedOpen_forgotten_outOfDescriptors : ∃ last,
    (collectSystem 1000).execute (collectSystem 1000).start outOfDescriptors = some last ∧
      (EachCall 1000 outOfDescriptors (fun cache call ↦ call.Promised cache) ↔
        EachCall 1000 outOfDescriptors (fun cache call ↦ call.Fresh cache)) := by
  have hrun : ((collectSystem 1000).execute (collectSystem 1000).start
      outOfDescriptors).isSome = true := by
    decide +kernel
  obtain ⟨last, hlast⟩ := Option.isSome_iff_exists.mp hrun
  exact ⟨last, hlast, failedOpen_forgotten_iff hlast⟩

/-- The second attempt to read the file finds the first, and opens nothing. -/
theorem failedOpen_remembered :
    ¬ ∀ maxFiles calls last,
      (collectSystem maxFiles).execute (collectSystem maxFiles).start calls = some last →
        EachCall maxFiles calls (fun cache call ↦ call.Promised cache) := by
  intro hpromised
  have hrun : ((collectSystem 1000).execute (collectSystem 1000).start
      outOfDescriptors).isSome = true := by
    decide +kernel
  obtain ⟨last, hlast⟩ := Option.isSome_iff_exists.mp hrun
  have hbefore : ((collectSystem 1000).execute (collectSystem 1000).start
      (outOfDescriptors.take 4)).isSome = true := by
    decide +kernel
  obtain ⟨cache, hcache⟩ := Option.isSome_iff_exists.mp hbefore
  have hread : (((collectSystem 1000).execute (collectSystem 1000).start
      (outOfDescriptors.take 4)).bind fun cache ↦
        (cache.readFile "/proc/1/stat" .lru 4 (some [49])).map Prod.fst) = some none := by
    decide +kernel
  rw [hcache] at hread
  obtain ⟨⟨bytes, next⟩, hnext, rfl⟩ := Option.map_eq_some_iff.mp hread
  obtain ⟨-, hreads⟩ := hpromised 1000 outOfDescriptors last hlast _
    (.readFile "/proc/1/stat" .lru 4 (some [49])) _ cache rfl hcache
  cases hreads none next (by decide) hnext

end MuduoProtorpc.Collect
