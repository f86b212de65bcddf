import MuduoProtorpc.Collect.CacheEntries

/-!
# The sentry sweep

`ProcFs::fill` uses a sentry file at the start of a cycle, and closes at its end the files behind it
(`setSentryFile`, `closeUnusedFiles`). What is left are the files of the cycle (`sentrySweep`), also
when they have pushed the sentry out of the cache.

The names in the cache are marked by the sentry, in the sense of `Foundation.Marked`. An entry is
retained until its descriptor is closed, so a name that is not cached any more has had all its
descriptors closed.
-/

set_option autoImplicit false
set_option relaxedAutoImplicit false

namespace MuduoProtorpc.Collect

open Foundation

/-! ### A cycle -/

/-- `setSentryFile`, with what `open` returns if it is called. -/
def FileCache.setSentryFile (cache : FileCache) (sentry : String) (result : ℤ) :
    Option FileCache :=
  (cache.getFile sentry .lru result).map Prod.snd

/-- A call of a cycle: a file other than the sentry is used or closed. -/
def CacheCall.InCycle (sentry : String) : CacheCall → Prop
  | .getFile filename level _ => level = .lru ∧ filename ≠ sentry
  | .closeFile filename => filename ≠ sentry
  | .closeUnusedFiles _ => False

/-- The file that a call looks for in `map_`. -/
def CacheCall.usedFile : CacheCall → Option String
  | .getFile filename .lru _ => some filename
  | .getFile _ _ _ => none
  | .closeFile _ => none
  | .closeUnusedFiles _ => none

def usedFiles (calls : List CacheCall) : List String :=
  calls.filterMap CacheCall.usedFile

section Cycle

variable {maxFiles : ℕ} {calls cycle : List CacheCall} {call : CacheCall} {sentry : String}
  {cache next : FileCache}

theorem usedNames_events (calls : List CacheCall) :
    usedNames (calls.flatMap CacheCall.events) = usedFiles calls := by
  induction calls with
  | nil => rfl
  | cons call rest ih =>
    unfold usedNames usedFiles at ih ⊢
    rw [List.flatMap_cons, List.filterMap_append, ih, List.filterMap_cons]
    match call with
    | .getFile filename .noCache result => rfl
    | .getFile filename .lru result => rfl
    | .getFile filename .keep result => rfl
    | .closeFile filename => rfl
    | .closeUnusedFiles sentry => rfl

theorem CacheCall.InCycle.asserted (hcall : call.InCycle sentry) : call.Asserted := by
  cases call with
  | getFile filename level result => exact Or.inr hcall.1
  | closeFile filename => trivial
  | closeUnusedFiles other => exact hcall.elim

theorem CacheCall.InCycle.beside (hcall : call.InCycle sentry) :
    ∀ event ∈ call.events, event.Beside sentry := by
  intro event hevent
  cases call with
  | getFile filename level result =>
    obtain ⟨rfl, hother⟩ := hcall
    rwa [List.mem_singleton.mp hevent]
  | closeFile filename => rwa [List.mem_singleton.mp hevent]
  | closeUnusedFiles other => exact hcall.elim

theorem step_retains (hstep : (cacheSystem maxFiles).step cache call = some next) :
    cache.Retains next := by
  cases call with
  | getFile filename level result =>
    obtain ⟨⟨fd, last⟩, hget, rfl⟩ := Option.map_eq_some_iff.mp hstep
    exact FileCache.getFile_retains hget
  | closeFile filename => exact (FileCache.closeFile_drops hstep).retains
  | closeUnusedFiles sentry => exact (FileCache.closeUnusedFiles_drops hstep).retains

theorem execute_retains (hexecute : (cacheSystem maxFiles).execute cache calls = some next) :
    cache.Retains next := by
  induction calls generalizing cache with
  | nil =>
    obtain rfl := Option.some.inj hexecute
    exact FileCache.Retains.refl cache
  | cons call rest ih =>
    obtain ⟨middle, hstep, hrest⟩ := Option.bind_eq_some_iff.mp hexecute
    exact (step_retains hstep).trans (ih hrest)

/-- A call of a cycle does nothing to `keep_`. -/
theorem CacheCall.InCycle.keep_eq (hcall : call.InCycle sentry)
    (hstep : (cacheSystem maxFiles).step cache call = some next) : next.keep = cache.keep := by
  cases call with
  | getFile filename level result =>
    obtain ⟨rfl, -⟩ := hcall
    obtain ⟨⟨fd, last⟩, hget, rfl⟩ := Option.map_eq_some_iff.mp hstep
    exact (FileCache.getFile_lru_retains hget).2
  | closeFile filename => exact (FileCache.closeFile_drops hstep).keep_eq
  | closeUnusedFiles other => exact hcall.elim

theorem execute_keep_eq (hcycle : ∀ call ∈ cycle, call.InCycle sentry)
    (hexecute : (cacheSystem maxFiles).execute cache cycle = some next) :
    next.keep = cache.keep := by
  induction cycle generalizing cache with
  | nil =>
    obtain rfl := Option.some.inj hexecute
    rfl
  | cons call rest ih =>
    obtain ⟨middle, hstep, hrest⟩ := Option.bind_eq_some_iff.mp hexecute
    obtain ⟨hcall, hlater⟩ := List.forall_mem_cons.mp hcycle
    exact (ih hlater hrest).trans (hcall.keep_eq hstep)

theorem CacheInvariant.execute (hmaxFiles : 1 ≤ maxFiles) {more : List CacheCall}
    (hasserted : ∀ call ∈ more, call.Asserted) (hinvariant : CacheInvariant maxFiles calls cache) :
    ∃ last, (cacheSystem maxFiles).execute cache more = some last ∧
      CacheInvariant maxFiles (calls ++ more) last := by
  induction more generalizing calls cache with
  | nil =>
    rw [List.append_nil]
    exact ⟨cache, rfl, hinvariant⟩
  | cons call rest ih =>
    obtain ⟨hcall, hrest⟩ := List.forall_mem_cons.mp hasserted
    obtain ⟨next, hstep, hnext⟩ := hinvariant.step hmaxFiles hcall
    obtain ⟨last, hexecute, hlast⟩ := ih hrest hnext
    rw [List.append_assoc, List.singleton_append] at hlast
    exact ⟨last, TransitionSystem.execute_cons _ hstep hexecute, hlast⟩

theorem FileCache.Ledger.nodup (hledger : cache.Ledger) : (cache.owned ++ cache.closed).Nodup :=
  hledger.nodup_iff.mpr (FileCache.nodup_returned cache.opened)

/-- A descriptor is closed once. -/
theorem FileCache.Ledger.count_closed (hledger : cache.Ledger) {file : File}
    (hclosed : file ∈ cache.closed) : cache.closed.count file = 1 :=
  List.count_eq_one_of_mem hledger.nodup.of_append_right hclosed

/-- The descriptor of an entry is open. -/
theorem FileCache.Ledger.not_mem_closed (hledger : cache.Ledger) {name : String} {entry : Entry}
    (hlookup : cache.map.lookup name = some entry) : entry.first ∉ cache.closed := by
  intro hclosed
  have hreturned := hledger.mem_iff.mp (List.mem_append_right _ hclosed)
  have hvalid : entry.first.valid = true := (List.mem_filter.mp hreturned).2
  have howned : entry.first ∈ cache.owned := by
    apply List.mem_append_right
    have hentry := AList.mem_lookup_iff.mp hlookup
    exact List.mem_filter.mpr ⟨List.mem_map_of_mem hentry, hvalid⟩
  exact List.disjoint_of_nodup_append hledger.nodup howned hclosed

/-- The names at the end of a cycle are marked by the sentry. -/
theorem CacheInvariant.marked (hmaxFiles : 1 ≤ maxFiles) {before full : FileCache} {result : ℤ}
    (hcycle : ∀ call ∈ cycle, call.InCycle sentry) (hbefore : CacheInvariant maxFiles calls before)
    (hfull : CacheInvariant maxFiles (calls ++ .getFile sentry .lru result :: cycle) full) :
    Marked sentry (cycle.flatMap CacheCall.events) full.names := by
  have hnames : full.names = (cycle.flatMap CacheCall.events).foldl (lruStep maxFiles)
      (lruStep maxFiles before.names (.use sentry)) := by
    rw [hfull.names_eq, hbefore.names_eq, lru, List.flatMap_append, List.flatMap_cons,
      List.foldl_append, List.foldl_append]
    rfl
  have hnodup : before.names.Nodup := hbefore.linked.names_nodup
  have hbeside : ∀ event ∈ cycle.flatMap CacheCall.events, event.Beside sentry := by
    intro event hevent
    obtain ⟨call, hcall, hevents⟩ := List.mem_flatMap.mp hevent
    exact (hcycle call hcall).beside event hevents
  rw [hnames]
  exact ((marked_use_sentry hmaxFiles).foldl (nodup_lruStep hnodup _) hbeside).1

end Cycle

/-! ### The sweep -/

/-- What is left when `closeUnusedFiles` is called after the calls of a cycle. -/
structure SweepCorrect (maxFiles : ℕ) (calls cycle : List CacheCall) (sentry : String)
    (before full swept : FileCache) : Prop where
  /-- A name that was not used in the cycle is not cached, and the descriptors that it had before
  were closed once. -/
  unused : ∀ name, name ≠ sentry → name ∉ usedFiles cycle → name ∉ swept.map ∧
    ∀ earlier later past entry, calls = earlier ++ later →
      (cacheSystem maxFiles).execute (cacheSystem maxFiles).start earlier = some past →
        past.map.lookup name = some entry → entry.first.valid = true →
          swept.closed.count entry.first = 1
  /-- A name that was used in the cycle and is cached at its end keeps its entry. -/
  used : ∀ name ∈ usedFiles cycle, ∀ entry, full.map.lookup name = some entry →
    swept.map.lookup name = some entry ∧ entry.first ∉ swept.closed
  same_names : swept.map.keys.Perm swept.names
  order : swept.names =
    full.names.filter fun name ↦ decide (name = sentry ∨ name ∈ usedFiles cycle)
  sentry_iff : sentry ∈ swept.map ↔ sentry ∈ full.map
  keep_eq : swept.keep = full.keep ∧ full.keep = before.keep

/-- After any calls, a cycle of uses and removals of other files than the sentry is followed by a
sweep that leaves the files of the cycle. -/
theorem sentrySweep {maxFiles : ℕ} (hmaxFiles : 1 ≤ maxFiles) {calls : List CacheCall}
    (hasserted : ∀ call ∈ calls, call.Asserted) (sentry : String) (result : ℤ)
    {cycle : List CacheCall} (hcycle : ∀ call ∈ cycle, call.InCycle sentry) :
    ∃ before marked full swept,
      (cacheSystem maxFiles).execute (cacheSystem maxFiles).start calls = some before ∧
        before.setSentryFile sentry result = some marked ∧
          (cacheSystem maxFiles).execute marked cycle = some full ∧
            full.closeUnusedFiles sentry = some swept ∧
              SweepCorrect maxFiles calls cycle sentry before full swept := by
  have hgetFile : (CacheCall.getFile sentry .lru result).Asserted := Or.inr rfl
  have hcycleAsserted : ∀ call ∈ cycle, call.Asserted := by
    intro call hcall
    exact (hcycle call hcall).asserted
  obtain ⟨before, hbefore, hinvariant⟩ := TransitionSystem.exists_execute
    (cacheInvariant_start maxFiles) (fun _ _ _ ↦ CacheInvariant.step hmaxFiles) hasserted
  obtain ⟨marked, hmarked, hmarkedInvariant⟩ := hinvariant.step hmaxFiles hgetFile
  obtain ⟨full, hfull, hfullInvariant⟩ := hmarkedInvariant.execute hmaxFiles hcycleAsserted
  rw [List.append_assoc, List.singleton_append] at hfullInvariant
  obtain ⟨swept, hswept, hfollows⟩ :=
    FileCache.closeUnusedFiles_follows hfullInvariant.linked sentry
  have hdrops := FileCache.closeUnusedFiles_drops hswept
  have horder : swept.names =
      full.names.filter fun name ↦ decide (name = sentry ∨ name ∈ usedFiles cycle) := by
    have hmark := hinvariant.marked hmaxFiles hcycle hfullInvariant
    have hdropBehind := hmark.dropBehind full.maxFiles hfullInvariant.linked.names_nodup
    rw [usedNames_events] at hdropBehind
    rw [← hdropBehind]
    exact hfollows.names_eq
  have hcached : ∀ name, name ∈ swept.map ↔
      name ∈ full.map ∧ (name = sentry ∨ name ∈ usedFiles cycle) := by
    intro name
    rw [hfollows.linked.mem_map_iff, hfullInvariant.linked.mem_map_iff, horder, List.mem_filter,
      decide_eq_true_iff]
  refine ⟨before, marked, full, swept, hbefore, hmarked, hfull, hswept, ?_⟩
  have hledger := hfollows.ledger hfullInvariant.ledger
  constructor
  · intro name hother hunused
    have hgone : name ∉ swept.map := by
      rw [hcached]
      exact fun hname ↦ hname.2.elim hother hunused
    refine ⟨hgone, ?_⟩
    intro earlier later past entry hcalls hpast hlookup hvalid
    rw [hcalls, TransitionSystem.execute_append, hpast] at hbefore
    have hretains := (((execute_retains hbefore).trans (step_retains hmarked)).trans
      (execute_retains hfull)).trans hdrops.retains
    exact hledger.count_closed (hretains.mem_closed hlookup hvalid hgone)
  · intro name hused entry hentry
    have hmem : name ∈ full.map := AList.lookup_isSome.mp (Option.isSome_of_eq_some hentry)
    have hkept : name ∈ swept.map := (hcached name).mpr ⟨hmem, Or.inr hused⟩
    have hsame : swept.map.lookup name = some entry := (hdrops.lookup_eq hkept).trans hentry
    exact ⟨hsame, hledger.not_mem_closed hsame⟩
  · exact hfollows.linked.keys_perm
  · exact horder
  · rw [hcached]
    exact ⟨And.left, fun hsentry ↦ ⟨hsentry, Or.inl rfl⟩⟩
  · refine ⟨hdrops.keep_eq, (execute_keep_eq hcycle hfull).trans ?_⟩
    obtain ⟨⟨fd, last⟩, hget, rfl⟩ := Option.map_eq_some_iff.mp hmarked
    exact (FileCache.getFile_lru_retains hget).2

/-- Two files of a cache for two are left from before; the cycle uses three others, and the third
takes the place of the sentry. -/
def pushedOut : List CacheCall :=
  [.getFile "a" .lru 5, .getFile "b" .lru 6, .getFile "a" .lru (-1), .getFile "c" .lru 7]

example : ((cacheSystem 2).execute (cacheSystem 2).start
    ([.getFile "x" .lru 3, .getFile "y" .lru 4, .getFile "/dev/null" .lru 5] ++ pushedOut ++
      [.closeUnusedFiles "/dev/null"])).map (fun cache ↦
    (cache.names, cache.closed.map File.fd)) = some (["c", "a"], [3, 4, 5, 6]) := by
  decide +kernel

theorem sentrySweep_pushedOut : ∃ before marked full swept,
    (cacheSystem 2).execute (cacheSystem 2).start [.getFile "x" .lru 3, .getFile "y" .lru 4] =
        some before ∧
      before.setSentryFile "/dev/null" 5 = some marked ∧
        (cacheSystem 2).execute marked pushedOut = some full ∧
          full.closeUnusedFiles "/dev/null" = some swept ∧
            SweepCorrect 2 [.getFile "x" .lru 3, .getFile "y" .lru 4] pushedOut "/dev/null" before
              full swept := by
  apply sentrySweep
  · decide
  · simp [CacheCall.Asserted]
  · simp [pushedOut, CacheCall.InCycle]

end MuduoProtorpc.Collect
