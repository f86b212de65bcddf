import MuduoProtorpc.Collect.FileCache
import MuduoProtorpc.Foundation.Lru

/-!
# Runs of `FileCache`

What holds after any sequence of calls with any results of `open` (`fileCache_correct`): no call is
undefined, the names in the cache are those of `Foundation.lru`, and each descriptor that `open` has
returned is in one entry or was closed once.

The descriptors are accounted for in a ledger: those in the entries and those that were closed are a
permutation of those that `open` has returned.
-/

set_option autoImplicit false
set_option relaxedAutoImplicit false

namespace MuduoProtorpc.Collect

open Foundation

namespace FileCache

/-! ### The ledger -/

/-- The descriptors that `open` has returned. -/
def returned (opened : List ℤ) : List File :=
  (opened.zipIdx.map fun (result, call) ↦ ({ fd := result, call := call } : File)).filter File.valid

/-- The descriptors of the entries of `keep_` and of `map_`. -/
def owned (cache : FileCache) : List File :=
  (cache.keep.entries.map Sigma.snd).filter File.valid ++
    (cache.map.entries.map fun cached ↦ cached.2.first).filter File.valid

/-- The descriptors that `open` has returned are in the entries or were closed. -/
def Ledger (cache : FileCache) : Prop :=
  (cache.owned ++ cache.closed).Perm (returned cache.opened)

section Ledger

variable {cache : FileCache} {filename : String} {opened : List ℤ}

theorem returned_append (opened : List ℤ) (result : ℤ) :
    returned (opened ++ [result]) =
      returned opened ++ [{ fd := result, call := opened.length }].filter File.valid := by
  rw [returned, List.zipIdx_append, List.map_append, List.filter_append]
  simp [returned]

/-- No call of `open` is in the list twice. -/
theorem nodup_returned (opened : List ℤ) : (returned opened).Nodup := by
  apply List.Nodup.filter
  have hcalls : ((opened.zipIdx.map fun (result, call) ↦
      ({ fd := result, call := call } : File)).map File.call).Nodup := by
    rw [List.map_map]
    show (opened.zipIdx.map Prod.snd).Nodup
    rw [List.zipIdx_map_snd]
    exact List.nodup_range' 
  exact hcalls.of_map _

theorem destroy_eq (file : File) (closed : List File) :
    file.destroy closed = closed ++ [file].filter File.valid := by
  unfold File.destroy
  by_cases hvalid : file.valid = true
  · rw [if_pos hvalid, List.filter_singleton, hvalid]
    rfl
  · rw [if_neg hvalid, List.filter_singleton, Bool.eq_false_iff.mpr hvalid]
    exact (List.append_nil closed).symm

/-- The entry of a key and the others. -/
theorem entries_perm_of_lookup {Value : Type} {table : AList fun _ : String ↦ Value} {value : Value}
    (hlookup : table.lookup filename = some value) :
    table.entries.Perm (⟨filename, value⟩ :: (table.erase filename).entries) := by
  have hmem := AList.mem_lookup_iff.mp hlookup
  have hkey : filename ∈ table.entries.keys := List.mem_keys_of_mem hmem
  obtain ⟨other, before, after, hbefore, hentries, herase⟩ := List.exists_of_kerase hkey
  have hother : table.lookup filename = some other := by
    apply AList.mem_lookup_iff.mpr
    rw [hentries]
    exact List.mem_append_right _ List.mem_cons_self
  obtain rfl := Option.some.inj (hlookup.symm.trans hother)
  show table.entries.Perm (_ :: table.entries.kerase filename)
  rw [herase, hentries]
  exact List.perm_middle

theorem entries_erase_of_lookup {Value : Type} {table : AList fun _ : String ↦ Value}
    (hlookup : table.lookup filename = none) :
    (table.erase filename).entries = table.entries :=
  List.kerase_of_notMem_keys (AList.lookup_eq_none.mp hlookup)

/-- An entry that is erased is closed. -/
theorem owned_eraseKey (cache : FileCache) (filename : String) :
    ((cache.eraseKey filename).owned ++ (cache.eraseKey filename).closed).Perm
      (cache.owned ++ cache.closed) := by
  unfold owned eraseKey
  cases hlookup : cache.map.lookup filename with
  | none =>
    simp only
    rw [entries_erase_of_lookup hlookup]
  | some entry =>
    simp only
    rw [destroy_eq, List.append_assoc, List.append_assoc]
    apply List.Perm.append_left
    have hentries := (entries_perm_of_lookup hlookup).map fun cached ↦ cached.2.first
    have hfiles := hentries.filter File.valid
    rw [List.map_cons, ← List.singleton_append, List.filter_append] at hfiles
    refine List.Perm.trans ?_ (hfiles.append_right cache.closed).symm
    rw [← List.append_assoc, List.append_assoc (List.filter _ [_])]
    exact List.perm_append_comm

theorem Ledger.eraseKey (hledger : cache.Ledger) (filename : String) :
    (cache.eraseKey filename).Ledger :=
  (owned_eraseKey cache filename).trans hledger

/-- What `open` returns goes to an entry of `map_` that was not there. -/
theorem Ledger.insertFile (hledger : cache.Ledger) (hnew : filename ∉ cache.map) (result : ℤ) :
    (cache.insertFile filename result).Ledger := by
  unfold Ledger owned FileCache.insertFile
  simp only
  rw [returned_append, AList.entries_insert_of_notMem hnew, List.map_cons, ← List.singleton_append,
    List.filter_append]
  refine List.Perm.trans ?_ (List.Perm.append_right _ hledger)
  unfold owned
  rw [List.append_assoc, List.append_assoc, List.append_assoc, List.append_assoc]
  apply List.Perm.append_left
  rw [← List.append_assoc _ cache.closed]
  exact List.perm_append_comm

/-- What `open` returns goes to an entry of `keep_` that had no descriptor. -/
theorem Ledger.keepFile (hledger : cache.Ledger) (hinvalid : (cache.kept filename).valid = false)
    (result : ℤ) :
    Ledger { cache with
      keep := cache.keep.insert filename (cache.openFile result)
      opened := cache.opened ++ [result]
      closed := (cache.kept filename).destroy cache.closed } := by
  have hclosed : (cache.kept filename).destroy cache.closed = cache.closed := by
    rw [destroy_eq, List.filter_singleton, hinvalid]
    exact List.append_nil cache.closed
  have hothers : (((cache.keep.erase filename).entries.map Sigma.snd).filter File.valid).Perm
      ((cache.keep.entries.map Sigma.snd).filter File.valid) := by
    cases hlookup : cache.keep.lookup filename with
    | none => rw [entries_erase_of_lookup hlookup]
    | some file =>
      have hfile : file.valid = false := by
        unfold kept at hinvalid
        rwa [hlookup] at hinvalid
      have hentries := ((entries_perm_of_lookup hlookup).map Sigma.snd).filter File.valid
      rw [List.map_cons, List.filter_cons_of_neg (by simp [hfile])] at hentries
      exact hentries.symm
  unfold Ledger owned
  rw [hclosed, returned_append]
  refine List.Perm.trans ?_ (List.Perm.append_right _ hledger)
  show ((List.map Sigma.snd (⟨filename, cache.openFile result⟩ ::
    (cache.keep.erase filename).entries)).filter File.valid ++ _ ++ _).Perm _
  rw [List.map_cons, ← List.singleton_append, List.filter_append, List.append_assoc,
    List.append_assoc]
  refine List.perm_append_comm.trans ?_
  apply List.Perm.append_right
  unfold owned
  rw [List.append_assoc]
  exact List.Perm.append_right _ hothers

end Ledger

/-! ### What a call does -/

/-- A call has kept the links and the ledger, and has done to the names what some events do. -/
structure Follows (cache : FileCache) (events : List (LruEvent String)) (next : FileCache) :
    Prop where
  linked : next.Linked
  maxFiles_eq : next.maxFiles = cache.maxFiles
  names_eq : next.names = events.foldl (lruStep cache.maxFiles) cache.names
  ledger : cache.Ledger → next.Ledger

/-- The file of the entry that a call of `getFile` uses. -/
def entryFile (cache : FileCache) (filename : String) (level : CacheLevel) : Option File :=
  match level with
  | .noCache => none
  | .lru => (cache.map.lookup filename).map Entry.first
  | .keep => cache.keep.lookup filename

section Calls

variable {cache : FileCache} {filename sentry : String} {node : Node}

/-- A call that changes nothing. -/
theorem Linked.follows (hlinked : cache.Linked) : cache.Follows [] cache where
  linked := hlinked
  maxFiles_eq := rfl
  names_eq := rfl
  ledger := id

theorem kept_eq {file : File} (hvalid : (cache.kept filename).valid = true)
    (hfile : cache.kept filename = file) : cache.keep.lookup filename = some file := by
  unfold kept at hvalid hfile
  cases hlookup : cache.keep.lookup filename with
  | none =>
    rw [hlookup] at hvalid
    exact absurd hvalid (by decide)
  | some found =>
    rw [hlookup] at hfile
    exact congrArg some hfile

/-- `getFile` with `kKeep`. -/
theorem getFile_keep (hlinked : cache.Linked) (filename : String) (result : ℤ) :
    ∃ file next, cache.getFile filename .keep result = some (file.fd, next) ∧
      next.entryFile filename .keep = some file ∧ cache.Follows [] next := by
  by_cases hvalid : (cache.kept filename).valid = true
  · refine ⟨cache.kept filename, cache, ?_, kept_eq hvalid rfl, hlinked.follows⟩
    simp only [getFile, if_pos hvalid]
  · refine ⟨cache.openFile result, { cache with
      keep := cache.keep.insert filename (cache.openFile result)
      opened := cache.opened ++ [result]
      closed := (cache.kept filename).destroy cache.closed }, ?_, AList.lookup_insert _, ?_⟩
    · simp only [getFile, if_neg hvalid]
      rfl
    · refine ⟨?_, rfl, rfl, ?_⟩
      · exact ⟨hlinked.keys_perm, hlinked.places_nodup, hlinked.places_lt, hlinked.points⟩
      · intro hledger
        exact hledger.keepFile (Bool.eq_false_iff.mpr hvalid) result

/-- `getFile` with `kLRU`, when the file is in the cache. -/
theorem getFile_hit {entry : Entry} (hlinked : cache.Linked)
    (hlength : cache.names.length ≤ cache.maxFiles)
    (hlookup : cache.map.lookup filename = some entry) (result : ℤ) :
    ∃ file next, cache.getFile filename .lru result = some (file.fd, next) ∧
      next.entryFile filename .lru = some file ∧ cache.Follows [.use filename] next := by
  obtain ⟨list, hsplice, hspliced, hnames⟩ := hlinked.splice hlookup
  have hmem : filename ∈ cache.names :=
    (hlinked.mem_map_iff filename).mp (AList.lookup_isSome.mp (Option.isSome_of_eq_some hlookup))
  refine ⟨entry.first, { cache with list := list }, ?_, ?_, ?_⟩
  · simp [getFile, hlinked.sized, hlookup, hsplice]
  · exact congrArg (Option.map Entry.first) hlookup
  · refine ⟨hspliced, rfl, ?_, id⟩
    show list.map Node.name = lruStep cache.maxFiles cache.names (.use filename)
    rw [hnames, lruStep_use_of_mem hmem hlength]

/-- When a file that was not in the cache has been put in front, `evict` takes out the last one if
there are too many, and the entry of the file is still there. -/
theorem evict_insertFile (hlinked : cache.Linked) (hmaxFiles : 1 ≤ cache.maxFiles)
    (hlength : cache.names.length ≤ cache.maxFiles) (hnew : filename ∉ cache.map) (result : ℤ) :
    ∃ next, (cache.insertFile filename result).evict = some next ∧
      next.map.lookup filename = (cache.insertFile filename result).map.lookup filename ∧
        cache.Follows [.use filename] next := by
  have hnewName : filename ∉ cache.names := mt (hlinked.mem_map_iff filename).mpr hnew
  have hinserted := hlinked.insertFile hnew result
  have hsize : (cache.insertFile filename result).map.entries.length = cache.names.length + 1 := by
    rw [hinserted.length_entries, names, List.length_map]
    rfl
  unfold evict
  rw [hsize]
  by_cases hfull : cache.maxFiles < cache.names.length + 1
  · have hcapacity : cache.names.length = cache.maxFiles :=
      Nat.le_antisymm hlength (Nat.lt_succ_iff.mp hfull)
    have hlist : cache.list ≠ [] := by
      intro hnil
      rw [names, hnil] at hcapacity
      exact absurd (hmaxFiles.trans_eq hcapacity.symm) (by decide)
    have hlast : (cache.insertFile filename result).list.getLast? =
        some (cache.list.getLast hlist) := by
      show (_ :: cache.list).getLast? = _
      rw [List.getLast?_cons, List.getLast?_eq_some_getLast hlist]
      rfl
    obtain ⟨heraseBack, herased⟩ := hinserted.eraseBack hlast
    refine ⟨_, (if_pos hfull).trans heraseBack, ?_, herased, rfl, ?_, ?_⟩
    · have hother : filename ≠ (cache.list.getLast hlist).name := by
        intro hsame
        exact hnewName (hsame ▸ List.mem_map_of_mem (List.getLast_mem hlist))
      exact AList.lookup_erase_ne hother
    · show (cache.insertFile filename result).list.dropLast.map Node.name =
        lruStep cache.maxFiles cache.names (.use filename)
      rw [lruStep_use_of_full hnewName hcapacity, List.map_dropLast]
      rfl
    · intro hledger
      exact (hledger.insertFile hnew result).eraseKey _
  · refine ⟨_, if_neg hfull, rfl, hinserted, rfl, ?_, ?_⟩
    · exact (lruStep_use_of_room hnewName (Nat.not_lt.mp hfull)).symm
    · intro hledger
      exact hledger.insertFile hnew result

/-- `getFile` with `kLRU`, when the file is not in the cache. -/
theorem getFile_miss (hlinked : cache.Linked) (hmaxFiles : 1 ≤ cache.maxFiles)
    (hlength : cache.names.length ≤ cache.maxFiles)
    (hlookup : cache.map.lookup filename = none) (result : ℤ) :
    ∃ file next, cache.getFile filename .lru result = some (file.fd, next) ∧
      next.entryFile filename .lru = some file ∧ cache.Follows [.use filename] next := by
  have hnew : filename ∉ cache.map := AList.lookup_eq_none.mp hlookup
  have hinserted := hlinked.insertFile hnew result
  have hfound : (cache.insertFile filename result).map.lookup filename =
      some { first := cache.openFile result, second := cache.nextPlace } :=
    AList.lookup_insert _
  obtain ⟨next, hnext, hentry, hfollows⟩ :=
    evict_insertFile hlinked hmaxFiles hlength hnew result
  refine ⟨cache.openFile result, next, ?_, ?_, hfollows⟩
  · simp [getFile, hlinked.sized, hlookup, hinserted.sized, hnext, hfollows.linked.sized, hentry,
      hfound]
  · show (next.map.lookup filename).map Entry.first = _
    rw [hentry, hfound]
    rfl

theorem closeFile_follows (hlinked : cache.Linked) (filename : String) :
    ∃ next, cache.closeFile filename = some next ∧ cache.Follows [.remove filename] next := by
  unfold closeFile
  cases hlookup : cache.map.lookup filename with
  | none =>
    have hnew : filename ∉ cache.names := by
      rw [← hlinked.mem_map_iff]
      exact AList.lookup_eq_none.mp hlookup
    refine ⟨cache, rfl, hlinked, rfl, ?_, id⟩
    exact (List.erase_of_not_mem hnew).symm
  | some entry =>
    have hnode := hlinked.points filename entry hlookup
    have herase := map_name_erase hlinked.names_nodup hnode
    have hnodeAt : cache.nodeAt entry.second = _ := hlinked.nodeAt_eq hnode
    have hclosed := hlinked.eraseKey List.erase_sublist (List.Perm.of_eq herase)
    refine ⟨_, ?_, hclosed, rfl, herase, fun hledger ↦ hledger.eraseKey filename⟩
    simp only [eraseNode, hnodeAt]
    rfl

/-- The loop of `closeUnusedFiles` ends, and drops the names behind the sentry. -/
theorem closeBehind_follows (fuel : ℕ) (hlinked : cache.Linked) (hfuel : cache.list.length < fuel) :
    ∃ next, closeBehind sentry fuel cache = some next ∧ next.Linked ∧
      next.maxFiles = cache.maxFiles ∧
        next.names = cache.names.rdropWhile (fun name ↦ decide (name ≠ sentry)) ∧
          (cache.Ledger → next.Ledger) := by
  induction fuel generalizing cache with
  | zero => exact absurd hfuel (Nat.not_lt_zero _)
  | succ fuel ih =>
    unfold closeBehind
    cases hlast : cache.list.getLast? with
    | none =>
      have hnames : cache.names = [] := by
        rw [names, List.getLast?_eq_none_iff.mp hlast]
        rfl
      exact ⟨cache, rfl, hlinked, rfl, by rw [hnames]; rfl, id⟩
    | some node =>
      have hnames : cache.names = cache.list.dropLast.map Node.name ++ [node.name] := by
        rw [← List.map_singleton (f := Node.name), ← List.map_append,
          List.dropLast_append_getLast? node hlast]
        rfl
      by_cases hsentry : node.name = sentry
      · refine ⟨cache, by simp [hsentry], hlinked, rfl, ?_, id⟩
        rw [hnames, List.rdropWhile_concat_neg _ _ _ (by simpa using hsentry)]
      · obtain ⟨heraseBack, herased⟩ := hlinked.eraseBack hlast
        have hshorter : cache.list.dropLast.length < fuel := by
          have hpos : cache.list ≠ [] := by
            rintro hnil
            rw [hnil] at hlast
            cases hlast
          have hlength := List.length_pos_iff.mpr hpos
          rw [List.length_dropLast]
          omega
        obtain ⟨next, hloop, hnext, hmaxFiles, hnextNames, hledger⟩ := ih herased hshorter
        refine ⟨next, ?_, hnext, hmaxFiles, ?_, fun hbefore ↦ hledger (hbefore.eraseKey _)⟩
        · simp [hsentry, heraseBack, hloop]
        · rw [hnextNames, hnames, List.rdropWhile_concat_pos _ _ _ (by simpa using hsentry)]
          rfl

theorem closeUnusedFiles_follows (hlinked : cache.Linked) (sentry : String) :
    ∃ next, cache.closeUnusedFiles sentry = some next ∧
      cache.Follows [.dropBehind sentry] next := by
  unfold closeUnusedFiles
  by_cases hsentry : sentry ∈ cache.map
  · have hname := (hlinked.mem_map_iff sentry).mp hsentry
    obtain ⟨next, hloop, hnext, hmaxFiles, hnames, hledger⟩ :=
      closeBehind_follows (cache.list.length + 1) hlinked (Nat.lt_succ_self _)
    refine ⟨next, (if_pos hsentry).trans hloop, hnext, hmaxFiles, ?_, hledger⟩
    exact hnames.trans (if_pos hname).symm
  · have hname : sentry ∉ cache.names := mt (hlinked.mem_map_iff sentry).mpr hsentry
    refine ⟨cache, if_neg hsentry, hlinked, rfl, ?_, id⟩
    exact (if_neg hname).symm

end Calls

end FileCache

/-! ### Sequences of calls -/

/-- The calls, with the result that `open` returns if a call opens a file. -/
inductive CacheCall
  | getFile (filename : String) (level : CacheLevel) (result : ℤ)
  | closeFile (filename : String)
  | closeUnusedFiles (sentry : String)

/-- What `getFile` asserts. -/
def CacheCall.Asserted : CacheCall → Prop
  | .getFile _ level _ => level = .keep ∨ level = .lru
  | .closeFile _ => True
  | .closeUnusedFiles _ => True

/-- What a call does to a cache of the most recently used names. -/
def CacheCall.events : CacheCall → List (LruEvent String)
  | .getFile filename .lru _ => [.use filename]
  | .getFile _ _ _ => []
  | .closeFile filename => [.remove filename]
  | .closeUnusedFiles sentry => [.dropBehind sentry]

/-- A cache, and the calls it gets. -/
def cacheSystem (maxFiles : ℕ) : TransitionSystem FileCache CacheCall where
  start := FileCache.new maxFiles
  step := fun cache call ↦
    match call with
    | .getFile filename level result => (cache.getFile filename level result).map Prod.snd
    | .closeFile filename => cache.closeFile filename
    | .closeUnusedFiles sentry => cache.closeUnusedFiles sentry

/-- What holds of a cache after some calls. -/
structure CacheInvariant (maxFiles : ℕ) (calls : List CacheCall) (cache : FileCache) : Prop where
  linked : cache.Linked
  maxFiles_eq : cache.maxFiles = maxFiles
  names_eq : cache.names = lru maxFiles (calls.flatMap CacheCall.events)
  ledger : cache.Ledger

section Runs

variable {maxFiles : ℕ} {calls : List CacheCall} {call : CacheCall} {cache next : FileCache}

theorem cacheInvariant_start (maxFiles : ℕ) :
    CacheInvariant maxFiles [] (cacheSystem maxFiles).start where
  linked := by
    constructor
    · exact List.Perm.refl _
    · exact List.nodup_nil
    · intro node hnode
      cases hnode
    · intro name entry hlookup
      cases hlookup
  maxFiles_eq := rfl
  names_eq := rfl
  ledger := List.Perm.refl _

theorem CacheInvariant.length_le (hinvariant : CacheInvariant maxFiles calls cache) :
    cache.names.length ≤ cache.maxFiles := by
  rw [hinvariant.names_eq, hinvariant.maxFiles_eq]
  exact length_lru_le maxFiles _

theorem CacheInvariant.follows (hinvariant : CacheInvariant maxFiles calls cache)
    (hfollows : cache.Follows call.events next) :
    CacheInvariant maxFiles (calls ++ [call]) next where
  linked := hfollows.linked
  maxFiles_eq := hfollows.maxFiles_eq.trans hinvariant.maxFiles_eq
  names_eq := by
    rw [hfollows.names_eq, hinvariant.names_eq, hinvariant.maxFiles_eq, List.flatMap_append, lru,
      lru, List.foldl_append, List.flatMap_singleton]
  ledger := hfollows.ledger hinvariant.ledger

/-- `getFile` is defined, and returns the descriptor of the entry with the name. -/
theorem CacheInvariant.getFile (hinvariant : CacheInvariant maxFiles calls cache)
    (hmaxFiles : 1 ≤ maxFiles) {filename : String} {level : CacheLevel} {result : ℤ}
    (hasserted : (CacheCall.getFile filename level result).Asserted) :
    ∃ file next, cache.getFile filename level result = some (file.fd, next) ∧
      next.entryFile filename level = some file ∧
        cache.Follows (CacheCall.getFile filename level result).events next := by
  rcases hasserted with rfl | rfl
  · exact FileCache.getFile_keep hinvariant.linked filename result
  · cases hlookup : cache.map.lookup filename with
    | none =>
      have hcapacity := hmaxFiles.trans_eq hinvariant.maxFiles_eq.symm
      exact FileCache.getFile_miss hinvariant.linked hcapacity hinvariant.length_le hlookup result
    | some entry =>
      exact FileCache.getFile_hit hinvariant.linked hinvariant.length_le hlookup result

/-- A call is defined and keeps the invariant. -/
theorem CacheInvariant.step (hmaxFiles : 1 ≤ maxFiles) (hasserted : call.Asserted)
    (hinvariant : CacheInvariant maxFiles calls cache) :
    ∃ next, (cacheSystem maxFiles).step cache call = some next ∧
      CacheInvariant maxFiles (calls ++ [call]) next := by
  cases call with
  | getFile filename level result =>
    obtain ⟨file, next, hget, -, hfollows⟩ := hinvariant.getFile hmaxFiles hasserted
    exact ⟨next, congrArg (Option.map Prod.snd) hget, hinvariant.follows hfollows⟩
  | closeFile filename =>
    obtain ⟨next, hclose, hfollows⟩ := FileCache.closeFile_follows hinvariant.linked filename
    exact ⟨next, hclose, hinvariant.follows hfollows⟩
  | closeUnusedFiles sentry =>
    obtain ⟨next, hclose, hfollows⟩ := FileCache.closeUnusedFiles_follows hinvariant.linked sentry
    exact ⟨next, hclose, hinvariant.follows hfollows⟩

theorem FileCache.Ledger.count (hledger : cache.Ledger) (file : File) :
    cache.owned.count file + cache.closed.count file =
      if file ∈ FileCache.returned cache.opened then 1 else 0 := by
  rw [← List.count_append, hledger.count_eq]
  exact (FileCache.nodup_returned cache.opened).count

/-- What is promised of a cache after some calls. -/
structure CacheCorrect (maxFiles : ℕ) (calls : List CacheCall) (cache : FileCache) : Prop where
  /-- `list_` and `map_` hold the same names, each once. -/
  same_names : cache.map.keys.Perm cache.names ∧ cache.names.Nodup
  /-- The iterator of an entry points at the node of its name. -/
  own_node : ∀ name entry, cache.map.lookup name = some entry →
    cache.nodeAt entry.second = some { place := entry.second, name := name }
  /-- The names are those of the most recently used files, the most recently used first. -/
  recent : cache.names = lru maxFiles (calls.flatMap CacheCall.events) ∧
    cache.names.length ≤ maxFiles ∧
      cache.names.Pairwise (UsedSince (calls.flatMap CacheCall.events))
  /-- `getFile` returns the descriptor of the entry with the name. If it takes a name out of the
  cache, then another one, and one that all names in the cache have been used after. -/
  getFile : ∀ filename level result, (CacheCall.getFile filename level result).Asserted →
    ∃ file next, cache.getFile filename level result = some (file.fd, next) ∧
      next.entryFile filename level = some file ∧
        ∀ evicted ∈ cache.names, evicted ∉ next.names → evicted ≠ filename ∧
          ∀ other ∈ next.names,
            UsedSince (calls.flatMap CacheCall.events ++ [.use filename]) other evicted
  /-- A descriptor that `open` has returned is in one entry, or was closed once. -/
  descriptors : ∀ file, cache.owned.count file + cache.closed.count file =
    if file ∈ FileCache.returned cache.opened then 1 else 0

/-- A name is only taken out by a use of another one. -/
theorem CacheInvariant.evicted (hinvariant : CacheInvariant maxFiles calls cache)
    (hmaxFiles : 1 ≤ maxFiles) {filename : String} {level : CacheLevel} {result : ℤ}
    (hasserted : (CacheCall.getFile filename level result).Asserted)
    (hnext : CacheInvariant maxFiles (calls ++ [.getFile filename level result]) next)
    {evicted : String} (hmem : evicted ∈ cache.names) (hevicted : evicted ∉ next.names) :
    evicted ≠ filename ∧ ∀ other ∈ next.names,
      UsedSince (calls.flatMap CacheCall.events ++ [.use filename]) other evicted := by
  rw [hinvariant.names_eq] at hmem
  rw [hnext.names_eq, List.flatMap_append, List.flatMap_singleton] at hevicted ⊢
  rcases hasserted with rfl | rfl
  · rw [CacheCall.events, List.append_nil] at hevicted
    · exact absurd hmem hevicted
    · intro hlru
      cases hlru
  · exact usedSince_of_dropped hmaxFiles hmem hevicted

end Runs

/-- After any sequence of calls, with any results of `open`, the cache is correct. -/
theorem fileCache_correct {maxFiles : ℕ} (hmaxFiles : 1 ≤ maxFiles) {calls : List CacheCall}
    (hasserted : ∀ call ∈ calls, call.Asserted) :
    ∃ cache, (cacheSystem maxFiles).execute (cacheSystem maxFiles).start calls = some cache ∧
      CacheCorrect maxFiles calls cache := by
  obtain ⟨cache, hexecute, hinvariant⟩ := TransitionSystem.exists_execute
    (cacheInvariant_start maxFiles) (fun _ _ _ ↦ CacheInvariant.step hmaxFiles) hasserted
  refine ⟨cache, hexecute, ?_⟩
  constructor
  · exact ⟨hinvariant.linked.keys_perm, hinvariant.linked.names_nodup⟩
  · intro name entry hlookup
    exact hinvariant.linked.nodeAt_eq (hinvariant.linked.points name entry hlookup)
  · rw [hinvariant.names_eq]
    exact ⟨rfl, length_lru_le maxFiles _, pairwise_since_lru maxFiles _⟩
  · intro filename level result hlevel
    obtain ⟨file, next, hget, hfile, hfollows⟩ := hinvariant.getFile hmaxFiles hlevel
    refine ⟨file, next, hget, hfile, ?_⟩
    intro evicted hmem hevicted
    exact hinvariant.evicted hmaxFiles hlevel (hinvariant.follows hfollows) hmem hevicted
  · exact hinvariant.ledger.count

/-- Opens three files in a cache for two, and another to keep; the second is taken out when the
third comes. -/
def threeFiles : List CacheCall :=
  [.getFile "stat" .lru 3, .getFile "status" .lru 4, .getFile "meminfo" .keep 5,
    .getFile "stat" .lru (-1), .getFile "io" .lru 6, .closeFile "stat", .closeUnusedFiles "io"]

example : ((cacheSystem 2).execute (cacheSystem 2).start threeFiles).map (fun cache ↦
    (cache.names, cache.owned.map File.fd, cache.closed.map File.fd)) =
      some (["io"], [5, 6], [4, 3]) := by
  decide +kernel

theorem fileCache_correct_threeFiles : ∃ cache,
    (cacheSystem 2).execute (cacheSystem 2).start threeFiles = some cache ∧
      CacheCorrect 2 threeFiles cache := by
  apply fileCache_correct
  · decide
  · simp [threeFiles, CacheCall.Asserted]

end MuduoProtorpc.Collect
