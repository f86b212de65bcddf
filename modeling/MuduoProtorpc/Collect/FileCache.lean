import Mathlib.Data.Int.Notation
import Mathlib.Data.List.AList
import Mathlib.Data.List.Perm.Basic
import Mathlib.Tactic.SplitIfs

/-!
# `FileCache`

The cache of open files of `examples/collect/FileCache.h`. `getFile` opens a file or finds it among
the open ones, in `keep_` or, up to `maxFiles_` of them, in `map_`, whose entries point at the nodes
of `list_`. An operation is undefined (`none`) where an assertion fails, an iterator points at no
node, or the last element of an empty list is taken.

The results of `open` are part of the calls. The process keeps what the cache does not: all results
of `open` so far, and the descriptors that were closed.
-/

set_option autoImplicit false
set_option relaxedAutoImplicit false

namespace MuduoProtorpc.Collect

/-- `assert`. -/
def assertion (condition : Bool) : Option Unit :=
  if condition then some () else none

@[simp] theorem assertion_true : assertion true = some () :=
  rfl

/-! ### The cache -/

/-- `CacheLevel`. -/
inductive CacheLevel
  | noCache
  | lru
  | keep
  deriving DecidableEq

/-- `FileCache::File`. A number can be returned by `open` again after it was closed, so next to
`fd_` stands which of the calls of `open` has returned it. -/
structure File where
  fd : ℤ := -1
  call : ℕ := 0
  deriving DecidableEq

def File.valid (file : File) : Bool :=
  decide (0 ≤ file.fd)

/-- `~File`: closes the descriptor, if there is one. -/
def File.destroy (file : File) (closed : List File) : List File :=
  if file.valid then closed ++ [file] else closed

/-- A node of `list_`, with its address. -/
structure Node where
  place : ℕ
  name : String
  deriving DecidableEq

/-- An entry of `map_`: a file and an iterator of `list_`. -/
structure Entry where
  first : File
  second : ℕ
  deriving DecidableEq

/-- `FileCache`, with the address of the next node of `list_`, the results of `open` so far, and
the descriptors that were closed. -/
structure FileCache where
  keep : AList fun _ : String ↦ File
  maxFiles : ℕ
  list : List Node
  map : AList fun _ : String ↦ Entry
  nextPlace : ℕ
  opened : List ℤ
  closed : List File

namespace FileCache

/-- The constructor `FileCache(maxFiles)`. -/
def new (maxFiles : ℕ) : FileCache where
  keep := ∅
  maxFiles := maxFiles
  list := []
  map := ∅
  nextPlace := 0
  opened := []
  closed := []

variable (cache : FileCache)

/-- The constructor `File(filename)`, with the result of `open`. -/
def openFile (result : ℤ) : File where
  fd := result
  call := cache.opened.length

/-- `list_.size() == map_.size()`. -/
def sized : Bool :=
  cache.list.length == cache.map.entries.length

/-- The node that an iterator points at. -/
def nodeAt (place : ℕ) : Option Node :=
  cache.list.find? fun node ↦ decide (node.place = place)

/-- `list_.splice(list_.begin(), list_, it)`. -/
def splice (place : ℕ) : Option FileCache := do
  let node ← cache.nodeAt place
  return { cache with list := node :: cache.list.erase node }

/-- `list_.erase(it)`. -/
def eraseNode (place : ℕ) : Option FileCache := do
  let node ← cache.nodeAt place
  return { cache with list := cache.list.erase node }

/-- `map_.erase(filename)`: the file of the entry is destroyed. -/
def eraseKey (filename : String) : FileCache :=
  { cache with
    map := cache.map.erase filename
    closed :=
      match cache.map.lookup filename with
      | some entry => entry.first.destroy cache.closed
      | none => cache.closed }

/-- `map_.erase(list_.back()); list_.pop_back();`. -/
def eraseBack : Option FileCache := do
  let node ← cache.list.getLast?
  return { cache.eraseKey node.name with list := cache.list.dropLast }

/-- `list_.push_front(filename)`, and then `map_.insert` of a new file and the first node. -/
def insertFile (filename : String) (result : ℤ) : FileCache :=
  { cache with
    list := { place := cache.nextPlace, name := filename } :: cache.list
    map := cache.map.insert filename { first := cache.openFile result, second := cache.nextPlace }
    nextPlace := cache.nextPlace + 1
    opened := cache.opened ++ [result] }

/-- `if (map_.size() > maxFiles_)`. -/
def evict : Option FileCache :=
  if cache.maxFiles < cache.map.entries.length then cache.eraseBack else some cache

/-- `keep_[filename]`: a file without a descriptor, if there is none with the name. -/
def kept (filename : String) : File :=
  (cache.keep.lookup filename).getD {}

/-- `getFile`, with what `open` returns if it is called. -/
def getFile (filename : String) (level : CacheLevel) (result : ℤ) : Option (ℤ × FileCache) :=
  match level with
  | .noCache => none
  | .keep =>
    let f := cache.kept filename
    if f.valid then some (f.fd, cache)
    else
      -- the assignment swaps, and the temporary is destroyed with what was in `f`
      some (result, { cache with
        keep := cache.keep.insert filename (cache.openFile result)
        opened := cache.opened ++ [result]
        closed := f.destroy cache.closed })
  | .lru => do
    assertion cache.sized
    match cache.map.lookup filename with
    | some entry =>
      let next ← cache.splice entry.second
      return (entry.first.fd, next)
    | none =>
      let inserted := cache.insertFile filename result
      assertion inserted.sized
      let next ← inserted.evict
      assertion next.sized
      let entry ← next.map.lookup filename
      return (entry.first.fd, next)

/-- `closeFile`. -/
def closeFile (filename : String) : Option FileCache :=
  match cache.map.lookup filename with
  | some entry => do
    let next ← cache.eraseNode entry.second
    return next.eraseKey filename
  | none => some cache

/-- The loop of `closeUnusedFiles`. -/
def closeBehind (sentry : String) : ℕ → FileCache → Option FileCache
  | 0, _ => none
  | fuel + 1, cache =>
    match cache.list.getLast? with
    | none => some cache
    | some node =>
      if node.name ≠ sentry then cache.eraseBack.bind (closeBehind sentry fuel) else some cache

/-- `closeUnusedFiles`. A round of its loop takes a node from `list_`. -/
def closeUnusedFiles (sentry : String) : Option FileCache :=
  if sentry ∈ cache.map then closeBehind sentry (cache.list.length + 1) cache else some cache

/-! ### The links between the containers -/

/-- The names in `list_`. -/
def names (cache : FileCache) : List String :=
  cache.list.map Node.name

/-- `list_` and `map_` have the same names, and the iterator of an entry points at the node with
the name of the entry. -/
structure Linked (cache : FileCache) : Prop where
  keys_perm : cache.map.keys.Perm cache.names
  places_nodup : (cache.list.map Node.place).Nodup
  places_lt : ∀ node ∈ cache.list, node.place < cache.nextPlace
  points : ∀ name entry, cache.map.lookup name = some entry →
    { place := entry.second, name := name } ∈ cache.list

section Links

variable {cache next : FileCache} {filename : String} {entry : Entry} {node : Node} {result : ℤ}

theorem Linked.names_nodup (hlinked : cache.Linked) : cache.names.Nodup :=
  hlinked.keys_perm.nodup_iff.mp cache.map.keys_nodup

theorem Linked.mem_map_iff (hlinked : cache.Linked) (name : String) :
    name ∈ cache.map ↔ name ∈ cache.names :=
  AList.mem_keys.trans hlinked.keys_perm.mem_iff

theorem Linked.length_entries (hlinked : cache.Linked) :
    cache.map.entries.length = cache.list.length := by
  have hlength := hlinked.keys_perm.length_eq
  rw [names, List.length_map] at hlength
  rw [← hlength]
  exact (List.length_map _).symm

theorem Linked.sized (hlinked : cache.Linked) : cache.sized = true :=
  beq_iff_eq.mpr hlinked.length_entries.symm

/-- An iterator that is in the list points at one node. -/
theorem Linked.nodeAt_eq (hlinked : cache.Linked) (hnode : node ∈ cache.list) :
    cache.nodeAt node.place = some node := by
  cases hfound : cache.nodeAt node.place with
  | none =>
    have hmissing := List.find?_eq_none.mp hfound node hnode
    simp at hmissing
  | some found =>
    have hplace : found.place = node.place := by
      simpa using List.find?_some hfound
    have hmem := List.mem_of_find?_eq_some hfound
    rw [List.inj_on_of_nodup_map hlinked.places_nodup hmem hnode hplace]

/-- What is left when a name is erased from `map_`, and a node with the name from `list_`. -/
theorem Linked.eraseKey (hlinked : cache.Linked) {list : List Node}
    (hsublist : list.Sublist cache.list)
    (hnames : (list.map Node.name).Perm (cache.names.erase filename)) :
    Linked { cache.eraseKey filename with list := list } where
  keys_perm := by
    have hkeys := hlinked.keys_perm.erase filename
    rw [← AList.keys_erase] at hkeys
    exact hkeys.trans hnames.symm
  places_nodup := (hsublist.map Node.place).nodup hlinked.places_nodup
  places_lt := by
    intro node hnode
    exact hlinked.places_lt node (hsublist.subset hnode)
  points := by
    intro name entry hlookup
    have hkey : name ∈ cache.map.erase filename :=
      AList.lookup_isSome.mp (Option.isSome_of_eq_some hlookup)
    obtain ⟨hne, -⟩ := AList.mem_erase.mp hkey
    have hbefore : cache.map.lookup name = some entry :=
      (AList.lookup_erase_ne hne).symm.trans hlookup
    have hnode := hlinked.points name entry hbefore
    have hname : name ∈ cache.names.erase filename :=
      (List.mem_erase_of_ne hne).mpr (List.mem_map_of_mem hnode)
    obtain ⟨left, hleft, hleftName⟩ := List.mem_map.mp (hnames.mem_iff.mpr hname)
    have hsame : left = { place := entry.second, name := name } :=
      List.inj_on_of_nodup_map hlinked.names_nodup (hsublist.subset hleft) hnode hleftName
    rwa [hsame] at hleft

/-- The last of `list_` and its entry are taken out together. -/
theorem Linked.eraseBack (hlinked : cache.Linked) (hlast : cache.list.getLast? = some node) :
    cache.eraseBack = some { cache.eraseKey node.name with list := cache.list.dropLast } ∧
      Linked { cache.eraseKey node.name with list := cache.list.dropLast } := by
  constructor
  · unfold FileCache.eraseBack
    rw [hlast]
    rfl
  · apply hlinked.eraseKey (List.dropLast_sublist _)
    have hsplit : cache.names = cache.list.dropLast.map Node.name ++ [node.name] := by
      rw [names, ← List.dropLast_append_getLast? node hlast, List.map_append, List.map_singleton]
      simp
    have hnodup := hlinked.names_nodup
    rw [hsplit] at hnodup ⊢
    have hnew : node.name ∉ cache.list.dropLast.map Node.name := by
      intro hmem
      exact (List.disjoint_of_nodup_append hnodup) hmem (List.mem_singleton_self _)
    rw [List.erase_append_right _ hnew, List.erase_cons_head, List.append_nil]

/-- A name whose node is taken out is taken out of the names. -/
theorem map_name_erase {nodes : List Node} (hnodup : (nodes.map Node.name).Nodup)
    (hnode : node ∈ nodes) :
    (nodes.erase node).map Node.name = (nodes.map Node.name).erase node.name := by
  induction nodes with
  | nil => cases hnode
  | cons first rest ih =>
    rw [List.map_cons, List.nodup_cons] at hnodup
    by_cases hfirst : first = node
    · subst hfirst
      rw [List.erase_cons_head, List.map_cons, List.erase_cons_head]
    · have hlater : node ∈ rest := (List.mem_cons.mp hnode).resolve_left (Ne.symm hfirst)
      have hname : first.name ≠ node.name := by
        intro heq
        exact hnodup.1 (heq ▸ List.mem_map_of_mem hlater)
      rw [List.erase_cons_tail (by simpa using hfirst), List.map_cons, List.map_cons,
        List.erase_cons_tail (by simpa using hname), ih hnodup.2 hlater]

/-- `splice` brings the name of an entry to the front. -/
theorem Linked.splice (hlinked : cache.Linked) (hlookup : cache.map.lookup filename = some entry) :
    ∃ list, cache.splice entry.second = some { cache with list := list } ∧
      Linked { cache with list := list } ∧
        list.map Node.name = filename :: cache.names.erase filename := by
  have hnode := hlinked.points filename entry hlookup
  have hperm := List.perm_cons_erase hnode
  have herase := map_name_erase hlinked.names_nodup hnode
  refine ⟨{ place := entry.second, name := filename } ::
    cache.list.erase { place := entry.second, name := filename }, ?_, ?_, ?_⟩
  · unfold FileCache.splice
    rw [hlinked.nodeAt_eq hnode]
    rfl
  · constructor
    · exact hlinked.keys_perm.trans (hperm.map Node.name)
    · exact (hperm.map Node.place).nodup_iff.mp hlinked.places_nodup
    · intro node hmem
      exact hlinked.places_lt node (hperm.mem_iff.mpr hmem)
    · intro name entry hentry
      exact hperm.mem_iff.mp (hlinked.points name entry hentry)
  · exact congrArg (filename :: ·) herase

/-- A file that is not in the cache is put in front. -/
theorem Linked.insertFile (hlinked : cache.Linked) (hnew : filename ∉ cache.map) (result : ℤ) :
    (cache.insertFile filename result).Linked := by
  have hkeys : filename ∉ cache.map.keys := fun hmem ↦ hnew (AList.mem_keys.mpr hmem)
  constructor
  · show (AList.insert _ _ _).keys.Perm (filename :: cache.names)
    rw [AList.keys_insert, List.erase_of_not_mem hkeys]
    exact hlinked.keys_perm.cons filename
  · show (cache.nextPlace :: cache.list.map Node.place).Nodup
    refine List.nodup_cons.mpr ⟨?_, hlinked.places_nodup⟩
    intro hmem
    obtain ⟨node, hnode, hplace⟩ := List.mem_map.mp hmem
    exact Nat.ne_of_lt (hlinked.places_lt node hnode) hplace
  · intro node hmem
    rcases List.mem_cons.mp hmem with rfl | hold
    · exact Nat.lt_succ_self cache.nextPlace
    · exact Nat.lt_succ_of_lt (hlinked.places_lt node hold)
  · intro name entry hlookup
    by_cases hname : name = filename
    · subst hname
      obtain rfl := Option.some.inj ((AList.lookup_insert _).symm.trans hlookup)
      exact List.mem_cons_self
    · have hbefore := (AList.lookup_insert_ne hname).symm.trans hlookup
      exact List.mem_cons_of_mem _ (hlinked.points name entry hbefore)

end Links

end FileCache

end MuduoProtorpc.Collect
