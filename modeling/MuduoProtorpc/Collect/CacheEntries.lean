import MuduoProtorpc.Collect.FileCacheRuns

/-!
# Entries of `FileCache`

What the calls do to the entries of `map_`. An entry stays as it is until it is erased and its
descriptor closed: `Drops` is said of operations that only erase entries, `Retains` of all calls.
-/

set_option autoImplicit false
set_option relaxedAutoImplicit false

namespace MuduoProtorpc.Collect

namespace FileCache

/-- Some entries of `map_` were erased and closed, the others and those of `keep_` are as they were,
and nothing was opened. -/
structure Drops (cache next : FileCache) : Prop where
  keep_eq : next.keep = cache.keep
  opened_eq : next.opened = cache.opened
  closed_subset : cache.closed ⊆ next.closed
  lookup : ∀ name, next.map.lookup name = cache.map.lookup name ∨
    (next.map.lookup name = none ∧ ∀ entry, cache.map.lookup name = some entry →
      entry.first.valid = true → entry.first ∈ next.closed)

/-- An entry is as it was, or its descriptor was closed. -/
structure Retains (cache next : FileCache) : Prop where
  closed_subset : cache.closed ⊆ next.closed
  lookup : ∀ name entry, cache.map.lookup name = some entry → entry.first.valid = true →
    next.map.lookup name = some entry ∨ entry.first ∈ next.closed

section Entries

variable {cache middle next : FileCache} {filename sentry : String} {level : CacheLevel}
  {result fd : ℤ}

theorem Drops.refl (cache : FileCache) : cache.Drops cache where
  keep_eq := rfl
  opened_eq := rfl
  closed_subset := List.Subset.refl _
  lookup := fun _ ↦ Or.inl rfl

theorem Drops.trans (hfirst : cache.Drops middle) (hsecond : middle.Drops next) :
    cache.Drops next where
  keep_eq := hsecond.keep_eq.trans hfirst.keep_eq
  opened_eq := hsecond.opened_eq.trans hfirst.opened_eq
  closed_subset := List.Subset.trans hfirst.closed_subset hsecond.closed_subset
  lookup := by
    intro name
    rcases hfirst.lookup name with hsame | ⟨hgone, hclosed⟩
    · have hlater := hsecond.lookup name
      rwa [hsame] at hlater
    · right
      constructor
      · rcases hsecond.lookup name with hsame | ⟨hgone', -⟩
        · exact hsame.trans hgone
        · exact hgone'
      · intro entry hentry hvalid
        exact hsecond.closed_subset (hclosed entry hentry hvalid)

/-- A name that is still cached has the entry that it had. -/
theorem Drops.lookup_eq (hdrops : cache.Drops next) {name : String} (hname : name ∈ next.map) :
    next.map.lookup name = cache.map.lookup name := by
  rcases hdrops.lookup name with hsame | ⟨hgone, -⟩
  · exact hsame
  · exact absurd hname (AList.lookup_eq_none.mp hgone)

theorem Drops.retains (hdrops : cache.Drops next) : cache.Retains next where
  closed_subset := hdrops.closed_subset
  lookup := by
    intro name entry hentry hvalid
    rcases hdrops.lookup name with hsame | ⟨-, hclosed⟩
    · exact Or.inl (hsame.trans hentry)
    · exact Or.inr (hclosed entry hentry hvalid)

/-- The descriptor of a name that is not cached any more was closed. -/
theorem Retains.mem_closed (hretains : cache.Retains next) {name : String} {entry : Entry}
    (hentry : cache.map.lookup name = some entry) (hvalid : entry.first.valid = true)
    (hgone : name ∉ next.map) : entry.first ∈ next.closed := by
  rcases hretains.lookup name entry hentry hvalid with hsame | hclosed
  · rw [AList.lookup_eq_none.mpr hgone] at hsame
    cases hsame
  · exact hclosed

theorem Retains.refl (cache : FileCache) : cache.Retains cache :=
  (Drops.refl cache).retains

theorem Retains.trans (hfirst : cache.Retains middle) (hsecond : middle.Retains next) :
    cache.Retains next where
  closed_subset := List.Subset.trans hfirst.closed_subset hsecond.closed_subset
  lookup := by
    intro name entry hentry hvalid
    rcases hfirst.lookup name entry hentry hvalid with hsame | hclosed
    · exact hsecond.lookup name entry hsame hvalid
    · exact Or.inr (hsecond.closed_subset hclosed)

theorem destroy_subset (file : File) (closed : List File) : closed ⊆ file.destroy closed := by
  rw [destroy_eq]
  exact List.subset_append_left _ _

/-- Taking an entry out destroys its file. -/
theorem closed_eraseKey {entry : Entry} (hentry : cache.map.lookup filename = some entry) :
    (cache.eraseKey filename).closed = entry.first.destroy cache.closed := by
  simp only [eraseKey, hentry]

theorem eraseKey_drops (cache : FileCache) (filename : String) :
    cache.Drops (cache.eraseKey filename) where
  keep_eq := rfl
  opened_eq := rfl
  closed_subset := by
    unfold eraseKey
    cases cache.map.lookup filename with
    | none => exact List.Subset.refl _
    | some entry => exact destroy_subset entry.first cache.closed
  lookup := by
    intro name
    by_cases hname : name = filename
    · subst hname
      right
      constructor
      · exact AList.lookup_erase _ _
      · intro entry hentry hvalid
        rw [closed_eraseKey hentry, destroy_eq, List.filter_cons_of_pos hvalid]
        exact List.mem_append_right _ List.mem_cons_self
    · exact Or.inl (AList.lookup_erase_ne hname)

theorem eraseBack_drops (heraseBack : cache.eraseBack = some next) : cache.Drops next := by
  unfold eraseBack at heraseBack
  obtain ⟨node, -, hnext⟩ := Option.bind_eq_some_iff.mp heraseBack
  obtain rfl := Option.some.inj hnext
  have hdrops := cache.eraseKey_drops node.name
  exact ⟨hdrops.keep_eq, hdrops.opened_eq, hdrops.closed_subset, hdrops.lookup⟩

theorem closeFile_drops (hclose : cache.closeFile filename = some next) : cache.Drops next := by
  unfold closeFile at hclose
  cases hlookup : cache.map.lookup filename with
  | none =>
    rw [hlookup] at hclose
    obtain rfl := Option.some.inj hclose
    exact Drops.refl cache
  | some entry =>
    rw [hlookup] at hclose
    obtain ⟨unlinked, hunlinked, hnext⟩ := Option.bind_eq_some_iff.mp hclose
    obtain rfl := Option.some.inj hnext
    unfold eraseNode at hunlinked
    obtain ⟨node, -, hunlinked⟩ := Option.bind_eq_some_iff.mp hunlinked
    obtain rfl := Option.some.inj hunlinked
    have hdrops := cache.eraseKey_drops filename
    exact ⟨hdrops.keep_eq, hdrops.opened_eq, hdrops.closed_subset, hdrops.lookup⟩

theorem closeBehind_drops (fuel : ℕ) (hclose : closeBehind sentry fuel cache = some next) :
    cache.Drops next := by
  induction fuel generalizing cache with
  | zero => cases hclose
  | succ fuel ih =>
    unfold closeBehind at hclose
    cases hlast : cache.list.getLast? with
    | none =>
      simp only [hlast] at hclose
      obtain rfl := Option.some.inj hclose
      exact Drops.refl cache
    | some node =>
      simp only [hlast] at hclose
      split_ifs at hclose with hsentry
      · obtain ⟨rest, heraseBack, hloop⟩ := Option.bind_eq_some_iff.mp hclose
        exact (eraseBack_drops heraseBack).trans (ih hloop)
      · obtain rfl := Option.some.inj hclose
        exact Drops.refl cache

theorem closeUnusedFiles_drops (hclose : cache.closeUnusedFiles sentry = some next) :
    cache.Drops next := by
  unfold closeUnusedFiles at hclose
  split_ifs at hclose
  · exact closeBehind_drops _ hclose
  · obtain rfl := Option.some.inj hclose
    exact Drops.refl cache

/-- What `getFile` with `kLRU` does to the entries: it finds one, or it opens the file, inserts an
entry that was not there and may drop another. -/
theorem getFile_lru_cases (hget : cache.getFile filename .lru result = some (fd, next)) :
    (∃ entry list, cache.map.lookup filename = some entry ∧ fd = entry.first.fd ∧
      next = { cache with list := list }) ∨
    (cache.map.lookup filename = none ∧ (cache.insertFile filename result).Drops next ∧
      fd = result) := by
  unfold getFile at hget
  obtain ⟨-, -, hget⟩ := Option.bind_eq_some_iff.mp hget
  cases hlookup : cache.map.lookup filename with
  | some entry =>
    rw [hlookup] at hget
    obtain ⟨spliced, hsplice, hreturn⟩ := Option.bind_eq_some_iff.mp hget
    obtain ⟨rfl, rfl⟩ := Prod.mk.inj (Option.some.inj hreturn)
    unfold splice at hsplice
    obtain ⟨node, -, hspliced⟩ := Option.bind_eq_some_iff.mp hsplice
    exact Or.inl ⟨entry, _, rfl, rfl, (Option.some.inj hspliced).symm⟩
  | none =>
    rw [hlookup] at hget
    obtain ⟨-, -, hget⟩ := Option.bind_eq_some_iff.mp hget
    obtain ⟨evicted, hevict, hget⟩ := Option.bind_eq_some_iff.mp hget
    obtain ⟨-, -, hget⟩ := Option.bind_eq_some_iff.mp hget
    obtain ⟨entry, hentry, hreturn⟩ := Option.bind_eq_some_iff.mp hget
    obtain ⟨rfl, rfl⟩ := Prod.mk.inj (Option.some.inj hreturn)
    have hdrops : (cache.insertFile filename result).Drops evicted := by
      unfold evict at hevict
      split_ifs at hevict
      · exact eraseBack_drops hevict
      · obtain rfl := Option.some.inj hevict
        exact Drops.refl _
    refine Or.inr ⟨rfl, hdrops, ?_⟩
    rcases hdrops.lookup filename with hsame | ⟨hgone, -⟩
    · have hinserted : entry = { first := cache.openFile result, second := cache.nextPlace } :=
        Option.some.inj ((hentry.symm.trans hsame).trans (AList.lookup_insert _))
      rw [hinserted]
      rfl
    · rw [hgone] at hentry
      cases hentry

theorem insertFile_retains (hnew : cache.map.lookup filename = none) (result : ℤ) :
    cache.Retains (cache.insertFile filename result) where
  closed_subset := List.Subset.refl _
  lookup := by
    intro name entry hentry _
    left
    have hother : name ≠ filename := by
      rintro rfl
      rw [hnew] at hentry
      cases hentry
    exact (AList.lookup_insert_ne hother).trans hentry

theorem getFile_lru_retains (hget : cache.getFile filename .lru result = some (fd, next)) :
    cache.Retains next ∧ next.keep = cache.keep := by
  rcases getFile_lru_cases hget with ⟨entry, list, -, -, rfl⟩ | ⟨hnew, hdrops, -⟩
  · exact ⟨⟨List.Subset.refl _, fun _ _ hentry _ ↦ Or.inl hentry⟩, rfl⟩
  · exact ⟨(insertFile_retains hnew result).trans hdrops.retains, hdrops.keep_eq⟩

theorem getFile_retains (hget : cache.getFile filename level result = some (fd, next)) :
    cache.Retains next := by
  cases level with
  | noCache => cases hget
  | lru => exact (getFile_lru_retains hget).1
  | keep =>
    simp only [getFile] at hget
    split_ifs at hget
    · obtain ⟨-, rfl⟩ := Prod.mk.inj (Option.some.inj hget)
      exact Retains.refl cache
    · obtain ⟨-, rfl⟩ := Prod.mk.inj (Option.some.inj hget)
      exact ⟨destroy_subset _ _, fun _ _ hentry _ ↦ Or.inl hentry⟩

end Entries

end FileCache

end MuduoProtorpc.Collect
