import Mathlib.Data.BitVec
import Mathlib.Data.List.Induction
import Mathlib.Tactic.TypeStar

/-!
# Tables keyed by the identifiers of a wrapping counter

A party that has several requests open at once draws an identifier for each from a counter, keeps
the request in a table under that identifier, and takes it out when the answer with that identifier
arrives. `Table` is the table: at most one value a key, with `insert` (which overwrites) and
`erase`. `drawnId base index` is the `index`-th identifier of a counter of a fixed width that starts
at `base` and wraps around. Two draws differ as long as fewer than `2 ^ width` identifiers are drawn
(`drawnId_inj`), and the draw after the last of these repeats the first (`drawnId_wrap`).
-/

set_option autoImplicit false
set_option relaxedAutoImplicit false

namespace Foundation

/-! ### Tables -/

/-- A table with at most one value a key. -/
@[ext] structure Table (Key Value : Type*) where
  find : Key → Option Value

namespace Table

variable {Key Value : Type*} [DecidableEq Key]

/-- The table that holds nothing. -/
def empty : Table Key Value where
  find := fun _ ↦ none

/-- Stores a value under a key, in place of the one that was there. -/
def insert (table : Table Key Value) (key : Key) (value : Value) : Table Key Value where
  find := fun other ↦ if other = key then some value else table.find other

/-- Removes what is stored under a key. -/
def erase (table : Table Key Value) (key : Key) : Table Key Value where
  find := fun other ↦ if other = key then none else table.find other

omit [DecidableEq Key] in
@[simp] theorem find_empty (key : Key) : (empty : Table Key Value).find key = none :=
  rfl

theorem find_insert (table : Table Key Value) (key other : Key) (value : Value) :
    (table.insert key value).find other = if other = key then some value else table.find other :=
  rfl

theorem find_erase (table : Table Key Value) (key other : Key) :
    (table.erase key).find other = if other = key then none else table.find other :=
  rfl

@[simp] theorem find_insert_self (table : Table Key Value) (key : Key) (value : Value) :
    (table.insert key value).find key = some value := by
  rw [find_insert, if_pos rfl]

theorem find_insert_of_ne (table : Table Key Value) {key other : Key} (value : Value)
    (hne : other ≠ key) : (table.insert key value).find other = table.find other := by
  rw [find_insert, if_neg hne]

@[simp] theorem find_erase_self (table : Table Key Value) (key : Key) :
    (table.erase key).find key = none := by
  rw [find_erase, if_pos rfl]

theorem find_erase_of_ne (table : Table Key Value) {key other : Key} (hne : other ≠ key) :
    (table.erase key).find other = table.find other := by
  rw [find_erase, if_neg hne]

/-- Whatever is found after a removal was there before it, under another key. -/
theorem find_erase_eq_some {table : Table Key Value} {key other : Key} {value : Value} :
    (table.erase key).find other = some value ↔ other ≠ key ∧ table.find other = some value := by
  rw [find_erase]
  split_ifs with heq <;> simp [heq]

/-- Whatever is found after an insertion is the new entry or was there before it, under another
key. -/
theorem find_insert_eq_some {table : Table Key Value} {key other : Key} {value found : Value} :
    (table.insert key value).find other = some found ↔
      (other = key ∧ found = value) ∨ (other ≠ key ∧ table.find other = some found) := by
  rw [find_insert]
  split_ifs with heq
  · simp [heq, eq_comm]
  · simp [heq]

/-- Stores some values, one after the other. -/
def insertAll (table : Table Key Value) (pairs : List (Key × Value)) : Table Key Value :=
  pairs.foldl (fun table pair ↦ table.insert pair.1 pair.2) table

theorem insertAll_append_singleton (table : Table Key Value) (pairs : List (Key × Value))
    (pair : Key × Value) :
    table.insertAll (pairs ++ [pair]) = (table.insertAll pairs).insert pair.1 pair.2 := by
  rw [insertAll, List.foldl_append]
  rfl

/-- What is found was stored. -/
theorem mem_of_find_insertAll {pairs : List (Key × Value)} {key : Key} {value : Value}
    (hfind : (empty.insertAll pairs).find key = some value) : (key, value) ∈ pairs := by
  induction pairs using List.reverseRecOn with
  | nil => cases hfind
  | append_singleton pairs pair ih =>
    rw [insertAll_append_singleton, find_insert_eq_some] at hfind
    rcases hfind with ⟨rfl, rfl⟩ | ⟨-, hbefore⟩
    · exact List.mem_append_right _ (List.mem_singleton_self _)
    · exact List.mem_append_left _ (ih hbefore)

/-- If the values are determined by their keys, they are found under all keys that were used. -/
theorem find_insertAll_map {keys : List Key} (value : Key → Value) (key : Key) :
    (empty.insertAll (keys.map fun key ↦ (key, value key))).find key =
      if key ∈ keys then some (value key) else none := by
  induction keys using List.reverseRecOn with
  | nil => rfl
  | append_singleton keys last ih =>
    rw [List.map_append, List.map_singleton, insertAll_append_singleton, find_insert, ih]
    by_cases hlast : key = last
    · simp [hlast]
    · simp [hlast]

end Table

/-! ### Identifiers of a wrapping counter -/

variable {width : ℕ} (base : BitVec width)

/-- The identifier that a counter of `width` bits starting at `base` hands out after `index`
others. -/
def drawnId (index : ℕ) : BitVec width :=
  base + BitVec.ofNat width index

@[simp] theorem drawnId_zero : drawnId base 0 = base := by
  simp [drawnId]

theorem drawnId_succ (index : ℕ) : drawnId base (index + 1) = drawnId base index + 1 := by
  rw [drawnId, drawnId, BitVec.ofNat_add, ← BitVec.add_assoc]
  rfl

/-- Fewer than `2 ^ width` draws give different identifiers. -/
theorem drawnId_inj {first second : ℕ} (hfirst : first < 2 ^ width) (hsecond : second < 2 ^ width)
    (heq : drawnId base first = drawnId base second) : first = second := by
  have hcancel : BitVec.ofNat width first = BitVec.ofNat width second :=
    add_left_cancel heq
  have hmod := congrArg BitVec.toNat hcancel
  rwa [BitVec.toNat_ofNat, BitVec.toNat_ofNat, Nat.mod_eq_of_lt hfirst,
    Nat.mod_eq_of_lt hsecond] at hmod

/-- The draw after `2 ^ width` others repeats the first. -/
theorem drawnId_wrap : drawnId base (2 ^ width) = base := by
  have hzero : BitVec.ofNat width (2 ^ width) = 0 := by
    apply BitVec.eq_of_toNat_eq
    rw [BitVec.toNat_ofNat, Nat.mod_self]
    exact BitVec.toNat_zero.symm
  rw [drawnId, hzero, add_zero]

end Foundation
