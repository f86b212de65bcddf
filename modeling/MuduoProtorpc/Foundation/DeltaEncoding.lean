import Mathlib.Data.List.Nodup
import Mathlib.Tactic.SplitIfs
import MuduoProtorpc.Foundation.PendingTable
import MuduoProtorpc.Foundation.TransitionSystem

/-!
# Delta encoding with periodic resets

An encoder gets a list of items for each record, at most one with each key, and writes an item in
full if its value is not the one that it remembers for the key. Every `period` records it forgets
everything. A reader of a log finds the value of an item that is not written in full in one of the
`period` records before it (`SelfContained`), as long as every record that has an item in full is in
the log (`Covered.logged`). A record that goes elsewhere does no harm if it has none
(`Covered.taken`).
-/

set_option autoImplicit false
set_option relaxedAutoImplicit false

namespace Foundation

/-! ### The log -/

/-- What an encoder remembers: the values since the last reset, and the number of records since
then. -/
structure DeltaEncoder (Key Value : Type*) where
  seen : Table Key Value
  count : ℕ

/-- The items of a record, and whether they are written in full. -/
abbrev DeltaRecord (Key Value : Type*) :=
  List ((Key × Value) × Bool)

variable {Key Value : Type*}

/-- The beginning of a record, at which every `period` records everything is forgotten. -/
def DeltaEncoder.begin (period : ℕ) (encoder : DeltaEncoder Key Value) : DeltaEncoder Key Value :=
  if period ≤ encoder.count + 1 then { seen := .empty, count := 0 }
  else { encoder with count := encoder.count + 1 }

/-- An item that is not written in full is written in full in one of the records before. -/
def SelfContained (window : ℕ) (log : List (DeltaRecord Key Value)) : Prop :=
  ∀ before record after, log = before ++ record :: after → ∀ item, (item, false) ∈ record →
    ∃ earlier ∈ before.drop (before.length - window), (item, true) ∈ earlier

/-- What the encoder remembers is in full in the records of the log since the reset. -/
structure Covered (period : ℕ) (encoder : DeltaEncoder Key Value)
    (log : List (DeltaRecord Key Value)) : Prop where
  count_lt : encoder.count < period
  find : ∀ key value, encoder.seen.find key = some value →
    ∃ earlier ∈ log.drop (log.length - (encoder.count + 1)), ((key, value), true) ∈ earlier

section Log

variable {period : ℕ} {encoder : DeltaEncoder Key Value} {log : List (DeltaRecord Key Value)}

/-- What a reset forgets does not have to be in the log, and the rest is one record further away
than before, if there is one. -/
theorem Covered.begin (hcovered : Covered period encoder log) :
    (encoder.begin period).count < period ∧
      ∀ key value, (encoder.begin period).seen.find key = some value →
        encoder.seen.find key = some value ∧ (encoder.begin period).count = encoder.count + 1 := by
  unfold DeltaEncoder.begin
  split_ifs with hreset
  · refine ⟨Nat.zero_lt_of_lt hcovered.count_lt, ?_⟩
    intro key value hfind
    cases hfind
  · exact ⟨Nat.lt_of_not_le hreset, fun key value hfind ↦ ⟨hfind, rfl⟩⟩

/-- The last records of a log are among the last records of a longer one. -/
theorem mem_drop_append {record : DeltaRecord Key Value} {count : ℕ}
    (hrecord : record ∈ log.drop (log.length - count)) (last : DeltaRecord Key Value) :
    record ∈ (log ++ [last]).drop ((log ++ [last]).length - (count + 1)) := by
  have hlength : (log ++ [last]).length - (count + 1) = log.length - count := by
    rw [List.length_append, List.length_singleton]
    omega
  rw [hlength, List.drop_append]
  exact List.mem_append_left _ hrecord

theorem last_mem_drop_append (log : List (DeltaRecord Key Value)) (last : DeltaRecord Key Value)
    (count : ℕ) : last ∈ (log ++ [last]).drop ((log ++ [last]).length - (count + 1)) := by
  have hlength : (log ++ [last]).length - (count + 1) ≤ log.length := by
    rw [List.length_append, List.length_singleton]
    omega
  rw [List.drop_append_of_le_length hlength]
  exact List.mem_append_right _ (List.mem_singleton_self last)

theorem selfContained_nil (window : ℕ) :
    SelfContained window ([] : List (DeltaRecord Key Value)) := by
  intro before record after hsplit
  simp at hsplit

end Log

/-! ### Records -/

variable [DecidableEq Key] [DecidableEq Value]

/-- Writes the items one after the other, and remembers those that are written in full. -/
def deltaEncode (seen : Table Key Value) :
    List (Key × Value) → DeltaRecord Key Value × Table Key Value
  | [] => ([], seen)
  | item :: rest =>
    if seen.find item.1 = some item.2 then
      ((item, false) :: (deltaEncode seen rest).1, (deltaEncode seen rest).2)
    else
      ((item, true) :: (deltaEncode (seen.insert item.1 item.2) rest).1,
        (deltaEncode (seen.insert item.1 item.2) rest).2)

/-- The record of some items. -/
def DeltaEncoder.write (period : ℕ) (encoder : DeltaEncoder Key Value)
    (items : List (Key × Value)) : DeltaRecord Key Value × DeltaEncoder Key Value :=
  let written := deltaEncode (encoder.begin period).seen items
  (written.1, { seen := written.2, count := (encoder.begin period).count })

section Encode

variable {seen : Table Key Value} {items : List (Key × Value)} {key : Key} {value : Value}

/-- What is written of the items after the first does not depend on whether it was in full. -/
theorem deltaEncode_cons (seen : Table Key Value) (item : Key × Value) (rest : List (Key × Value)) :
    deltaEncode seen (item :: rest) =
      ((item, decide (seen.find item.1 ≠ some item.2)) ::
        (deltaEncode (seen.insert item.1 item.2) rest).1,
          (deltaEncode (seen.insert item.1 item.2) rest).2) := by
  rw [deltaEncode]
  by_cases hseen : seen.find item.1 = some item.2
  · have hsame : seen.insert item.1 item.2 = seen := by
      ext key value
      rw [Table.find_insert]
      split_ifs with hkey
      · rw [hkey, hseen]
      · rfl
    simp [hseen, hsame]
  · simp [hseen]

/-- An item is written in full unless its value is remembered from before the record. -/
theorem mem_deltaEncode (hnodup : (items.map Prod.fst).Nodup) (full : Bool) :
    ((key, value), full) ∈ (deltaEncode seen items).1 ↔
      (key, value) ∈ items ∧ (full = false ↔ seen.find key = some value) := by
  induction items generalizing seen with
  | nil => simp [deltaEncode]
  | cons item rest ih =>
    rw [List.map_cons, List.nodup_cons] at hnodup
    rw [deltaEncode_cons, List.mem_cons, ih hnodup.2, List.mem_cons]
    by_cases hitem : (key, value) = item
    · subst hitem
      have hrest : (key, value) ∉ rest := fun hmem ↦ hnodup.1 (List.mem_map_of_mem hmem)
      cases full <;> simp [hrest]
    · have hother : (key, value) ∈ rest →
          (seen.insert item.1 item.2).find key = seen.find key := by
        intro hmem
        apply Table.find_insert_of_ne
        intro hkey
        exact hnodup.1 (List.mem_map.mpr ⟨(key, value), hmem, hkey⟩)
      constructor
      · rintro (hfirst | ⟨hmem, hfull⟩)
        · exact absurd (Prod.mk.inj hfirst).1 hitem
        · rw [hother hmem] at hfull
          exact ⟨Or.inr hmem, hfull⟩
      · rintro ⟨hfirst | hmem, hfull⟩
        · exact absurd hfirst hitem
        · rw [← hother hmem] at hfull
          exact Or.inr ⟨hmem, hfull⟩

/-- After a record, the values of its items are remembered, and those of the other keys from
before. -/
theorem find_deltaEncode (hnodup : (items.map Prod.fst).Nodup) :
    (deltaEncode seen items).2.find key = some value ↔
      (key, value) ∈ items ∨ key ∉ items.map Prod.fst ∧ seen.find key = some value := by
  induction items generalizing seen with
  | nil => simp [deltaEncode]
  | cons item rest ih =>
    rw [List.map_cons, List.nodup_cons] at hnodup
    rw [deltaEncode_cons, ih hnodup.2, Table.find_insert_eq_some, List.mem_cons, List.map_cons,
      List.mem_cons, not_or, Prod.ext_iff]
    by_cases hkey : key = item.1
    · subst hkey
      have hrest : (item.1, value) ∉ rest := fun hmem ↦
        hnodup.1 (List.mem_map.mpr ⟨(item.1, value), hmem, rfl⟩)
      simp [hrest, hnodup.1]
    · simp [hkey]

end Encode

section Write

variable {period : ℕ} {encoder : DeltaEncoder Key Value} {log : List (DeltaRecord Key Value)}
  {items : List (Key × Value)}

/-- A record that is written to the log. -/
theorem Covered.logged (hcovered : Covered period encoder log)
    (hnodup : (items.map Prod.fst).Nodup) :
    Covered period (encoder.write period items).2 (log ++ [(encoder.write period items).1]) where
  count_lt := hcovered.begin.1
  find := by
    intro key value hfind
    by_cases hbefore : (encoder.begin period).seen.find key = some value
    · obtain ⟨hseen, hcount⟩ := hcovered.begin.2 key value hbefore
      obtain ⟨earlier, hearlier, hfull⟩ := hcovered.find key value hseen
      refine ⟨earlier, ?_, hfull⟩
      show earlier ∈ List.drop (_ - ((encoder.begin period).count + 1)) _
      rw [hcount]
      exact mem_drop_append hearlier _
    · refine ⟨_, last_mem_drop_append log _ _, (mem_deltaEncode hnodup true).mpr ?_⟩
      rcases (find_deltaEncode hnodup).mp hfind with hmem | ⟨-, hold⟩
      · exact ⟨hmem, by simp [hbefore]⟩
      · exact absurd hold hbefore

/-- A record that goes elsewhere, with no item in full. -/
theorem Covered.taken (hcovered : Covered period encoder log)
    (hnodup : (items.map Prod.fst).Nodup)
    (hknown : ∀ item ∈ items, (encoder.begin period).seen.find item.1 = some item.2) :
    Covered period (encoder.write period items).2 log where
  count_lt := hcovered.begin.1
  find := by
    intro key value hfind
    have hbefore : (encoder.begin period).seen.find key = some value := by
      rcases (find_deltaEncode hnodup).mp hfind with hmem | ⟨-, hold⟩
      · exact hknown (key, value) hmem
      · exact hold
    obtain ⟨hseen, hcount⟩ := hcovered.begin.2 key value hbefore
    obtain ⟨earlier, hearlier, hfull⟩ := hcovered.find key value hseen
    refine ⟨earlier, List.drop_subset_drop_left log ?_ hearlier, hfull⟩
    show log.length - ((encoder.begin period).count + 1) ≤ _
    rw [hcount]
    exact Nat.sub_le_sub_left (Nat.le_succ _) log.length

/-- What is not in full in a record is in full in one of the `period` records before it. -/
theorem SelfContained.logged (hlog : SelfContained period log)
    (hcovered : Covered period encoder log) (hnodup : (items.map Prod.fst).Nodup) :
    SelfContained period (log ++ [(encoder.write period items).1]) := by
  intro before record after hsplit item hitem
  rcases append_singleton_eq_append_cons hsplit with ⟨rfl, rfl, -⟩ | ⟨rest, -, hstem⟩
  · have hseen := ((mem_deltaEncode hnodup false).mp hitem).2.mp rfl
    obtain ⟨earlier, hearlier, hfull⟩ := hcovered.find _ _ (hcovered.begin.2 _ _ hseen).1
    refine ⟨earlier, List.drop_subset_drop_left before ?_ hearlier, hfull⟩
    exact Nat.sub_le_sub_left hcovered.count_lt before.length
  · exact hlog before record rest hstem item hitem

end Write

end Foundation
