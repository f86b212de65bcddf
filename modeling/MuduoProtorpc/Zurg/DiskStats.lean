import MuduoProtorpc.Zurg.ParseMd5sum

/-!
# `strip_diskstats`

A heartbeat of the slave carries `/proc/diskstats` without the devices that have done nothing
(`examples/zurg/slave/Heartbeat.cc`). `strip_diskstats` goes over the text line by line, and keeps
the lines that are longer than eleven zeros and do not end in them.

The length of a line is an `int`, as is that of a `StringPiece`. When all lines fit in it the loop
ends at the end of the text with the lines to keep (`stripDiskstats_correct`).
-/

set_option autoImplicit false
set_option relaxedAutoImplicit false

namespace MuduoProtorpc.Zurg

open Foundation Ascii

/-! ### The code -/

/-- `zeros`. -/
def zeros : Bytes :=
  bytes " 0 0 0 0 0 0 0 0 0 0 0\n"

/-- `result`, when a line was looked at. -/
def appendLine (diskstats : Bytes) (line : Piece) (result : Bytes) : Bytes :=
  if (zeros.length : ℤ) < line.length then
    let ending : Piece :=
      { start := line.start + line.length.toNat - zeros.length, length := zeros.length }
    if ending.text diskstats ≠ zeros then result ++ line.text diskstats else result
  else result

/-- Why there is no result: the rounds that were allowed are used up, the pointer has left the text,
or the assertion fails. -/
inductive StripStop
  | fuel
  | outside
  | assertion
  deriving DecidableEq

/-- The loop of `strip_diskstats` and the assertion behind it, with `p` as an index. -/
def stripLoop (diskstats : Bytes) : ℕ → ℕ → Bytes → Except StripStop Bytes
  | 0, _, _ => .error .fuel
  | fuel + 1, p, result =>
    match strchr newline (diskstats.drop p) with
    | none => if p = diskstats.length then .ok result else .error .assertion
    | some rest =>
      let nl := diskstats.length - rest.length
      let pos := castInt ((nl : ℤ) - p + 1)
      if (p : ℤ) + pos < 0 then .error .outside
      else
        stripLoop diskstats fuel ((p : ℤ) + pos).toNat
          (appendLine diskstats { start := p, length := pos } result)

/-- `strip_diskstats`. -/
def stripDiskstats (fuel : ℕ) (diskstats : Bytes) : Except StripStop Bytes :=
  stripLoop diskstats fuel 0 []

/-! ### The lines of a text -/

/-- The lines of a text, each with its newline. -/
def textLines : Bytes → List Bytes
  | [] => []
  | char :: rest =>
    if char = newline then [newline] :: textLines rest
    else
      match textLines rest with
      | [] => [[char]]
      | line :: lines => (char :: line) :: lines

/-- A line that is longer than the zeros and does not end in them. -/
def Kept (line : Bytes) : Prop :=
  zeros.length < line.length ∧ ¬ zeros <:+ line

instance (line : Bytes) : Decidable (Kept line) :=
  inferInstanceAs (Decidable (_ ∧ _))

/-- The lines to keep, in order. -/
def keptLines (text : Bytes) : Bytes :=
  ((textLines text).filter fun line ↦ Kept line).flatten

/-- A text without NUL, whose last line is complete. -/
structure WholeLines (text : Bytes) : Prop where
  nul_notMem : nul ∉ text
  last_eq : ∀ last, text.getLast? = some last → last = newline

/-- The lines of a text have lengths that an `int` can hold. -/
def LinesFit (text : Bytes) : Prop :=
  ∀ line ∈ textLines text, line.length < 2 ^ 31

instance (text : Bytes) : Decidable (LinesFit text) :=
  inferInstanceAs (Decidable (∀ line ∈ _, _))

/-- `strip_diskstats` ends with the lines to keep, and in no other way. -/
structure StripsLines (text : Bytes) : Prop where
  terminates : ∃ fuel, stripDiskstats fuel text = .ok (keptLines text)
  only : ∀ fuel, stripDiskstats fuel text = .ok (keptLines text) ∨
    stripDiskstats fuel text = .error .fuel

section Lines

variable {row text before rest result : Bytes} {rows : List Bytes}

/-- A line is what comes before the first newline, and this. -/
theorem textLines_append (rest : Bytes) (hrow : newline ∉ row) :
    textLines (row ++ newline :: rest) = (row ++ [newline]) :: textLines rest := by
  induction row with
  | nil => exact if_pos rfl
  | cons char row ih =>
    rw [List.mem_cons, not_or] at hrow
    rw [List.cons_append, textLines, if_neg (Ne.symm hrow.1), ih hrow.2]
    rfl

theorem textLines_rowText (hrows : ∀ row ∈ rows, newline ∉ row) :
    textLines (rowText rows) = rows.map fun row ↦ row ++ [newline] := by
  induction rows with
  | nil => rfl
  | cons row rows ih =>
    obtain ⟨hrow, hlater⟩ := List.forall_mem_cons.mp hrows
    have hcons := rowText_cons row rows []
    rw [List.append_nil, List.append_nil] at hcons
    rw [hcons, textLines_append _ hrow, ih hlater, List.map_cons]

/-- A text of complete lines is made of rows. -/
theorem exists_rows (htext : ∀ last, text.getLast? = some last → last = newline) :
    ∃ rows, text = rowText rows ∧ ∀ row ∈ rows, newline ∉ row := by
  induction text with
  | nil => exact ⟨[], rfl, fun row hrow ↦ absurd hrow List.not_mem_nil⟩
  | cons char rest ih =>
    cases rest with
    | nil =>
      have hchar := htext char rfl
      refine ⟨[[]], by rw [hchar]; rfl, ?_⟩
      intro row hrow
      rw [List.mem_singleton.mp hrow]
      exact List.not_mem_nil
    | cons next rest =>
      obtain ⟨rows, hrest, hrows⟩ := ih fun last hlast ↦ htext last hlast
      by_cases hchar : char = newline
      · refine ⟨[] :: rows, by rw [hchar, hrest]; rfl, ?_⟩
        exact List.forall_mem_cons.mpr ⟨List.not_mem_nil, hrows⟩
      · cases rows with
        | nil => cases hrest
        | cons row rows =>
          obtain ⟨hrow, hlater⟩ := List.forall_mem_cons.mp hrows
          refine ⟨(char :: row) :: rows, by rw [hrest]; rfl, ?_⟩
          refine List.forall_mem_cons.mpr ⟨?_, hlater⟩
          intro hmem
          rcases List.mem_cons.mp hmem with hfirst | hinside
          · exact hchar hfirst.symm
          · exact hrow hinside

theorem nul_notMem_of_mem (hnul : nul ∉ rowText rows) (hrow : row ∈ rows) : nul ∉ row := by
  intro hmem
  apply hnul
  exact List.mem_flatMap.mpr ⟨row, hrow, List.mem_append_left _ hmem⟩

/-! ### The loop -/

theorem kept_iff (line : Bytes) :
    Kept line ↔ zeros.length < line.length ∧ line.drop (line.length - zeros.length) ≠ zeros := by
  rw [Kept, List.suffix_iff_eq_drop, ne_comm]

/-- A line is appended if it is kept. -/
theorem appendLine_eq (before rest result line : Bytes) :
    appendLine (before ++ (line ++ rest)) { start := before.length, length := line.length } result =
      if Kept line then result ++ line else result := by
  have hline : Piece.text { start := before.length, length := line.length }
      (before ++ (line ++ rest)) = line := by
    rw [Piece.text, List.drop_left, Int.toNat_natCast, List.take_left]
  rw [appendLine]
  by_cases hlong : zeros.length < line.length
  · have hending : Piece.text
        { start := before.length + line.length - zeros.length, length := zeros.length }
        (before ++ (line ++ rest)) = line.drop (line.length - zeros.length) := by
      rw [Piece.text, Nat.add_sub_assoc hlong.le, List.drop_length_add_append,
        List.drop_append_of_le_length (Nat.sub_le _ _), Int.toNat_natCast, List.take_left']
      rw [List.length_drop]
      omega
    simp only [Nat.cast_lt, hlong, if_true, Int.toNat_natCast, hending, hline, kept_iff, true_and]
  · have hshort : ¬ Kept line := fun hkept ↦ hlong hkept.1
    rw [if_neg (by simpa using hlong), if_neg hshort]

/-- A round goes over a line. -/
theorem stripLoop_row (before rest result : Bytes) (fuel : ℕ) (hrow : newline ∉ row)
    (hnul : nul ∉ row) (hfits : row.length + 1 < 2 ^ 31) :
    stripLoop (before ++ (row ++ newline :: rest)) (fuel + 1) before.length result =
      stripLoop (before ++ (row ++ newline :: rest)) fuel (before.length + row.length + 1)
        (if Kept (row ++ [newline]) then result ++ (row ++ [newline]) else result) := by
  have hnl : (before ++ (row ++ newline :: rest)).length - (newline :: rest).length =
      before.length + row.length := by
    rw [← List.append_assoc, List.length_append, Nat.add_sub_cancel, List.length_append]
  have hpos : castInt (((before.length + row.length : ℕ) : ℤ) - before.length + 1) =
      (row.length + 1 : ℕ) := by
    rw [castInt_eq (by omega) (by omega)]
    omega
  have hnext : ((before.length : ℤ) + (row.length + 1 : ℕ)).toNat =
      before.length + row.length + 1 := by
    omega
  have happend := appendLine_eq before rest result (row ++ [newline])
  rw [List.length_append, List.length_singleton, List.append_assoc] at happend
  rw [stripLoop, List.drop_left, strchr_append rest hrow hnul]
  dsimp only
  rw [hnl, hpos, if_neg (by omega), hnext]
  exact congrArg (stripLoop _ fuel _) happend

/-- The rounds go over the lines one after the other, and the loop ends behind the last. -/
theorem stripLoop_rows (before result : Bytes) (fuel : ℕ)
    (hrows : ∀ row ∈ rows, newline ∉ row ∧ nul ∉ row ∧ row.length + 1 < 2 ^ 31) :
    stripLoop (before ++ rowText rows) fuel before.length result =
      if rows.length < fuel then
        .ok (result ++
          ((rows.map fun row ↦ row ++ [newline]).filter fun line ↦ Kept line).flatten)
      else .error .fuel := by
  induction rows generalizing before result fuel with
  | nil =>
    cases fuel with
    | zero => rfl
    | succ fuel =>
      rw [stripLoop, List.drop_left]
      simp [rowText, strchr]
  | cons row rows ih =>
    obtain ⟨⟨hrow, hnul, hfits⟩, hlater⟩ := List.forall_mem_cons.mp hrows
    cases fuel with
    | zero => rfl
    | succ fuel =>
      have hcons : before ++ rowText (row :: rows) =
          before ++ (row ++ newline :: rowText rows) := by
        have hfirst := rowText_cons row rows []
        rw [List.append_nil, List.append_nil] at hfirst
        rw [hfirst]
      rw [hcons, stripLoop_row before (rowText rows) result fuel hrow hnul hfits, append_row,
        ← length_before_row, ih _ _ _ hlater, List.length_cons, List.map_cons]
      simp only [Nat.add_lt_add_iff_right]
      by_cases hkept : Kept (row ++ [newline])
      · simp only [List.filter_cons, hkept, decide_true, if_true, List.flatten_cons,
          List.append_assoc]
      · simp only [List.filter_cons, hkept, decide_false, if_false, Bool.false_eq_true]

/-! ### Texts of complete lines -/

/-- A text of complete lines that fit, as rows. -/
theorem rows_of_wholeLines (hwhole : WholeLines text) (hfit : LinesFit text) :
    ∃ rows, text = rowText rows ∧
      ∀ row ∈ rows, newline ∉ row ∧ nul ∉ row ∧ row.length + 1 < 2 ^ 31 := by
  obtain ⟨rows, htext, hrows⟩ := exists_rows hwhole.last_eq
  refine ⟨rows, htext, ?_⟩
  intro row hrow
  have hnul := hwhole.nul_notMem
  rw [LinesFit, htext, textLines_rowText hrows] at hfit
  rw [htext] at hnul
  refine ⟨hrows row hrow, nul_notMem_of_mem hnul hrow, ?_⟩
  have hlength := hfit _ (List.mem_map_of_mem hrow)
  rw [List.length_append, List.length_singleton] at hlength
  exact hlength

/-- Texts of complete lines are stripped. -/
theorem stripsLines_of_fit (hwhole : WholeLines text) (hfit : LinesFit text) :
    StripsLines text := by
  obtain ⟨rows, htext, hrows⟩ := rows_of_wholeLines hwhole hfit
  have hkept : keptLines text =
      ((rows.map fun row ↦ row ++ [newline]).filter fun line ↦ Kept line).flatten := by
    rw [keptLines, htext, textLines_rowText fun row hrow ↦ (hrows row hrow).1]
  have hloop : ∀ fuel, stripDiskstats fuel text =
      if rows.length < fuel then .ok (keptLines text) else .error .fuel := by
    intro fuel
    have hrun := stripLoop_rows [] [] fuel hrows
    rw [List.nil_append, List.nil_append, ← hkept, ← htext] at hrun
    exact hrun
  constructor
  · refine ⟨rows.length + 1, ?_⟩
    rw [hloop, if_pos (Nat.lt_succ_self _)]
  · intro fuel
    rw [hloop]
    by_cases hfuel : rows.length < fuel
    · left
      rw [if_pos hfuel]
    · right
      rw [if_neg hfuel]

/-- The lines of two texts, one after the other. -/
theorem textLines_append_text (hwhole : WholeLines text) (other : Bytes) :
    textLines (text ++ other) = textLines text ++ textLines other := by
  obtain ⟨rows, htext, hrows⟩ := exists_rows hwhole.last_eq
  rw [htext, textLines_rowText hrows]
  clear htext hwhole
  induction rows with
  | nil => rfl
  | cons row rows ih =>
    obtain ⟨hrow, hlater⟩ := List.forall_mem_cons.mp hrows
    rw [rowText_cons, textLines_append _ hrow, ih hlater]
    rfl

theorem WholeLines.append {other : Bytes} (hwhole : WholeLines text) (hother : WholeLines other) :
    WholeLines (text ++ other) := by
  constructor
  · rw [List.mem_append, not_or]
    exact ⟨hwhole.nul_notMem, hother.nul_notMem⟩
  · intro last hlast
    rw [List.getLast?_append, Option.or_eq_some_iff] at hlast
    rcases hlast with hsecond | ⟨-, hfirst⟩
    · exact hother.last_eq last hsecond
    · exact hwhole.last_eq last hfirst

/-- A text made of complete lines without NUL. -/
theorem wholeLines_rowText (hnul : ∀ row ∈ rows, nul ∉ row) : WholeLines (rowText rows) := by
  constructor
  · intro hmem
    obtain ⟨row, hrow, hinside⟩ := List.mem_flatMap.mp hmem
    rcases List.mem_append.mp hinside with hfirst | hlast
    · exact hnul row hrow hfirst
    · cases List.mem_singleton.mp hlast
  · intro last hlast
    rcases List.eq_nil_or_concat rows with hnil | ⟨earlier, row, hrows⟩
    · rw [hnil] at hlast
      cases hlast
    · rw [hrows, List.concat_eq_append, rowText, List.flatMap_append, List.flatMap_singleton,
        ← List.append_assoc, List.getLast?_append, List.getLast?_singleton] at hlast
      exact (Option.some.inj hlast).symm

/-- The lines that are kept are the lines of a text again. -/
theorem textLines_keptLines (hwhole : WholeLines text) :
    WholeLines (keptLines text) ∧
      textLines (keptLines text) = (textLines text).filter fun line ↦ Kept line := by
  obtain ⟨rows, htext, hrows⟩ := exists_rows hwhole.last_eq
  have hkept : (textLines text).filter (fun line ↦ decide (Kept line)) =
      (rows.filter fun row ↦ Kept (row ++ [newline])).map fun row ↦ row ++ [newline] := by
    rw [htext, textLines_rowText hrows, List.filter_map]
    rfl
  have hagain : keptLines text = rowText (rows.filter fun row ↦ Kept (row ++ [newline])) := by
    rw [keptLines, hkept, rowText, List.flatMap_def]
  rw [hkept, hagain]
  constructor
  · apply wholeLines_rowText
    intro row hrow
    have hnul := hwhole.nul_notMem
    rw [htext] at hnul
    exact nul_notMem_of_mem hnul (List.mem_of_mem_filter hrow)
  · apply textLines_rowText
    intro row hrow
    exact hrows row (List.mem_of_mem_filter hrow)

end Lines

/-- On texts of complete lines that fit, `strip_diskstats` is a filter of the lines: it keeps those
that are kept, does nothing to what it has stripped, and strips two texts one by one. -/
theorem stripDiskstats_correct {text : Bytes} (hwhole : WholeLines text) (hfit : LinesFit text) :
    StripsLines text ∧
      (StripsLines (keptLines text) ∧ keptLines (keptLines text) = keptLines text) ∧
        ∀ other, WholeLines other → LinesFit other →
          StripsLines (text ++ other) ∧ keptLines (text ++ other) =
            keptLines text ++ keptLines other := by
  obtain ⟨hwholeKept, hlines⟩ := textLines_keptLines hwhole
  refine ⟨stripsLines_of_fit hwhole hfit, ⟨?_, ?_⟩, ?_⟩
  · apply stripsLines_of_fit hwholeKept
    intro line hline
    rw [hlines] at hline
    exact hfit line (List.mem_of_mem_filter hline)
  · rw [keptLines, hlines, List.filter_filter, keptLines]
    simp only [Bool.and_self]
  · intro other hother hotherFit
    constructor
    · apply stripsLines_of_fit (hwhole.append hother)
      intro line hline
      rw [textLines_append_text hwhole] at hline
      rcases List.mem_append.mp hline with hfirst | hsecond
      · exact hfit line hfirst
      · exact hotherFit line hsecond
    · rw [keptLines, textLines_append_text hwhole, List.filter_append, List.flatten_append]
      rfl

/-- A disk that is used, and a device that is not. -/
def usedAndUnused : List Bytes :=
  [bytes "8 0 sda 95 4 31 2 77 5 19 3 0 21 24", bytes "7 0 loop0 0 0 0 0 0 0 0 0 0 0 0"]

theorem stripsLines_used : StripsLines (rowText usedAndUnused) :=
  (stripDiskstats_correct (wholeLines_rowText (by decide +kernel)) (by decide +kernel)).1

/-- The first of them is left. -/
example : keptLines (rowText usedAndUnused) = rowText (usedAndUnused.take 1) := by
  decide +kernel

/-- The length of a line wraps, and the pointer goes back to before the text. -/
theorem stripDiskstats_of_long {row : Bytes} (hrow : newline ∉ row) (hnul : nul ∉ row)
    (hlength : row.length = 2 ^ 31) (fuel : ℕ) (result : Bytes) :
    stripDiskstats fuel (row ++ [newline]) ≠ .ok result := by
  cases fuel with
  | zero => exact nofun
  | succ fuel =>
    have hnl : (row ++ [newline]).length - [newline].length = row.length := by
      rw [List.length_append, Nat.add_sub_cancel]
    have hcast : castInt ((2 ^ 31 : ℕ) - (0 : ℕ) + 1) = -(2 ^ 31 - 1) := by decide
    rw [stripDiskstats, stripLoop, List.drop_zero, strchr_append [] hrow hnul]
    dsimp only
    rw [hnl, hlength, hcast, if_pos (by decide)]
    exact nofun

/-- A line with a length that is one too many for an `int`. -/
theorem not_stripsLines_long :
    WholeLines (List.replicate (2 ^ 31) 97 ++ [newline]) ∧
      ¬ StripsLines (List.replicate (2 ^ 31) 97 ++ [newline]) := by
  have hrow : newline ∉ List.replicate (2 ^ 31) 97 := by
    rw [List.mem_replicate]
    exact fun hmem ↦ absurd hmem.2 (by decide)
  have hnul : nul ∉ List.replicate (2 ^ 31) 97 := by
    rw [List.mem_replicate]
    exact fun hmem ↦ absurd hmem.2 (by decide)
  constructor
  · constructor
    · rw [List.mem_append, not_or]
      exact ⟨hnul, by decide⟩
    · intro last hlast
      rw [List.getLast?_append, List.getLast?_singleton] at hlast
      exact (Option.some.inj hlast).symm
  · intro hstrips
    obtain ⟨fuel, hresult⟩ := hstrips.terminates
    exact stripDiskstats_of_long hrow hnul List.length_replicate fuel _ hresult

end MuduoProtorpc.Zurg
