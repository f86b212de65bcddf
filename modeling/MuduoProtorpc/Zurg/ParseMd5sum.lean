import MuduoProtorpc.Foundation.PendingTable
import MuduoProtorpc.Foundation.Scanning
import MuduoProtorpc.Wire.RpcMessage

/-!
# `parseMd5sum`

The slave parses what `md5sum` has printed in a loop over its lines (`parseMd5sum` in
`examples/zurg/common/Util.cc`). The digest is taken from the first 32 columns of a line and the
name from the 35th on, up to the next newline.

The text may be cut anywhere. When it does not end with a newline the search for one fails. With
assertions the slave is then aborted; without them the position is -1, and the next line begins with
the first character of the text: the loop never ends (`parseLoop_cut`).
-/

set_option autoImplicit false
set_option relaxedAutoImplicit false

namespace MuduoProtorpc.Zurg

open Foundation Ascii

/-! ### `parseMd5sum` -/

/-- `StringPiece`: a place in the text that is parsed, and a length, which is an `int`. -/
structure Piece where
  start : ℕ
  length : ℤ

/-- The characters of a piece. -/
def Piece.text (piece : Piece) (lines : Bytes) : Bytes :=
  (lines.drop piece.start).take piece.length.toNat

/-- `static_cast<int>`. -/
def castInt (value : ℤ) : ℤ :=
  (BitVec.ofInt 32 value).toInt

/-- `lines.find('\n', pos)`. -/
def findNewline (lines : Bytes) (pos : ℕ) : Option ℕ :=
  (memchr newline (lines.drop pos)).map (· + pos)

/-- The locals of `parseMd5sum`, `p` as an index, and the pieces that were put in the map: the names
and their digests. -/
structure Md5Parse where
  p : ℕ := 0
  nl : ℕ := 0
  entries : List (Piece × Piece) := []

/-- Why there is no result: the rounds that were allowed are used up, or an assertion fails. -/
inductive Stop
  | fuel
  | assertion
  deriving DecidableEq

/-- The loop of `parseMd5sum`, with assertions or without (`NDEBUG`). -/
def parseLoop (ndebug : Bool) (lines : Bytes) : ℕ → Md5Parse → Except Stop Md5Parse
  | 0, _ => .error .fuel
  | fuel + 1, parse =>
    match lines[parse.p]? with
    | none => .ok parse -- the NUL at the end
    | some char =>
      if char = nul then .ok parse
      else
        match findNewline lines parse.nl with
        | some nl =>
          parseLoop ndebug lines fuel {
            p := nl + 1
            nl := nl + 1
            entries := parse.entries ++
              [({ start := parse.p + 34, length := castInt ((nl : ℤ) - parse.p - 34) },
                { start := parse.p, length := 32 })] }
        | none =>
          if ndebug then
            -- `npos` is -1, and one more is zero
            parseLoop ndebug lines fuel {
              p := 0
              nl := 0
              entries := parse.entries ++
                [({ start := parse.p + 34, length := castInt (-1 - (parse.p : ℤ) - 34) },
                  { start := parse.p, length := 32 })] }
          else .error .assertion

/-- The map of the pieces, by their characters. -/
def Md5Parse.md5sums (parse : Md5Parse) (lines : Bytes) : Table Bytes Bytes :=
  Table.empty.insertAll (parse.entries.map fun (file, md5) ↦ (file.text lines, md5.text lines))

/-- `parseMd5sum`. -/
def parseMd5sum (ndebug : Bool) (fuel : ℕ) (lines : Bytes) : Except Stop (Table Bytes Bytes) :=
  (parseLoop ndebug lines fuel {}).map fun parse ↦ parse.md5sums lines

/-! ### Rows -/

/-- What the loop takes from a row: the name, and the digest. -/
def rowEntry (row : Bytes) : Bytes × Bytes :=
  ((row.drop 34).take (castInt ((row.length : ℤ) - 34)).toNat, row.take 32)

/-- The pieces that the loop takes from some rows, from a place on. -/
def rowPieces : ℕ → List Bytes → List (Piece × Piece)
  | _, [] => []
  | start, row :: rows =>
    ({ start := start + 34, length := castInt ((row.length : ℤ) - 34) },
      { start := start, length := 32 }) :: rowPieces (start + row.length + 1) rows

/-- The rows, each with its newline. -/
def rowText (rows : List Bytes) : Bytes :=
  rows.flatMap fun row ↦ row ++ [newline]

/-- A row of the output. -/
structure Row (row : Bytes) : Prop where
  newline_notMem : newline ∉ row
  nul_notMem : nul ∉ row
  length_le : 34 ≤ row.length

section Rows

variable {ndebug : Bool} {before row rest : Bytes} {rows : List Bytes}
  {entries : List (Piece × Piece)}

theorem rowText_cons (row : Bytes) (rows : List Bytes) (rest : Bytes) :
    rowText (row :: rows) ++ rest = row ++ newline :: (rowText rows ++ rest) := by
  simp [rowText]

/-- The character at the cursor. -/
theorem exists_char (before rest : Bytes) (hne : row ≠ []) (hnul : nul ∉ row) :
    ∃ first, (before ++ (row ++ rest))[before.length]? = some first ∧ first ≠ nul := by
  obtain ⟨first, others, rfl⟩ := List.exists_cons_of_ne_nil hne
  refine ⟨first, ?_, ?_⟩
  · simp
  · intro hfirst
    rw [hfirst] at hnul
    exact hnul List.mem_cons_self

theorem length_before_row (before row : Bytes) :
    (before ++ (row ++ [newline])).length = before.length + row.length + 1 := by
  simp [Nat.add_assoc]

/-- A row belongs to what is before the next. -/
theorem append_row (before row rest : Bytes) :
    before ++ (row ++ newline :: rest) = before ++ (row ++ [newline]) ++ rest := by
  simp

/-- A round takes a row. -/
theorem parseLoop_row (hrow : Row row) (fuel : ℕ) :
    parseLoop ndebug (before ++ (row ++ newline :: rest)) (fuel + 1) {
        p := before.length
        nl := before.length
        entries := entries } =
      parseLoop ndebug (before ++ (row ++ newline :: rest)) fuel {
        p := before.length + row.length + 1
        nl := before.length + row.length + 1
        entries := entries ++
          [({ start := before.length + 34, length := castInt ((row.length : ℤ) - 34) },
            { start := before.length, length := 32 })] } := by
  have hne : row ≠ [] := by
    intro hnil
    have hlength := hrow.length_le
    rw [hnil] at hlength
    exact absurd hlength (by decide)
  obtain ⟨first, hchar, hfirst⟩ := exists_char before (newline :: rest) hne hrow.nul_notMem
  have hfind : findNewline (before ++ (row ++ newline :: rest)) before.length =
      some (before.length + row.length) := by
    rw [findNewline, List.drop_left, memchr_append rest hrow.newline_notMem, Option.map_some,
      Nat.add_comm]
  have hlength : ((before.length + row.length : ℕ) : ℤ) - before.length - 34 =
      (row.length : ℤ) - 34 := by
    omega
  rw [parseLoop]
  simp only [hchar, if_neg hfirst, hfind, hlength]

/-- The rounds take the rows one after the other. -/
theorem parseLoop_rows (before rest : Bytes) (entries : List (Piece × Piece))
    (hrows : ∀ row ∈ rows, Row row) (fuel : ℕ) :
    parseLoop ndebug (before ++ (rowText rows ++ rest)) (rows.length + fuel) {
        p := before.length
        nl := before.length
        entries := entries } =
      parseLoop ndebug (before ++ (rowText rows ++ rest)) fuel {
        p := before.length + (rowText rows).length
        nl := before.length + (rowText rows).length
        entries := entries ++ rowPieces before.length rows } := by
  induction rows generalizing before entries with
  | nil => simp [rowText, rowPieces]
  | cons row rows ih =>
    obtain ⟨hrow, hlater⟩ := List.forall_mem_cons.mp hrows
    have hfuel : (row :: rows).length + fuel = rows.length + fuel + 1 := by
      rw [List.length_cons]
      omega
    have hend : before.length + row.length + 1 + (rowText rows).length =
        before.length + (rowText (row :: rows)).length := by
      simp [rowText]
      omega
    rw [hfuel, rowText_cons, parseLoop_row hrow, append_row, ← length_before_row, ih _ _ hlater,
      length_before_row, hend, List.append_assoc entries]
    rfl

/-- Fewer rounds are not enough for the rows. -/
theorem parseLoop_rows_fuel (before rest : Bytes) (entries : List (Piece × Piece))
    (hrows : ∀ row ∈ rows, Row row) {fuel : ℕ} (hfuel : fuel ≤ rows.length) :
    parseLoop ndebug (before ++ (rowText rows ++ rest)) fuel {
      p := before.length
      nl := before.length
      entries := entries } = .error .fuel := by
  induction rows generalizing before entries fuel with
  | nil =>
    obtain rfl := Nat.le_zero.mp hfuel
    rfl
  | cons row rows ih =>
    obtain ⟨hrow, hlater⟩ := List.forall_mem_cons.mp hrows
    cases fuel with
    | zero => rfl
    | succ fuel =>
      rw [rowText_cons, parseLoop_row hrow, append_row, ← length_before_row]
      exact ih _ _ hlater (Nat.le_of_succ_le_succ hfuel)

/-- The rounds for the rows at the front of the text. -/
theorem parseLoop_front (rest : Bytes) (entries : List (Piece × Piece))
    (hrows : ∀ row ∈ rows, Row row) (fuel : ℕ) :
    parseLoop ndebug (rowText rows ++ rest) (rows.length + fuel) { entries := entries } =
      parseLoop ndebug (rowText rows ++ rest) fuel {
        p := (rowText rows).length
        nl := (rowText rows).length
        entries := entries ++ rowPieces 0 rows } := by
  have hloop : parseLoop ndebug _ _ _ = _ := parseLoop_rows [] rest entries hrows fuel
  simpa only [List.nil_append, List.length_nil, Nat.zero_add] using hloop

theorem parseLoop_front_fuel (rest : Bytes) (entries : List (Piece × Piece))
    (hrows : ∀ row ∈ rows, Row row) {fuel : ℕ} (hfuel : fuel ≤ rows.length) :
    parseLoop ndebug (rowText rows ++ rest) fuel { entries := entries } = .error .fuel :=
  parseLoop_rows_fuel [] rest entries hrows hfuel

/-- What the loop leaves behind the last row. -/
def parsed (rows : List Bytes) : Md5Parse where
  p := (rowText rows).length
  nl := (rowText rows).length
  entries := rowPieces 0 rows

/-- When the rows are complete, the loop ends behind the last. -/
theorem parseLoop_complete_iff (hrows : ∀ row ∈ rows, Row row) {fuel : ℕ} {parse : Md5Parse} :
    parseLoop ndebug (rowText rows) fuel {} = .ok parse ↔
      rows.length < fuel ∧ parse = parsed rows := by
  rw [← List.append_nil (rowText rows)]
  by_cases hfuel : fuel ≤ rows.length
  · rw [parseLoop_front_fuel [] [] hrows hfuel]
    constructor
    · intro hok
      cases hok
    · intro hok
      exact absurd hfuel (not_le.mpr hok.1)
  · obtain ⟨more, rfl⟩ := Nat.exists_eq_add_of_lt (not_le.mp hfuel)
    have hend : (rowText rows ++ [])[(rowText rows).length]? = none := by
      rw [List.append_nil, List.getElem?_length]
    rw [Nat.add_assoc, parseLoop_front [] [] hrows, parseLoop]
    simp only [hend]
    constructor
    · intro hok
      exact ⟨by omega, (Except.ok.inj hok).symm⟩
    · intro hok
      rw [hok.2]
      rfl

/-- When a part of a row is left, the loop never ends, or an assertion fails. -/
theorem parseLoop_cut (hrows : ∀ row ∈ rows, Row row) (hrest : rest ≠ [])
    (hnewline : newline ∉ rest) (hnul : nul ∉ rest) (fuel : ℕ) (parse : Md5Parse) :
    parseLoop ndebug (rowText rows ++ rest) fuel { entries := entries } ≠ .ok parse := by
  induction fuel using Nat.strongRecOn generalizing entries with
  | _ fuel ih =>
    by_cases hfuel : fuel ≤ rows.length
    · rw [parseLoop_front_fuel rest entries hrows hfuel]
      simp
    · obtain ⟨more, rfl⟩ := Nat.exists_eq_add_of_lt (not_le.mp hfuel)
      obtain ⟨first, hchar, hfirst⟩ := exists_char (rowText rows) [] hrest hnul
      rw [List.append_nil] at hchar
      have hfind : findNewline (rowText rows ++ rest) (rowText rows).length = none := by
        rw [findNewline, List.drop_left, memchr_eq_none hnewline]
        rfl
      rw [Nat.add_assoc, parseLoop_front rest entries hrows, parseLoop]
      simp only [hchar, if_neg hfirst, hfind]
      by_cases hndebug : ndebug = true
      · -- the rounds begin anew
        rw [if_pos hndebug]
        exact ih more (by omega)
      · rw [if_neg hndebug]
        simp

/-! ### Pieces -/

/-- A piece is no longer than the cast has made it. -/
theorem castInt_le {value : ℤ} (hvalue : 0 ≤ value) : castInt value ≤ value := by
  rw [castInt, BitVec.toInt_ofInt, Int.bmod_def]
  split_ifs <;> omega

theorem castInt_lt (value : ℤ) : castInt value < 2 ^ 31 :=
  BitVec.toInt_lt

theorem castInt_eq {value : ℤ} (hvalue : 0 ≤ value) (hless : value < 2 ^ 31) :
    castInt value = value :=
  BitVec.toInt_ofInt_eq_self (by decide) (by omega) hless

/-- The characters of the pieces of a row. -/
theorem text_rowPieces (before rest : Bytes) (hrow : 34 ≤ row.length) :
    Piece.text { start := before.length + 34, length := castInt ((row.length : ℤ) - 34) }
        (before ++ (row ++ rest)) = (rowEntry row).1 ∧
      Piece.text { start := before.length, length := 32 } (before ++ (row ++ rest)) =
        (rowEntry row).2 := by
  have hcast : castInt ((row.length : ℤ) - 34) ≤ (row.length : ℤ) - 34 :=
    castInt_le (by omega)
  have hlength : (castInt ((row.length : ℤ) - 34)).toNat ≤ (row.drop 34).length := by
    rw [List.length_drop]
    omega
  constructor
  · show ((before ++ (row ++ rest)).drop (before.length + 34)).take _ = _
    rw [List.drop_length_add_append, List.drop_append_of_le_length hrow,
      List.take_append_of_le_length hlength]
    rfl
  · show ((before ++ (row ++ rest)).drop before.length).take 32 = _
    rw [List.drop_left, List.take_append_of_le_length (by omega)]
    rfl

/-- The characters of the pieces of some rows. -/
theorem map_text_rowPieces (before rest : Bytes) (hrows : ∀ row ∈ rows, Row row) :
    (rowPieces before.length rows).map (fun (file, md5) ↦
      (file.text (before ++ (rowText rows ++ rest)),
        md5.text (before ++ (rowText rows ++ rest)))) = rows.map rowEntry := by
  induction rows generalizing before with
  | nil => rfl
  | cons row rows ih =>
    obtain ⟨hrow, hlater⟩ := List.forall_mem_cons.mp hrows
    have hrest := ih (before ++ (row ++ [newline])) hlater
    rw [length_before_row, ← append_row] at hrest
    obtain ⟨hname, hdigest⟩ := text_rowPieces before
      (newline :: (rowText rows ++ rest)) hrow.length_le
    rw [rowText_cons, rowPieces, List.map_cons, List.map_cons, hrest]
    congr 1
    exact Prod.ext hname hdigest

/-- A text that is cut ends with a part of a row, which may be empty. -/
theorem exists_take_of_prefix {cut : Bytes} (hrows : ∀ row ∈ rows, Row row)
    (hcut : cut <+: rowText rows) :
    ∃ count rest, cut = rowText (rows.take count) ++ rest ∧ newline ∉ rest ∧ nul ∉ rest := by
  induction rows generalizing cut with
  | nil =>
    rw [List.prefix_nil.mp hcut]
    exact ⟨0, [], rfl, List.not_mem_nil, List.not_mem_nil⟩
  | cons row rows ih =>
    obtain ⟨hrow, hlater⟩ := List.forall_mem_cons.mp hrows
    have htext : rowText (row :: rows) = row ++ [newline] ++ rowText rows := by
      simp [rowText]
    rw [htext] at hcut
    by_cases hwhole : row ++ [newline] <+: cut
    · obtain ⟨later, rfl⟩ := hwhole
      rw [List.prefix_append_right_inj] at hcut
      obtain ⟨count, rest, rfl, hnewline, hnul⟩ := ih hlater hcut
      refine ⟨count + 1, rest, ?_, hnewline, hnul⟩
      simp [rowText]
    · have hshort : cut <+: row ++ [newline] :=
        (List.prefix_or_prefix_of_prefix hcut (List.prefix_append _ _)).resolve_right hwhole
      have hpart : cut <+: row := by
        rcases List.prefix_concat_iff.mp hshort with heq | hpart
        · exact absurd (heq ▸ List.prefix_rfl) hwhole
        · exact hpart
      refine ⟨0, cut, rfl, ?_, ?_⟩
      · intro hmem
        exact hrow.newline_notMem (hpart.subset hmem)
      · intro hmem
        exact hrow.nul_notMem (hpart.subset hmem)

/-- A piece of the text, with a length that is not negative. -/
def Piece.InBounds (piece : Piece) (lines : Bytes) : Prop :=
  0 ≤ piece.length ∧ piece.start + piece.length ≤ (lines.length : ℤ)

/-- The pieces of rows that are not too long lie in the text. -/
theorem inBounds_rowPieces (before rest : Bytes)
    (hrows : ∀ row ∈ rows, 34 ≤ row.length ∧ row.length < 34 + 2 ^ 31) {pair : Piece × Piece}
    (hpair : pair ∈ rowPieces before.length rows) :
    pair.1.InBounds (before ++ (rowText rows ++ rest)) ∧
      pair.2.InBounds (before ++ (rowText rows ++ rest)) := by
  induction rows generalizing before with
  | nil => cases hpair
  | cons row rows ih =>
    obtain ⟨⟨hleast, hless⟩, hlater⟩ := List.forall_mem_cons.mp hrows
    rw [rowText_cons]
    rcases List.mem_cons.mp hpair with rfl | hmem
    · have hlength : (before ++ (row ++ newline :: (rowText rows ++ rest))).length =
          before.length + (row.length + (rowText rows ++ rest).length + 1) := by
        simp [Nat.add_assoc]
      have hcast : castInt ((row.length : ℤ) - 34) = (row.length : ℤ) - 34 :=
        castInt_eq (by omega) (by omega)
      simp only [Piece.InBounds, hlength, hcast]
      omega
    · rw [← length_before_row] at hmem
      rw [append_row]
      exact ih _ hlater hmem

end Rows

end MuduoProtorpc.Zurg
