import MuduoProtorpc.Proc.StatText

/-!
# `ProcStatFile`

How the slave of `zurg` reads the parent and the start time of a process, before it sends a signal
to a command whose time is up (`examples/zurg/slave/Process.cc`). `parse` looks for the first `)` of
the line and counts twenty spaces from there. The name of a command may contain both; the fields are
the right ones exactly if it has no space behind its first `)` (`rightFields_iff`).
-/

set_option autoImplicit false
set_option relaxedAutoImplicit false

namespace MuduoProtorpc.Zurg

open Foundation Ascii Proc

/-! ### Reading the file -/

/-- `atoi`. -/
def atoi (text : Bytes) : BitVec 32 :=
  BitVec.ofInt 32 (strtoll text).1

/-- `atoll`. -/
def atoll (text : Bytes) : BitVec 64 :=
  BitVec.ofInt 64 (strtoll text).1

/-- `ProcStatFile`. -/
structure ProcStatFile where
  valid : Bool := false
  error : ℤ := 0
  ppid : BitVec 32 := 0
  startTime : BitVec 64 := 0

namespace ProcStatFile

/-- The loop of `parse` from round `i` on, with the rounds that are left: where `p` points to, and
`ppid`. -/
def scanFields (i : ℕ) : ℕ → Option Bytes → BitVec 32 → Option Bytes × BitVec 32
  | 0, p, ppid => (p, ppid)
  | _ + 1, none, ppid => (none, ppid)
  | rounds + 1, some p, ppid =>
    match strchr space p with
    | none => (none, ppid)
    | some p => scanFields (i + 1) rounds (some p.tail) (if i = 1 then atoi p else ppid)

/-- `parse`. -/
def parse (stat : ProcStatFile) (buffer : Bytes) : ProcStatFile :=
  let (p, ppid) := scanFields 0 20 (strchr closeParen buffer) stat.ppid
  { stat with
    ppid := ppid
    startTime :=
      match p with
      | some p => atoll p
      | none => stat.startTime }

/-- The constructor: the file is read, or there is an error. -/
def read : Except ℤ Bytes → ProcStatFile
  | .ok buffer => parse { valid := true } buffer
  | .error error => { error := error }

end ProcStatFile

/-- What `onTimeout` uses of a `Process`. -/
structure TimedProcess where
  pid : BitVec 32
  startTimeInJiffies : BitVec 64

/-- `SIGINT` -/
def sigint : ℕ := 2

/-- `onTimeout`: the signal that is sent, and to which process. -/
def TimedProcess.onTimeout (process : TimedProcess) (ownPid : BitVec 32)
    (file : Except ℤ Bytes) : Option (BitVec 32 × ℕ) :=
  let stat := ProcStatFile.read file
  if stat.valid && stat.ppid == ownPid && stat.startTime == process.startTimeInJiffies then
    some (process.pid, sigint)
  else none

/-! ### The loop -/

section Loop

variable {line : StatText} {before rest : Bytes} {ppid : BitVec 32}

/-- A round goes behind the next space. -/
theorem scanFields_space (i rounds : ℕ) (hspace : space ∉ before) (hnul : nul ∉ before) :
    ProcStatFile.scanFields i (rounds + 1) (some (before ++ space :: rest)) ppid =
      ProcStatFile.scanFields (i + 1) rounds (some rest)
        (if i = 1 then atoi (space :: rest) else ppid) := by
  rw [ProcStatFile.scanFields]
  simp only [strchr_append rest hspace hnul, List.tail_cons]

/-- `ppid` is only set in the second round. -/
theorem scanFields_ppid (rounds : ℕ) {i : ℕ} (hi : 2 ≤ i) (p : Option Bytes) :
    (ProcStatFile.scanFields i rounds p ppid).2 = ppid := by
  induction rounds generalizing i p with
  | zero => rfl
  | succ rounds ih =>
    cases p with
    | none => rfl
    | some p =>
      rw [ProcStatFile.scanFields]
      cases strchr space p with
      | none => rfl
      | some p =>
        simp only [if_neg (show i ≠ 1 by omega)]
        exact ih (Nat.le_succ_of_le hi) _

/-- In the line of numbers, a round goes to the next field. -/
theorem scanFields_fromField (rounds : ℕ) {i place : ℕ} (hi : 2 ≤ i) (hfirst : 4 ≤ place)
    (hlast : place + rounds < 4 + line.numbers.length) :
    ProcStatFile.scanFields i rounds (some (line.fromField place)) ppid =
      (some (line.fromField (place + rounds)), ppid) := by
  induction rounds generalizing i place with
  | zero => rfl
  | succ rounds ih =>
    have hnext : place + 1 < 4 + line.numbers.length := by omega
    obtain ⟨number, -, hplace⟩ := StatText.fromField_eq_of_next hfirst hnext
    have hspace : space ∉ number.text := number.not_mem_text rfl (by decide) (by decide)
    have hnul : nul ∉ number.text := number.not_mem_text rfl (by decide) (by decide)
    rw [hplace, scanFields_space i rounds hspace hnul, if_neg (by omega),
      ih (by omega) (by omega) (by omega), Nat.add_right_comm, Nat.add_assoc]

end Loop

/-! ### Right and wrong fields -/

/-- A line of `/proc/pid/stat` with 22 fields or more. -/
structure Printed (line : StatText) : Prop where
  state : line.state ≠ space ∧ line.state ≠ nul
  fields : 19 ≤ line.numbers.length
  ending : Fails isDigit line.ending

/-- The file has the fields 4 and 22 of the line, and the process that was recorded with them is
sent its signal when its time is up. -/
structure RightFields (line : StatText) : Prop where
  valid : (ProcStatFile.read (.ok line.text)).valid = true
  ppid : (ProcStatFile.read (.ok line.text)).ppid = BitVec.ofInt 32 (saturate (line.field 4))
  startTime : (ProcStatFile.read (.ok line.text)).startTime =
    BitVec.ofInt 64 (saturate (line.field 22))
  signalled : ∀ process : TimedProcess,
    process.startTimeInJiffies = BitVec.ofInt 64 (saturate (line.field 22)) →
      process.onTimeout (BitVec.ofInt 32 (saturate (line.field 4))) (.ok line.text) =
        some (process.pid, sigint)

/-- The part of a name from its first `)` on. -/
def fromParen (comm : Bytes) : Bytes :=
  comm.dropWhile fun char ↦ decide (char ≠ closeParen)

section Fields

variable {comm : Bytes} {line : StatText}

/-- `parse` begins at the first `)`. -/
theorem strchr_text (hnul : nul ∉ line.comm) :
    strchr closeParen line.text = some (fromParen line.comm ++ line.afterComm) := by
  have hbefore : closeParen ∉ line.pid.text ++ [space, openParen] := by
    rw [List.mem_append, not_or]
    exact ⟨line.pid.not_mem_text rfl (by decide) (by decide), by decide⟩
  have hbeforeNul : nul ∉ line.pid.text ++ [space, openParen] := by
    rw [List.mem_append, not_or]
    exact ⟨line.pid.not_mem_text rfl (by decide) (by decide), by decide⟩
  have htext : line.text =
      line.pid.text ++ [space, openParen] ++ (line.comm ++ line.afterComm) := by
    rw [List.append_assoc]
    rfl
  rw [htext, strchr_skip _ hbefore hbeforeNul, StatText.afterComm, strchr_eq_dropWhile _ hnul]
  rfl

/-- A name without a space behind its first `)` does not disturb the count. -/
theorem scanFields_right (hprinted : Printed line) (hnul : nul ∉ line.comm)
    (hcomm : space ∉ fromParen line.comm) (ppid : BitVec 32) :
    ProcStatFile.scanFields 0 20 (some (fromParen line.comm ++ line.afterComm)) ppid =
      (some (line.fromField 22), atoi (space :: line.fromField 4)) := by
  have hmore : 0 < line.numbers.length := Nat.lt_of_lt_of_le (by decide) hprinted.fields
  have hparen : space ∉ fromParen line.comm ++ [closeParen] := by
    rw [List.mem_append, not_or]
    exact ⟨hcomm, by decide⟩
  have hparenNul : nul ∉ fromParen line.comm ++ [closeParen] := by
    rw [List.mem_append, not_or]
    refine ⟨fun hmem ↦ hnul ?_, by decide⟩
    exact (List.dropWhile_sublist _).subset hmem
  have hstate : space ∉ [line.state] := by simpa using hprinted.state.1.symm
  have hstateNul : nul ∉ [line.state] := by simpa using hprinted.state.2.symm
  have hafter : fromParen line.comm ++ line.afterComm = (fromParen line.comm ++ [closeParen]) ++
      space :: ([line.state] ++ space :: line.fromField 4) := by
    rw [← StatText.spaced_numbers hmore, List.append_assoc]
    rfl
  have hlast : 4 + 18 < 4 + line.numbers.length := by
    have hfields := hprinted.fields
    omega
  rw [hafter, scanFields_space 0 19 hparen hparenNul, scanFields_space 1 18 hstate hstateNul,
    scanFields_fromField 18 (by decide) (Nat.le_refl 4) hlast]
  rfl

/-- What `atoi` and `atoll` read in front of a field, with a space or without. -/
theorem atoi_fromField (hprinted : Printed line) {place : ℕ} (hfirst : 4 ≤ place)
    (hplace : place < 4 + line.numbers.length) :
    (strtoll (space :: line.fromField place)).1 = saturate (line.field place) ∧
      (strtoll (line.fromField place)).1 = saturate (line.field place) := by
  obtain ⟨number, hfield, heq⟩ := StatText.fromField_eq hfirst hplace
  have hrest : Fails isDigit (spaced (line.numbers.drop (place - 4 + 1)) ++ line.ending) := by
    cases line.numbers.drop (place - 4 + 1) with
    | nil => exact hprinted.ending
    | cons next rest => exact fails_cons _ rfl
  rw [heq, hfield]
  constructor
  · have hspaces : ∀ char ∈ [space], isSpace char = true := by
      intro char hchar
      rw [List.mem_singleton.mp hchar]
      rfl
    exact congrArg Prod.fst (strtoll_spaces_numeral number hspaces hrest)
  · exact congrArg Prod.fst (strtoll_numeral number hrest)

theorem rightFields_of_fromParen (hprinted : Printed line) (hnul : nul ∉ line.comm)
    (hcomm : space ∉ fromParen line.comm) : RightFields line := by
  have hfields := hprinted.fields
  obtain ⟨hppid, -⟩ := atoi_fromField hprinted (Nat.le_refl 4) (by omega)
  obtain ⟨-, hstartTime⟩ := atoi_fromField hprinted (show 4 ≤ 22 by decide) (by omega)
  have hread : ProcStatFile.read (.ok line.text) = {
      valid := true
      ppid := BitVec.ofInt 32 (saturate (line.field 4))
      startTime := BitVec.ofInt 64 (saturate (line.field 22)) } := by
    rw [ProcStatFile.read, ProcStatFile.parse, strchr_text hnul,
      scanFields_right hprinted hnul hcomm, atoi, hppid]
    simp only [atoll, hstartTime]
  constructor
  · rw [hread]
  · rw [hread]
  · rw [hread]
  · intro process hrecorded
    rw [TimedProcess.onTimeout, hread, hrecorded]
    simp

/-- Behind a space in the name, what is read as the parent is in the name or at the state. -/
theorem scanFields_wrong {after : Bytes} (hspace : space ∈ after) (hnul : nul ∉ after) :
    ∃ value, ∀ (rest : Bytes) (ppid : BitVec 32),
      (ProcStatFile.scanFields 0 20 (some (after ++ closeParen :: space :: 83 :: space :: rest))
        ppid).2 = value := by
  obtain ⟨before, behind, rfl, hbefore⟩ := List.eq_append_cons_of_mem hspace
  rw [List.mem_append, List.mem_cons, not_or, not_or] at hnul
  obtain ⟨hbeforeNul, -, hbehindNul⟩ := hnul
  by_cases hsecond : space ∈ behind
  · obtain ⟨middle, last, rfl, hmiddle⟩ := List.eq_append_cons_of_mem hsecond
    have hmiddleNul : nul ∉ middle := fun hmem ↦ hbehindNul (List.mem_append_left _ hmem)
    refine ⟨atoi (space :: last), fun rest ppid ↦ ?_⟩
    rw [List.append_assoc, List.cons_append, scanFields_space 0 19 hbefore hbeforeNul,
      List.append_assoc, List.cons_append, scanFields_space 1 18 hmiddle hmiddleNul,
      scanFields_ppid 18 (Nat.le_refl 2), if_pos rfl, atoi, atoi, ← List.cons_append,
      strtoll_append_stop _ _ rfl]
  · have hbehind : space ∉ behind ++ [closeParen] := by
      rw [List.mem_append, not_or]
      exact ⟨hsecond, by decide⟩
    have hbehindNul' : nul ∉ behind ++ [closeParen] := by
      rw [List.mem_append, not_or]
      exact ⟨hbehindNul, by decide⟩
    refine ⟨0, fun rest ppid ↦ ?_⟩
    rw [List.append_assoc, List.cons_append, scanFields_space 0 19 hbefore hbeforeNul,
      List.append_cons, scanFields_space 1 18 hbehind hbehindNul',
      scanFields_ppid 18 (Nat.le_refl 2), if_pos rfl, atoi, ← List.singleton_append,
      strtoll_append_stop _ _ rfl]
    rfl

/-- A line with a command and its parent. -/
def lineOf (comm : Bytes) (ppid : Fin 10) : StatText where
  pid := .digit 7
  comm := comm
  state := 83
  numbers := .digit ppid :: List.replicate 18 (.digit 0)
  ending := [newline]

theorem printed_lineOf (comm : Bytes) (ppid : Fin 10) : Printed (lineOf comm ppid) where
  state := show (83 : UInt8) ≠ space ∧ (83 : UInt8) ≠ nul by decide
  fields := Nat.le_refl 19
  ending := fails_cons _ rfl

theorem field_lineOf (comm : Bytes) (ppid : Fin 10) :
    saturate ((lineOf comm ppid).field 4) = ppid.val := by
  have hfield : (lineOf comm ppid).field 4 = ppid.val := Numeral.value_digit ppid
  have hlast := ppid.isLt
  rw [hfield, saturate_eq] <;> omega

end Fields

/-- For each command: on all its lines the right fields are read, if and only if the name has no
space behind its first `)`. -/
theorem rightFields_iff {comm : Bytes} (hnul : nul ∉ comm) :
    (∀ line : StatText, Printed line → line.comm = comm → RightFields line) ↔
      space ∉ fromParen comm := by
  constructor
  · intro hright hspace
    have hparenNul : nul ∉ fromParen comm :=
      fun hmem ↦ hnul ((List.dropWhile_sublist _).subset hmem)
    obtain ⟨value, hvalue⟩ := scanFields_wrong hspace hparenNul
    -- The same number is read on lines of different parents.
    have hppid : ∀ ppid : Fin 10, value = BitVec.ofInt 32 ppid.val := by
      intro ppid
      have hread := (hright _ (printed_lineOf comm ppid) rfl).ppid
      rw [ProcStatFile.read, ProcStatFile.parse, strchr_text hnul, field_lineOf] at hread
      exact (hvalue _ 0).symm.trans hread
    have hsame := (hppid 1).symm.trans (hppid 2)
    exact absurd hsame (by decide)
  · rintro hcomm line hprinted rfl
    exact rightFields_of_fromParen hprinted hnul hcomm

/-- The command `a) b`: the parent is read at the state, as zero. -/
theorem not_rightFields_parenSpace :
    ¬ ∀ line : StatText, Printed line → nul ∉ line.comm → newline ∉ line.comm →
      RightFields line := by
  intro hright
  have hwrong := (hright _ (printed_lineOf [97, closeParen, space, 98] 1) (by decide)
    (by decide)).ppid
  revert hwrong
  decide

theorem rightFields_iff_parens :
    (∀ line : StatText, Printed line → line.comm = [openParen, 97, space, 98, closeParen] →
      RightFields line) ↔ space ∉ fromParen [openParen, 97, space, 98, closeParen] := by
  apply rightFields_iff
  decide

end MuduoProtorpc.Zurg
