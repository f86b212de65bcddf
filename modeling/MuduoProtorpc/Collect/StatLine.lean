import MuduoProtorpc.Collect.FileCache
import MuduoProtorpc.Collect.ProcFs
import MuduoProtorpc.Proc.StatText

/-!
# `FieldReader`

How `ProcFs::fillProcess` takes the fields of `/proc/pid/stat` apart. A `FieldReader` is what is
left of the line; a step is undefined (`none`) where an assertion fails. On a line whose command has
no `)` in it, every number is read from its own field (`fillProcess_decodes`).

After each of its calls the reader is in front of a field (`fieldFrom`): `next` and the calls that
read a number go to the next field, `readName` goes to the third.
-/

set_option autoImplicit false
set_option relaxedAutoImplicit false

namespace MuduoProtorpc.Collect

open Foundation Ascii Proc

/-! ### The reader -/

/-- `FieldReader`: what is left of `content_`, to the end of its buffer. -/
structure FieldReader where
  content : Bytes

namespace FieldReader

variable (reader : FieldReader)

/-- `moveForward`, by the characters before `newstart`. -/
def moveForward (newstart : ℕ) : Option FieldReader := do
  assertion (decide (newstart < reader.content.length))
  return { content := reader.content.drop newstart }

/-- `next`. -/
def next : Option FieldReader :=
  match memchr space reader.content with
  | some sp => reader.moveForward (sp + 1)
  | none => some { content := [] }

/-- Reads a number and goes over the spaces behind it. -/
def readNumber : Option (ℤ × FieldReader) := do
  let (x, stop) := strtoll reader.content
  let spaces := (reader.content.drop stop).takeWhile (· == space)
  let moved ← reader.moveForward (stop + spaces.length)
  return (x, moved)

/-- `readInt64`. -/
def readInt64 : Option (BitVec 64 × FieldReader) :=
  reader.readNumber.map fun (x, moved) ↦ (BitVec.ofInt 64 x, moved)

/-- `readInt32`: the `long` is cut to 32 bits. -/
def readInt32 : Option (BitVec 32 × FieldReader) :=
  reader.readNumber.map fun (x, moved) ↦ (BitVec.ofInt 32 x, moved)

/-- `readName`, with what the name was before. -/
def readName (name : Bytes) : Option (Bytes × FieldReader) := do
  assertion (reader.content.head? == some openParen)
  match memchr closeParen reader.content with
  | some stop =>
    let moved ← reader.moveForward (stop + 2)
    return ((reader.content.take stop).drop 1, moved)
  | none => return (name, reader)

/-- `content_[0]`: at the end of the buffer is a NUL. -/
def first : UInt8 :=
  reader.content.head?.getD nul

/-- Some calls of `next`. -/
def skip : ℕ → FieldReader → Option FieldReader
  | 0, reader => some reader
  | count + 1, reader => reader.next.bind (skip count)

end FieldReader

/-- The first part of `fillProcess`: the fields of the line that are used. `name_` is what the last
call has left in it. -/
def readStat (name_ : Bytes) (content : Bytes) : Option StatFields := do
  let r : FieldReader := { content := content }
  let (pid, r) ← r.readInt32
  let (name, r) ← r.readName name_
  let state := r.first
  let r ← r.next
  let (ppid, r) ← r.readInt32
  let r ← r.skip 5 -- pgrp, session, tty_nr, tpgid, flags
  let (minorFaults, r) ← r.readInt64
  let r ← r.skip 1 -- cminflt
  let (majorFaults, r) ← r.readInt64
  let r ← r.skip 1 -- cmajflt
  let (userTicks, r) ← r.readInt64
  let (sysTicks, r) ← r.readInt64
  let r ← r.skip 4 -- cutime, cstime, priority, nice
  let (numThreads, r) ← r.readInt32
  let r ← r.skip 1 -- itrealvalue
  let (starttime, r) ← r.readInt64
  let (vsize, r) ← r.readInt64
  let (rss, r) ← r.readInt64
  let r ← r.skip 10 -- from rsslim to sigcatch
  let (_, r) ← r.readInt64 -- wait_channel
  let r ← r.skip 3 -- nswap, cnswap, exit_signal
  let (lastProcessor, _) ← r.readInt32
  return {
    pid := pid
    name := name
    state := state.toBitVec
    ppid := ppid
    minorFaults := minorFaults
    majorFaults := majorFaults
    userTicks := userTicks
    sysTicks := sysTicks
    numThreads := numThreads
    starttime := starttime
    vsize := vsize
    rss := rss
    lastProcessor := lastProcessor }

/-- `fillProcess`, on the content of the stat file and the strings of `cmdline`. -/
def ProcFs.fillProcessFrom (proc : ProcFs) (name_ : Bytes) (content : Bytes)
    (cmdline : List Bytes) : Option (ProcessInfo × ProcFs) :=
  (readStat name_ content).map fun stat ↦ proc.fillProcess { stat := stat, cmdline := cmdline }

/-! ### Steps of the reader -/

/-- A step that is defined, and the rest. -/
theorem bind_of_eq_some {α β : Type} {step : Option α} {rest : α → Option β} {value : α}
    {result : Option β} (hstep : step = some value) (hrest : rest value = result) :
    step.bind rest = result := by
  rw [hstep]
  exact hrest

section Steps

variable {rest : Bytes}

theorem moveForward_append (before : Bytes) (hrest : rest ≠ []) :
    FieldReader.moveForward { content := before ++ rest } before.length =
      some { content := rest } := by
  have hlength : before.length < (before ++ rest).length := by
    rw [List.length_append]
    exact Nat.lt_add_of_pos_right (List.length_pos_iff.mpr hrest)
  unfold FieldReader.moveForward
  simp only [decide_eq_true hlength, assertion_true, Option.bind_eq_bind, Option.bind_some,
    List.drop_left']
  rfl

/-- `next` goes behind the first space. -/
theorem next_append {before : Bytes} (hbefore : space ∉ before) (hrest : rest ≠ []) :
    FieldReader.next { content := before ++ space :: rest } = some { content := rest } := by
  have hmove := moveForward_append (before ++ [space]) hrest
  rw [List.append_assoc, List.singleton_append, List.length_append] at hmove
  unfold FieldReader.next
  simp only [memchr_append rest hbefore]
  exact hmove

/-- A number is read, and the space behind it is skipped. -/
theorem readNumber_text (number : Numeral) (hrest : rest ≠ [])
    (hspace : Fails (fun char ↦ char == space) rest) :
    FieldReader.readNumber { content := number.text ++ space :: rest } =
      some (saturate number.value, { content := rest }) := by
  have hread : strtoll (number.text ++ space :: rest) =
      (saturate number.value, number.text.length) :=
    strtoll_numeral number (fails_cons rest rfl)
  have hspaces : ((number.text ++ space :: rest).drop number.text.length).takeWhile
      (fun char ↦ char == space) = [space] := by
    rw [List.drop_left', List.takeWhile_cons_of_pos rfl, hspace.takeWhile]
    rfl
  have hmove := moveForward_append (number.text ++ [space]) hrest
  rw [List.append_assoc, List.singleton_append, List.length_append] at hmove
  unfold FieldReader.readNumber
  simp only [hread, hspaces, hmove]
  rfl

end Steps

/-! ### The line -/

/-- The reader in front of a field, from the fourth on. -/
def fieldFrom (line : StatText) (place : ℕ) : FieldReader where
  content := line.fromField place

section Line

variable {line : StatText} {place : ℕ}

theorem next_fieldFrom (hfirst : 4 ≤ place) (hnext : place + 1 < 4 + line.numbers.length) :
    (fieldFrom line place).next = some (fieldFrom line (place + 1)) := by
  obtain ⟨number, -, hplace⟩ := StatText.fromField_eq_of_next hfirst hnext
  obtain ⟨hrest, -⟩ := StatText.fromField_ne_nil (Nat.le_succ_of_le hfirst) hnext
  unfold fieldFrom
  rw [hplace]
  exact next_append (number.not_mem_text rfl (by decide) (by decide)) hrest

theorem skip_fieldFrom (count : ℕ) (hfirst : 4 ≤ place)
    (hnext : place + count < 4 + line.numbers.length) :
    (fieldFrom line place).skip count = some (fieldFrom line (place + count)) := by
  induction count generalizing place with
  | zero => rfl
  | succ count ih =>
    rw [FieldReader.skip, next_fieldFrom hfirst (by omega), Option.bind_some,
      ih (by omega) (by omega)]
    congr 2
    omega

theorem readNumber_fieldFrom (hfirst : 4 ≤ place)
    (hnext : place + 1 < 4 + line.numbers.length) :
    (fieldFrom line place).readNumber =
      some (saturate (line.field place), fieldFrom line (place + 1)) := by
  obtain ⟨number, hfield, hplace⟩ := StatText.fromField_eq_of_next hfirst hnext
  obtain ⟨hrest, hspace⟩ := StatText.fromField_ne_nil (Nat.le_succ_of_le hfirst) hnext
  unfold fieldFrom
  rw [hplace, hfield]
  exact readNumber_text number hrest hspace

theorem readInt64_fieldFrom (hfirst : 4 ≤ place)
    (hnext : place + 1 < 4 + line.numbers.length) :
    (fieldFrom line place).readInt64 =
      some (BitVec.ofInt 64 (saturate (line.field place)), fieldFrom line (place + 1)) := by
  rw [FieldReader.readInt64, readNumber_fieldFrom hfirst hnext]
  rfl

theorem readInt32_fieldFrom (hfirst : 4 ≤ place)
    (hnext : place + 1 < 4 + line.numbers.length) :
    (fieldFrom line place).readInt32 =
      some (BitVec.ofInt 32 (saturate (line.field place)), fieldFrom line (place + 1)) := by
  rw [FieldReader.readInt32, readNumber_fieldFrom hfirst hnext]
  rfl

/-- The pid is read, and the reader is in front of the command. -/
theorem readInt32_text (line : StatText) :
    FieldReader.readInt32 { content := line.text } =
      some (BitVec.ofInt 32 (saturate line.pid.value),
        { content := openParen :: (line.comm ++ line.afterComm) }) := by
  rw [FieldReader.readInt32, StatText.text, readNumber_text]
  · rfl
  · exact List.cons_ne_nil _ _
  · exact fails_cons _ rfl

/-- The command is read up to its first `)`. -/
theorem readName_text (hcomm : closeParen ∉ line.comm) (name_ : Bytes) :
    FieldReader.readName { content := openParen :: (line.comm ++ line.afterComm) } name_ =
      some (line.comm, { content := line.state :: (spaced line.numbers ++ line.ending) }) := by
  have hbefore : closeParen ∉ openParen :: line.comm := by
    rw [List.mem_cons, not_or]
    exact ⟨by decide, hcomm⟩
  have hfound : memchr closeParen (openParen :: (line.comm ++ line.afterComm)) =
      some (openParen :: line.comm).length :=
    memchr_append _ hbefore
  have hmove := moveForward_append (openParen :: line.comm ++ [closeParen, space])
    (List.cons_ne_nil line.state (spaced line.numbers ++ line.ending))
  rw [List.length_append, List.append_assoc] at hmove
  have hname : ((openParen :: (line.comm ++ line.afterComm)).take
      (openParen :: line.comm).length).drop 1 = line.comm := by
    rw [← List.cons_append, List.take_left']
    · rfl
    · rfl
  unfold FieldReader.readName
  refine bind_of_eq_some (show assertion _ = some () from rfl) ?_
  simp only [hfound, hname]
  exact bind_of_eq_some hmove rfl

/-- The state is one character, and the reader goes to the fourth field. -/
theorem next_state (hstate : line.state ≠ space) (hmore : 0 < line.numbers.length) :
    FieldReader.next { content := line.state :: (spaced line.numbers ++ line.ending) } =
      some (fieldFrom line 4) := by
  have hbefore : space ∉ [line.state] := by simpa using hstate.symm
  obtain ⟨hrest, -⟩ := StatText.fromField_ne_nil (Nat.le_refl 4) (Nat.lt_add_of_pos_right hmore)
  rw [StatText.spaced_numbers hmore]
  exact next_append hbefore hrest

end Line

/-- The fields that are used. -/
def statOf (line : StatText) : StatFields where
  pid := BitVec.ofInt 32 (saturate line.pid.value)
  name := line.comm
  state := line.state.toBitVec
  ppid := BitVec.ofInt 32 (saturate (line.field 4))
  minorFaults := BitVec.ofInt 64 (saturate (line.field 10))
  majorFaults := BitVec.ofInt 64 (saturate (line.field 12))
  userTicks := BitVec.ofInt 64 (saturate (line.field 14))
  sysTicks := BitVec.ofInt 64 (saturate (line.field 15))
  numThreads := BitVec.ofInt 32 (saturate (line.field 20))
  starttime := BitVec.ofInt 64 (saturate (line.field 22))
  vsize := BitVec.ofInt 64 (saturate (line.field 23))
  rss := BitVec.ofInt 64 (saturate (line.field 24))
  lastProcessor := BitVec.ofInt 32 (saturate (line.field 39))

/-- No assertion fails, and all fields are read from their places. -/
theorem readStat_text {line : StatText} (name_ : Bytes) (hcomm : closeParen ∉ line.comm)
    (hstate : line.state ≠ space) (hmore : 37 ≤ line.numbers.length) :
    readStat name_ line.text = some (statOf line) := by
  unfold readStat
  refine bind_of_eq_some (readInt32_text line) ?_
  refine bind_of_eq_some (readName_text hcomm name_) ?_
  refine bind_of_eq_some (next_state hstate (by omega)) ?_
  refine bind_of_eq_some (readInt32_fieldFrom (by omega) (by omega)) ?_
  refine bind_of_eq_some (skip_fieldFrom 5 (by omega) (by omega)) ?_
  refine bind_of_eq_some (readInt64_fieldFrom (by omega) (by omega)) ?_
  refine bind_of_eq_some (skip_fieldFrom 1 (by omega) (by omega)) ?_
  refine bind_of_eq_some (readInt64_fieldFrom (by omega) (by omega)) ?_
  refine bind_of_eq_some (skip_fieldFrom 1 (by omega) (by omega)) ?_
  refine bind_of_eq_some (readInt64_fieldFrom (by omega) (by omega)) ?_
  refine bind_of_eq_some (readInt64_fieldFrom (by omega) (by omega)) ?_
  refine bind_of_eq_some (skip_fieldFrom 4 (by omega) (by omega)) ?_
  refine bind_of_eq_some (readInt32_fieldFrom (by omega) (by omega)) ?_
  refine bind_of_eq_some (skip_fieldFrom 1 (by omega) (by omega)) ?_
  refine bind_of_eq_some (readInt64_fieldFrom (by omega) (by omega)) ?_
  refine bind_of_eq_some (readInt64_fieldFrom (by omega) (by omega)) ?_
  refine bind_of_eq_some (readInt64_fieldFrom (by omega) (by omega)) ?_
  refine bind_of_eq_some (skip_fieldFrom 10 (by omega) (by omega)) ?_
  refine bind_of_eq_some (readInt64_fieldFrom (by omega) (by omega)) ?_
  refine bind_of_eq_some (skip_fieldFrom 3 (by omega) (by omega)) ?_
  refine bind_of_eq_some (readInt32_fieldFrom (by omega) (by omega)) ?_
  rfl

/-! ### `fillProcess` -/

/-- The numbers that are kept fit their types. -/
structure Fits (line : StatText) : Prop where
  pid : -2 ^ 31 ≤ line.pid.value ∧ line.pid.value < 2 ^ 31
  int32 : ∀ place ∈ [4, 20, 39], -2 ^ 31 ≤ line.field place ∧ line.field place < 2 ^ 31
  int64 : ∀ place ∈ [10, 12, 14, 15, 22, 23, 24],
    -2 ^ 63 ≤ line.field place ∧ line.field place < 2 ^ 63

/-- What `fillProcess` tells of a process is on its line. -/
structure Decoded (proc : ProcFs) (line : StatText) (cmdline : List Bytes) (info : ProcessInfo) :
    Prop where
  pid : info.pid.toInt = line.pid.value
  state : info.state = line.state.toBitVec.signExtend 32
  minorPageFaults : info.minorPageFaults.toInt = line.field 10
  majorPageFaults : info.majorPageFaults.toInt = line.field 12
  userCpuMs : info.userCpuMs = BitVec.ofInt 64 (line.field 14) * proc.millisecondsPerTick
  sysCpuMs : info.sysCpuMs = BitVec.ofInt 64 (line.field 15) * proc.millisecondsPerTick
  numThreads : info.numThreads.toInt = line.field 20
  vsizeKb : info.vsizeKb.toInt = (line.field 23).tdiv 1024
  rssKb : info.rssKb = BitVec.ofInt 64 (line.field 24) * proc.kbPerPage.signExtend 64
  lastProcessor : info.lastProcessor.toInt = line.field 39
  basic_eq_none : info.basic = none ↔
    proc.starttime.find (BitVec.ofInt 32 line.pid.value) = some (BitVec.ofInt 64 (line.field 22))
  basic : ∀ basic, info.basic = some basic → basic.ppid.toInt = line.field 4 ∧
    basic.starttime.toInt = line.field 22 ∧ basic.name = line.comm ∧ basic.cmdline = cmdline

section FillProcess

variable {value : ℤ}

theorem saturate_int32 (hfits : -2 ^ 31 ≤ value ∧ value < 2 ^ 31) : saturate value = value := by
  apply saturate_eq <;> omega

theorem toInt_int32 (hfits : -2 ^ 31 ≤ value ∧ value < 2 ^ 31) :
    (BitVec.ofInt 32 value).toInt = value :=
  BitVec.toInt_ofInt_eq_self (by decide) hfits.1 hfits.2

theorem toInt_int64 (hfits : -2 ^ 63 ≤ value ∧ value < 2 ^ 63) :
    (BitVec.ofInt 64 value).toInt = value :=
  BitVec.toInt_ofInt_eq_self (by decide) hfits.1 hfits.2

/-- The fields as their numbers. -/
theorem statOf_eq {line : StatText} (hfits : Fits line) :
    statOf line = {
      pid := BitVec.ofInt 32 line.pid.value
      name := line.comm
      state := line.state.toBitVec
      ppid := BitVec.ofInt 32 (line.field 4)
      minorFaults := BitVec.ofInt 64 (line.field 10)
      majorFaults := BitVec.ofInt 64 (line.field 12)
      userTicks := BitVec.ofInt 64 (line.field 14)
      sysTicks := BitVec.ofInt 64 (line.field 15)
      numThreads := BitVec.ofInt 32 (line.field 20)
      starttime := BitVec.ofInt 64 (line.field 22)
      vsize := BitVec.ofInt 64 (line.field 23)
      rss := BitVec.ofInt 64 (line.field 24)
      lastProcessor := BitVec.ofInt 32 (line.field 39) } := by
  have hint32 : ∀ place ∈ [4, 20, 39], saturate (line.field place) = line.field place :=
    fun place hplace ↦ saturate_int32 (hfits.int32 place hplace)
  have hint64 : ∀ place ∈ [10, 12, 14, 15, 22, 23, 24],
      saturate (line.field place) = line.field place :=
    fun place hplace ↦ saturate_eq (hfits.int64 place hplace).1 (hfits.int64 place hplace).2
  simp only [List.forall_mem_cons] at hint32 hint64
  obtain ⟨hppid, hthreads, hprocessor, -⟩ := hint32
  obtain ⟨hminor, hmajor, huser, hsys, hstarttime, hvsize, hrss, -⟩ := hint64
  rw [statOf, saturate_int32 hfits.pid, hppid, hthreads, hprocessor, hminor, hmajor, huser, hsys,
    hstarttime, hvsize, hrss]

/-- `fillProcess` tells the figures, and more if the process is new. -/
theorem fillProcess_fst (proc : ProcFs) (stat : StatFields) (cmdline : List Bytes) :
    (proc.fillProcess { stat := stat, cmdline := cmdline }).1 = {
      proc.figures stat with
      basic :=
        if proc.starttime.find stat.pid = some stat.starttime then none
        else some {
          ppid := stat.ppid
          starttime := stat.starttime
          name := stat.name
          cmdline := cmdline } } := by
  unfold ProcFs.fillProcess
  simp only
  split_ifs <;> rfl

/-- The figures, and what is in `basic`, come from their fields. -/
theorem decoded_fillProcess {line : StatText} (proc : ProcFs) (cmdline : List Bytes)
    (hfits : Fits line) :
    Decoded proc line cmdline (proc.fillProcess { stat := statOf line, cmdline := cmdline }).1 := by
  rw [fillProcess_fst, statOf_eq hfits]
  constructor
  · exact toInt_int32 hfits.pid
  · rfl
  · exact toInt_int64 (hfits.int64 10 (by decide))
  · exact toInt_int64 (hfits.int64 12 (by decide))
  · rfl
  · rfl
  · exact toInt_int32 (hfits.int32 20 (by decide))
  · show ((BitVec.ofInt 64 (line.field 23)).sdiv 1024).toInt = _
    rw [BitVec.toInt_sdiv_of_ne_or_ne _ _ (Or.inr (by decide)),
      toInt_int64 (hfits.int64 23 (by decide))]
    rfl
  · rfl
  · exact toInt_int32 (hfits.int32 39 (by decide))
  · simp only
    split_ifs with hknown
    · exact iff_of_true rfl hknown
    · exact iff_of_false id hknown
  · intro basic hbasic
    simp only at hbasic
    split_ifs at hbasic
    rw [← Option.some.inj hbasic]
    refine ⟨?_, ?_, rfl, rfl⟩
    · exact toInt_int32 (hfits.int32 4 (by decide))
    · exact toInt_int64 (hfits.int64 22 (by decide))

end FillProcess

/-- `fillProcess` decodes every line of a process with a command without `)`. -/
theorem fillProcess_decodes (proc : ProcFs) (name_ : Bytes) {line : StatText}
    (cmdline : List Bytes) (hcomm : closeParen ∉ line.comm) (hstate : line.state ≠ space)
    (hmore : 37 ≤ line.numbers.length) (hfits : Fits line) :
    ∃ info next, proc.fillProcessFrom name_ line.text cmdline = some (info, next) ∧
      Decoded proc line cmdline info := by
  have hfill : proc.fillProcessFrom name_ line.text cmdline =
      some (proc.fillProcess { stat := statOf line, cmdline := cmdline }) := by
    rw [ProcFs.fillProcessFrom, readStat_text name_ hcomm hstate hmore]
    rfl
  exact ⟨_, _, hfill, decoded_fillProcess proc cmdline hfits⟩

/-- The process `7 ((a b) S`, with the last digits of their places as numbers. -/
def digitsLine : StatText where
  pid := .digit 7
  comm := [openParen, 97, space, 98]
  state := 83
  numbers := (List.range 37).map fun index ↦ .digit (Fin.ofNat 10 (index + 4))
  ending := [newline]

theorem fillProcess_decodes_digitsLine : ∃ info next,
    ProcFs.fillProcessFrom { millisecondsPerTick := 10, kbPerPage := 4 } [] digitsLine.text [] =
        some (info, next) ∧
      Decoded { millisecondsPerTick := 10, kbPerPage := 4 } digitsLine [] info := by
  apply fillProcess_decodes
  · decide
  · decide
  · decide
  · constructor
    · decide
    · decide
    · decide

end MuduoProtorpc.Collect
