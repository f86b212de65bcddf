import Mathlib.Data.BitVec
import MuduoProtorpc.Zurg.Accounting

/-!
# How a child tells its parent that it could not exec

`Process::execChild` and `Process::afterFork` of `examples/zurg/slave/Process.cc`. The child writes
the start time of its stat file to a pipe, and then the error if something fails; the pipe is closed
when it execs or exits. The parent takes the first word for the start time, and the end of the file
after it for the success of the child.

A child that fails before it has written its start time writes its error as the first word, and its
parent takes it for a child that has started.
-/

set_option autoImplicit false
set_option relaxedAutoImplicit false

namespace MuduoProtorpc.Zurg

open ChildManager

/-! ### The child -/

/-- An `errno` after a call that has failed. -/
abbrev Errno :=
  { error : BitVec 32 // 0 < error.toInt }

def EACCES : Errno :=
  ⟨13, by decide⟩

def EINVAL : Errno :=
  ⟨22, by decide⟩

/-- What is thrown in the child. -/
inductive Thrown
  | int (error : Errno)
  | other

/-- `ProcStatFile` of the child itself: its start time, or the error of reading the file. -/
inductive StatFile
  | valid (startTime : BitVec 64)
  | invalid (error : Errno)
  | throws

/-- The results of the calls of the child: the error of each, if it fails, and the file descriptors
that it was given. -/
structure ChildCalls where
  stat : StatFile
  argvThrows : Bool := false
  chdir : Option Errno := none
  openNull : Option Errno := none
  stdOutput : Bool := true
  stdError : Bool := true
  dupInput : Option Errno := none
  dupOutput : Option Errno := none
  dupError : Option Errno := none
  execvp : Option Errno := none

/-- Throws the `errno` of a call that has failed. -/
def check : Option Errno → Except Thrown Unit
  | none => pure ()
  | some error => throw (.int error)

/-- The body of `execChild` after its first write; it ends without an exception if the command was
executed. -/
def execCommand (calls : ChildCalls) : Except Thrown Unit := do
  if calls.argvThrows then throw .other
  check calls.chdir
  check calls.openNull
  if !calls.stdOutput || !calls.stdError then throw (.int EACCES)
  check calls.dupInput
  check calls.dupOutput
  check calls.dupError
  check calls.execvp

/-- The body of the `try` of `execChild`: the words that it writes to `execError`, and how it
ends. -/
def execTry (calls : ChildCalls) : List (BitVec 64) × Except Thrown Unit :=
  match calls.stat with
  | .throws => ([], throw .other)
  | .invalid error => ([], throw (.int error))
  | .valid startTime => ([startTime], execCommand calls)

/-- What the `catch` clauses of `execChild` write. -/
def caught : Except Thrown Unit → List (BitVec 64)
  | .ok _ => []
  | .error (.int error) => [error.1.signExtend 64]
  | .error .other => [EINVAL.1.signExtend 64]

/-- `execChild`: all the words in the pipe. -/
def execChild (calls : ChildCalls) : List (BitVec 64) :=
  (execTry calls).1 ++ caught (execTry calls).2

/-! ### The parent -/

/-- What `Pipe::read` returns: eight bytes, no byte at the end of the file, an error, or another
number of bytes. -/
inductive ReadResult
  | word (x : BitVec 64)
  | eof
  | error (error : Errno)
  | short

/-- A read from a pipe whose writer is gone or goes on writing. -/
def readWord (words : List (BitVec 64)) : ReadResult :=
  match words with
  | [] => .eof
  | x :: _ => .word x

/-- The two `dup` calls of the parent. -/
structure DupCalls where
  stdoutFd : Option Errno := none
  stderrFd : Option Errno := none

/-- The `errno` after them, if one has failed. -/
def DupCalls.error (dups : DupCalls) : Option Errno :=
  dups.stderrFd.or dups.stdoutFd

/-- The result of `afterFork`, `startTimeInJiffies_`, whether the sinks were started, and whether
its assertion holds. -/
structure AfterFork where
  err : BitVec 32
  startTimeInJiffies : BitVec 64
  sinks : Bool
  asserted : Bool
  deriving DecidableEq

/-- `afterFork`, with the results of its two reads. -/
def afterFork (runCommand : Bool) (dups : DupCalls) (first second : ReadResult) : AfterFork :=
  let started : AfterFork :=
    match first with
    | .word childStartTime =>
      { err := 0, startTimeInJiffies := childStartTime, sinks := false, asserted := true }
    | _ => { err := 0, startTimeInJiffies := 0, sinks := false, asserted := false }
  match second with
  | .eof =>
    if runCommand then
      match dups.error with
      | some error => { started with err := error.1 }
      | none => { started with sinks := true }
    else started
  | .word childErrno => { started with err := childErrno.setWidth 32 }
  | .error error => { started with err := error.1 }
  | .short => { started with err := EINVAL.1 }

/-- The parent reads what the child has written. -/
def forked (runCommand : Bool) (dups : DupCalls) (calls : ChildCalls) : AfterFork :=
  afterFork runCommand dups (readWord (execChild calls)) (readWord (execChild calls).tail)

/-- The outcome of `Process::start` when it returns the result of `afterFork`. -/
def StartOutcome.ofErr (err : BitVec 32) (pid : ℕ) : StartOutcome :=
  if h : err.toInt = 0 then .started pid else .failed ⟨err.toInt, h⟩ (some pid)

/-- Neither `runCommand` nor `startApp` registers a callback after this outcome. -/
structure NotRegistered (outcome : StartOutcome) : Prop where
  runCommand : ∀ (slave : Slave) done,
    (slave.runCommand done outcome).children.callbacks = slave.children.callbacks
  startApp : ∀ (slave : Slave) appName app,
    (slave.startApp appName app outcome).1.children.callbacks = slave.children.callbacks

/-- A child that fails is reported: the parent has an error, that of the child if it has one, starts
no sinks and registers no process. A child that was executed has its start time recorded, and there
is no error unless a `dup` of the parent fails. -/
structure Reported (runCommand : Bool) (dups : DupCalls) (pid : ℕ) (calls : ChildCalls) :
    Prop where
  failed : ∀ thrown, (execTry calls).2 = .error thrown →
    (forked runCommand dups calls).err ≠ 0 ∧
      (∀ error, thrown = .int error → (forked runCommand dups calls).err = error.1) ∧
      (forked runCommand dups calls).sinks = false ∧
      NotRegistered (.ofErr (forked runCommand dups calls).err pid)
  executed : (execTry calls).2 = .ok () →
    (∀ startTime, calls.stat = .valid startTime →
      (forked runCommand dups calls).startTimeInJiffies = startTime) ∧
    ((runCommand = true → dups.error = none) → (forked runCommand dups calls).err = 0)

/-! ### What is reported -/

theorem Errno.ne_zero (error : Errno) : error.1 ≠ 0 := by
  intro hzero
  have hpositive := error.2
  rw [hzero] at hpositive
  exact absurd hpositive (by decide)

/-- A word carries an `int`. -/
theorem setWidth_signExtend (error : BitVec 32) : (error.signExtend 64).setWidth 32 = error := by
  ext index hindex
  simp [BitVec.getLsbD_signExtend, hindex]
  omega

theorem notRegistered_failed (err : { err : ℤ // err ≠ 0 }) (child : Option ℕ) :
    NotRegistered (.failed err child) where
  runCommand := by
    intro slave done
    show (Slave.callDone _ _ _).children.callbacks = _
    rw [(Slave.callDone_frame _ _ _).children]
    cases child <;> rfl
  startApp := by
    intro slave appName app
    unfold Slave.startApp
    split_ifs
    · cases child <;> rfl
    · rfl

theorem notRegistered_ofErr {err : BitVec 32} (herr : err ≠ 0) (pid : ℕ) :
    NotRegistered (.ofErr err pid) := by
  have hint : err.toInt ≠ 0 := by
    intro hzero
    exact herr (BitVec.eq_of_toInt_eq hzero)
  rw [StartOutcome.ofErr, dif_neg hint]
  exact notRegistered_failed _ _

theorem asserted_afterFork (runCommand : Bool) (dups : DupCalls) (childStartTime : BitVec 64)
    (second : ReadResult) :
    (afterFork runCommand dups (.word childStartTime) second).asserted = true := by
  cases second with
  | eof =>
    unfold afterFork
    cases runCommand
    · rfl
    · cases dups.error <;> rfl
  | word childErrno => rfl
  | error error => rfl
  | short => rfl

/-- Every child writes a word before it is gone, so the assertion of its parent holds. -/
theorem asserted_forked (runCommand : Bool) (dups : DupCalls) (calls : ChildCalls) :
    (forked runCommand dups calls).asserted = true := by
  have hword : ∃ word rest, execChild calls = word :: rest := by
    unfold execChild execTry
    split
    · exact ⟨_, _, rfl⟩
    · exact ⟨_, _, rfl⟩
    · exact ⟨_, _, rfl⟩
  obtain ⟨word, rest, hwords⟩ := hword
  rw [forked, hwords]
  exact asserted_afterFork runCommand dups word _

section Cases

variable {runCommand : Bool} {dups : DupCalls} {pid : ℕ} {calls : ChildCalls}

/-- An error after the first word reaches the parent. -/
theorem reported_of_error {err : BitVec 32} {thrown : Thrown}
    (hthrown : (execTry calls).2 = .error thrown) (hne : err ≠ 0)
    (herr : (forked runCommand dups calls).err = err)
    (hsinks : (forked runCommand dups calls).sinks = false)
    (hint : ∀ error, thrown = .int error → err = error.1) :
    Reported runCommand dups pid calls where
  failed := by
    intro found hfound
    obtain rfl := Except.error.inj (hthrown.symm.trans hfound)
    rw [herr]
    exact ⟨hne, hint, hsinks, notRegistered_ofErr hne pid⟩
  executed := by
    intro hexecuted
    rw [hexecuted] at hthrown
    cases hthrown

/-- Once the start time is written, every failure is reported. -/
theorem reported_of_valid {startTime : BitVec 64} (hstat : calls.stat = .valid startTime) :
    Reported runCommand dups pid calls := by
  have htry : execTry calls = ([startTime], execCommand calls) := by
    simp only [execTry, hstat]
  cases hcommand : execCommand calls with
  | ok _ =>
    have hforked : forked runCommand dups calls =
        afterFork runCommand dups (.word startTime) .eof := by
      simp [forked, execChild, htry, hcommand, caught, readWord]
    constructor
    case failed =>
      intro thrown hthrown
      rw [htry, hcommand] at hthrown
      cases hthrown
    case executed =>
      intro _
      rw [hforked]
      constructor
      · intro found hfound
        obtain rfl := StatFile.valid.inj (hstat.symm.trans hfound)
        unfold afterFork
        cases runCommand
        · rfl
        · cases dups.error <;> rfl
      · intro hdups
        unfold afterFork
        cases runCommand
        · rfl
        · rw [hdups rfl]
          rfl
  | error thrown =>
    have hthrown : (execTry calls).2 = .error thrown := by
      rw [htry, hcommand]
    cases thrown with
    | int error =>
      have hforked : forked runCommand dups calls =
          afterFork runCommand dups (.word startTime) (.word (error.1.signExtend 64)) := by
        simp [forked, execChild, htry, hcommand, caught, readWord]
      refine reported_of_error hthrown error.ne_zero ?_ ?_ ?_
      · rw [hforked]
        exact setWidth_signExtend error.1
      · rw [hforked]
        rfl
      · intro other hother
        rw [Thrown.int.inj hother]
    | other =>
      have hforked : forked runCommand dups calls =
          afterFork runCommand dups (.word startTime) (.word (EINVAL.1.signExtend 64)) := by
        simp [forked, execChild, htry, hcommand, caught, readWord]
      refine reported_of_error hthrown EINVAL.ne_zero ?_ ?_ ?_
      · rw [hforked]
        exact setWidth_signExtend EINVAL.1
      · rw [hforked]
        rfl
      · intro other hother
        cases hother

/-- A failure before the start time is written is one word, which the parent takes for the start
time of a child that was executed. -/
theorem forked_of_early (runCommand : Bool) (dups : DupCalls) {thrown : Thrown}
    (htry : execTry calls = ([], .error thrown)) :
    ∃ word, forked runCommand dups calls = afterFork runCommand dups (.word word) .eof := by
  cases thrown with
  | int error =>
    refine ⟨error.1.signExtend 64, ?_⟩
    simp [forked, execChild, htry, caught, readWord]
  | other =>
    refine ⟨EINVAL.1.signExtend 64, ?_⟩
    simp [forked, execChild, htry, caught, readWord]

/-- Such a failure is reported only by a `dup` of the parent that fails, too. -/
theorem reported_early_iff {thrown : Thrown} (htry : execTry calls = ([], .error thrown)) :
    Reported runCommand dups pid calls ↔ runCommand = true ∧
      ∃ error, dups.error = some error ∧ ∀ own, thrown = .int own → error = own := by
  have hthrown : (execTry calls).2 = .error thrown := by
    rw [htry]
  obtain ⟨word, hforked⟩ := forked_of_early runCommand dups htry
  constructor
  · intro hreported
    obtain ⟨hne, hint, -, -⟩ := hreported.failed thrown hthrown
    rw [hforked] at hne hint
    cases runCommand with
    | false => exact absurd rfl hne
    | true =>
      cases herror : dups.error with
      | none =>
        refine absurd ?_ hne
        simp only [afterFork, if_true, herror]
      | some error =>
        refine ⟨rfl, error, rfl, fun own hown ↦ Subtype.ext ?_⟩
        have herr := hint own hown
        simp only [afterFork, if_true, herror] at herr
        exact herr
  · rintro ⟨rfl, error, herror, hown⟩
    have herr : (forked true dups calls).err = error.1 := by
      rw [hforked]
      simp only [afterFork, if_true, herror]
    have hsinks : (forked true dups calls).sinks = false := by
      rw [hforked]
      simp only [afterFork, if_true, herror]
    exact reported_of_error hthrown error.ne_zero herr hsinks fun own hint ↦
      congrArg Subtype.val (hown own hint)

end Cases

/-! ### When a failure is reported -/

/-- The exec-error protocol works if and only if the child comes as far as its first write, or the
parent fails by itself, with the error of the child if that has one. -/
theorem reported_iff (runCommand : Bool) (dups : DupCalls) (pid : ℕ) (calls : ChildCalls) :
    Reported runCommand dups pid calls ↔
      (∃ startTime, calls.stat = .valid startTime) ∨
        (runCommand = true ∧ ∃ error, dups.error = some error ∧
          ∀ own, calls.stat = .invalid own → error = own) := by
  cases hstat : calls.stat with
  | valid startTime => exact iff_of_true (reported_of_valid hstat) (Or.inl ⟨startTime, rfl⟩)
  | invalid own =>
    have htry : execTry calls = ([], .error (.int own)) := by
      simp only [execTry, hstat]
      rfl
    rw [reported_early_iff htry]
    simp
  | throws =>
    have htry : execTry calls = ([], .error .other) := by
      simp only [execTry, hstat]
      rfl
    rw [reported_early_iff htry]
    simp

/-- A child that cannot read its stat file, as too many files are open, is taken for a command that
was started. -/
theorem not_reported_stat : ¬ Reported true {} 7 { stat := .invalid ⟨23, by decide⟩ } ∧
    forked true {} { stat := .invalid ⟨23, by decide⟩ } =
      { err := 0, startTimeInJiffies := 23, sinks := true, asserted := true } := by
  refine ⟨fun hreported ↦ ?_, by decide⟩
  obtain ⟨hne, -, -, -⟩ := hreported.failed _ rfl
  exact hne rfl

end MuduoProtorpc.Zurg
