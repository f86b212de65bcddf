import Mathlib.Data.Finset.Insert
import Mathlib.Data.Finset.SDiff
import MuduoProtorpc.Zurg.ExecError

/-!
# The file descriptors of a process that is started

`Process::start` and `Process::afterFork` of `examples/zurg/slave/Process.cc`, and the pipes that
they open: what a start does to the table of open file descriptors, whatever its system calls
return. A `Pipe` closes what is left of it when it goes out of scope, in the reverse order of the
pipes, also where the constructor of a later one throws.

A `close` of a number that is not open, which may soon be another file, is counted
(`FdTable.badCloses`).
-/

set_option autoImplicit false
set_option relaxedAutoImplicit false

namespace MuduoProtorpc.Zurg

/-! ### Open file descriptors -/

/-- The open file descriptors, and the calls of `close` on what is none of them. -/
structure FdTable where
  opened : Finset ℕ
  badCloses : ℕ

namespace FdTable

/-- The kernel gives a number that is not in use. -/
def allocate (fds : FdTable) (fd : ℕ) : Option FdTable :=
  if fd ∈ fds.opened then none else some { fds with opened := insert fd fds.opened }

/-- `close`, of a number or of -1. -/
def close (fds : FdTable) : Option ℕ → FdTable
  | none => { fds with badCloses := fds.badCloses + 1 }
  | some fd =>
    if fd ∈ fds.opened then { fds with opened := fds.opened.erase fd }
    else { fds with badCloses := fds.badCloses + 1 }

/-- `pipe2`. -/
def pipe2 (fds : FdTable) (ends : ℕ × ℕ) : Option FdTable :=
  (fds.allocate ends.1).bind fun fds ↦ fds.allocate ends.2

/-- `dup`, which may fail. -/
def dup (fds : FdTable) (fd : Option ℕ) : Option FdTable :=
  match fd with
  | none => some fds
  | some fd => fds.allocate fd

end FdTable

/-! ### Pipes -/

/-- `Pipe`, with none for -1. -/
structure Pipe where
  readFd : Option ℕ
  writeFd : Option ℕ

/-- The constructor of `Pipe`, when `pipe2` has succeeded. -/
def Pipe.new (ends : ℕ × ℕ) : Pipe where
  readFd := some ends.1
  writeFd := some ends.2

/-- `closeWrite`. -/
def Pipe.closeWrite (pipe : Pipe) (fds : FdTable) : Pipe × FdTable :=
  ({ pipe with writeFd := none }, fds.close pipe.writeFd)

/-- The destructor of `Pipe`. -/
def Pipe.destroy (pipe : Pipe) (fds : FdTable) : FdTable :=
  let fds := if pipe.readFd.isSome then fds.close pipe.readFd else fds
  if pipe.writeFd.isSome then fds.close pipe.writeFd else fds

/-! ### A start -/

/-- What the system calls of a start return in the parent: whether there are twenty descriptors
left, the ends of the pipes, whether `fork` succeeds, the second read from `execError`, and the
numbers that `dup` returns. -/
structure StartCalls where
  enoughFds : Bool
  execError : Option (ℕ × ℕ)
  stdOutput : Option (ℕ × ℕ)
  stdError : Option (ℕ × ℕ)
  forked : Bool
  childErrno : ReadResult
  stdoutFd : Option ℕ
  stderrFd : Option ℕ

/-- The descriptors of a start that go on to its sinks. -/
abbrev SinkFds :=
  Option (ℕ × ℕ)

/-- `afterFork`, when the child was executed: the descriptors for the sinks, unless one of the two
calls of `dup` fails. -/
def dupForSinks (calls : StartCalls) (fds : FdTable) : Option (FdTable × SinkFds) := do
  let fds ← fds.dup calls.stdoutFd
  let fds ← fds.dup calls.stderrFd
  match calls.stdoutFd, calls.stderrFd with
  | some stdoutFd, some stderrFd => return (fds, some (stdoutFd, stderrFd))
  | stdoutFd, stderrFd =>
    let fds := if stdoutFd.isSome then fds.close stdoutFd else fds
    let fds := if stderrFd.isSome then fds.close stderrFd else fds
    return (fds, none)

/-- `afterFork`. -/
def afterForkFds (runCommand : Bool) (calls : StartCalls) (execError : Pipe) (fds : FdTable) :
    Option (FdTable × Pipe × SinkFds) :=
  let (execError, fds) := execError.closeWrite fds
  match calls.childErrno with
  | .eof =>
    if runCommand then
      (dupForSinks calls fds).map fun (fds, sinks) ↦ (fds, execError, sinks)
    else some (fds, execError, none)
  | _ => some (fds, execError, none)

/-- The `fork` of `start`, and what the parent does then. -/
def forkFds (runCommand : Bool) (calls : StartCalls) (execError : Pipe) (fds : FdTable) :
    Option (FdTable × Pipe × SinkFds) :=
  if calls.forked then afterForkFds runCommand calls execError fds
  else some (fds, execError, none)

/-- `start` in the parent. -/
def startFds (runCommand : Bool) (calls : StartCalls) (fds : FdTable) :
    Option (FdTable × SinkFds) :=
  if !calls.enoughFds then some (fds, none)
  else
    match calls.execError with
    | none => some (fds, none)
    | some execError => do
      let fds ← fds.pipe2 execError
      match calls.stdOutput with
      | none => return ((Pipe.new execError).destroy fds, none)
      | some stdOutput =>
        let fds ← fds.pipe2 stdOutput
        match calls.stdError with
        | none =>
          return ((Pipe.new execError).destroy ((Pipe.new stdOutput).destroy fds), none)
        | some stdError =>
          let fds ← fds.pipe2 stdError
          let (fds, execError, sinks) ← forkFds runCommand calls (Pipe.new execError) fds
          return (execError.destroy
            ((Pipe.new stdOutput).destroy ((Pipe.new stdError).destroy fds)), sinks)

/-! ### What a start leaves open -/

section Tables

variable {fds after : FdTable} {fd : ℕ}

theorem FdTable.allocate_eq_some (hallocate : fds.allocate fd = some after) :
    fd ∉ fds.opened ∧ after = { fds with opened := insert fd fds.opened } := by
  unfold FdTable.allocate at hallocate
  split_ifs at hallocate with hmem
  exact ⟨hmem, (Option.some.inj hallocate).symm⟩

theorem FdTable.close_of_mem (hmem : fd ∈ fds.opened) :
    fds.close (some fd) = { fds with opened := fds.opened.erase fd } := by
  simp only [FdTable.close, if_pos hmem]

/-- The numbers on top of a table: they are different, and none of them was open before. -/
structure FdTable.Extended (fds after : FdTable) (more : List ℕ) : Prop where
  opened : after.opened = fds.opened ∪ more.toFinset
  nodup : more.Nodup
  fresh : ∀ fd ∈ more, fd ∉ fds.opened
  noBadClose : after.badCloses = fds.badCloses

theorem FdTable.Extended.refl (fds : FdTable) : fds.Extended fds [] where
  opened := by simp
  nodup := List.nodup_nil
  fresh := by
    intro fd hfd
    cases hfd
  noBadClose := rfl

variable {middle : FdTable} {more : List ℕ}

theorem FdTable.Extended.perm {other : List ℕ} (hextended : fds.Extended after more)
    (hperm : more.Perm other) : fds.Extended after other where
  opened := by rw [hextended.opened, List.toFinset_eq_of_perm _ _ hperm]
  nodup := hperm.nodup_iff.mp hextended.nodup
  fresh := fun fd hfd ↦ hextended.fresh fd (hperm.mem_iff.mpr hfd)
  noBadClose := hextended.noBadClose

/-- The numbers on top of two tables, one upon the other. -/
theorem FdTable.Extended.trans {upper : List ℕ} (hlower : fds.Extended middle more)
    (hupper : middle.Extended after upper) : fds.Extended after (upper ++ more) where
  opened := by
    rw [hupper.opened, hlower.opened, List.toFinset_append, Finset.union_assoc,
      Finset.union_comm more.toFinset]
  nodup := by
    refine List.nodup_append.mpr ⟨hupper.nodup, hlower.nodup, fun fd hfd other hother ↦ ?_⟩
    rintro rfl
    refine hupper.fresh fd hfd ?_
    rw [hlower.opened]
    exact Finset.mem_union_right _ (List.mem_toFinset.mpr hother)
  fresh := by
    intro fd hfd hopened
    rcases List.mem_append.mp hfd with hnew | hold
    · refine hupper.fresh fd hnew ?_
      rw [hlower.opened]
      exact Finset.mem_union_left _ hopened
    · exact hlower.fresh fd hold hopened
  noBadClose := hupper.noBadClose.trans hlower.noBadClose

/-- A number more. -/
theorem FdTable.Extended.allocate (hextended : fds.Extended middle more)
    (hallocate : middle.allocate fd = some after) : fds.Extended after (fd :: more) := by
  obtain ⟨hfresh, rfl⟩ := FdTable.allocate_eq_some hallocate
  rw [hextended.opened, Finset.mem_union, not_or, List.mem_toFinset] at hfresh
  exact {
    opened := by
      rw [List.toFinset_cons, Finset.union_insert, ← hextended.opened]
    nodup := List.nodup_cons.mpr ⟨hfresh.2, hextended.nodup⟩
    fresh := by
      intro other hother
      rcases List.mem_cons.mp hother with rfl | hmore
      · exact hfresh.1
      · exact hextended.fresh other hmore
    noBadClose := hextended.noBadClose }

/-- The two ends of a pipe more. -/
theorem FdTable.Extended.pipe2 {ends : ℕ × ℕ} (hextended : fds.Extended middle more)
    (hpipe : middle.pipe2 ends = some after) : fds.Extended after (ends.2 :: ends.1 :: more) := by
  obtain ⟨table, hfirst, hsecond⟩ := Option.bind_eq_some_iff.mp hpipe
  exact (hextended.allocate hfirst).allocate hsecond

/-- Any of the numbers is closed. -/
theorem FdTable.Extended.close (front rest : List ℕ)
    (hextended : fds.Extended middle (front ++ fd :: rest)) :
    fds.Extended (middle.close (some fd)) (front ++ rest) := by
  have hmem : fd ∈ middle.opened := by
    rw [hextended.opened]
    simp
  have hsublist : (front ++ rest).Sublist (front ++ fd :: rest) :=
    (List.sublist_cons_self _ _).append_left _
  have hnotMem : fd ∉ front ++ rest := by
    have hnodup := List.nodup_middle.mp hextended.nodup
    exact (List.nodup_cons.mp hnodup).1
  have hfresh := hextended.fresh fd (by simp)
  rw [FdTable.close_of_mem hmem]
  exact {
    opened := by
      have hmore : (front ++ fd :: rest).toFinset = insert fd (front ++ rest).toFinset := by
        ext other
        simp only [List.mem_toFinset, List.mem_append, List.mem_cons, Finset.mem_insert]
        tauto
      rw [hextended.opened, hmore, Finset.union_insert, Finset.erase_insert]
      simpa using ⟨hfresh, by simpa using hnotMem⟩
    nodup := hextended.nodup.sublist hsublist
    fresh := fun other hother ↦ hextended.fresh other (hsublist.subset hother)
    noBadClose := hextended.noBadClose }

/-- A pipe that is destroyed closes both of its ends. -/
theorem FdTable.Extended.destroy {ends : ℕ × ℕ} (front rest : List ℕ)
    (hextended : fds.Extended middle (front ++ ends.2 :: ends.1 :: rest)) :
    fds.Extended ((Pipe.new ends).destroy middle) (front ++ rest) := by
  have hread : fds.Extended (middle.close (some ends.1)) ((front ++ [ends.2]) ++ rest) :=
    FdTable.Extended.close (front ++ [ends.2]) rest (by simpa using hextended)
  rw [List.append_assoc] at hread
  exact hread.close front rest

/-! ### Every outcome -/

/-- What the sinks get. -/
def SinkFds.numbers : SinkFds → List ℕ
  | none => []
  | some (stdoutFd, stderrFd) => [stderrFd, stdoutFd]

/-- The two calls of `dup`: what they have opened goes to the sinks, or is closed. -/
theorem FdTable.Extended.dupForSinks {calls : StartCalls} {sinks : SinkFds}
    (hextended : fds.Extended middle more)
    (hdup : dupForSinks calls middle = some (after, sinks)) :
    fds.Extended after (sinks.numbers ++ more) := by
  unfold Zurg.dupForSinks at hdup
  obtain ⟨first, hfirst, hrest⟩ := Option.bind_eq_some_iff.mp hdup
  obtain ⟨second, hsecond, hresult⟩ := Option.bind_eq_some_iff.mp hrest
  cases hout : calls.stdoutFd with
  | none =>
    rw [hout] at hfirst hresult
    obtain rfl := Option.some.inj hfirst
    cases herr : calls.stderrFd with
    | none =>
      rw [herr] at hsecond hresult
      obtain rfl := Option.some.inj hsecond
      obtain ⟨rfl, rfl⟩ := Prod.mk.inj (Option.some.inj hresult)
      exact hextended
    | some stderrFd =>
      rw [herr] at hsecond hresult
      obtain ⟨rfl, rfl⟩ := Prod.mk.inj (Option.some.inj hresult)
      exact (hextended.allocate hsecond).close [] more
  | some stdoutFd =>
    rw [hout] at hfirst hresult
    have hmiddle := hextended.allocate hfirst
    cases herr : calls.stderrFd with
    | none =>
      rw [herr] at hsecond hresult
      obtain rfl := Option.some.inj hsecond
      obtain ⟨rfl, rfl⟩ := Prod.mk.inj (Option.some.inj hresult)
      exact hmiddle.close [] more
    | some stderrFd =>
      rw [herr] at hsecond hresult
      obtain ⟨rfl, rfl⟩ := Prod.mk.inj (Option.some.inj hresult)
      exact hmiddle.allocate hsecond

/-- What `afterFork` leaves: the read end of `execError`, and the descriptors of the sinks. -/
theorem FdTable.Extended.afterForkFds {runCommand : Bool} {calls : StartCalls} {ends : ℕ × ℕ}
    {execError : Pipe} {sinks : SinkFds} (front rest : List ℕ)
    (hextended : fds.Extended middle (front ++ ends.2 :: ends.1 :: rest))
    (hafter : afterForkFds runCommand calls (Pipe.new ends) middle =
      some (after, execError, sinks)) :
    execError = { readFd := some ends.1, writeFd := none } ∧
      fds.Extended after (sinks.numbers ++ (front ++ ends.1 :: rest)) := by
  have hclosed := hextended.close front (ends.1 :: rest)
  have hplain : ∀ {sinks : SinkFds}, some (middle.close (some ends.2),
      ({ readFd := some ends.1, writeFd := none } : Pipe), (none : SinkFds)) =
        some (after, execError, sinks) →
      execError = { readFd := some ends.1, writeFd := none } ∧
        fds.Extended after (sinks.numbers ++ (front ++ ends.1 :: rest)) := by
    rintro sinks ⟨⟩
    exact ⟨rfl, hclosed⟩
  unfold Zurg.afterForkFds at hafter
  cases hread : calls.childErrno with
  | eof =>
    simp only [Pipe.closeWrite, Pipe.new, hread] at hafter
    split_ifs at hafter with hrun
    · obtain ⟨⟨table, found⟩, hdup, hresult⟩ := Option.map_eq_some_iff.mp hafter
      obtain ⟨rfl, rfl, rfl⟩ := hresult
      exact ⟨rfl, hclosed.dupForSinks hdup⟩
    · exact hplain hafter
  | word x =>
    simp only [Pipe.closeWrite, Pipe.new, hread] at hafter
    exact hplain hafter
  | error error =>
    simp only [Pipe.closeWrite, Pipe.new, hread] at hafter
    exact hplain hafter
  | short =>
    simp only [Pipe.closeWrite, Pipe.new, hread] at hafter
    exact hplain hafter

/-- Whatever the system calls of a start return, it closes what it has opened, but for the
descriptors of its sinks, and nothing else. -/
theorem extended_startFds {runCommand : Bool} {calls : StartCalls} {sinks : SinkFds}
    (hstart : startFds runCommand calls fds = some (after, sinks)) :
    fds.Extended after sinks.numbers := by
  unfold startFds at hstart
  split_ifs at hstart with henough
  · obtain ⟨rfl, rfl⟩ := Prod.mk.inj (Option.some.inj hstart)
    exact .refl fds
  · cases hexec : calls.execError with
    | none =>
      simp only [hexec] at hstart
      obtain ⟨rfl, rfl⟩ := Prod.mk.inj (Option.some.inj hstart)
      exact .refl fds
    | some execError =>
      simp only [hexec] at hstart
      obtain ⟨first, hfirst, hstart⟩ := Option.bind_eq_some_iff.mp hstart
      have hone := (FdTable.Extended.refl fds).pipe2 hfirst
      cases hout : calls.stdOutput with
      | none =>
        simp only [hout] at hstart
        obtain ⟨rfl, rfl⟩ := Prod.mk.inj (Option.some.inj hstart)
        exact hone.destroy [] []
      | some stdOutput =>
        simp only [hout] at hstart
        obtain ⟨second, hsecond, hstart⟩ := Option.bind_eq_some_iff.mp hstart
        have htwo := hone.pipe2 hsecond
        cases herr : calls.stdError with
        | none =>
          simp only [herr] at hstart
          obtain ⟨rfl, rfl⟩ := Prod.mk.inj (Option.some.inj hstart)
          exact (htwo.destroy [] _).destroy [] []
        | some stdError =>
          simp only [herr] at hstart
          obtain ⟨third, hthird, hstart⟩ := Option.bind_eq_some_iff.mp hstart
          obtain ⟨⟨table, pipe, found⟩, hforked, hresult⟩ := Option.bind_eq_some_iff.mp hstart
          obtain ⟨rfl, rfl⟩ := Prod.mk.inj (Option.some.inj hresult)
          have hthree := htwo.pipe2 hthird
          unfold forkFds at hforked
          split_ifs at hforked with hfork
          · obtain ⟨rfl, hafter⟩ := hthree.afterForkFds
              [stdError.2, stdError.1, stdOutput.2, stdOutput.1] [] hforked
            have hpipes := (hafter.destroy found.numbers _).destroy found.numbers _
            have hlast := hpipes.close found.numbers []
            rwa [List.append_nil] at hlast
          · obtain ⟨rfl, rfl, rfl⟩ := hforked
            exact ((hthree.destroy [] _).destroy [] _).destroy [] []

/-- The two calls of `dup` give descriptors for the sinks if both succeed. -/
theorem isSome_of_dupForSinks {calls : StartCalls} {sinks : SinkFds}
    (hdup : dupForSinks calls fds = some (after, sinks)) :
    sinks.isSome = (calls.stdoutFd.isSome && calls.stderrFd.isSome) := by
  unfold dupForSinks at hdup
  obtain ⟨first, -, hrest⟩ := Option.bind_eq_some_iff.mp hdup
  obtain ⟨second, -, hresult⟩ := Option.bind_eq_some_iff.mp hrest
  cases hout : calls.stdoutFd <;> cases herr : calls.stderrFd <;>
    simp only [hout, herr] at hresult <;>
      (obtain ⟨-, rfl⟩ := Prod.mk.inj (Option.some.inj hresult); rfl)

/-- The sinks of `afterFork`. -/
theorem sinks_afterFork (runCommand : Bool) (dups : DupCalls)
    (childStartTime childErrno : ReadResult) :
    (afterFork runCommand dups childStartTime childErrno).sinks = true ↔
      childErrno = .eof ∧ runCommand = true ∧ dups.error = none := by
  unfold afterFork
  cases childErrno with
  | eof =>
    cases runCommand with
    | false => cases childStartTime <;> simp
    | true =>
      cases hdups : dups.error with
      | none => simp
      | some error => cases childStartTime <;> simp
  | _ => cases childStartTime <;> simp

/-- The descriptors go to sinks where `afterFork` starts them. -/
theorem isSome_of_afterForkFds {runCommand : Bool} {calls : StartCalls} {execError pipe : Pipe}
    {sinks : SinkFds} {dups : DupCalls} (hstdout : dups.stdoutFd.isSome = calls.stdoutFd.isNone)
    (hstderr : dups.stderrFd.isSome = calls.stderrFd.isNone) (childStartTime : ReadResult)
    (hafter : afterForkFds runCommand calls execError fds = some (after, pipe, sinks)) :
    sinks.isSome = (afterFork runCommand dups childStartTime calls.childErrno).sinks := by
  rw [Bool.eq_iff_iff, sinks_afterFork]
  have herror : dups.error = none ↔ calls.stdoutFd.isSome ∧ calls.stderrFd.isSome := by
    unfold DupCalls.error
    cases hout : calls.stdoutFd <;> cases herr : calls.stderrFd <;>
      cases hfirst : dups.stdoutFd <;> cases hsecond : dups.stderrFd <;>
        simp [hout, herr, hfirst, hsecond] at hstdout hstderr ⊢
  unfold afterForkFds at hafter
  cases hread : calls.childErrno with
  | eof =>
    simp only [hread] at hafter
    split_ifs at hafter with hrun
    · obtain ⟨⟨table, found⟩, hdup, hresult⟩ := Option.map_eq_some_iff.mp hafter
      obtain ⟨rfl, rfl, rfl⟩ := hresult
      rw [isSome_of_dupForSinks hdup, herror]
      simp [hrun]
    · obtain ⟨rfl, rfl, rfl⟩ := hafter
      simp [hrun]
  | _ =>
    simp only [hread] at hafter
    obtain ⟨rfl, rfl, rfl⟩ := hafter
    simp

end Tables

end MuduoProtorpc.Zurg
