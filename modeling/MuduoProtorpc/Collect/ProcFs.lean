import MuduoProtorpc.Foundation.DeltaEncoding
import MuduoProtorpc.Wire.RpcMessage

/-!
# `ProcFs`

How `examples/collect/ProcFs.cc` describes the processes. The constant part of a process, `Basic`,
is only in its description if its pid is not in `starttime_`, or is there with another start time;
every sixty calls of `fill` this table is cleared. So `fill` is a delta encoder
(`fillProcesses_delta`), with the pids as keys and the start times as values.

The rest of `SystemInfo` does not depend on what `ProcFs` remembers and is left out, and so are the
fields of a stat file that are skipped.
-/

set_option autoImplicit false
set_option relaxedAutoImplicit false

namespace MuduoProtorpc.Collect

open Foundation

/-! ### What is read -/

/-- `SnapshotRequest_Level`. -/
inductive SnapshotLevel
  | systemInfoOnly
  | systemInfoAndProcesses
  | systemInfoAndThreads
  | systemInfoInitialSnapshot
  deriving DecidableEq

def SnapshotLevel.number : SnapshotLevel → ℕ
  | .systemInfoOnly => 0
  | .systemInfoAndProcesses => 1
  | .systemInfoAndThreads => 2
  | .systemInfoInitialSnapshot => 3

/-- The fields of `/proc/pid/stat` that are used. -/
structure StatFields where
  pid : BitVec 32
  name : Bytes
  state : BitVec 8
  ppid : BitVec 32
  minorFaults : BitVec 64
  majorFaults : BitVec 64
  userTicks : BitVec 64
  sysTicks : BitVec 64
  numThreads : BitVec 32
  starttime : BitVec 64
  vsize : BitVec 64
  rss : BitVec 64
  lastProcessor : BitVec 32

/-- A directory of `/proc` whose stat file can be read, with the strings of its `cmdline`. -/
structure ProcFile where
  stat : StatFields
  cmdline : List Bytes

/-- The processes that `readDir("/proc")` comes across. No two have the same pid. -/
structure ProcDir where
  files : List ProcFile
  nodup : (files.map fun file ↦ file.stat.pid).Nodup

/-! ### What is written -/

/-- `ProcessInfo_Basic`. -/
structure Basic where
  ppid : BitVec 32
  starttime : BitVec 64
  name : Bytes
  cmdline : List Bytes

/-- `ProcessInfo`. -/
structure ProcessInfo where
  pid : BitVec 32
  basic : Option Basic := none
  userCpuMs : BitVec 64
  sysCpuMs : BitVec 64
  lastProcessor : BitVec 32
  vsizeKb : BitVec 64
  rssKb : BitVec 64
  state : BitVec 32
  minorPageFaults : BitVec 64
  majorPageFaults : BitVec 64
  numThreads : BitVec 32

/-- `SystemInfo`. -/
structure SystemInfo where
  processes : List ProcessInfo := []

/-- `ProcFs`. -/
structure ProcFs where
  millisecondsPerTick : BitVec 64
  kbPerPage : BitVec 32
  starttime : Table (BitVec 32) (BitVec 64) := .empty
  count : ℕ := 0

namespace ProcFs

variable (proc : ProcFs)

/-- The figures of a process. -/
def figures (stat : StatFields) : ProcessInfo where
  pid := stat.pid
  userCpuMs := stat.userTicks * proc.millisecondsPerTick
  sysCpuMs := stat.sysTicks * proc.millisecondsPerTick
  lastProcessor := stat.lastProcessor
  vsizeKb := stat.vsize.sdiv 1024
  rssKb := stat.rss * proc.kbPerPage.signExtend 64
  state := stat.state.signExtend 32
  minorPageFaults := stat.minorFaults
  majorPageFaults := stat.majorFaults
  numThreads := stat.numThreads

/-- `fillProcess`, and `fillCmdline`. -/
def fillProcess (file : ProcFile) : ProcessInfo × ProcFs :=
  let info := proc.figures file.stat
  if proc.starttime.find file.stat.pid = some file.stat.starttime then (info, proc)
  else
    ({ info with
        basic := some {
          ppid := file.stat.ppid
          starttime := file.stat.starttime
          name := file.stat.name
          cmdline := file.cmdline } },
      { proc with starttime := proc.starttime.insert file.stat.pid file.stat.starttime })

/-- The calls of `fillProcess` in `fillProcesses`. -/
def fillProcesses : ProcFs → List ProcFile → List ProcessInfo × ProcFs
  | proc, [] => ([], proc)
  | proc, file :: rest =>
    let (info, proc) := proc.fillProcess file
    let (infos, proc) := fillProcesses proc rest
    (info :: infos, proc)

/-- `if (++count_ >= 60)`. -/
def countFill : ProcFs :=
  if 60 ≤ proc.count + 1 then { proc with count := 0, starttime := .empty }
  else { proc with count := proc.count + 1 }

/-- `fill`. -/
def fill (level : SnapshotLevel) (dir : ProcDir) (info : SystemInfo) : SystemInfo × ProcFs :=
  if SnapshotLevel.systemInfoAndProcesses.number ≤ level.number then
    let (infos, proc) := proc.countFill.fillProcesses dir.files
    ({ info with processes := info.processes ++ infos }, proc)
  else (info, proc.countFill)

end ProcFs

/-! ### The encoder -/

/-- What the encoder sees of a process. -/
def ProcFile.item (file : ProcFile) : BitVec 32 × BitVec 64 :=
  (file.stat.pid, file.stat.starttime)

/-- What the encoder has written of some processes. -/
def deltaRecord (files : List ProcFile) (infos : List ProcessInfo) :
    DeltaRecord (BitVec 32) (BitVec 64) :=
  (files.zip infos).map fun (file, info) ↦ (file.item, info.basic.isSome)

/-- The encoder in a `ProcFs`. -/
def ProcFs.encoder (proc : ProcFs) : DeltaEncoder (BitVec 32) (BitVec 64) where
  seen := proc.starttime
  count := proc.count

/-- A description is that of a process. -/
def Describes (file : ProcFile) (info : ProcessInfo) : Prop :=
  info.pid = file.stat.pid ∧
    ∀ basic, info.basic = some basic → basic.starttime = file.stat.starttime

section Encoder

variable {proc : ProcFs} {files : List ProcFile} {infos : List ProcessInfo}

theorem ProcDir.nodup_items (dir : ProcDir) :
    ((dir.files.map ProcFile.item).map Prod.fst).Nodup := by
  rw [List.map_map]
  exact dir.nodup

theorem encoder_countFill (proc : ProcFs) : proc.countFill.encoder = proc.encoder.begin 60 := by
  by_cases hreset : 60 ≤ proc.count + 1
  · rw [ProcFs.countFill, if_pos hreset]
    exact (if_pos hreset).symm
  · rw [ProcFs.countFill, if_neg hreset]
    exact (if_neg hreset).symm

/-- `fillProcess` describes its process. -/
theorem describes_fillProcess (proc : ProcFs) (file : ProcFile) :
    Describes file (proc.fillProcess file).1 := by
  unfold ProcFs.fillProcess
  simp only
  split_ifs
  · exact ⟨rfl, by simp [ProcFs.figures]⟩
  · refine ⟨rfl, ?_⟩
    intro basic hbasic
    rw [← Option.some.inj hbasic]

theorem describes_fillProcesses (proc : ProcFs) (files : List ProcFile) :
    List.Forall₂ Describes files (proc.fillProcesses files).1 := by
  induction files generalizing proc with
  | nil => exact .nil
  | cons file rest ih => exact .cons (describes_fillProcess proc file) (ih _)

/-- The processes are delta encoded. -/
theorem fillProcesses_delta (proc : ProcFs) (files : List ProcFile) :
    deltaRecord files (proc.fillProcesses files).1 =
        (deltaEncode proc.starttime (files.map ProcFile.item)).1 ∧
      (proc.fillProcesses files).2 =
        { proc with starttime := (deltaEncode proc.starttime (files.map ProcFile.item)).2 } := by
  induction files generalizing proc with
  | nil => exact ⟨rfl, rfl⟩
  | cons file rest ih =>
    obtain ⟨hrecord, hproc⟩ := ih (proc.fillProcess file).2
    have hcons : deltaRecord (file :: rest) (proc.fillProcesses (file :: rest)).1 =
        (file.item, (proc.fillProcess file).1.basic.isSome) ::
          deltaRecord rest ((proc.fillProcess file).2.fillProcesses rest).1 :=
      rfl
    have hlast : (proc.fillProcesses (file :: rest)).2 =
        ((proc.fillProcess file).2.fillProcesses rest).2 :=
      rfl
    rw [hcons, hlast, hrecord, hproc, List.map_cons, deltaEncode]
    by_cases hseen : proc.starttime.find file.stat.pid = some file.stat.starttime
    · have hfile : proc.fillProcess file = (proc.figures file.stat, proc) := if_pos hseen
      rw [if_pos (show proc.starttime.find file.item.1 = some file.item.2 from hseen), hfile]
      exact ⟨rfl, rfl⟩
    · rw [if_neg (show ¬ proc.starttime.find file.item.1 = some file.item.2 from hseen),
        show proc.fillProcess file = (_, _) from if_neg hseen]
      exact ⟨rfl, rfl⟩

end Encoder

end MuduoProtorpc.Collect
