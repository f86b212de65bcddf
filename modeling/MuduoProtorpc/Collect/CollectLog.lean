import MuduoProtorpc.Collect.ProcFs
import MuduoProtorpc.Foundation.TransitionSystem

/-!
# The log of the collector

`CollectLogger` of `examples/collect/collector.cc` writes what `ProcFs::fill` says to its log, once
at the start and then every second. `CollectServiceImpl::getSnapshot` calls `fill` of the same
`ProcFs` for its caller, so the constant part of a process that appears between two records can go
to the caller and be missing in the log. The log can be read if no call of `getSnapshot` is the
first to see a process (`log_readable`).
-/

set_option autoImplicit false
set_option relaxedAutoImplicit false

namespace MuduoProtorpc.Collect

open Foundation

/-! ### The collector -/

/-- A record of the log, with the processes that it was made of. -/
structure LogRecord where
  info : SystemInfo
  dir : ProcDir

/-- `CollectLogger`: `proc_`, the scratch `info_`, and the records of `file_`. -/
structure CollectLogger where
  proc : ProcFs
  info : SystemInfo := {}
  log : List LogRecord := []

namespace CollectLogger

variable (logger : CollectLogger)

/-- Fills `info_`, saves it, and clears it. `ProcFs::fill` always returns true. -/
def fillAndSave (level : SnapshotLevel) (dir : ProcDir) : CollectLogger :=
  let (info, proc) := logger.proc.fill level dir logger.info
  { proc := proc, info := {}, log := logger.log ++ [{ info := info, dir := dir }] }

/-- `CollectLogger::start`. -/
def start (dir : ProcDir) : CollectLogger :=
  logger.fillAndSave .systemInfoInitialSnapshot dir

/-- `CollectLogger::snapshot`. -/
def snapshot (dir : ProcDir) : CollectLogger :=
  logger.fillAndSave .systemInfoAndThreads dir

/-- `CollectLogger::fill`. -/
def fill (level : SnapshotLevel) (dir : ProcDir) (info : SystemInfo) : SystemInfo × CollectLogger :=
  let (info, proc) := logger.proc.fill level dir info
  (info, { logger with proc := proc })

/-- `CollectServiceImpl::getSnapshot`: the response, and the logger. -/
def getSnapshot (level : SnapshotLevel) (dir : ProcDir) : SystemInfo × CollectLogger :=
  logger.fill level dir {}

end CollectLogger

/-- A second has passed, or a request has come, with the processes that there are then. -/
inductive CollectAction
  | snapshot (dir : ProcDir)
  | getSnapshot (level : SnapshotLevel) (dir : ProcDir)

/-- The collector, after `start`. -/
def collector (millisecondsPerTick : BitVec 64) (kbPerPage : BitVec 32) (first : ProcDir) :
    TransitionSystem CollectLogger CollectAction where
  start := CollectLogger.start
    { proc := { millisecondsPerTick := millisecondsPerTick, kbPerPage := kbPerPage } } first
  step := fun logger action ↦
    match action with
    | .snapshot dir => some (logger.snapshot dir)
    | .getSnapshot level dir => some (logger.getSnapshot level dir).2

/-- The constant part of a process that has none in a record of the log is in one of the sixty
records before, with the same pid and the start time of the process. -/
def Readable (log : List LogRecord) : Prop :=
  ∀ before record after, log = before ++ record :: after → ∀ info ∈ record.info.processes,
    info.basic = none → ∃ file ∈ record.dir.files, file.stat.pid = info.pid ∧
      ∃ earlier ∈ before.drop (before.length - 60), ∃ full ∈ earlier.info.processes, ∃ basic,
        full.basic = some basic ∧ full.pid = info.pid ∧ basic.starttime = file.stat.starttime

/-- A request does not see a process before the log does: each process that it gets is in
`starttime_`, which is not cleared at the request. -/
def NothingNew (logger : CollectLogger) : CollectAction → Prop
  | .snapshot _ => True
  | .getSnapshot level dir =>
    SnapshotLevel.systemInfoAndProcesses.number ≤ level.number → ∀ file ∈ dir.files,
      logger.proc.countFill.starttime.find file.stat.pid = some file.stat.starttime

/-! ### The encoder -/

/-- What the encoder has written in a record. -/
def LogRecord.delta (record : LogRecord) : DeltaRecord (BitVec 32) (BitVec 64) :=
  deltaRecord record.dir.files record.info.processes

/-- The processes that are described at a level. -/
def ProcDir.items (dir : ProcDir) (level : SnapshotLevel) : List (BitVec 32 × BitVec 64) :=
  if SnapshotLevel.systemInfoAndProcesses.number ≤ level.number then dir.files.map ProcFile.item
  else []

section Records

variable {record : LogRecord} {log : List LogRecord} {level : SnapshotLevel}

theorem ProcDir.nodup_items_level (dir : ProcDir) (level : SnapshotLevel) :
    ((dir.items level).map Prod.fst).Nodup := by
  unfold ProcDir.items
  split_ifs
  · exact dir.nodup_items
  · exact List.nodup_nil

/-- `fill` writes a record of the encoder. -/
theorem fill_encoder (proc : ProcFs) (level : SnapshotLevel) (dir : ProcDir) (info : SystemInfo) :
    (proc.fill level dir info).2.encoder = (proc.encoder.write 60 (dir.items level)).2 := by
  unfold ProcFs.fill ProcDir.items DeltaEncoder.write
  rw [← encoder_countFill]
  split_ifs
  · simp only [(fillProcesses_delta proc.countFill dir.files).2]
    rfl
  · rfl

/-- What `fill` writes, where the processes are described. -/
theorem fill_delta (proc : ProcFs) (dir : ProcDir)
    (hlevel : SnapshotLevel.systemInfoAndProcesses.number ≤ level.number) :
    deltaRecord dir.files (proc.fill level dir {}).1.processes =
        (proc.encoder.write 60 (dir.items level)).1 ∧
      List.Forall₂ Describes dir.files (proc.fill level dir {}).1.processes := by
  have hprocesses : (proc.fill level dir {}).1.processes =
      (proc.countFill.fillProcesses dir.files).1 := by
    simp [ProcFs.fill, if_pos hlevel]
  rw [hprocesses]
  refine ⟨?_, describes_fillProcesses _ dir.files⟩
  rw [(fillProcesses_delta proc.countFill dir.files).1, DeltaEncoder.write, ← encoder_countFill,
    ProcDir.items, if_pos hlevel]
  rfl

/-- A process that is in full in a record of the encoder has its constant part in the record. -/
theorem exists_full (hdescribes : List.Forall₂ Describes record.dir.files record.info.processes)
    {item : BitVec 32 × BitVec 64} (hitem : (item, true) ∈ record.delta) :
    ∃ full ∈ record.info.processes, ∃ basic, full.basic = some basic ∧ full.pid = item.1 ∧
      basic.starttime = item.2 := by
  obtain ⟨⟨file, info⟩, hzip, hentry⟩ := List.mem_map.mp hitem
  obtain ⟨rfl, hsome⟩ := Prod.mk.inj hentry
  obtain ⟨basic, hbasic⟩ := Option.isSome_iff_exists.mp hsome
  obtain ⟨hpid, hstarttime⟩ := List.forall₂_zip hdescribes hzip
  exact ⟨info, (List.of_mem_zip hzip).2, basic, hbasic, hpid, hstarttime basic hbasic⟩

/-- A process without its constant part is not in full in the record of the encoder. -/
theorem exists_item (hdescribes : List.Forall₂ Describes record.dir.files record.info.processes)
    {info : ProcessInfo} (hinfo : info ∈ record.info.processes) (hbasic : info.basic = none) :
    ∃ file ∈ record.dir.files, file.stat.pid = info.pid ∧ (file.item, false) ∈ record.delta := by
  rw [← List.map_snd_zip hdescribes.length_eq.ge] at hinfo
  obtain ⟨⟨file, other⟩, hzip, rfl⟩ := List.mem_map.mp hinfo
  refine ⟨file, (List.of_mem_zip hzip).1, (List.forall₂_zip hdescribes hzip).1.symm, ?_⟩
  have hnotSome : other.basic.isSome = false := by
    rw [show other.basic = none from hbasic]
    rfl
  exact List.mem_map.mpr ⟨(file, other), hzip, Prod.ext rfl hnotSome⟩

/-- A log can be read if the records of the encoder can. -/
theorem readable_of_selfContained
    (hdescribes : ∀ record ∈ log, List.Forall₂ Describes record.dir.files record.info.processes)
    (hlog : SelfContained 60 (log.map LogRecord.delta)) : Readable log := by
  intro before record after hsplit info hinfo hbasic
  have hrecord : record ∈ log := by
    rw [hsplit]
    exact List.mem_append_right _ List.mem_cons_self
  obtain ⟨file, hfile, hpid, hitem⟩ := exists_item (hdescribes record hrecord) hinfo hbasic
  have hdelta : log.map LogRecord.delta =
      before.map LogRecord.delta ++ record.delta :: after.map LogRecord.delta := by
    rw [hsplit, List.map_append, List.map_cons]
  obtain ⟨delta, hdelta, hfull⟩ := hlog _ _ _ hdelta file.item hitem
  rw [List.length_map, ← List.map_drop] at hdelta
  obtain ⟨earlier, hearlier, rfl⟩ := List.mem_map.mp hdelta
  have hlogged : earlier ∈ log := by
    rw [hsplit]
    exact List.mem_append_left _ (List.mem_of_mem_drop hearlier)
  obtain ⟨full, hmem, basic, hsome, hsame, hstarttime⟩ :=
    exists_full (hdescribes earlier hlogged) hfull
  exact ⟨file, hfile, hpid, earlier, hearlier, full, hmem, basic, hsome, hsame.trans hpid,
    hstarttime⟩

end Records

/-! ### Runs -/

/-- What holds of a logger as long as no request sees a process first. -/
structure LogInvariant (logger : CollectLogger) : Prop where
  info_eq : logger.info = {}
  describes : ∀ record ∈ logger.log,
    List.Forall₂ Describes record.dir.files record.info.processes
  covered : Covered 60 logger.proc.encoder (logger.log.map LogRecord.delta)
  selfContained : SelfContained 60 (logger.log.map LogRecord.delta)

section Runs

variable {logger : CollectLogger} {level : SnapshotLevel} {action : CollectAction}

/-- Before `start`. -/
theorem logInvariant_new (millisecondsPerTick : BitVec 64) (kbPerPage : BitVec 32) :
    LogInvariant
      { proc := { millisecondsPerTick := millisecondsPerTick, kbPerPage := kbPerPage } } where
  info_eq := rfl
  describes := by
    intro record hrecord
    cases hrecord
  covered := by
    refine ⟨Nat.zero_lt_succ 59, ?_⟩
    intro key value hfind
    cases hfind
  selfContained := selfContained_nil 60

theorem LogInvariant.fillAndSave (hinvariant : LogInvariant logger)
    (hlevel : SnapshotLevel.systemInfoAndProcesses.number ≤ level.number) (dir : ProcDir) :
    LogInvariant (logger.fillAndSave level dir) := by
  obtain ⟨hdelta, hdescribes⟩ := fill_delta logger.proc dir hlevel
  have hlog : (logger.fillAndSave level dir).log.map LogRecord.delta =
      logger.log.map LogRecord.delta ++
        [(logger.proc.encoder.write 60 (dir.items level)).1] := by
    show (logger.log ++ [_]).map LogRecord.delta = _
    rw [List.map_append, List.map_singleton, hinvariant.info_eq]
    exact congrArg (_ ++ [·]) hdelta
  have hencoder : (logger.fillAndSave level dir).proc.encoder =
      (logger.proc.encoder.write 60 (dir.items level)).2 :=
    fill_encoder logger.proc level dir logger.info
  have hnodup := dir.nodup_items_level level
  constructor
  · rfl
  · intro record hrecord
    rcases List.mem_append.mp hrecord with hold | hnew
    · exact hinvariant.describes record hold
    · obtain rfl := List.mem_singleton.mp hnew
      rw [hinvariant.info_eq]
      exact hdescribes
  · rw [hlog, hencoder]
    exact hinvariant.covered.logged hnodup
  · rw [hlog]
    exact hinvariant.selfContained.logged hinvariant.covered hnodup

theorem LogInvariant.start (hinvariant : LogInvariant logger) (dir : ProcDir) :
    LogInvariant (logger.start dir) := by
  apply hinvariant.fillAndSave
  decide

theorem LogInvariant.snapshot (hinvariant : LogInvariant logger) (dir : ProcDir) :
    LogInvariant (logger.snapshot dir) := by
  apply hinvariant.fillAndSave
  decide

/-- A request that sees nothing first. -/
theorem LogInvariant.getSnapshot (hinvariant : LogInvariant logger) {dir : ProcDir}
    (hknown : NothingNew logger (.getSnapshot level dir)) :
    LogInvariant (logger.getSnapshot level dir).2 := by
  have hencoder : (logger.getSnapshot level dir).2.proc.encoder =
      (logger.proc.encoder.write 60 (dir.items level)).2 :=
    fill_encoder logger.proc level dir {}
  refine ⟨hinvariant.info_eq, hinvariant.describes, ?_, hinvariant.selfContained⟩
  rw [hencoder]
  apply hinvariant.covered.taken (dir.nodup_items_level level)
  intro item hitem
  rw [← encoder_countFill]
  unfold ProcDir.items at hitem
  split_ifs at hitem with hlevel
  · obtain ⟨file, hfile, rfl⟩ := List.mem_map.mp hitem
    exact hknown hlevel file hfile
  · cases hitem

end Runs

/-- The log can be read after every run in which no request sees a process before the log does. -/
theorem log_readable {millisecondsPerTick : BitVec 64} {kbPerPage : BitVec 32} {first : ProcDir}
    {actions : List CollectAction} {logger : CollectLogger}
    (hrun : (collector millisecondsPerTick kbPerPage first).RunWhen NothingNew actions logger) :
    Readable logger.log := by
  have hinvariant : LogInvariant logger := by
    apply hrun.invariant
    · exact (logInvariant_new _ _).start first
    · intro state action next hpermitted hstep hbefore
      cases action with
      | snapshot dir =>
        obtain rfl : state.snapshot dir = next := Option.some.inj hstep
        exact hbefore.snapshot dir
      | getSnapshot level dir =>
        obtain rfl : (state.getSnapshot level dir).2 = next := Option.some.inj hstep
        exact hbefore.getSnapshot hpermitted
  exact readable_of_selfContained hinvariant.describes hinvariant.selfContained

/-- No process. -/
def noProcess : ProcDir where
  files := []
  nodup := List.nodup_nil

/-- The process with pid 5 that started at 100. -/
def oneProcess : ProcDir where
  files := [{
    stat := {
      pid := 5, name := [], state := 83, ppid := 2, minorFaults := 0, majorFaults := 0,
      userTicks := 0, sysTicks := 0, numThreads := 1, starttime := 100, vsize := 0, rss := 0,
      lastProcessor := 0 }
    cmdline := [] }]
  nodup := List.nodup_singleton _

/-- A process that the log sees first. -/
theorem log_readable_oneProcess : ∃ logger,
    (collector 10 4 noProcess).Run [.snapshot oneProcess,
      .getSnapshot .systemInfoAndProcesses oneProcess, .snapshot oneProcess] logger ∧
        Readable logger.log := by
  have hlogged (logger : CollectLogger) : NothingNew logger (.snapshot oneProcess) := trivial
  have hfirst := TransitionSystem.RunWhen.start.step (hlogged (collector 10 4 noProcess).start) rfl
  have hknown : NothingNew ((collector 10 4 noProcess).start.snapshot oneProcess)
      (.getSnapshot .systemInfoAndProcesses oneProcess) := by
    intro _ file hfile
    obtain rfl := List.mem_singleton.mp hfile
    rfl
  have hsecond := hfirst.step hknown rfl
  have hthird := hsecond.step (hlogged _) rfl
  exact ⟨_, hthird.run, log_readable hthird⟩

/-- A process that a request sees first: its only record in the log has no constant part. -/
theorem not_log_readable : ∃ logger,
    (collector 10 4 noProcess).Run [.getSnapshot .systemInfoAndProcesses oneProcess,
      .snapshot oneProcess] logger ∧ ¬ Readable logger.log := by
  refine ⟨_, .of_execute rfl, ?_⟩
  intro hreadable
  obtain ⟨file, -, -, earlier, hearlier, full, hfull, -⟩ :=
    hreadable [_] _ [] rfl _ List.mem_cons_self rfl
  obtain rfl := List.mem_singleton.mp hearlier
  cases hfull

end MuduoProtorpc.Collect
