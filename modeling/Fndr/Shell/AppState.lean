import Fndr.Library.Files
import Fndr.Library.Flock
import Fndr.Shell.CaptureWorker
import Fndr.Shell.RecordIds

set_option autoImplicit false

/-! # Starting capture

`ShellCaptureState::start` of `app.rs`, down to the worker it launches. An attempt takes the
instance lock before it launches the worker and keeps it when the launch fails. The next attempt
asks for the lock again, through a new open of the file, and the one the process already holds
refuses it. So a start after failed ones goes through exactly when the last of them locked another
file (`startsAfterFailures_iff`). -/

namespace Fndr

open RustStd Runs Flock

/-! ## Configurations and errors -/

/-- Why the app has no data directory. -/
inductive TauriError
  | unknownPath
  | io (error : IoError)
  deriving DecidableEq

/-- Why the scheduler did not open. -/
inductive SchedulerStartError
  | modelMissing (path : Str)
  | invalidFlushInterval (message : Str)
  | store (error : StoreError)
  | ocr (message : Str)
  | pipeline (error : PipelineError)

/-- Why a worker did not start. -/
inductive CaptureWorkerStartError
  | invalidCaptureInterval
  | threadSpawn (error : IoError)
  | scheduler (error : SchedulerStartError)
  | startupChannelClosed

/-- The shortest interval between captures that `start_worker` accepts. -/
def MIN_CAPTURE_INTERVAL : ℕ := seconds 2

/-- Durations are milliseconds. -/
structure RealSchedulerConfig where
  databasePath : Str
  indexDir : Str
  modelPath : Str
  blocklist : Blocklist
  sessionId : Str
  displayIndex : ℕ
  flushInterval : ℕ
  modelIdleTimeout : ℕ

/-- What a worker is started with. -/
structure RealCaptureWorkerConfig where
  scheduler : RealSchedulerConfig
  sampling : SamplingPolicy

/-- What the command line may replace. -/
structure CaptureLaunchOptions where
  dataDir : Option Str
  modelPath : Option Str

/-- `MODELS[0].filename`. -/
def MODEL_FILENAME : Str := "Qwen3-Embedding-0.6B-Q8_0.gguf".toList

/-- The model of the options, or the one that is downloaded into the data directory. -/
def resolvedModelPath (dataDir : Str) (modelOverride : Option Str) : Str :=
  modelOverride.getD (pathJoin (pathJoin dataDir "models".toList) MODEL_FILENAME)

/-- The configuration an attempt launches the worker with. -/
def workerConfig (processId : ℕ) (dataDir : Str) (options : CaptureLaunchOptions) :
    RealCaptureWorkerConfig where
  scheduler := {
    databasePath := pathJoin dataDir "vault.sqlite3".toList
    indexDir := pathJoin dataDir "index".toList
    modelPath := resolvedModelPath dataDir options.modelPath
    blocklist := ⟨[], []⟩
    sessionId := desktopSession processId
    displayIndex := 0
    flushInterval := 30 * 1000
    modelIdleTimeout := 10 * 60 * 1000 }
  sampling := .ofDefault

/-- The file whose lock tells that an instance captures into the directory. -/
def INSTANCE_LOCK_FILE_NAME : Str := ".fndr-instance.lock".toList

/-! ## One attempt -/

/-- The surroundings of one call of `start`. Files are numbered, so that two paths can lead to one;
    the scheduler's `open` gives nothing when it panics. -/
structure StartAttempt where
  options : CaptureLaunchOptions
  appDataDir : Except TauriError Str
  createDirAll : Str → Except IoError Unit
  openFile : Str → Except IoError ℕ
  spawnThread : Except IoError Unit
  openScheduler : RealSchedulerConfig → Option (Except SchedulerStartError Unit)
  processId : ℕ
  nowMs : ℕ

/-- The directory of the options, or the app's own. -/
def StartAttempt.dataDir (attempt : StartAttempt) : Except TauriError Str :=
  match attempt.options.dataDir with
  | some path => .ok path
  | none => attempt.appDataDir

/-- `start_real_capture_worker`. -/
def StartAttempt.startWorker (attempt : StartAttempt) (config : RealCaptureWorkerConfig) :
    Except CaptureWorkerStartError Unit :=
  if config.sampling.activeInterval < MIN_CAPTURE_INTERVAL then .error .invalidCaptureInterval
  else
    match attempt.spawnThread with
    | .error error => .error (.threadSpawn error)
    | .ok () =>
        match attempt.openScheduler config.scheduler with
        | none => .error .startupChannelClosed
        | some (.error error) => .error (.scheduler error)
        | some (.ok ()) => .ok ()

/-- The code under which the window shows why capture did not start. -/
def startErrorReason : CaptureWorkerStartError → Str
  | .invalidCaptureInterval => "invalid_capture_interval".toList
  | .threadSpawn _ => "capture_thread_unavailable".toList
  | .scheduler (.modelMissing _) => "model_missing".toList
  | .scheduler (.invalidFlushInterval _) => "invalid_flush_interval".toList
  | .scheduler (.store _) => "store_unavailable".toList
  | .scheduler (.ocr _) => "ocr_unavailable".toList
  | .scheduler (.pipeline _) => "pipeline_unavailable".toList
  | .startupChannelClosed => "capture_startup_interrupted".toList

/-- The lock and the lifecycle of a capture that runs, and the status that is shown. -/
structure ShellCaptureState where
  instanceLock : Option (Held ℕ)
  lifecycle : Option CaptureLifecycle
  status : CaptureRuntimeStatus

/-- `ShellCaptureState::default`. -/
def ShellCaptureState.ofDefault : ShellCaptureState where
  instanceLock := none
  lifecycle := none
  status := ⟨.stopped, 0, none, none, some "not_started".toList⟩

/-- The state on a machine with its file locks; the lock in the state is one of them. `events` are
    the statuses emitted to the windows. -/
structure Desktop where
  state : ShellCaptureState
  locks : Table ℕ
  events : List CaptureRuntimeStatus
  owned : ∀ lock ∈ state.instanceLock, lock ∈ locks.held

/-- A process that has not started anything. -/
def Desktop.fresh : Desktop := ⟨.ofDefault, .empty, [], fun _ h => nomatch h⟩

/-- `TauriCaptureStatusSink::publish`. -/
def Desktop.publish (desktop : Desktop) (status : CaptureRuntimeStatus) : Desktop where
  state := { desktop.state with status := status }
  locks := desktop.locks
  events := desktop.events ++ [status]
  owned := desktop.owned

/-- The error of a lock that another open holds. -/
def wouldBlock : IoError := ⟨"Resource temporarily unavailable".toList⟩

/-- `*instance_lock = Some(lock)`: the lock that was there is dropped, which closes its open. -/
def Desktop.hold (desktop : Desktop) (locks : Table ℕ) (lock : Held ℕ)
    (hgranted : locks.held = lock :: desktop.locks.held)
    (hnew : lock.file ∉ desktop.locks.held.map Held.file) : Desktop where
  state := { desktop.state with instanceLock := some lock }
  locks := match desktop.state.instanceLock with
    | some old => locks.close old
    | none => locks
  events := desktop.events
  owned := by
    rintro _ ⟨⟩
    cases hold : desktop.state.instanceLock with
    | none => exact hgranted ▸ List.mem_cons_self
    | some old =>
        refine Table.mem_close.2 ⟨hgranted ▸ List.mem_cons_self, ?_⟩
        rintro rfl
        exact hnew (List.mem_map_of_mem (desktop.owned _ hold))

/-- `InstanceLock::acquire` on an opened file, and the lock into the state. -/
def Desktop.takeLock (desktop : Desktop) (file : ℕ) : Except IoError Unit × Desktop :=
  match h : desktop.locks.acquire file with
  | (none, locks) =>
      (.error wouldBlock, ⟨desktop.state, locks, desktop.events,
        (Table.acquire_none h).2 ▸ desktop.owned⟩)
  | (some lock, locks) =>
      (.ok (), desktop.hold locks lock (Table.acquire_some h).2.2
        ((Table.acquire_some h).2.1 ▸ (Table.acquire_some h).1))

/-- `CaptureLifecycle::start` on a configuration, and the lifecycle into the state. -/
def Desktop.launch (desktop : Desktop) (attempt : StartAttempt) (config : RealCaptureWorkerConfig) :
    Desktop :=
  let desktop := desktop.publish ⟨.starting, attempt.nowMs, none, none, none⟩
  match attempt.startWorker config with
  | .error error =>
      desktop.publish ⟨.blocked, attempt.nowMs, none, none, some (startErrorReason error)⟩
  | .ok () =>
      let desktop := desktop.publish ⟨.running, attempt.nowMs, none, none, none⟩
      ⟨{ desktop.state with lifecycle := some (.started attempt.nowMs) }, desktop.locks,
        desktop.events, desktop.owned⟩

/-- `ShellCaptureState::start`. -/
def Desktop.start (desktop : Desktop) (attempt : StartAttempt) :
    Except TauriError Unit × Desktop :=
  -- capture runs already
  if desktop.state.lifecycle.isSome then (.ok (), desktop)
  else
    match attempt.dataDir with
    | .error error => (.error error, desktop)
    | .ok dataDir =>
        match attempt.createDirAll dataDir with
        | .error error => (.error (.io error), desktop)
        | .ok () =>
            match attempt.openFile (pathJoin dataDir INSTANCE_LOCK_FILE_NAME) with
            | .error error => (.error (.io error), desktop)
            | .ok file =>
                match desktop.takeLock file with
                | (.error error, desktop) => (.error (.io error), desktop)
                -- the lock is in the state by now, whether or not capture starts
                | (.ok (), desktop) =>
                    (.ok (), desktop.launch attempt
                      (workerConfig attempt.processId dataDir attempt.options))

/-! ## Attempts that fail, and one that can start -/

/-- The file an attempt asks for the lock on, if it gets that far. -/
def StartAttempt.lockFile (attempt : StartAttempt) : Option ℕ :=
  match attempt.dataDir with
  | .error _ => none
  | .ok dataDir =>
      match attempt.createDirAll dataDir with
      | .error _ => none
      | .ok () => (attempt.openFile (pathJoin dataDir INSTANCE_LOCK_FILE_NAME)).toOption

/-- The worker of the attempt starts, in the directory it resolves to. -/
def StartAttempt.CanStart (attempt : StartAttempt) : Prop :=
  ∃ dataDir, attempt.dataDir = .ok dataDir ∧
    attempt.startWorker (workerConfig attempt.processId dataDir attempt.options) = .ok ()

/-- The attempt gets to `CaptureLifecycle::start`, which fails. -/
def Desktop.FailsInside (desktop : Desktop) (attempt : StartAttempt) : Prop :=
  desktop.state.lifecycle = none ∧ (desktop.start attempt).1 = .ok () ∧
    (desktop.start attempt).2.state.lifecycle = none

/-- Nobody else holds a lock on the file. -/
def Desktop.OnlyOwn (desktop : Desktop) (file : ℕ) : Prop :=
  ∀ lock ∈ desktop.locks.held, lock.file = file → desktop.state.instanceLock = some lock

/-- The file that stays locked after a sequence of failed attempts: that of the last one, and
    without any the one that was locked before. -/
def Desktop.lockedAfter (desktop : Desktop) (attempts : List StartAttempt) : Option ℕ :=
  match attempts.getLast? with
  | some last => last.lockFile
  | none => desktop.state.instanceLock.map Held.file

/-! ## What one attempt does -/

/-- The lock is granted exactly when nobody holds one on the file, the process itself included. Then
    it replaces the one the state held. -/
theorem Desktop.takeLock_cases (desktop : Desktop) (file : ℕ) :
    (file ∈ desktop.locks.held.map Held.file ∧ ∃ after,
      desktop.takeLock file = (.error wouldBlock, after) ∧ after.state = desktop.state) ∨
    (file ∉ desktop.locks.held.map Held.file ∧ ∃ lock after,
      desktop.takeLock file = (.ok (), after) ∧ lock.file = file ∧
        after.state = { desktop.state with instanceLock := some lock } ∧
        ∀ other ∈ after.locks.held, other = lock ∨
          (other ∈ desktop.locks.held ∧ desktop.state.instanceLock ≠ some other)) := by
  unfold Desktop.takeLock
  split
  · next h => exact Or.inl ⟨(Table.acquire_none h).1, _, rfl, rfl⟩
  · next lock locks h =>
    obtain ⟨hfree, hfile, hgranted⟩ := Table.acquire_some h
    refine Or.inr ⟨hfree, lock, _, rfl, hfile, rfl, fun other hother => ?_⟩
    unfold Desktop.hold at hother
    dsimp only at hother
    cases hold : desktop.state.instanceLock with
    | none =>
        rw [hold, hgranted] at hother
        exact (List.mem_cons.1 hother).imp_right (fun hheld => ⟨hheld, nofun⟩)
    | some old =>
        rw [hold] at hother
        obtain ⟨hother, hne⟩ := Table.mem_close.1 hother
        rw [hgranted] at hother
        exact (List.mem_cons.1 hother).imp_right
          (fun hheld => ⟨hheld, fun heq => hne (Option.some.inj heq).symm⟩)

theorem Desktop.launch_instanceLock (desktop : Desktop) (attempt : StartAttempt)
    (config : RealCaptureWorkerConfig) :
    (desktop.launch attempt config).state.instanceLock = desktop.state.instanceLock ∧
      (desktop.launch attempt config).locks = desktop.locks := by
  unfold Desktop.launch
  cases attempt.startWorker config <;> exact ⟨rfl, rfl⟩

theorem Desktop.launch_ok {desktop : Desktop} {attempt : StartAttempt}
    {config : RealCaptureWorkerConfig} (h : attempt.startWorker config = .ok ()) :
    (desktop.launch attempt config).state.lifecycle = some (.started attempt.nowMs) := by
  unfold Desktop.launch
  rw [h]

/-- An attempt without a file to lock errs before it changes anything. -/
theorem Desktop.start_of_none {desktop : Desktop} {attempt : StartAttempt}
    (hidle : desktop.state.lifecycle = none) (hfile : attempt.lockFile = none) :
    ∃ error, desktop.start attempt = (.error error, desktop) := by
  have hnone : ¬ desktop.state.lifecycle.isSome := by simp [hidle]
  unfold StartAttempt.lockFile at hfile
  rw [Desktop.start, if_neg hnone]
  cases hdir : attempt.dataDir with
  | error error => exact ⟨_, rfl⟩
  | ok dataDir =>
      rw [hdir] at hfile
      dsimp only at hfile ⊢
      cases hcreate : attempt.createDirAll dataDir with
      | error error => exact ⟨_, rfl⟩
      | ok _ =>
          rw [hcreate] at hfile
          dsimp only at hfile ⊢
          cases hopen : attempt.openFile (pathJoin dataDir INSTANCE_LOCK_FILE_NAME) with
          | error error => exact ⟨_, rfl⟩
          | ok file =>
              rw [hopen] at hfile
              cases hfile

/-- An attempt with a file to lock asks for the lock and, once it has it, launches the worker. -/
theorem Desktop.start_of_some {desktop : Desktop} {attempt : StartAttempt} {file : ℕ}
    (hidle : desktop.state.lifecycle = none) (hfile : attempt.lockFile = some file) :
    ∃ dataDir, attempt.dataDir = .ok dataDir ∧
      desktop.start attempt = match desktop.takeLock file with
        | (.error error, desktop) => (.error (.io error), desktop)
        | (.ok (), desktop) => (.ok (), desktop.launch attempt
            (workerConfig attempt.processId dataDir attempt.options)) := by
  have hnone : ¬ desktop.state.lifecycle.isSome := by simp [hidle]
  unfold StartAttempt.lockFile at hfile
  rw [Desktop.start, if_neg hnone]
  cases hdir : attempt.dataDir with
  | error error =>
      rw [hdir] at hfile
      cases hfile
  | ok dataDir =>
      rw [hdir] at hfile
      dsimp only at hfile ⊢
      cases hcreate : attempt.createDirAll dataDir with
      | error error =>
          rw [hcreate] at hfile
          cases hfile
      | ok _ =>
          rw [hcreate] at hfile
          dsimp only at hfile ⊢
          cases hopen : attempt.openFile (pathJoin dataDir INSTANCE_LOCK_FILE_NAME) with
          | error error =>
              rw [hopen] at hfile
              cases hfile
          | ok opened =>
              rw [hopen] at hfile
              cases hfile
              exact ⟨dataDir, rfl, rfl⟩

/-! ## What a sequence of failed attempts leaves -/

/-- One call of `start`, as a step. -/
def Desktop.exec (desktop : Desktop) (attempt : StartAttempt) : Desktop :=
  (desktop.start attempt).2

/-- An attempt that fails inside leaves the state with the lock it took. -/
theorem Desktop.FailsInside.keeps_lock {desktop : Desktop} {attempt : StartAttempt}
    (h : desktop.FailsInside attempt) :
    ∃ lock, attempt.lockFile = some lock.file ∧
      (desktop.exec attempt).state.instanceLock = some lock ∧
      ∀ other ∈ (desktop.exec attempt).locks.held, other = lock ∨
        (other ∈ desktop.locks.held ∧ desktop.state.instanceLock ≠ some other) := by
  obtain ⟨hidle, hok, -⟩ := h
  cases hfile : attempt.lockFile with
  | none =>
      obtain ⟨error, herror⟩ := Desktop.start_of_none hidle hfile
      rw [herror] at hok
      cases hok
  | some file =>
      obtain ⟨dataDir, -, hstart⟩ := Desktop.start_of_some hidle hfile
      unfold Desktop.exec
      rw [hstart] at hok ⊢
      rcases desktop.takeLock_cases file with
        ⟨-, after, htake, -⟩ | ⟨-, lock, after, htake, rfl, hstate, hheld⟩
      · rw [htake] at hok
        cases hok
      · rw [htake]
        obtain ⟨hlock, hlocks⟩ := after.launch_instanceLock attempt
          (workerConfig attempt.processId dataDir attempt.options)
        refine ⟨lock, rfl, ?_, ?_⟩
        · exact hlock.trans (congrArg ShellCaptureState.instanceLock hstate)
        · dsimp only
          rw [hlocks]
          exact hheld

theorem Desktop.FailsInside.onlyOwn {desktop : Desktop} {attempt : StartAttempt} {file : ℕ}
    (h : desktop.FailsInside attempt) (hown : desktop.OnlyOwn file) :
    (desktop.exec attempt).OnlyOwn file := by
  obtain ⟨lock, -, hlock, hheld⟩ := h.keeps_lock
  intro other hother hfile
  rcases hheld other hother with rfl | ⟨hold, hnot⟩
  · exact hlock
  · exact absurd (hown other hold hfile) hnot

theorem lockedAfter_of_failures {desktop : Desktop} {attempts : List StartAttempt} {file : ℕ}
    (hidle : desktop.state.lifecycle = none)
    (hfailed : StepsMeet Desktop.exec Desktop.FailsInside desktop attempts)
    (hown : desktop.OnlyOwn file) :
    (final Desktop.exec desktop attempts).state.lifecycle = none ∧
      (final Desktop.exec desktop attempts).OnlyOwn file ∧
      (final Desktop.exec desktop attempts).state.instanceLock.map Held.file
        = desktop.lockedAfter attempts := by
  induction attempts generalizing desktop with
  | nil => exact ⟨hidle, hown, rfl⟩
  | cons attempt attempts ih =>
      obtain ⟨hfails, hrest⟩ := hfailed
      obtain ⟨lock, hfile, hlock, -⟩ := hfails.keeps_lock
      obtain ⟨hidle', hown', hlocked⟩ := ih hfails.2.2 hrest (hfails.onlyOwn hown)
      refine ⟨hidle', hown', hlocked.trans ?_⟩
      unfold Desktop.lockedAfter
      rw [List.getLast?_cons]
      cases attempts.getLast? with
      | none =>
          change (desktop.exec attempt).state.instanceLock.map Held.file = attempt.lockFile
          rw [hlock, Option.map_some, hfile]
      | some last => rfl

/-- **When a start goes through after failed ones.** With no other holder of the lock it asks for, a
    start whose worker can start does start it exactly when the file is not the one that the
    attempts before have left locked. -/
theorem startsAfterFailures_iff {desktop : Desktop} {attempts : List StartAttempt}
    {attempt : StartAttempt} {file : ℕ} (hidle : desktop.state.lifecycle = none)
    (hfailed : StepsMeet Desktop.exec Desktop.FailsInside desktop attempts)
    (hown : desktop.OnlyOwn file) (hcan : attempt.CanStart) (hfile : attempt.lockFile = some file) :
    ((final Desktop.exec desktop attempts).start attempt).2.state.lifecycle.isSome ↔
      desktop.lockedAfter attempts ≠ some file := by
  obtain ⟨hidle', hown', hlocked⟩ := lockedAfter_of_failures hidle hfailed hown
  rw [← hlocked]
  generalize final Desktop.exec desktop attempts = left at hidle' hown' ⊢
  obtain ⟨dataDir, hdir, hworker⟩ := hcan
  obtain ⟨_, hdir', hstart⟩ := Desktop.start_of_some hidle' hfile
  cases hdir.symm.trans hdir'
  rw [hstart]
  rcases left.takeLock_cases file with ⟨hheld, after, htake, hstate⟩ | ⟨hfree, lock, after, htake, -⟩
  · -- the lock on the file is the process's own
    obtain ⟨lock, hlock, rfl⟩ := List.mem_map.1 hheld
    have hsame : left.state.instanceLock.map Held.file = some lock.file := by
      rw [hown' lock hlock rfl]
      rfl
    have hnone : after.state.lifecycle = none :=
      (congrArg ShellCaptureState.lifecycle hstate).trans hidle'
    rw [htake]
    exact ⟨fun h => absurd h (by simp [hnone]), fun h => absurd hsame h⟩
  · rw [htake]
    refine iff_of_true (by rw [Desktop.launch_ok hworker]; rfl) (fun hsame => hfree ?_)
    obtain ⟨held, hheld, rfl⟩ := Option.map_eq_some_iff.1 hsame
    exact List.mem_map_of_mem (left.owned held hheld)

/-! ## A model that is missing at first -/

/-- A start in a directory, with the lock file of that number, that fails as the scheduler does. -/
def attemptIn (dir : Str) (file : ℕ) (openScheduler : Except SchedulerStartError Unit) :
    StartAttempt where
  options := ⟨some dir, none⟩
  appDataDir := .error .unknownPath
  createDirAll := fun _ => .ok ()
  openFile := fun _ => .ok file
  spawnThread := .ok ()
  openScheduler := fun _ => some openScheduler
  processId := 7
  nowMs := 1000

/-- After a start without a model in one directory, a start in another one goes through. -/
theorem startsAfterFailures_elsewhere :
    ((final Desktop.exec Desktop.fresh
      [attemptIn "/a".toList 0 (.error (.modelMissing "/a/model".toList))]).start
        (attemptIn "/b".toList 1 (.ok ()))).2.state.lifecycle.isSome := by
  have hfailed : StepsMeet Desktop.exec Desktop.FailsInside Desktop.fresh
      [attemptIn "/a".toList 0 (.error (.modelMissing "/a/model".toList))] :=
    ⟨⟨rfl, rfl, rfl⟩, trivial⟩
  exact (startsAfterFailures_iff rfl hfailed (fun _ h => (nomatch h)) ⟨_, rfl, rfl⟩ rfl).2
    (by decide)

/-- Once the model is there, the start in the same directory still fails, on the lock of the first
    attempt. -/
theorem not_startsAfterFailure :
    (StepsMeet Desktop.exec Desktop.FailsInside Desktop.fresh
        [attemptIn "/a".toList 0 (.error (.modelMissing "/a/model".toList))] ∧
      Desktop.fresh.OnlyOwn 0 ∧ (attemptIn "/a".toList 0 (.ok ())).CanStart) ∧
    ((final Desktop.exec Desktop.fresh
      [attemptIn "/a".toList 0 (.error (.modelMissing "/a/model".toList))]).start
        (attemptIn "/a".toList 0 (.ok ()))).1 = .error (.io wouldBlock) ∧
    ¬ ((final Desktop.exec Desktop.fresh
      [attemptIn "/a".toList 0 (.error (.modelMissing "/a/model".toList))]).start
        (attemptIn "/a".toList 0 (.ok ()))).2.state.lifecycle.isSome :=
  ⟨⟨⟨⟨rfl, rfl, rfl⟩, trivial⟩, fun _ h => (nomatch h), _, rfl, rfl⟩, rfl, by decide⟩

end Fndr
