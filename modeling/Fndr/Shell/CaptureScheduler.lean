import Fndr.Retrieval.MergedSearch
import Fndr.Shell.AppState
import Fndr.Store.Drain
import Fndr.Store.FlushFaults
import Fndr.Vault.Coverage
import Fndr.Vault.Freshness
import Fndr.Vault.Presence

set_option autoImplicit false

/-! # The capture scheduler

`capture_scheduler.rs`: one tick is one capture and, when the cadence is due, one flush over the
store the capture wrote to. A scheduler over time is a run: every tick has its own surroundings, its
own clock and its own flush conditions (what the model queue answers, which calls of SQLite and
Lance fail), and between two ticks the app may shut down and open another scheduler over the same
vault. -/

namespace Fndr

open RustStd Rows Runs

/-- Milliseconds, as in `RealSchedulerConfig`. -/
def MIN_FLUSH_INTERVAL : ℕ := 30 * 1000

/-- The model and the table of the index that the app uses. -/
def CHUNK_EMBEDDING_V1 : EmbeddingSpec where
  modelId := "qwen3-embedding-0.6b-q8_0".toList
  dim := 768
  lanceTable := "chunks_v1_qwen768".toList

/-- `FlushError::to_string`. -/
def FlushFailure.display : FlushFailure → Str
  | .known (.store error) => "store: ".toList ++ error.display
  | .known (.embed error) => "embedding: ".toList ++ error.display
  | .known (.wrongDimension chunkId got expected) =>
      "embedder returned ".toList ++ (toString got).toList ++ " dims for chunk ".toList ++
        chunkId ++ ", contract requires ".toList ++ (toString expected).toList ++
        "; write refused".toList
  | .lance error => "lance: ".toList ++ error

/-! ## The scheduler -/

/-- The scheduler with the stores it owns; `spec` is the contract of the queued embedder. -/
structure CaptureScheduler (H : Type) where
  gate : PrivacyGate
  pipeline : CapturePipeline H StoreCaptureSink
  lance : Option LanceTable
  spec : EmbeddingSpec
  lastSuccessfulFlushMs : ℕ
  flushIntervalMs : ℕ

/-- What one flush meets: the model queue's answers, the failing calls, the order of a scan. -/
structure FlushConditions where
  embedDocuments : List Str → Except EmbedError (List (List F32))
  faults : FlushFaults
  scan : Scan

/-- What a tick meets: the time, the screen and the embedder's answers. -/
structure SchedulerTick (H : Type) where
  nowMs : ℕ
  surroundings : Surroundings H
  flush : FlushConditions

variable {H : Type}

/-- `CaptureScheduler::new`. The interval is a duration, in nanoseconds. -/
def CaptureScheduler.new (gate : PrivacyGate) (pipeline : CapturePipeline H StoreCaptureSink)
    (lance : Option LanceTable) (spec : EmbeddingSpec) (startedAtMs flushInterval : ℕ) :
    Except SchedulerStartError (CaptureScheduler H) :=
  let flushIntervalMs := flushInterval / 10 ^ 6
  if flushIntervalMs < 2 ^ 64 then
    if flushIntervalMs = 0 then
      .error (.invalidFlushInterval "interval must be greater than zero".toList)
    else
      .ok ⟨gate, pipeline, lance, spec, startedAtMs, flushIntervalMs⟩
  else .error (.invalidFlushInterval "interval does not fit in milliseconds".toList)

/-- The two stores. -/
def CaptureScheduler.vault (s : CaptureScheduler H) : Vault := ⟨s.pipeline.sink.store, s.lance⟩

/-- The scheduler over another state of the vault. -/
def CaptureScheduler.withVault (s : CaptureScheduler H) (v : Vault) : CaptureScheduler H :=
  { s with
    pipeline := s.pipeline.withSink { s.pipeline.sink with store := v.store }
    lance := v.lance }

@[simp] theorem CaptureScheduler.withVault_vault (s : CaptureScheduler H) (v : Vault) :
    (s.withVault v).vault = v := rfl

/-- `flush_report`. -/
def FlushConditions.flushReport (conditions : FlushConditions) (spec : EmbeddingSpec)
    (nowMs : ℕ) : Durable Vault FlushStop FlushReport :=
  conditions.faults.flushOnce ⟨spec, conditions.embedDocuments⟩ (i64OfU64 nowMs) conditions.scan

/-- `flush_once`. It has no outcome when it panics. -/
def CaptureScheduler.flushOnce (s : CaptureScheduler H) (conditions : FlushConditions)
    (nowMs : ℕ) : Option FlushTickOutcome × CaptureScheduler H :=
  let report := conditions.flushReport s.spec nowMs
  let flushed := s.withVault (report.final s.vault)
  match (report s.vault).1 with
  | .ok report => (some (.flushed report), { flushed with lastSuccessfulFlushMs := nowMs })
  | .error (.failed failure) => (some (.failed failure.display), flushed)
  | .error _ => (none, flushed)

/-- The loop of `flush_on_shutdown`; every pass meets its own conditions. -/
def shutdownLoop (spec : EmbeddingSpec) (nowMs : ℕ) :
    List FlushConditions → ℕ → Durable Vault FlushStop ℕ
  | [], _ => Durable.throw .outOfFuel
  | conditions :: passes, written => do
      let report ← conditions.flushReport spec nowMs
      if report.written = 0 then return written + report.written
      else shutdownLoop spec nowMs passes (written + report.written)

/-- `flush_on_shutdown`. -/
def CaptureScheduler.flushOnShutdown (s : CaptureScheduler H) (passes : List FlushConditions)
    (nowMs : ℕ) : Except FlushStop ℕ × CaptureScheduler H :=
  let loop := shutdownLoop s.spec nowMs passes 0
  let flushed := s.withVault (loop.final s.vault)
  match (loop s.vault).1 with
  | .ok written => (.ok written, { flushed with lastSuccessfulFlushMs := nowMs })
  | .error stop => (.error stop, flushed)

/-- The cadence: so much time has passed since the last flush that succeeded. -/
def CaptureScheduler.Due (s : CaptureScheduler H) (nowMs : ℕ) : Prop :=
  s.flushIntervalMs ≤ nowMs - s.lastSuccessfulFlushMs

instance (s : CaptureScheduler H) (nowMs : ℕ) : Decidable (s.Due nowMs) :=
  inferInstanceAs (Decidable (_ ≤ _))

section Ticks

variable [UnicodeTables] [UrlCrate] [ImageHash H] [DefaultHasher] (F : Type) [ScoreArith F]

/-- The capture of a tick. -/
def CaptureScheduler.capture (s : CaptureScheduler H) (surroundings : Surroundings H) :
    CaptureTickOutcome × CaptureScheduler H :=
  let tick := s.gate.runTick F s.pipeline surroundings
  (tick.outcome, { s with pipeline := tick.pipeline })

/-- Capture once, then flush if that is due; `None` is a flush that panics. -/
def CaptureScheduler.tick (s : CaptureScheduler H) (t : SchedulerTick H) :
    Option SchedulerTickOutcome × CaptureScheduler H :=
  let captured := s.capture F t.surroundings
  if captured.2.Due t.nowMs then
    let flushed := captured.2.flushOnce t.flush t.nowMs
    (flushed.1.map (fun flush => ⟨captured.1, flush⟩), flushed.2)
  else
    (some ⟨captured.1, .notDue⟩, captured.2)

/-- The scheduler a tick leaves. -/
def CaptureScheduler.ticked (s : CaptureScheduler H) (t : SchedulerTick H) : CaptureScheduler H :=
  (s.tick F t).2

end Ticks

/-! ## Opening -/

/-- What `open` finds besides its configuration. -/
structure OpenConditions where
  modelIsFile : Bool
  openStore : Except StoreError Unit
  ocrEngine : Except Str Unit

/-- `RealCaptureScheduler::open` over the two stores that are there. -/
def CaptureScheduler.openReal (conditions : OpenConditions) (v : Vault) (config : RealSchedulerConfig)
    (startedAtMs : ℕ) : Except SchedulerStartError (CaptureScheduler H) := do
  if config.flushInterval < MIN_FLUSH_INTERVAL then
    .error (.invalidFlushInterval "flush interval must be at least 30 seconds".toList)
  else if conditions.modelIsFile = false then
    .error (.modelMissing config.modelPath)
  else do
    -- the file is opened, and migrated, before anything that may still fail
    conditions.openStore.mapError SchedulerStartError.store
    let sink ← (StoreCaptureSink.new v.store config.blocklist config.sessionId).mapError
      SchedulerStartError.pipeline
    conditions.ocrEngine.mapError SchedulerStartError.ocr
    CaptureScheduler.new ⟨config.blocklist⟩ (CapturePipeline.new sink .default) v.lance
      CHUNK_EMBEDDING_V1 startedAtMs (millis config.flushInterval)

/-- What a process does with its scheduler. -/
inductive SchedulerStep (H : Type)
  | tick (t : SchedulerTick H)
  | shutdown (passes : List FlushConditions) (nowMs : ℕ)
  | reopen (conditions : OpenConditions) (config : RealSchedulerConfig) (startedAtMs : ℕ)

section Exec

variable [UnicodeTables] [UrlCrate] [ImageHash H] [DefaultHasher] (F : Type) [ScoreArith F]

/-- An `open` that fails leaves nothing behind. -/
def CaptureScheduler.exec (s : CaptureScheduler H) : SchedulerStep H → CaptureScheduler H
  | .tick t => s.ticked F t
  | .shutdown passes nowMs => (s.flushOnShutdown passes nowMs).2
  | .reopen conditions config startedAtMs =>
      (CaptureScheduler.openReal conditions s.vault config startedAtMs).toOption.getD s

end Exec

/-! ## A run of the scheduler is a run of captures and flushes -/

/-- A scheduler that opens starts a pipeline over the stores that are there. -/
theorem CaptureScheduler.openReal_eq {conditions : OpenConditions} {v : Vault}
    {config : RealSchedulerConfig} {startedAtMs : ℕ} {s : CaptureScheduler H}
    (h : CaptureScheduler.openReal conditions v config startedAtMs = .ok s) :
    s.vault = v ∧ ∃ sink, s.pipeline = CapturePipeline.new sink .default := by
  unfold CaptureScheduler.openReal at h
  split at h
  · cases h
  · split at h
    · cases h
    · obtain ⟨_, -, h⟩ := Except.bind_eq_ok.1 h
      obtain ⟨sink, hsink, h⟩ := Except.bind_eq_ok.1 h
      obtain ⟨_, -, h⟩ := Except.bind_eq_ok.1 h
      have hstore : sink.store = v.store := by
        unfold StoreCaptureSink.new at hsink
        split at hsink
        · cases hsink
        · cases hsink
          rfl
      unfold CaptureScheduler.new at h
      dsimp only at h
      split_ifs at h
      cases h
      refine ⟨?_, sink, rfl⟩
      change (⟨sink.store, v.lance⟩ : Vault) = v
      rw [hstore]

theorem CaptureScheduler.openReal_vault {conditions : OpenConditions} {v : Vault}
    {config : RealSchedulerConfig} {startedAtMs : ℕ} {s : CaptureScheduler H}
    (h : CaptureScheduler.openReal conditions v config startedAtMs = .ok s) : s.vault = v :=
  (openReal_eq h).1

section Vault

variable [UnicodeTables] [UrlCrate] (F : Type) [ScoreArith F]

/-- The vault goes from `v` to `w` by captures and flushes. -/
def CapturesAndFlushes (v w : Vault) : Prop :=
  ∃ calls : List VaultCall, (∀ call ∈ calls, call.CapturesOrFlushes) ∧
    w = final (VaultCall.exec F) v calls

variable {F}

theorem CapturesAndFlushes.refl (v : Vault) : CapturesAndFlushes F v v :=
  ⟨[], fun _ h => (nomatch h), rfl⟩

theorem CapturesAndFlushes.one {v : Vault} (call : VaultCall) (h : call.CapturesOrFlushes) :
    CapturesAndFlushes F v (call.exec F v) :=
  ⟨[call], fun _ hmem => List.mem_singleton.1 hmem ▸ h, rfl⟩

theorem CapturesAndFlushes.trans {u v w : Vault} (huv : CapturesAndFlushes F u v)
    (hvw : CapturesAndFlushes F v w) : CapturesAndFlushes F u w := by
  obtain ⟨calls, hcalls, rfl⟩ := huv
  obtain ⟨calls', hcalls', rfl⟩ := hvw
  refine ⟨calls ++ calls', fun call hmem => ?_, (final_append u calls calls').symm⟩
  rcases List.mem_append.1 hmem with hmem | hmem
  · exact hcalls call hmem
  · exact hcalls' call hmem

/-- What captures and flushes keep. -/
theorem CapturesAndFlushes.keeps {I : Vault → Prop}
    (hstep : ∀ v (call : VaultCall), I v → call.CapturesOrFlushes → I (call.exec F v)) {v w : Vault}
    (h : CapturesAndFlushes F v w) (hv : I v) : I w := by
  obtain ⟨calls, hcalls, rfl⟩ := h
  induction calls generalizing v with
  | nil => exact hv
  | cons call calls ih =>
      exact ih (hstep v call hv (hcalls call List.mem_cons_self))
        (fun other hother => hcalls other (List.mem_cons_of_mem call hother))

/-- The sink reaches the store through one `persist_capture`, or not at all. -/
theorem StoreCaptureSink.persist_store (sql : SqlFaults) (scan : Scan) (sink : StoreCaptureSink)
    (source : Str) (context : CaptureContext) (capturedAtMs : ℕ) (text : Str) :
    (sink.persist F sql scan source context capturedAtMs text).2.store = sink.store ∨
      ∃ call : PersistCall, (sink.persist F sql scan source context capturedAtMs text).2.store
        = PersistCall.exec F sink.store call := by
  let call : SinkCall := ⟨sql, scan, source, context, capturedAtMs, text⟩
  by_cases htime : capturedAtMs < 2 ^ 63
  · obtain ⟨capture, -, -, -, hafter⟩ := call.persist_eq F sink htime
    exact Or.inr ⟨⟨sql, scan, capture, sink.blocklist⟩, congrArg StoreCaptureSink.store hafter⟩
  · exact Or.inl (congrArg StoreCaptureSink.store (call.persist_late F sink htime))

theorem FlushConditions.flushReport_vault (conditions : FlushConditions) (spec : EmbeddingSpec)
    (nowMs : ℕ) (v : Vault) :
    CapturesAndFlushes F v ((conditions.flushReport spec nowMs).final v) := by
  obtain ⟨stop, hfinal⟩ := (conditions.faults.flushOnce_mayStop
    ⟨spec, conditions.embedDocuments⟩ (i64OfU64 nowMs) conditions.scan).final_eq_cut v
  rw [FlushConditions.flushReport, hfinal]
  exact .one (.flushOnce ⟨spec, conditions.embedDocuments⟩ (i64OfU64 nowMs) conditions.scan stop)
    trivial

omit [UnicodeTables] [UrlCrate] in
theorem CaptureScheduler.flushOnce_vault (s : CaptureScheduler H) (conditions : FlushConditions)
    (nowMs : ℕ) : (s.flushOnce conditions nowMs).2.vault
      = (conditions.flushReport s.spec nowMs).final s.vault := by
  unfold CaptureScheduler.flushOnce
  dsimp only
  split <;> rfl

omit [UnicodeTables] [UrlCrate] in
theorem CaptureScheduler.flushOnShutdown_vault (s : CaptureScheduler H)
    (passes : List FlushConditions) (nowMs : ℕ) :
    (s.flushOnShutdown passes nowMs).2.vault
      = (shutdownLoop s.spec nowMs passes 0).final s.vault := by
  unfold CaptureScheduler.flushOnShutdown
  dsimp only
  split <;> rfl

theorem shutdownLoop_vault (spec : EmbeddingSpec) (nowMs : ℕ) (passes : List FlushConditions)
    (written : ℕ) (v : Vault) :
    CapturesAndFlushes F v ((shutdownLoop spec nowMs passes written).final v) := by
  induction passes generalizing written v with
  | nil => exact .refl v
  | cons conditions passes ih =>
      have hpass := conditions.flushReport_vault (F := F) spec nowMs v
      rw [shutdownLoop]
      cases hr : (conditions.flushReport spec nowMs v).1 with
      | error stop =>
          rw [Durable.final, Durable.bind_run_error hr]
          exact hpass
      | ok report =>
          rw [Durable.final_bind_ok hr]
          split
          · exact hpass
          · exact hpass.trans (ih _ _)

variable [ImageHash H] [DefaultHasher]

theorem CaptureScheduler.capture_vault (s : CaptureScheduler H) (surroundings : Surroundings H) :
    (s.capture F surroundings).2.vault = s.vault ∨ ∃ call : PersistCall,
      (s.capture F surroundings).2.vault = (VaultCall.persistCapture call).exec F s.vault := by
  have hstore : (s.capture F surroundings).2.pipeline.sink.store = s.pipeline.sink.store ∨
      ∃ call : PersistCall, (s.capture F surroundings).2.pipeline.sink.store
        = PersistCall.exec F s.pipeline.sink.store call := by
    have heffect := runTickInner_effect s.pipeline (s.gate.components F surroundings)
    unfold CaptureScheduler.capture PrivacyGate.runTick CapturePipeline.runTick
    generalize s.pipeline.runTickInner (s.gate.components F surroundings) = tick at heffect
    cases heffect with
    | urlPersisted context _ =>
        change (s.pipeline.sink.persistUrlOnly F surroundings.sql surroundings.scan context).2.store
            = s.pipeline.sink.store ∨ ∃ call : PersistCall,
          (s.pipeline.sink.persistUrlOnly F surroundings.sql surroundings.scan context).2.store
            = PersistCall.exec F s.pipeline.sink.store call
        unfold StoreCaptureSink.persistUrlOnly
        split
        · exact Or.inl rfl
        · exact StoreCaptureSink.persist_store ..
    | persisted context frame _ ocr _ => exact StoreCaptureSink.persist_store ..
    | _ => exact Or.inl rfl
  refine hstore.imp (fun h => ?_) (fun ⟨call, h⟩ => ⟨call, ?_⟩)
  · exact congrArg (fun store => (⟨store, s.lance⟩ : Vault)) h
  · exact congrArg (fun store => (⟨store, s.lance⟩ : Vault)) h

/-- One step of the scheduler is a run of captures and flushes. -/
theorem CaptureScheduler.exec_vault (s : CaptureScheduler H) (step : SchedulerStep H) :
    CapturesAndFlushes F s.vault (s.exec F step).vault := by
  cases step with
  | tick t =>
      have hcapture : CapturesAndFlushes F s.vault (s.capture F t.surroundings).2.vault := by
        rcases s.capture_vault (F := F) t.surroundings with h | ⟨call, h⟩
        · rw [h]
          exact .refl _
        · rw [h]
          exact .one (.persistCapture call) trivial
      rw [CaptureScheduler.exec, CaptureScheduler.ticked, CaptureScheduler.tick]
      dsimp only
      split
      · rw [CaptureScheduler.flushOnce_vault]
        exact hcapture.trans (t.flush.flushReport_vault ..)
      · exact hcapture
  | shutdown passes nowMs =>
      rw [CaptureScheduler.exec, s.flushOnShutdown_vault passes nowMs]
      exact shutdownLoop_vault s.spec nowMs passes 0 s.vault
  | reopen conditions config startedAtMs =>
      rw [CaptureScheduler.exec]
      cases hopen : CaptureScheduler.openReal (H := H) conditions s.vault config startedAtMs with
      | error error => exact .refl _
      | ok opened =>
          have hvault := openReal_vault hopen
          change CapturesAndFlushes F s.vault opened.vault
          rw [hvault]
          exact .refl _

theorem CaptureScheduler.final_vault (s : CaptureScheduler H) (steps : List (SchedulerStep H)) :
    CapturesAndFlushes F s.vault (final (CaptureScheduler.exec F) s steps).vault := by
  induction steps generalizing s with
  | nil => exact .refl s.vault
  | cons step steps ih => exact (s.exec_vault step).trans (ih (s.exec F step))

/-! ## What was captured stays, and reaches the index -/

/-- Every chunk is pending or indexed, and every row is one of a chunk. -/
structure IndexInStep (v : Vault) : Prop where
  covered : Covered v.store v.indexed
  rows : RowsHaveChunks v.store v.indexed

omit [ImageHash H] [DefaultHasher] in
theorem indexInStep_exec (v : Vault) (call : VaultCall) (h : IndexInStep v)
    (hcall : call.CapturesOrFlushes) : IndexInStep (call.exec F v) := by
  refine ⟨?_, rowsHaveChunks_exec v call h.rows⟩
  cases call with
  | persistCapture call => exact covered_persist v.store v.indexed call h.covered
  | flushOnce embedder nowMs scan stop =>
      exact (covered_flush nowMs scan).flushOnce.cut (s := v) h.covered h.covered stop
  | rebuild => cases hcall
  | deleteEverywhere => cases hcall

omit [ImageHash H] [DefaultHasher] in
/-- A capture or a flush forgets no chunk. -/
theorem hasChunk_exec {recordId chunkId : Str} (v : Vault) (call : VaultCall)
    (h : v.store.db.HasChunk recordId chunkId) (hcall : call.CapturesOrFlushes) :
    (call.exec F v).store.db.HasChunk recordId chunkId := by
  have hflush : ∀ nowMs scan,
      FlushKeeps (fun store _ => store.db.HasChunk recordId chunkId) nowMs scan := by
    refine fun nowMs scan => ⟨fun _ _ hstore => hstore, fun store indexed hstore => ?_⟩
    exact Store.hasChunk_markChunksFlushed _ nowMs hstore
  cases call with
  | persistCapture call => exact call.hasChunk h
  | flushOnce embedder nowMs scan stop => exact (hflush nowMs scan).flushOnce.cut (s := v) h h stop
  | rebuild => cases hcall
  | deleteEverywhere => cases hcall

/-- **What was captured stays and reaches the index.** From the first launch on, through ticks,
    shutdowns and later launches, whatever SQLite, Lance and the model do: every chunk is pending or
    has its row, every row is one of a chunk, and no chunk that is there at some time is missing
    later. -/
theorem captured_stays {conditions : OpenConditions} {config : RealSchedulerConfig}
    {startedAtMs : ℕ} {s : CaptureScheduler H}
    (hopen : CaptureScheduler.openReal conditions Vault.empty config startedAtMs = .ok s)
    (steps later : List (SchedulerStep H)) :
    let earlier := final (CaptureScheduler.exec F) s steps
    let now := final (CaptureScheduler.exec F) earlier later
    now.vault.EveryChunkIndexed ∧ RowsHaveChunks now.vault.store now.vault.indexed ∧
      ∀ recordId chunkId, earlier.vault.store.db.HasChunk recordId chunkId →
        now.vault.store.db.HasChunk recordId chunkId := by
  intro earlier now
  have hstart : IndexInStep s.vault := by
    rw [CaptureScheduler.openReal_vault hopen]
    exact ⟨fun _ hc => (nomatch hc), fun _ hp => (nomatch hp)⟩
  have hearlier : IndexInStep earlier.vault := (s.final_vault steps).keeps indexInStep_exec hstart
  have hnow : IndexInStep now.vault := (earlier.final_vault later).keeps indexInStep_exec hearlier
  refine ⟨hnow.covered.everyChunkIndexed, hnow.rows, fun recordId chunkId h => ?_⟩
  exact (earlier.final_vault later).keeps (hasChunk_exec (F := F)) h

end Vault

/-! ## Two windows and no model -/

section Example

attribute [local instance] asciiTables noUrls bitHash lengthHasher

/-- A window and what OCR reads in it. -/
def windowTick (nowMs : ℕ) (red : UInt8) (text : String) : SchedulerTick (List Bool) where
  nowMs := nowMs
  surroundings := {
    currentContext := .ok ⟨"Notes".toList, none, "Plan".toList, none, nowMs⟩
    grab := .ok ⟨[], nowMs, some ⟨[true], ⟨red, 0, 0⟩⟩⟩
    recognize := fun _ _ _ _ => .ok ⟨text.toList, false⟩
    sql := noFaults
    scan := tableOrder _ }
  flush := ⟨fun _ => .error (.unavailable "no model".toList), noFlushFaults, tableOrder _⟩

/-- A process that flushes every half minute. -/
def desktopConfig : RealSchedulerConfig where
  databasePath := "vault.sqlite3".toList
  indexDir := "index".toList
  modelPath := "model.gguf".toList
  blocklist := ⟨[], []⟩
  sessionId := desktopSession 7
  displayIndex := 0
  flushInterval := 30 * 1000
  modelIdleTimeout := 10 * 60 * 1000

/-- The first window is still there after the flush has failed. -/
theorem captured_stays_twoWindows : ∃ s : CaptureScheduler (List Bool),
    CaptureScheduler.openReal ⟨true, .ok (), .ok ()⟩ Vault.empty desktopConfig 0 = .ok s ∧
    let now := final (CaptureScheduler.exec ℚ) s
      [.tick (windowTick 2000 0 "plan the next quarter"),
        .tick (windowTick 31000 200 "buy milk and bread")]
    now.vault.EveryChunkIndexed ∧
      now.vault.store.db.HasChunk "desktop-7-0".toList "desktop-7-0-0".toList := by
  have hfirst : (CaptureScheduler.openReal (H := List Bool) ⟨true, .ok (), .ok ()⟩ Vault.empty
      desktopConfig 0).toOption.map (fun s => decide ((final (CaptureScheduler.exec ℚ) s
        [.tick (windowTick 2000 0 "plan the next quarter")]).vault.store.db.HasChunk
          "desktop-7-0".toList "desktop-7-0-0".toList)) = some true := by decide +kernel
  obtain ⟨s, hs, hstored⟩ := Option.map_eq_some_iff.1 hfirst
  have hopen := Except.eq_ok_of_toOption hs
  obtain ⟨hindexed, -, hstays⟩ := captured_stays (F := ℚ) hopen
    [.tick (windowTick 2000 0 "plan the next quarter")]
    [.tick (windowTick 31000 200 "buy milk and bread")]
  exact ⟨s, hopen, hindexed, hstays _ _ (of_decide_eq_true hstored)⟩

end Example

end Fndr
