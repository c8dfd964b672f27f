import Fndr.Shell.Backlog
import Fndr.Shell.CaptureWorker

set_option autoImplicit false

/-! # The capture thread

`run_capture_loop` with the scheduler it owns. The loop of `CaptureWorker` leaves open what a tick
does; here a tick is a tick of the scheduler at the time the loop read, and the loop finishes with
the scheduler's `flush_on_shutdown`. A pause is then more than a flag: while it stands, no store, no
index and no deduper changes, except that the loop may end and flush what was captured before
(`paused_is_quiet`). And a report of the loop is the truth about the vault: everything captured is
in the index, and the ticks are those the pipeline has counted (`returned_is_indexed`). -/

namespace Fndr

open RustStd Rows Runs

variable {H : Type}

/-! ## The counters of the pipeline -/

/-- Every reason, so that a statement about all of them can be evaluated. -/
def SkipReason.all : List SkipReason :=
  [.metadataUnavailable, .preCapturePrivacy, .privateBrowsing, .admissionPolicy,
    .perceptualDuplicate, .missingPerceptualSignature, .lowSignal, .semanticDuplicate,
    .finalPrivacy, .screenRecordingOrCaptureUnavailable, .captureFailed, .ocrFailed,
    .persistenceFailed]

/-- The ticks that were counted. -/
def CaptureCounters.total (counters : CaptureCounters) : ℕ :=
  counters.stored + counters.urlOnlyStored + (SkipReason.all.map counters.skipped).sum

/-- Every reason is counted once. -/
theorem CaptureCounters.sum_skip (skipped : SkipReason → ℕ) (reason : SkipReason) :
    (SkipReason.all.map (fun r => if r = reason then skipped r + 1 else skipped r)).sum
      = (SkipReason.all.map skipped).sum + 1 := by
  cases reason <;> simp [SkipReason.all] <;> omega

theorem CaptureCounters.total_record (counters : CaptureCounters) (outcome : CaptureTickOutcome) :
    (counters.record outcome).total = counters.total + 1 := by
  cases outcome with
  | stored | urlOnlyStored =>
      simp only [record, total]
      omega
  | skipped reason | failed reason error =>
      simp only [record, total, sum_skip]
      omega

/-! ## The thread -/

/-- The thread: its loop, and the scheduler that the loop runs. -/
structure CaptureThread (H : Type) where
  worker : CaptureWorker
  scheduler : CaptureScheduler H

/-- The vault that the scheduler writes to. -/
def CaptureThread.vault (t : CaptureThread H) : Vault := t.scheduler.vault

/-- `start_worker`, once the thread is spawned. -/
def CaptureThread.start (conditions : OpenConditions) (v : Vault) (config : RealSchedulerConfig)
    (sampling : SamplingPolicy) (startedAtMs : ℕ) :
    Except CaptureWorkerStartError (CaptureThread H) :=
  if sampling.activeInterval < MIN_CAPTURE_INTERVAL then .error .invalidCaptureInterval
  else
    match CaptureScheduler.openReal conditions v config startedAtMs with
    | .error error => .error (.scheduler error)
    | .ok scheduler => .ok ⟨.started sampling, scheduler⟩

/-- The steps of the loop that run the scheduler. -/
def WorkerStep.runsScheduler : WorkerStep → Bool
  | .endTick _ | .panicTick | .flush _ | .panicFlush => true
  | _ => false

/-- What the thread, or a caller of its worker, does next. -/
inductive ThreadStep (H : Type)
  /-- A step that does not run the scheduler. -/
  | loop (step : WorkerStep)
  | tick (surroundings : Surroundings H) (flush : FlushConditions)
  /-- `error` is what the loop returns of a flush that failed. -/
  | finish (passes : List FlushConditions) (nowMs : ℕ) (error : FlushError)
  /-- The process is gone, and the next one starts a thread over the same vault. -/
  | relaunch (conditions : OpenConditions) (config : RealSchedulerConfig)
      (sampling : SamplingPolicy) (startedAtMs : ℕ)

/-- How the loop goes on after `scheduler.tick(now)`. -/
def afterTick (nowMs : ℕ) : Option SchedulerTickOutcome → WorkerStep
  | some outcome => .endTick ⟨nowMs, outcome⟩
  | none => .panicTick

/-- How the loop ends after `scheduler.flush_on_shutdown(now)`. Passes that do not bring the drain
    to its end are no step. -/
def afterDrain (error : FlushError) : Except FlushStop ℕ → Option WorkerStep
  | .ok written => some (.flush (.ok written))
  | .error (.failed _) => some (.flush (.error error))
  | .error .panicked => some .panicFlush
  | .error .outOfFuel => none

section Exec

variable [UnicodeTables] [UrlCrate] [ImageHash H] [DefaultHasher] (F : Type) [ScoreArith F]

/-- Run one step; one that the loop is not ready for changes nothing. -/
def CaptureThread.exec (t : CaptureThread H) : ThreadStep H → CaptureThread H
  -- a tick and the last flush come with what the scheduler does in them
  | .loop step => if step.runsScheduler then t else { t with worker := t.worker.exec step }
  | .tick surroundings flush =>
      match t.worker.phase with
      | .ticking =>
          let ticked := t.scheduler.tick F ⟨t.worker.lastCaptureMs, surroundings, flush⟩
          ⟨t.worker.exec (afterTick t.worker.lastCaptureMs ticked.1), ticked.2⟩
      | _ => t
  | .finish passes nowMs error =>
      match t.worker.phase with
      | .finishing =>
          let drained := t.scheduler.flushOnShutdown passes nowMs
          match afterDrain error drained.1 with
          | some step => ⟨t.worker.exec step, drained.2⟩
          -- the given passes do not bring the drain to its end
          | none => t
      | _ => t
  | .relaunch conditions config sampling startedAtMs =>
      match CaptureThread.start conditions t.vault config sampling startedAtMs with
      | .ok started => started
      | .error _ => t

end Exec

/-! ## What a step does to the two sides -/

theorem CaptureThread.start_eq_ok {conditions : OpenConditions} {v : Vault}
    {config : RealSchedulerConfig} {sampling : SamplingPolicy} {startedAtMs : ℕ}
    {t : CaptureThread H} :
    CaptureThread.start conditions v config sampling startedAtMs = .ok t ↔
      MIN_CAPTURE_INTERVAL ≤ sampling.activeInterval ∧ t.worker = .started sampling ∧
        CaptureScheduler.openReal conditions v config startedAtMs = .ok t.scheduler := by
  unfold CaptureThread.start
  split_ifs with hshort
  · exact ⟨fun h => (nomatch h), fun h => absurd h.1 (Nat.not_le.2 hshort)⟩
  · cases hopen : CaptureScheduler.openReal (H := H) conditions v config startedAtMs with
    | error error => exact ⟨fun h => (nomatch h), fun h => (nomatch h.2.2)⟩
    | ok scheduler =>
        constructor
        · intro h
          cases h
          exact ⟨Nat.not_lt.1 hshort, rfl, rfl⟩
        · rintro ⟨-, hworker, hscheduler⟩
          cases hscheduler
          rw [← hworker]

section Steps

variable [UnicodeTables] [UrlCrate] [ImageHash H] [DefaultHasher] {F : Type} [ScoreArith F]

/-- The worker stays as it was, makes one step, or is a new one. -/
theorem CaptureThread.exec_worker (t : CaptureThread H) (step : ThreadStep H) :
    (t.exec F step).worker = t.worker ∨ (∃ s, (t.exec F step).worker = t.worker.exec s) ∨
      ∃ sampling, (t.exec F step).worker = .started sampling := by
  unfold CaptureThread.exec
  cases step with
  | loop step =>
      dsimp only
      split_ifs
      · exact Or.inl rfl
      · exact Or.inr (Or.inl ⟨step, rfl⟩)
  | tick surroundings flush =>
      dsimp only
      split
      · exact Or.inr (Or.inl ⟨_, rfl⟩)
      · exact Or.inl rfl
  | finish passes nowMs error =>
      dsimp only
      split
      · split
        · next step _ => exact Or.inr (Or.inl ⟨step, rfl⟩)
        · exact Or.inl rfl
      · exact Or.inl rfl
  | relaunch conditions config sampling startedAtMs =>
      dsimp only
      split
      · next started hstart => exact Or.inr (Or.inr ⟨sampling, (start_eq_ok.1 hstart).2.1⟩)
      · exact Or.inl rfl

end Steps

/-! ## A pause in force -/

/-- A pause was acknowledged, and no resume has been applied since. -/
def CaptureThread.Paused (t : CaptureThread H) : Prop :=
  History.Armed LoopEvent.IsPause LoopEvent.IsResume t.worker.log

/-- No tick is in hand while the worker is paused. -/
structure CaptureWorker.Idles (worker : CaptureWorker) : Prop where
  pauses : worker.PausesHold
  ticking : worker.phase = .ticking → worker.paused = false

theorem CaptureWorker.idles_started (sampling : SamplingPolicy) : (started sampling).Idles :=
  ⟨(sound_started sampling).pauses, nofun⟩

theorem CaptureWorker.Idles.exec {worker : CaptureWorker} (h : worker.Idles) (step : WorkerStep) :
    (worker.exec step).Idles := by
  have heffect := worker.exec_effect step
  refine ⟨h.pauses.of_effect heffect, ?_⟩
  generalize worker.exec step = after at heffect
  cases heffect with
  | outside | refused | queued => exact h.ticking
  | turned phase hbefore hafter =>
      rintro rfl
      cases hafter
  | tickStarted nowMs hphase hpaused => exact fun _ => hpaused
  | tickEnded | tickPanicked | acknowledged => exact nofun
  | applied command queue hbetween hqueue =>
      cases command with
      | shutdown | setPaused call paused => exact nofun
  | flushed phase hphase hended hreport =>
      intro hticking
      rw [show phase = .ticking from hticking] at hended
      cases hended

/-- A worker with a tick in hand has no pause in force. -/
theorem CaptureWorker.Idles.not_armed {worker : CaptureWorker} (h : worker.Idles)
    (hphase : worker.phase = .ticking) :
    ¬ History.Armed LoopEvent.IsPause LoopEvent.IsResume worker.log := by
  intro harmed
  have hpaused := h.pauses.inForce harmed
  rw [h.ticking hphase] at hpaused
  cases hpaused

/-- A log is only appended to. -/
theorem CaptureWorker.log_prefix (worker : CaptureWorker) (step : WorkerStep) :
    worker.log <+: (worker.exec step).log := by
  have heffect := worker.exec_effect step
  generalize worker.exec step = after at heffect
  cases heffect with
  | outside | turned | tickEnded | tickPanicked => exact List.prefix_refl _
  | refused | queued | tickStarted | acknowledged | flushed => exact List.prefix_append _ _
  | applied command queue hbetween hqueue =>
      cases command with
      | shutdown | setPaused call paused => exact List.prefix_append _ _

/-! ## What a flush leaves alone -/

/-- Nothing differs but the stamps, the index and the time of the last flush. -/
structure CaptureScheduler.OnlyFlushed (s t : CaptureScheduler H) : Prop where
  scheduler : t.withVault s.vault = { s with lastSuccessfulFlushMs := t.lastSuccessfulFlushMs }
  truth : t.vault.store.db.resetFlushState = s.vault.store.db.resetFlushState

theorem CaptureScheduler.OnlyFlushed.trans {s t u : CaptureScheduler H} (hst : s.OnlyFlushed t)
    (htu : t.OnlyFlushed u) : s.OnlyFlushed u := by
  refine ⟨?_, htu.truth.trans hst.truth⟩
  have hboth := congrArg (fun v => CaptureScheduler.withVault v s.vault) htu.scheduler
  have hfirst := congrArg (fun v : CaptureScheduler H =>
    { v with lastSuccessfulFlushMs := u.lastSuccessfulFlushMs }) hst.scheduler
  exact hboth.trans hfirst

theorem sameTruth_flush (truth : Db) (nowMs : ℤ) (scan : Scan) :
    FlushKeeps (fun store _ => store.db.resetFlushState = truth) nowMs scan :=
  ⟨fun _ _ h => h, fun store _ h => (store.reset_markChunksFlushed _ nowMs).trans h⟩

theorem FlushConditions.flushReport_truth (conditions : FlushConditions) (spec : EmbeddingSpec)
    (nowMs : ℕ) (v : Vault) :
    ((conditions.flushReport spec nowMs).final v).store.db.resetFlushState
      = v.store.db.resetFlushState := by
  obtain ⟨stop, hfinal⟩ := (conditions.faults.flushOnce_mayStop
    ⟨spec, conditions.embedDocuments⟩ (i64OfU64 nowMs) conditions.scan).final_eq_cut v
  rw [FlushConditions.flushReport, hfinal]
  exact (sameTruth_flush _ _ _).flushOnce.cut (s := v) rfl rfl stop

theorem shutdownLoop_truth (spec : EmbeddingSpec) (nowMs : ℕ) (passes : List FlushConditions)
    (written : ℕ) (v : Vault) :
    ((shutdownLoop spec nowMs passes written).final v).store.db.resetFlushState
      = v.store.db.resetFlushState := by
  induction passes generalizing written v with
  | nil => rfl
  | cons conditions passes ih =>
      have hpass := conditions.flushReport_truth spec nowMs v
      rw [shutdownLoop]
      cases hr : (conditions.flushReport spec nowMs v).1 with
      | error stop =>
          rw [Durable.final, Durable.bind_run_error hr]
          exact hpass
      | ok report =>
          rw [Durable.final_bind_ok hr]
          split
          · exact hpass
          · exact (ih _ _).trans hpass

theorem CaptureScheduler.flushOnShutdown_onlyFlushed (s : CaptureScheduler H)
    (passes : List FlushConditions) (nowMs : ℕ) : s.OnlyFlushed (s.flushOnShutdown passes nowMs).2 := by
  constructor
  · unfold CaptureScheduler.flushOnShutdown
    dsimp only
    split <;> rfl
  · rw [s.flushOnShutdown_vault passes nowMs]
    exact shutdownLoop_truth s.spec nowMs passes 0 s.vault

/-! ## A paused vault rests -/

section Paused

variable [UnicodeTables] [UrlCrate] [ImageHash H] [DefaultHasher] {F : Type} [ScoreArith F]

theorem CaptureThread.idles_exec (t : CaptureThread H) (step : ThreadStep H)
    (h : t.worker.Idles) : (t.exec F step).worker.Idles := by
  rcases t.exec_worker (F := F) step with hsame | ⟨s, hstep⟩ | ⟨sampling, hnew⟩
  · rw [hsame]
    exact h
  · rw [hstep]
    exact h.exec s
  · rw [hnew]
    exact CaptureWorker.idles_started sampling

omit [UnicodeTables] [UrlCrate] [ImageHash H] [DefaultHasher] in
/-- After the drain the log ends with the flush. -/
theorem afterDrain_log {worker : CaptureWorker} {error : FlushError} {drained : Except FlushStop ℕ}
    {step : WorkerStep} (hphase : worker.phase = .finishing)
    (h : afterDrain error drained = some step) : .flushed ∈ (worker.exec step).log := by
  cases drained with
  | ok written =>
      cases h
      simp [CaptureWorker.exec, hphase, CaptureWorker.endWith]
  | error stop =>
      cases stop with
      | failed failure | panicked =>
          cases h
          simp [CaptureWorker.exec, hphase, CaptureWorker.endWith]
      | outOfFuel => cases h

omit [UnicodeTables] [UrlCrate] [ImageHash H] [DefaultHasher] in
theorem afterTick_log {worker : CaptureWorker} (hphase : worker.phase = .ticking) (nowMs : ℕ)
    (outcome : Option SchedulerTickOutcome) :
    (worker.exec (afterTick nowMs outcome)).log = worker.log := by
  cases outcome <;> simp [afterTick, CaptureWorker.exec, hphase, CaptureWorker.endWith]

/-- The scheduler is untouched, or the loop has ended with a flush. -/
def CaptureThread.RestsFrom (s t : CaptureThread H) : Prop :=
  t.scheduler = s.scheduler ∨ .flushed ∈ t.worker.log ∧ s.scheduler.OnlyFlushed t.scheduler

theorem CaptureThread.RestsFrom.exec {s t : CaptureThread H} (h : s.RestsFrom t)
    (hidles : t.worker.Idles) (step : ThreadStep H) (hpaused : (t.exec F step).Paused) :
    s.RestsFrom (t.exec F step) := by
  unfold CaptureThread.exec at hpaused ⊢
  cases step with
  | loop step =>
      dsimp only at hpaused ⊢
      split_ifs
      · exact h
      · exact h.imp_right (fun ⟨hflushed, honly⟩ => ⟨(t.worker.log_prefix step).mem hflushed, honly⟩)
  | tick surroundings flush =>
      dsimp only at hpaused ⊢
      split at hpaused
      · next hphase =>
        -- the tick that ends here would have started in the pause
        rw [CaptureThread.Paused, afterTick_log hphase] at hpaused
        exact absurd hpaused (hidles.not_armed hphase)
      · exact h
  | finish passes nowMs error =>
      dsimp only at hpaused ⊢
      split
      · next hphase =>
        split
        · next step hstep =>
          have honly := t.scheduler.flushOnShutdown_onlyFlushed passes nowMs
          refine Or.inr ⟨afterDrain_log hphase hstep, ?_⟩
          rcases h with hsame | ⟨-, hbefore⟩
          · rw [← hsame]
            exact honly
          · exact hbefore.trans honly
        · exact h
      · exact h
  | relaunch conditions config sampling startedAtMs =>
      dsimp only at hpaused ⊢
      split
      · next started hstart =>
        rw [hstart, CaptureThread.Paused, (start_eq_ok.1 hstart).2.1] at hpaused
        exact absurd hpaused History.not_armed_nil
      · exact h

/-- **A paused vault rests.** From any state of a thread on, however ticks, commands and the callers
    go on: as long as a pause stands, the stores, the dedupers and the counters are as they were,
    unless the loop has ended; then its flush has brought to the index what was captured before, and
    nothing else has changed. -/
theorem paused_is_quiet (sampling : SamplingPolicy) (s : CaptureScheduler H)
    (steps later : List (ThreadStep H)) :
    let earlier := final (CaptureThread.exec F) ⟨.started sampling, s⟩ steps
    AllStates (CaptureThread.exec F) CaptureThread.Paused earlier later →
      AllStates (CaptureThread.exec F) (CaptureThread.RestsFrom earlier) earlier later := by
  intro earlier hpaused
  have hstates : AllStates (CaptureThread.exec F) (fun t => t.worker.Idles) ⟨.started sampling, s⟩
      steps :=
    AllStates.of_step (fun t step h => t.idles_exec step h) (CaptureWorker.idles_started sampling)
  have hidles : earlier.worker.Idles := hstates.final
  have hrun : AllStates (CaptureThread.exec F)
      (fun t => t.worker.Idles ∧ earlier.RestsFrom t) earlier later := by
    refine AllStates.of_invariant ?_ ⟨hidles, Or.inl rfl⟩ (StepsMeet.of_next hpaused)
    rintro t step ⟨ht, hrests⟩ hafter
    exact ⟨t.idles_exec step ht, hrests.exec ht step hafter⟩
  exact hrun.imp (fun _ h => h.2)

end Paused

/-! ## What the report of a loop says -/

/-- A pass that writes nothing found nothing pending, and left everything as it was. -/
theorem FlushConditions.flushReport_nothing {conditions : FlushConditions} {spec : EmbeddingSpec}
    {nowMs : ℕ} {v : Vault} {report : FlushReport}
    (h : (conditions.flushReport spec nowMs v).1 = .ok report) (hnothing : report.written = 0) :
    ((conditions.flushReport spec nowMs).final v).store.db.queue = [] := by
  obtain ⟨hok, hfinal⟩ := (conditions.faults.flushOnce_mayStop
    ⟨spec, conditions.embedDocuments⟩ (i64OfU64 nowMs) conditions.scan).of_ok h
  rw [FlushConditions.flushReport, hfinal]
  rcases flushOnce_cases ⟨spec, conditions.embedDocuments⟩ (i64OfU64 nowMs) conditions.scan v rfl
    with ⟨hnil, hrun⟩ | ⟨hne, opened, -, ⟨halt, hrun⟩ | ⟨added, stamped, -, hrun⟩⟩
  · rw [Durable.final, hrun]
    exact (v.store.pendingChunks_eq_nil_iff conditions.scan).1 hnil
  · rw [hrun] at hok
    cases hok
  · rw [hrun] at hok
    cases hok
    exact absurd (List.length_eq_zero_iff.1 hnothing) hne

/-- A drain that ends leaves nothing pending, whatever its passes met. -/
theorem shutdownLoop_drains (spec : EmbeddingSpec) (nowMs : ℕ) (passes : List FlushConditions)
    (written : ℕ) (v : Vault) {total : ℕ}
    (h : (shutdownLoop spec nowMs passes written v).1 = .ok total) :
    ((shutdownLoop spec nowMs passes written).final v).store.db.queue = [] := by
  induction passes generalizing written v with
  | nil => cases h
  | cons conditions passes ih =>
      rw [shutdownLoop] at h ⊢
      cases hr : (conditions.flushReport spec nowMs v).1 with
      | error stop =>
          rw [Durable.bind_run_error hr] at h
          cases h
      | ok report =>
          rw [Durable.bind_run_ok hr] at h
          rw [Durable.final_bind_ok hr]
          dsimp only at h
          split at h
          · next hnothing =>
            rw [if_pos hnothing]
            exact conditions.flushReport_nothing hr hnothing
          · next hsome =>
            rw [if_neg hsome]
            exact ih _ _ h

theorem CaptureScheduler.flushOnShutdown_drains (s : CaptureScheduler H)
    {passes : List FlushConditions} {nowMs written : ℕ}
    (h : (s.flushOnShutdown passes nowMs).1 = .ok written) :
    (s.flushOnShutdown passes nowMs).2.vault.store.db.queue = [] := by
  have hloop : (shutdownLoop s.spec nowMs passes 0 s.vault).1 = .ok written := by
    unfold CaptureScheduler.flushOnShutdown at h
    dsimp only at h
    split at h
    · next hok =>
      cases h
      exact hok
    · cases h
  rw [s.flushOnShutdown_vault passes nowMs]
  exact shutdownLoop_drains s.spec nowMs passes 0 s.vault hloop

theorem CaptureScheduler.flushOnShutdown_counters (s : CaptureScheduler H)
    (passes : List FlushConditions) (nowMs : ℕ) :
    (s.flushOnShutdown passes nowMs).2.pipeline.counters = s.pipeline.counters := by
  unfold CaptureScheduler.flushOnShutdown
  dsimp only
  split <;> rfl

/-- A step that does not run the scheduler ends no tick, and neither ends the loop nor revives it. -/
theorem CaptureWorker.exec_loop (worker : CaptureWorker) {step : WorkerStep}
    (h : step.runsScheduler = false) :
    (worker.exec step).ticks = worker.ticks ∧
      ((worker.exec step).phase = worker.phase ∨
        worker.phase.ended = false ∧ (worker.exec step).phase.ended = false) := by
  unfold CaptureWorker.exec
  cases step with
  -- the steps that run the scheduler
  | endTick | panicTick | flush | panicFlush => cases h
  | dropHandle | takeEvent => exact ⟨rfl, Or.inl rfl⟩
  | setPaused call paused | hangUp call =>
      dsimp only
      split_ifs <;> exact ⟨rfl, Or.inl rfl⟩
  | shutdown =>
      dsimp only
      split
      · split_ifs <;> exact ⟨rfl, Or.inl rfl⟩
      · exact ⟨rfl, Or.inl rfl⟩
  | decide inputIdle nowMs =>
      dsimp only
      split
      · next hphase _ =>
        have hrunning : worker.phase.ended = false := by rw [hphase]; rfl
        split <;> exact ⟨rfl, Or.inr ⟨hrunning, rfl⟩⟩
      · exact ⟨rfl, Or.inl rfl⟩
  | receive =>
      dsimp only
      split
      · next command queue hreceives hqueue =>
        have hrunning := LoopPhase.ended_of_between (between_of_receives hreceives)
        cases command with
        | shutdown | setPaused call paused => exact ⟨rfl, Or.inr ⟨hrunning, rfl⟩⟩
      · exact ⟨rfl, Or.inl rfl⟩
  | goOn =>
      dsimp only
      split_ifs with hidle
      · have hbetween := between_of_receives (receives_of_mayGoOn hidle.1)
        exact ⟨rfl, Or.inr ⟨LoopPhase.ended_of_between hbetween, rfl⟩⟩
      · exact ⟨rfl, Or.inl rfl⟩
  | disconnected =>
      dsimp only
      split_ifs with hgone
      · have hbetween := between_of_receives hgone.1
        exact ⟨rfl, Or.inr ⟨LoopPhase.ended_of_between hbetween, rfl⟩⟩
      · exact ⟨rfl, Or.inl rfl⟩
  | acknowledge =>
      dsimp only
      split
      · next hphase => exact ⟨rfl, Or.inr ⟨by rw [hphase]; rfl, rfl⟩⟩
      · exact ⟨rfl, Or.inl rfl⟩

/-- The report counts the ticks of the pipeline, and every chunk has reached the index. -/
def CaptureThread.ReportsTruly (t : CaptureThread H) : Prop :=
  ∀ report, t.worker.phase = .returned (.ok report) →
    report.ticks = t.scheduler.pipeline.counters.total ∧
      ∀ c ∈ t.vault.store.db.chunks, c.flushedAtMs ≠ 0 ∧
        ∃ row ∈ t.vault.rows, row.id = c.id ∧ row.recordId = c.recordId

/-- The ticks of the loop are those of the pipeline, and a report leaves nothing pending. -/
structure CaptureThread.Accounts (t : CaptureThread H) : Prop where
  index : IndexInStep t.vault
  ticks : t.worker.phase ≠ .panicked →
    t.worker.ticks = t.scheduler.pipeline.counters.total
  report : ∀ report, t.worker.phase = .returned (.ok report) →
    report.ticks = t.worker.ticks ∧ t.vault.store.db.queue = []

theorem CaptureThread.Accounts.reportsTruly {t : CaptureThread H} (h : t.Accounts) :
    t.ReportsTruly := by
  intro report hreport
  obtain ⟨hticks, hqueue⟩ := h.report report hreport
  refine ⟨hticks.trans (h.ticks (by rw [hreport]; exact nofun)), fun c hc => ?_⟩
  have hstamped : c.flushedAtMs ≠ 0 := by
    intro hpending
    obtain ⟨p, hp, -⟩ := t.vault.store.queue_ids_of_pending hc hpending
    rw [hqueue] at hp
    cases hp
  obtain ⟨p, hp, hid, hrecord⟩ := h.index.covered c hc hstamped
  obtain ⟨row, hrow, rfl⟩ := List.mem_map.1 hp
  exact ⟨hstamped, row, hrow, hid, hrecord⟩

/-- Of a loop that goes on, or panicked, nothing is reported. -/
theorem CaptureThread.Accounts.of_unreported {t : CaptureThread H} (hindex : IndexInStep t.vault)
    (hticks : t.worker.phase ≠ .panicked →
      t.worker.ticks = t.scheduler.pipeline.counters.total)
    (hphase : ∀ report, t.worker.phase ≠ .returned (.ok report)) : t.Accounts :=
  ⟨hindex, hticks, fun report hreport => absurd hreport (hphase report)⟩

theorem CaptureThread.accounts_started {conditions : OpenConditions} {v : Vault}
    {config : RealSchedulerConfig} {sampling : SamplingPolicy} {startedAtMs : ℕ}
    {t : CaptureThread H} (hv : IndexInStep v)
    (h : CaptureThread.start conditions v config sampling startedAtMs = .ok t) : t.Accounts := by
  obtain ⟨-, hworker, hopen⟩ := start_eq_ok.1 h
  refine .of_unreported ?_ (fun _ => ?_) ?_
  · rw [CaptureThread.vault, CaptureScheduler.openReal_vault hopen]
    exact hv
  · obtain ⟨-, sink, hpipeline⟩ := CaptureScheduler.openReal_eq hopen
    rw [hworker, hpipeline]
    rfl
  · rw [hworker]
    exact nofun

section Report

variable [UnicodeTables] [UrlCrate] [ImageHash H] [DefaultHasher] {F : Type} [ScoreArith F]

/-- A tick is counted once, whatever comes of it. -/
theorem CaptureScheduler.tick_total (s : CaptureScheduler H) (t : SchedulerTick H) :
    (s.ticked F t).pipeline.counters.total = s.pipeline.counters.total + 1 := by
  have hcapture : (s.capture F t.surroundings).2.pipeline.counters.total
      = s.pipeline.counters.total + 1 := by
    have heffect := runTickInner_effect s.pipeline (s.gate.components F t.surroundings)
    unfold CaptureScheduler.capture PrivacyGate.runTick CapturePipeline.runTick
    generalize s.pipeline.runTickInner (s.gate.components F t.surroundings) = tick at heffect
    dsimp only
    rw [CaptureCounters.total_record]
    cases heffect <;> rfl
  rw [CaptureScheduler.ticked, CaptureScheduler.tick]
  dsimp only
  split
  · unfold CaptureScheduler.flushOnce
    dsimp only
    split <;> exact hcapture
  · exact hcapture

theorem CaptureThread.Accounts.ticked {t : CaptureThread H} (h : t.Accounts)
    (hphase : t.worker.phase = .ticking) (tick : SchedulerTick H)
    (hindex : IndexInStep (t.scheduler.ticked F tick).vault) :
    CaptureThread.Accounts ⟨t.worker.exec (afterTick tick.nowMs (t.scheduler.tick F tick).1),
      t.scheduler.ticked F tick⟩ := by
  have htotal := t.scheduler.tick_total (F := F) tick
  have hticks := h.ticks (by rw [hphase]; exact nofun)
  cases (t.scheduler.tick F tick).1 with
  | some outcome =>
      refine .of_unreported hindex (fun _ => ?_) ?_
      · simp [afterTick, CaptureWorker.exec, hphase, hticks, htotal]
      · simp [afterTick, CaptureWorker.exec, hphase]
  | none =>
      refine .of_unreported hindex (fun hrunning => ?_) ?_
      · simp [afterTick, CaptureWorker.exec, hphase, CaptureWorker.endWith] at hrunning
      · simp [afterTick, CaptureWorker.exec, hphase, CaptureWorker.endWith]

omit [UnicodeTables] [UrlCrate] [ImageHash H] [DefaultHasher] in
theorem CaptureThread.Accounts.drained {t : CaptureThread H} (h : t.Accounts)
    (hphase : t.worker.phase = .finishing) {passes : List FlushConditions} {nowMs : ℕ}
    {error : FlushError} {step : WorkerStep}
    (hstep : afterDrain error (t.scheduler.flushOnShutdown passes nowMs).1 = some step)
    (hindex : IndexInStep (t.scheduler.flushOnShutdown passes nowMs).2.vault) :
    CaptureThread.Accounts ⟨t.worker.exec step, (t.scheduler.flushOnShutdown passes nowMs).2⟩ := by
  have hticks := h.ticks (by rw [hphase]; exact nofun)
  rw [← t.scheduler.flushOnShutdown_counters passes nowMs] at hticks
  cases hdrained : (t.scheduler.flushOnShutdown passes nowMs).1 with
  | ok written =>
      have hdrains := t.scheduler.flushOnShutdown_drains hdrained
      rw [hdrained] at hstep
      cases hstep
      refine ⟨hindex, fun _ => ?_, fun report hreport => ?_⟩
      · simpa [CaptureWorker.exec, hphase, CaptureWorker.endWith] using hticks
      · simp only [CaptureWorker.exec, hphase, CaptureWorker.endWith, Except.map,
          LoopPhase.returned.injEq, Except.ok.injEq] at hreport
        subst hreport
        refine ⟨?_, hdrains⟩
        simp [CaptureWorker.exec, hphase, CaptureWorker.endWith]
  | error stop =>
      rw [hdrained] at hstep
      cases stop with
      | outOfFuel => cases hstep
      | failed failure | panicked =>
          cases hstep
          refine .of_unreported hindex (fun _ => ?_) ?_
          · simpa [CaptureWorker.exec, hphase, CaptureWorker.endWith] using hticks
          · simp [CaptureWorker.exec, hphase, CaptureWorker.endWith, Except.map]

omit [UnicodeTables] [UrlCrate] [ImageHash H] [DefaultHasher] in
theorem CaptureThread.Accounts.looped {t : CaptureThread H} (h : t.Accounts) {step : WorkerStep}
    (hstep : step.runsScheduler = false) :
    CaptureThread.Accounts { t with worker := t.worker.exec step } := by
  obtain ⟨hticks, hsame | ⟨hbefore, hafter⟩⟩ := t.worker.exec_loop hstep
  · refine ⟨h.index, fun hrunning => hticks.trans (h.ticks (hsame ▸ hrunning)), ?_⟩
    intro report hreport
    have hkept := h.report report (hsame ▸ hreport)
    rw [← hticks] at hkept
    exact hkept
  · refine .of_unreported h.index (fun _ => hticks.trans (h.ticks ?_)) (fun report hreport => ?_)
    · intro hpanicked
      rw [hpanicked] at hbefore
      cases hbefore
    · rw [show (t.worker.exec step).phase = _ from hreport] at hafter
      cases hafter

theorem CaptureThread.Accounts.exec {t : CaptureThread H} (h : t.Accounts) (step : ThreadStep H) :
    (t.exec F step).Accounts := by
  have hkeeps : ∀ s : SchedulerStep H, IndexInStep (t.scheduler.exec F s).vault :=
    fun s => (t.scheduler.exec_vault (F := F) s).keeps indexInStep_exec h.index
  unfold CaptureThread.exec
  cases step with
  | loop step =>
      dsimp only
      split_ifs with hruns
      · exact h
      · exact h.looped (eq_false_of_ne_true hruns)
  | tick surroundings flush =>
      dsimp only
      split
      · next hphase => exact h.ticked hphase _ (hkeeps (.tick _))
      · exact h
  | finish passes nowMs error =>
      dsimp only
      split
      · next hphase =>
        split
        · next step hstep => exact h.drained hphase hstep (hkeeps (.shutdown passes nowMs))
        · exact h
      · exact h
  | relaunch conditions config sampling startedAtMs =>
      dsimp only
      split
      · next started hstart => exact accounts_started h.index hstart
      · exact h

/-- **A report is the truth about the vault.** From the first launch on, through ticks, pauses,
    shutdowns and later launches, whatever SQLite, Lance and the model do: when a loop returns its
    report, the ticks in it are those the pipeline has counted, and every chunk that was captured is
    stamped and has its row in the index. -/
theorem returned_is_indexed {conditions : OpenConditions} {config : RealSchedulerConfig}
    {sampling : SamplingPolicy} {startedAtMs : ℕ} {t : CaptureThread H}
    (hstart : CaptureThread.start conditions Vault.empty config sampling startedAtMs = .ok t)
    (steps : List (ThreadStep H)) :
    AllStates (CaptureThread.exec F) CaptureThread.ReportsTruly t steps := by
  have hempty : IndexInStep Vault.empty :=
    ⟨fun _ hc => (nomatch hc), fun _ hp => (nomatch hp)⟩
  have hrun : AllStates (CaptureThread.exec F) CaptureThread.Accounts t steps :=
    AllStates.of_step (fun _ step h => h.exec step) (CaptureThread.accounts_started hempty hstart)
  exact hrun.imp (fun _ h => h.reportsTruly)

end Report

/-! ## One window, paused and shut down -/

section Example

attribute [local instance] asciiTables noUrls bitHash lengthHasher

/-- A worker that captures one window and is then paused. -/
def oneWindow : List (ThreadStep (List Bool)) :=
  [.loop (.decide 0 2000),
    .tick (windowTick 2000 0 "plan the next quarter").surroundings workingFlush,
    .loop (.setPaused 0 true), .loop .receive, .loop .acknowledge]

/-- The worker is shut down, and its last flush is done. -/
def closing : List (ThreadStep (List Bool)) :=
  [.loop (.decide 0 9000), .loop .shutdown, .loop .receive,
    .finish [workingFlush, workingFlush] 9000 (.embed (.unavailable []))]

theorem paused_is_quiet_oneWindow : ∃ paused : CaptureThread (List Bool),
    paused.vault.store.db.HasChunk "desktop-7-0".toList "desktop-7-0-0".toList ∧
      AllStates (CaptureThread.exec ℚ) CaptureThread.Paused paused closing ∧
      AllStates (CaptureThread.exec ℚ) (CaptureThread.RestsFrom paused) paused closing := by
  let thread : CaptureThread (List Bool) := ⟨.started .ofDefault, desktopScheduler⟩
  let paused := final (CaptureThread.exec ℚ) thread oneWindow
  let head : List LoopEvent := [.tickStarted, .queued (.setPaused 0 true), .applied (.setPaused 0 true)]
  let shutdown : List LoopEvent := [.queued .shutdown, .applied .shutdown, .flushed]
  have hlogs : AllStates (CaptureThread.exec ℚ) (fun t => ∃ n,
      t.worker.log = head ++ .acknowledged 0 true :: shutdown.take n) paused closing :=
    ⟨⟨0, by decide +kernel⟩, ⟨0, by decide +kernel⟩, ⟨1, by decide +kernel⟩,
      ⟨2, by decide +kernel⟩, ⟨3, by decide +kernel⟩⟩
  have hpaused : AllStates (CaptureThread.exec ℚ) CaptureThread.Paused paused closing := by
    refine hlogs.imp (fun t ⟨n, hlog⟩ => ⟨head, _, shutdown.take n, hlog, ⟨0, rfl⟩, ?_⟩)
    rintro e he ⟨call, rfl⟩
    exact absurd (List.mem_of_mem_take he) (by simp [shutdown])
  exact ⟨paused, by decide +kernel, hpaused,
    paused_is_quiet .ofDefault desktopScheduler oneWindow closing hpaused⟩

/-- The window is in the index when the loop returns. -/
theorem returned_is_indexed_oneWindow : ∃ t : CaptureThread (List Bool),
    CaptureThread.start ⟨true, .ok (), .ok ()⟩ Vault.empty desktopConfig .ofDefault 0 = .ok t ∧
      AllStates (CaptureThread.exec ℚ) CaptureThread.ReportsTruly t (oneWindow ++ closing) ∧
      (match (final (CaptureThread.exec ℚ) t (oneWindow ++ closing)).worker.phase with
        | .returned (.ok report) => some (report.ticks, report.shutdownFlushedChunks)
        | _ => none) = some (1, 1) := by
  have hreport : (CaptureThread.start (H := List Bool) ⟨true, .ok (), .ok ()⟩ Vault.empty
      desktopConfig .ofDefault 0).toOption.map (fun t => decide
        ((match (final (CaptureThread.exec ℚ) t (oneWindow ++ closing)).worker.phase with
          | .returned (.ok report) => some (report.ticks, report.shutdownFlushedChunks)
          | _ => none) = some (1, 1))) = some true := by decide +kernel
  obtain ⟨t, ht, hone⟩ := Option.map_eq_some_iff.1 hreport
  have hstart := Except.eq_ok_of_toOption ht
  exact ⟨t, hstart, returned_is_indexed (F := ℚ) hstart (oneWindow ++ closing),
    of_decide_eq_true hone⟩

end Example

end Fndr
