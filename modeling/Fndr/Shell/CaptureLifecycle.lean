import Fndr.Capture.Pipeline
import Fndr.Store.LanceWriter

set_option autoImplicit false

/-! # The capture lifecycle

`capture_lifecycle.rs` with the pause command of `capture_worker.rs`: the worker thread, the status
dispatcher and one `set_paused` call at a time (the call holds the worker mutex) as a transition
system. A section under a mutex is one step and every run of steps is an interleaving; a step that
is not enabled changes nothing.

The dispatcher publishes the paused flag it read, with the status unlocked in between. A
`set_paused` that publishes in that gap is overwritten. If none publishes against the flag the
dispatcher holds (`NotStale`), the status is paused exactly when the worker is, in every state
without a call in progress (`paused_iff_worker_paused`); if one does, the wrong status is what
remains once the dispatcher has caught up (`stale_publish_remains`). -/

namespace Fndr

open RustStd Runs

/-! ## Statuses -/

/-- What the window shows of the capture as a whole. -/
inductive CaptureRuntimeState
  | starting
  | running
  | paused
  | blocked
  | stopped
  deriving DecidableEq

/-- What became of the capture of a tick. -/
inductive CaptureTickState
  | stored
  | urlOnlyStored
  | skipped
  | failed
  deriving DecidableEq

/-- What became of the flush of a tick. -/
inductive CaptureFlushState
  | notDue
  | flushed
  | failed
  deriving DecidableEq

/-- What the window shows of a tick. -/
structure CaptureTickStatus where
  capture : CaptureTickState
  flush : CaptureFlushState
  reason : Option Str
  deriving DecidableEq

/-- Milliseconds are whole numbers. -/
structure CaptureRuntimeStatus where
  state : CaptureRuntimeState
  observedAtMs : ℕ
  tick : Option CaptureTickStatus
  shutdownFlushedChunks : Option ℕ
  reason : Option Str
  deriving DecidableEq

/-- Observable result of the durable-index portion of one capture tick. -/
inductive FlushTickOutcome
  | notDue
  | flushed (report : FlushReport)
  | failed (message : Str)

/-- The two halves of a tick. -/
structure SchedulerTickOutcome where
  capture : CaptureTickOutcome
  flush : FlushTickOutcome

/-- A status event carries outcomes only. -/
structure CaptureWorkerEvent where
  observedAtMs : ℕ
  outcome : SchedulerTickOutcome

/-- The code under which the window shows a reason. -/
def skipReasonCode : SkipReason → Str
  | .metadataUnavailable => "metadata_unavailable".toList
  | .preCapturePrivacy => "pre_capture_privacy".toList
  | .privateBrowsing => "private_browsing".toList
  | .admissionPolicy => "admission_policy".toList
  | .perceptualDuplicate => "perceptual_duplicate".toList
  | .missingPerceptualSignature => "missing_perceptual_signature".toList
  | .lowSignal => "low_signal".toList
  | .semanticDuplicate => "semantic_duplicate".toList
  | .finalPrivacy => "final_privacy".toList
  | .screenRecordingOrCaptureUnavailable => "screen_recording_or_capture_unavailable".toList
  | .captureFailed => "capture_failed".toList
  | .ocrFailed => "ocr_failed".toList
  | .persistenceFailed => "persistence_failed".toList

/-- The capture of a tick as the window shows it, with its reason. -/
def captureStatus : CaptureTickOutcome → CaptureTickState × Option Str
  | .stored => (.stored, none)
  | .urlOnlyStored => (.urlOnlyStored, none)
  | .skipped reason => (.skipped, some (skipReasonCode reason))
  | .failed reason _ => (.failed, some (skipReasonCode reason))

/-- The flush of a tick as the window shows it. -/
def flushStatus : FlushTickOutcome → CaptureFlushState
  | .notDue => .notDue
  | .flushed _ => .flushed
  | .failed _ => .failed

/-- The state by the flag of the pause. -/
def pausedState (paused : Bool) : CaptureRuntimeState := if paused then .paused else .running

/-- The reason by the flag of the pause. -/
def pausedReason (paused : Bool) : Option Str := if paused then some "user_paused".toList else none

/-- The status made of an event and the flag read for it. -/
def workerEventStatus (event : CaptureWorkerEvent) (isPaused : Bool) : CaptureRuntimeStatus :=
  let capture := captureStatus event.outcome.capture
  { state := pausedState isPaused
    observedAtMs := event.observedAtMs
    tick := some ⟨capture.1, flushStatus event.outcome.flush, capture.2⟩
    shutdownFlushedChunks := none
    reason := pausedReason isPaused }

/-- The status shows a pause. -/
def CaptureRuntimeStatus.isPaused (status : CaptureRuntimeStatus) : Bool :=
  status.state == .paused

@[simp] theorem pausedState_beq (paused : Bool) : (pausedState paused == .paused) = paused := by
  cases paused <;> rfl

@[simp] theorem workerEventStatus_isPaused (event : CaptureWorkerEvent) (isPaused : Bool) :
    (workerEventStatus event isPaused).isPaused = isPaused := pausedState_beq isPaused

/-! ## Worker, dispatcher and caller -/

/-- The events that the channel holds; one more is dropped. -/
def STATUS_EVENT_CAPACITY : ℕ := 64

/-- Where the one `set_paused` call stands. -/
inductive SetPausedCall
  | idle
  /-- The command is sent and not yet observed. -/
  | requested (paused : Bool)
  /-- The worker has acknowledged. -/
  | acknowledged (paused : Bool)
  /-- The previous status was read, for its tick. -/
  | publishing (paused : Bool) (tick : Option CaptureTickStatus)

/-- The worker's flag, the events on their way to the window, the status that is shown, and the call
    of `set_paused` that goes on. -/
structure CaptureLifecycle where
  workerPaused : Bool
  /-- The channel from the worker to the dispatcher. -/
  events : List CaptureWorkerEvent
  /-- The event the dispatcher holds, with the flag it read for it. -/
  dispatcher : Option (CaptureWorkerEvent × Bool)
  status : CaptureRuntimeStatus
  call : SetPausedCall

/-- The lifecycle `start` returns: the worker runs and nothing has been sent. -/
def CaptureLifecycle.started (nowMs : ℕ) : CaptureLifecycle where
  workerPaused := false
  events := []
  dispatcher := none
  status := ⟨.running, nowMs, none, none, none⟩
  call := .idle

/-- A step of the worker, of the dispatcher or of the caller. -/
inductive LifecycleStep
  | tick (event : CaptureWorkerEvent)
  | takeEvent
  | publishEvent
  | requestPaused (paused : Bool)
  | acknowledge
  | readStatus
  | publishPaused (nowMs : ℕ)

/-- `SyncSender::try_send`: an event that finds the channel full is dropped. -/
def trySend (events : List CaptureWorkerEvent) (event : CaptureWorkerEvent) :
    List CaptureWorkerEvent :=
  if events.length < STATUS_EVENT_CAPACITY then events ++ [event] else events

/-- The state after a step. A step that cannot happen leaves it as it is. -/
def CaptureLifecycle.exec (s : CaptureLifecycle) : LifecycleStep → CaptureLifecycle
  | .tick event =>
      if s.workerPaused then s else { s with events := trySend s.events event }
  | .takeEvent =>
      match s.dispatcher, s.events with
      | none, event :: events =>
          -- the status is unlocked again until the event is published
          { s with events := events, dispatcher := some (event, s.status.isPaused) }
      | _, _ => s
  | .publishEvent =>
      match s.dispatcher with
      | some (event, isPaused) =>
          { s with dispatcher := none, status := workerEventStatus event isPaused }
      | none => s
  | .requestPaused paused =>
      match s.call with
      | .idle => { s with call := .requested paused }
      | _ => s
  | .acknowledge =>
      match s.call with
      | .requested paused => { s with workerPaused := paused, call := .acknowledged paused }
      | _ => s
  | .readStatus =>
      match s.call with
      | .acknowledged paused => { s with call := .publishing paused s.status.tick }
      | _ => s
  | .publishPaused nowMs =>
      match s.call with
      | .publishing paused tick =>
          { s with
            status := ⟨pausedState paused, nowMs, tick, none, pausedReason paused⟩
            call := .idle }
      | _ => s

/-- No call in progress, an idle dispatcher and an empty channel. -/
structure CaptureLifecycle.Quiescent (s : CaptureLifecycle) : Prop where
  noCall : s.call = .idle
  dispatcherIdle : s.dispatcher = none
  noEvents : s.events = []

/-- Paused means paused, once everything has settled. -/
def CaptureLifecycle.PausedMeansPaused (s : CaptureLifecycle) : Prop :=
  s.Quiescent → (s.status.state = .paused ↔ s.workerPaused = true)

/-- The step does not publish a pause or a resume while the dispatcher holds the opposite flag. -/
def CaptureLifecycle.NotStale (s : CaptureLifecycle) : LifecycleStep → Prop
  | .publishPaused _ => ∀ paused tick, s.call = .publishing paused tick →
      ∀ event isPaused, s.dispatcher = some (event, isPaused) → isPaused = paused
  | _ => True

/-! ## Without a stale publish -/

/-- The dispatcher holds the flag of the status, which is the worker's outside of a call. -/
structure PauseAgrees (s : CaptureLifecycle) : Prop where
  held : ∀ event isPaused, s.dispatcher = some (event, isPaused) → isPaused = s.status.isPaused
  caller : match s.call with
    | .idle | .requested _ => s.status.isPaused = s.workerPaused
    | .acknowledged paused | .publishing paused _ => s.workerPaused = paused

theorem pauseAgrees_started (nowMs : ℕ) : PauseAgrees (.started nowMs) :=
  ⟨fun _ _ h => (nomatch h), rfl⟩

theorem CaptureRuntimeStatus.isPaused_iff (status : CaptureRuntimeStatus) :
    status.isPaused = true ↔ status.state = .paused := beq_iff_eq

theorem PauseAgrees.pausedMeansPaused {s : CaptureLifecycle} (h : PauseAgrees s) :
    s.PausedMeansPaused := by
  intro hquiescent
  have hcaller := h.caller
  rw [hquiescent.noCall] at hcaller
  rw [← s.status.isPaused_iff, ← hcaller]

theorem PauseAgrees.publishEvent {s : CaptureLifecycle} (h : PauseAgrees s) :
    PauseAgrees (s.exec .publishEvent) := by
  unfold CaptureLifecycle.exec
  dsimp only
  split
  · next event isPaused hdispatcher =>
    -- the flag it publishes is the one the status already has
    have hheld := h.held event isPaused hdispatcher
    refine ⟨fun _ _ hnone => (nomatch hnone), ?_⟩
    have hcaller := h.caller
    rw [← hheld] at hcaller
    rw [workerEventStatus_isPaused]
    exact hcaller
  · exact h

theorem PauseAgrees.publishPaused {s : CaptureLifecycle} (h : PauseAgrees s) {nowMs : ℕ}
    (hstale : s.NotStale (.publishPaused nowMs)) : PauseAgrees (s.exec (.publishPaused nowMs)) := by
  unfold CaptureLifecycle.exec
  dsimp only
  split
  · next paused tick hcall =>
    have hworker : s.workerPaused = paused := by
      have hcaller := h.caller
      rw [hcall] at hcaller
      exact hcaller
    refine ⟨fun event isPaused hdispatcher => ?_, ?_⟩
    · rw [hstale paused tick hcall event isPaused hdispatcher]
      exact (pausedState_beq paused).symm
    · exact (pausedState_beq paused).trans hworker.symm
  · exact h

theorem PauseAgrees.exec {s : CaptureLifecycle} (h : PauseAgrees s) {step : LifecycleStep}
    (hstale : s.NotStale step) : PauseAgrees (s.exec step) := by
  have hcaller := h.caller
  unfold CaptureLifecycle.exec
  cases step with
  | tick event =>
      dsimp only
      split
      · exact h
      · exact ⟨h.held, h.caller⟩
  -- the flag is read with the event, so that the two agree at this moment
  | takeEvent =>
      dsimp only
      split
      · refine ⟨fun _ _ hsome => ?_, h.caller⟩
        cases hsome
        rfl
      · exact h
  | publishEvent => exact h.publishEvent
  | requestPaused paused =>
      dsimp only
      split
      · next hcall =>
        rw [hcall] at hcaller
        exact ⟨h.held, hcaller⟩
      · exact h
  | acknowledge =>
      dsimp only
      split
      · exact ⟨h.held, rfl⟩
      · exact h
  | readStatus =>
      dsimp only
      split
      · next hcall =>
        rw [hcall] at hcaller
        exact ⟨h.held, hcaller⟩
      · exact h
  | publishPaused nowMs => exact h.publishPaused hstale

/-- **Paused means paused, if no pause or resume is published against the flag the dispatcher
    holds.** For every interleaving of ticks, the dispatcher and `set_paused` calls. -/
theorem paused_iff_worker_paused (nowMs : ℕ) (steps : List LifecycleStep)
    (hsteps : StepsMeet CaptureLifecycle.exec CaptureLifecycle.NotStale (.started nowMs) steps) :
    AllStates CaptureLifecycle.exec CaptureLifecycle.PausedMeansPaused (.started nowMs) steps :=
  (AllStates.of_invariant (fun _ _ h hstale => h.exec hstale) (pauseAgrees_started nowMs)
    hsteps).imp (fun _ h => h.pausedMeansPaused)

/-! ## After a stale publish -/

/-- The dispatcher takes and publishes this many events. -/
def settle : ℕ → List LifecycleStep
  | 0 => []
  | n + 1 => .takeEvent :: .publishEvent :: settle n

/-- Late events copy the status they find. -/
theorem final_settle (events : List CaptureWorkerEvent) (s : CaptureLifecycle)
    (hevents : s.events = events) (hidle : s.dispatcher = none) :
    let settled := final CaptureLifecycle.exec s (settle events.length)
    settled.events = [] ∧ settled.dispatcher = none ∧ settled.call = s.call ∧
      settled.workerPaused = s.workerPaused ∧ settled.status.isPaused = s.status.isPaused := by
  induction events generalizing s with
  | nil => exact ⟨hevents, hidle, rfl, rfl, rfl⟩
  | cons event events ih =>
      have htake : s.exec .takeEvent
          = { s with events := events, dispatcher := some (event, s.status.isPaused) } := by
        simp only [CaptureLifecycle.exec, hidle, hevents]
      obtain ⟨h₁, h₂, h₃, h₄, h₅⟩ := ih ((s.exec .takeEvent).exec .publishEvent)
        (by rw [htake]; rfl) (by rw [htake]; rfl)
      refine ⟨h₁, h₂, h₃.trans ?_, h₄.trans ?_, h₅.trans ?_⟩
      · rw [htake]
        rfl
      · rw [htake]
        rfl
      · rw [htake]
        exact workerEventStatus_isPaused event s.status.isPaused

/-- **A stale publish is never repaired by the dispatcher.** Once the dispatcher has published what
    it holds and every event of the channel, the status contradicts the worker. -/
theorem stale_publish_remains {s : CaptureLifecycle} (h : PauseAgrees s) {step : LifecycleStep}
    (hstale : ¬ s.NotStale step) :
    ¬ (final CaptureLifecycle.exec s
      (step :: .publishEvent :: settle s.events.length)).PausedMeansPaused := by
  cases step with
  | publishPaused nowMs =>
      simp only [CaptureLifecycle.NotStale, not_forall] at hstale
      obtain ⟨paused, tick, hcall, event, isPaused, hdispatcher, hne⟩ := hstale
      have hworker : s.workerPaused = paused := by
        have hcaller := h.caller
        rw [hcall] at hcaller
        exact hcaller
      let published := (s.exec (.publishPaused nowMs)).exec .publishEvent
      have hpublished : published = { s with
          status := workerEventStatus event isPaused, dispatcher := none, call := .idle } := by
        simp only [published, CaptureLifecycle.exec, hcall, hdispatcher]
      obtain ⟨hevents, hidle, hnoCall, hstill, hflag⟩ := final_settle s.events published
        (by rw [hpublished]) (by rw [hpublished])
      intro hmeans
      have hiff := hmeans ⟨hnoCall.trans (by rw [hpublished]), hidle, hevents⟩
      rw [← CaptureRuntimeStatus.isPaused_iff] at hiff
      have hboth : isPaused = paused := by
        rw [Bool.eq_iff_iff, ← hworker]
        have : published.status.isPaused = isPaused := by
          rw [hpublished]
          exact workerEventStatus_isPaused event isPaused
        have hsame : published.workerPaused = s.workerPaused := by rw [hpublished]
        rw [← this, ← hsame, ← hstill, ← hflag]
        exact hiff
      exact hne hboth
  | _ => exact absurd trivial hstale

/-! ## A pause in the gap -/

section Example

/-- A tick that stored its capture, with no flush due. -/
def storedEvent : CaptureWorkerEvent := ⟨1000, ⟨.stored, .notDue⟩⟩

/-- A pause that is published before or after the dispatcher publishes the event it holds. -/
def pauseAround (late : Bool) : List LifecycleStep :=
  [.tick storedEvent, .takeEvent, .requestPaused true, .acknowledge, .readStatus] ++
    (if late then [.publishPaused 2000, .publishEvent] else [.publishEvent, .publishPaused 2000])

theorem paused_iff_worker_paused_early :
    AllStates CaptureLifecycle.exec CaptureLifecycle.PausedMeansPaused (.started 0)
      (pauseAround false) := by
  refine paused_iff_worker_paused 0 _ ⟨trivial, trivial, trivial, trivial, trivial, trivial, ?_,
    trivial⟩
  intro paused tick _ event isPaused hdispatcher
  cases hdispatcher

/-- The dispatcher read `Running` before the pause and publishes it after: the worker is paused, the
    status runs, and nothing is left that could change it. -/
theorem late_event_hides_pause :
    ¬ AllStates CaptureLifecycle.exec CaptureLifecycle.PausedMeansPaused (.started 0)
      (pauseAround true) := by
  intro h
  have hlast : (final CaptureLifecycle.exec (.started 0) (pauseAround true)).PausedMeansPaused :=
    h.final
  have hpaused : CaptureRuntimeState.running = .paused := (hlast ⟨rfl, rfl, rfl⟩).2 rfl
  cases hpaused

end Example

end Fndr
