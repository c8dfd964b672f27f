import Fndr.Shell.AppState

set_option autoImplicit false

/-! # The lifecycle and the thread it owns

`capture_lifecycle.rs` whole: `start`, `set_paused` and `shutdown` as a caller goes through them,
the status dispatcher, and the worker thread of `capture_worker.rs`. Only one call can be under way:
`set_paused` holds the worker mutex to its end, and `shutdown` takes the handle out from under it.
`publish` sets the status under its mutex and calls the sink after that.

Once the thread has ended, nothing publishes but what the dispatcher still holds and the rest of
`shutdown`; `shutdown` joins both and publishes last, so nothing follows a Stopped. It publishes
only if the thread ends with a report (`Managed` with `clean`): a tick that panics, a failed final
flush and a panicking sink leave the status as it was. -/

namespace Fndr

open RustStd Runs

/-! ## Calls and their results -/

/-- Why a worker did not stop as it should. -/
inductive CaptureWorkerStopError
  | panicked
  | shutdownFlush (error : FlushError)

/-- Why a lifecycle did not stop as it should. -/
inductive CaptureLifecycleStopError
  | alreadyStopped
  | worker (error : CaptureWorkerStopError)
  | dispatcherPanicked

/-- Why a pause was not applied. -/
inductive CaptureLifecycleControlError
  | notRunning
  /-- The worker is unavailable. -/
  | worker

/-- What a call returned. -/
inductive LifecycleResult
  | start (result : Except CaptureWorkerStartError Unit)
  | setPaused (result : Except CaptureLifecycleControlError CaptureRuntimeStatus)
  | shutdown (result : Except CaptureLifecycleStopError CaptureWorkerReport)

/-- What the caller does after `publish`. -/
inductive AfterPublish
  | openWorker
  | spawnDispatcher
  | returns (result : LifecycleResult)

/-- Where the call under way stands. -/
inductive LifecycleCall
  | idle
  /-- `publish` has set the status and is about to call the sink. -/
  | announcing (next : CaptureRuntimeStatus) (after : AfterPublish)
  /-- `start` waits for the thread to open the scheduler. -/
  | opening
  | opened
  | spawning
  /-- `set_paused` waits for the acknowledgement of its command. -/
  | pausing (call : ℕ) (paused : Bool)
  | acknowledged (paused : Bool)
  /-- The previous status was read, for its tick. -/
  | publishing (paused : Bool) (tick : Option CaptureTickStatus)
  /-- `shutdown` waits for the worker thread. -/
  | joining
  /-- `shutdown` waits for the dispatcher. -/
  | draining (report : CaptureWorkerReport)
  | stopping (report : CaptureWorkerReport)

/-- Where the thread is that publishes the worker's events. -/
inductive StatusDispatcher
  | notSpawned
  | receiving
  /-- An event with the paused flag that was read for it. -/
  | holding (event : CaptureWorkerEvent) (isPaused : Bool)
  | announcing (next : CaptureRuntimeStatus)
  | ended
  | panicked

/-- The dispatcher has nothing to publish, now or later. -/
@[simp] def StatusDispatcher.silent : StatusDispatcher → Bool
  | .notSpawned | .ended | .panicked => true
  | _ => false

/-- The worker, the dispatcher, the status they share, the owner's call that goes on, and what was
    published and returned. -/
structure AppLifecycle where
  worker : CaptureWorker
  dispatcher : StatusDispatcher
  status : CaptureRuntimeStatus
  call : LifecycleCall
  /-- What the sink was given. -/
  published : List CaptureRuntimeStatus
  returned : List LifecycleResult

/-- A status that says nothing of a tick. -/
def statusOf (state : CaptureRuntimeState) (nowMs : ℕ) : CaptureRuntimeStatus :=
  ⟨state, nowMs, none, none, none⟩

/-- `start` as it publishes for the first time. -/
def AppLifecycle.starting (sampling : SamplingPolicy) (nowMs : ℕ) : AppLifecycle where
  worker := .started sampling
  dispatcher := .notSpawned
  status := statusOf .starting nowMs
  call := .announcing (statusOf .starting nowMs) .openWorker
  published := []
  returned := []

/-! ## Steps -/

/-- The steps that the worker thread takes by itself. -/
@[simp] def WorkerStep.ofThread : WorkerStep → Bool
  | .decide _ _ | .endTick _ | .panicTick | .receive | .goOn | .disconnected | .acknowledge
  | .flush _ | .panicFlush => true
  | _ => false

/-- A step of the owner's calls, of the worker or of the dispatcher. -/
inductive OwnerStep
  | announce
  | failStart (error : CaptureWorkerStartError) (nowMs : ℕ)
  | openWorker
  | publishRunning (nowMs : ℕ)
  | spawnDispatcher
  | work (step : WorkerStep)
  | setPaused (call : ℕ) (paused : Bool)
  | confirm
  | giveUp
  | readStatus
  | publishPaused (nowMs : ℕ)
  | shutdown
  | joinWorker
  | joinDispatcher
  | publishStopped (nowMs : ℕ)
  | takeEvent
  | publishEvent
  | announceEvent
  | endDispatcher
  | panicSink

/-- The thread has not entered its loop. -/
def LifecycleCall.beforeLoop : LifecycleCall → Bool
  | .announcing _ .openWorker | .opening => true
  | _ => false

/-- Set the status; the sink is called next. -/
def AppLifecycle.publish (s : AppLifecycle) (next : CaptureRuntimeStatus) (after : AfterPublish) :
    AppLifecycle :=
  { s with status := next, call := .announcing next after }

/-- The call returns. -/
def AppLifecycle.returning (s : AppLifecycle) (result : LifecycleResult) : AppLifecycle :=
  { s with call := .idle, returned := s.returned ++ [result] }

/-- What a call does once its status is announced. -/
def AppLifecycle.andThen (s : AppLifecycle) : AfterPublish → AppLifecycle
  | .openWorker => { s with call := .opening }
  | .spawnDispatcher => { s with call := .spawning }
  | .returns result => s.returning result

/-- The state after a step. A step that cannot happen leaves it as it is. -/
def AppLifecycle.exec (s : AppLifecycle) : OwnerStep → AppLifecycle
  | .announce =>
      match s.call with
      | .announcing next after => { s with published := s.published ++ [next] }.andThen after
      | _ => s
  | .failStart error nowMs =>
      match s.call with
      | .opening =>
          -- the thread, if there is one, returned an empty report and was joined
          { s with worker := (s.worker.exec .dropHandle).endWith (.returned (.ok ⟨0, 0⟩)) }.publish
            ⟨.blocked, nowMs, none, none, some (startErrorReason error)⟩
            (.returns (.start (.error error)))
      | _ => s
  | .openWorker =>
      match s.call with
      | .opening => { s with call := .opened }
      | _ => s
  | .publishRunning nowMs =>
      match s.call with
      | .opened => s.publish (statusOf .running nowMs) .spawnDispatcher
      | _ => s
  | .spawnDispatcher =>
      match s.call with
      | .spawning => { s with dispatcher := .receiving }.returning (.start (.ok ()))
      | _ => s
  | .work step =>
      if step.ofThread ∧ ¬ s.call.beforeLoop then { s with worker := s.worker.exec step } else s
  | .setPaused call paused =>
      match s.dispatcher, s.worker.handle, s.call with
      -- `start` has returned no lifecycle
      | .notSpawned, _, _ => s
      | _, .shared, .idle =>
          if call ∈ s.worker.calls then s
          else if s.worker.phase.ended then
            { s with worker := s.worker.exec (.setPaused call paused) }.returning
              (.setPaused (.error .worker))
          else
            { s with
              worker := s.worker.exec (.setPaused call paused)
              call := .pausing call paused }
      -- the mutex is held
      | _, .shared, _ => s
      | _, _, _ => { s with returned := s.returned ++ [.setPaused (.error .notRunning)] }
  | .confirm =>
      match s.call with
      | .pausing call paused =>
          if .acknowledged call paused ∈ s.worker.log then { s with call := .acknowledged paused }
          else s
      | _ => s
  | .giveUp =>
      match s.call with
      | .pausing call _ =>
          if s.worker.phase.ended ∧ call ∈ s.worker.pending then
            { s with worker := s.worker.exec (.hangUp call) }.returning (.setPaused (.error .worker))
          else s
      | _ => s
  | .readStatus =>
      match s.call with
      | .acknowledged paused => { s with call := .publishing paused s.status.tick }
      | _ => s
  | .publishPaused nowMs =>
      match s.call with
      | .publishing paused tick =>
          let next := ⟨pausedState paused, nowMs, tick, none, pausedReason paused⟩
          s.publish next (.returns (.setPaused (.ok next)))
      | _ => s
  | .shutdown =>
      match s.dispatcher, s.worker.handle, s.call with
      | .notSpawned, _, _ => s
      | _, .shared, .idle => { s with worker := s.worker.exec .shutdown, call := .joining }
      | _, .shared, _ => s
      | _, _, _ => { s with returned := s.returned ++ [.shutdown (.error .alreadyStopped)] }
  | .joinWorker =>
      match s.call, s.worker.phase with
      | .joining, .returned (.ok report) =>
          { s with worker := s.worker.exec .dropHandle, call := .draining report }
      | .joining, .returned (.error error) =>
          { s with worker := s.worker.exec .dropHandle }.returning
            (.shutdown (.error (.worker (.shutdownFlush error))))
      | .joining, .panicked =>
          { s with worker := s.worker.exec .dropHandle }.returning
            (.shutdown (.error (.worker .panicked)))
      | _, _ => s
  | .joinDispatcher =>
      match s.call, s.dispatcher with
      | .draining report, .ended => { s with call := .stopping report }
      | .draining _, .panicked => s.returning (.shutdown (.error .dispatcherPanicked))
      | _, _ => s
  | .publishStopped nowMs =>
      match s.call with
      | .stopping report =>
          s.publish
            ⟨.stopped, nowMs, none, some (min report.shutdownFlushedChunks (2 ^ 32 - 1)), none⟩
            (.returns (.shutdown (.ok report)))
      | _ => s
  | .takeEvent =>
      match s.dispatcher, s.worker.events with
      | .receiving, event :: _ =>
          { s with
            worker := s.worker.exec .takeEvent
            dispatcher := .holding event s.status.isPaused }
      | _, _ => s
  | .publishEvent =>
      match s.dispatcher with
      | .holding event isPaused =>
          { s with
            dispatcher := .announcing (workerEventStatus event isPaused)
            status := workerEventStatus event isPaused }
      | _ => s
  | .announceEvent =>
      match s.dispatcher with
      | .announcing next => { s with dispatcher := .receiving, published := s.published ++ [next] }
      | _ => s
  | .endDispatcher =>
      match s.dispatcher, s.worker.events with
      | .receiving, [] => if s.worker.phase.ended then { s with dispatcher := .ended } else s
      | _, _ => s
  | .panicSink =>
      match s.dispatcher with
      | .announcing _ => { s with dispatcher := .panicked }
      | _ => s

/-! ## What the status may claim -/

/-- The status claims that there is a capture thread. -/
@[simp] def CaptureRuntimeState.live : CaptureRuntimeState → Bool
  | .starting | .running | .paused => true
  | .blocked | .stopped => false

/-- The dispatcher has taken and published all it will. -/
def AppLifecycle.Drained (s : AppLifecycle) : Prop :=
  s.dispatcher.silent = true ∨ s.dispatcher = .receiving ∧ s.worker.events = []

/-- The thread is gone, the channel drained and no call under way. -/
structure AppLifecycle.Settled (s : AppLifecycle) : Prop where
  threadEnded : s.worker.phase.ended = true
  drained : s.Drained
  noCall : s.call = .idle

/-- Neither the status nor what the sink was given last is a live one. -/
def AppLifecycle.ShowsEnd (s : AppLifecycle) : Prop :=
  s.status.state.live = false ∧ ∀ last ∈ s.published.getLast?, last.state.live = false

/-- Once the capture thread is gone the status never claims otherwise. -/
def AppLifecycle.EndIsShown (s : AppLifecycle) : Prop := s.Settled → s.ShowsEnd

/-- After a published Stopped no other status is published. -/
def AppLifecycle.StoppedIsLast (s : AppLifecycle) : Prop :=
  ∀ front last back, s.published = front ++ last :: back → last.state = .stopped → back = []

/-- No tick panics, and the final flush succeeds. -/
def WorkerStep.Clean : WorkerStep → Prop
  | .panicTick | .panicFlush | .flush (.error _) => False
  | _ => True

/-- The thread ends with a report if it ends, and the sink does not panic in the dispatcher. -/
def OwnerStep.Clean : OwnerStep → Prop
  | .work step => step.Clean
  | .panicSink => False
  | _ => True

/-! ## The worker thread -/

/-- The loop goes on: no shutdown is applied or queued. -/
structure CaptureWorker.Serving (worker : CaptureWorker) : Prop where
  running : worker.phase.ended = false
  notFinishing : worker.phase ≠ .finishing
  noShutdown : .shutdown ∉ worker.queue

/-- If the thread has ended, it has a report. -/
def CaptureWorker.EndsWell (worker : CaptureWorker) : Prop :=
  worker.phase.ended = true → ∃ report, worker.phase = .returned (.ok report)

/-- What the thread makes of the worker in one step. -/
inductive CaptureWorker.ThreadEffect (worker : CaptureWorker) (step : WorkerStep) :
    CaptureWorker → Prop
  | still : ThreadEffect worker step worker
  | goesOn (next : CaptureWorker) (hhandle : next.handle = worker.handle)
      (hqueue : next.queue = worker.queue) (hrunning : next.phase.ended = false)
      (hnotFinishing : next.phase ≠ .finishing) : ThreadEffect worker step next
  | received (command : WorkerCommand) (queue : List WorkerCommand)
      (hqueue : worker.queue = command :: queue) :
      ThreadEffect worker step ({ worker with queue := queue }.applyCommand command)
  | hungUp (hgone : worker.handle = .dropped) :
      ThreadEffect worker step { worker with phase := .finishing }
  | tickPanicked (hstep : step = .panicTick) : ThreadEffect worker step (worker.endWith .panicked)
  | flushPanicked (hstep : step = .panicFlush) (hphase : worker.phase = .finishing) :
      ThreadEffect worker step
        ({ worker with log := worker.log ++ [LoopEvent.flushed] }.endWith .panicked)
  | finished (result : Except FlushError ℕ) (hstep : step = .flush result)
      (hphase : worker.phase = .finishing) :
      ThreadEffect worker step
        ({ worker with log := worker.log ++ [LoopEvent.flushed] }.endWith
          (.returned (result.map (fun chunks => ⟨worker.ticks, chunks⟩))))

theorem CaptureWorker.exec_threadEffect (worker : CaptureWorker) {step : WorkerStep}
    (h : step.ofThread = true) : worker.ThreadEffect step (worker.exec step) := by
  unfold CaptureWorker.exec
  cases step with
  -- steps of the callers
  | setPaused | shutdown | dropHandle | hangUp | takeEvent => cases h
  | decide inputIdle nowMs =>
      dsimp only
      split
      · split <;> exact .goesOn _ rfl rfl rfl (by simp)
      · exact .still
  | endTick event =>
      dsimp only
      split
      · exact .goesOn _ rfl rfl rfl (by simp)
      · exact .still
  | panicTick =>
      dsimp only
      split
      · exact .tickPanicked rfl
      · exact .still
  | receive =>
      dsimp only
      split
      · next command queue _ hqueue => exact .received command queue hqueue
      · exact .still
  | goOn =>
      dsimp only
      split_ifs
      · exact .goesOn _ rfl rfl rfl (by simp)
      · exact .still
  | disconnected =>
      dsimp only
      split_ifs with hgone
      · exact .hungUp hgone.2.2
      · exact .still
  | acknowledge =>
      dsimp only
      split
      · exact .goesOn _ rfl rfl rfl (by simp)
      · exact .still
  | flush result =>
      dsimp only
      split
      · next hphase => exact .finished result rfl hphase
      · exact .still
  | panicFlush =>
      dsimp only
      split
      · next hphase => exact .flushPanicked rfl hphase
      · exact .still

@[simp] theorem CaptureWorker.applyCommand_handle (worker : CaptureWorker)
    (command : WorkerCommand) : (worker.applyCommand command).handle = worker.handle := by
  cases command <;> rfl

theorem CaptureWorker.exec_handle (worker : CaptureWorker) {step : WorkerStep}
    (h : step.ofThread = true) : (worker.exec step).handle = worker.handle := by
  generalize heq : worker.exec step = next
  have heffect := heq ▸ worker.exec_threadEffect h
  cases heffect with
  | goesOn _ hhandle => exact hhandle
  | received command queue => exact CaptureWorker.applyCommand_handle _ command
  | still | hungUp | tickPanicked | flushPanicked | finished => rfl

theorem CaptureWorker.Serving.exec {worker : CaptureWorker} (h : worker.Serving)
    {step : WorkerStep} (hthread : step.ofThread = true) (hclean : step.Clean)
    (hshared : worker.handle = .shared) : (worker.exec step).Serving := by
  generalize heq : worker.exec step = next
  have heffect := heq ▸ worker.exec_threadEffect hthread
  cases heffect with
  | still => exact h
  | goesOn _ _ hqueue hrunning hnotFinishing =>
      exact ⟨hrunning, hnotFinishing, hqueue ▸ h.noShutdown⟩
  | received command queue hqueue =>
      have hnone := h.noShutdown
      rw [hqueue, List.mem_cons, not_or] at hnone
      cases command with
      | shutdown => exact absurd rfl hnone.1
      | setPaused call paused => exact ⟨rfl, by simp [CaptureWorker.applyCommand], hnone.2⟩
  | hungUp hgone => rw [hshared] at hgone; cases hgone
  | tickPanicked hstep => rw [hstep] at hclean; cases hclean
  | flushPanicked _ hphase => exact absurd hphase h.notFinishing
  | finished _ _ hphase => exact absurd hphase h.notFinishing

theorem CaptureWorker.EndsWell.exec {worker : CaptureWorker} (h : worker.EndsWell)
    {step : WorkerStep} (hthread : step.ofThread = true) (hclean : step.Clean) :
    (worker.exec step).EndsWell := by
  generalize heq : worker.exec step = next
  have heffect := heq ▸ worker.exec_threadEffect hthread
  intro hended
  cases heffect with
  | still => exact h hended
  | goesOn _ _ _ hrunning => rw [hrunning] at hended; cases hended
  | received command queue => cases command <;> cases hended
  | hungUp => cases hended
  | tickPanicked hstep => rw [hstep] at hclean; cases hclean
  | flushPanicked hstep => rw [hstep] at hclean; cases hclean
  | finished result hstep =>
      cases result with
      | ok chunks => exact ⟨_, rfl⟩
      | error error => rw [hstep] at hclean; cases hclean

theorem CaptureWorker.EndsWell.not_in {worker : CaptureWorker} (h : worker.EndsWell)
    {phase : LoopPhase} (hended : phase.ended = true)
    (hother : ∀ report, phase ≠ .returned (.ok report)) : worker.phase ≠ phase := by
  rintro rfl
  obtain ⟨report, hreport⟩ := h hended
  exact hother report hreport

/-! ## What holds of a lifecycle -/

/-- The handle is there, and in a clean run the thread serves it. -/
def AppLifecycle.Held (clean : Prop) (s : AppLifecycle) : Prop :=
  s.worker.handle = .shared ∧ (clean → s.worker.Serving)

/-- Nothing is left that publishes, up to the call under way. -/
def AppLifecycle.Closed (s : AppLifecycle) : Prop :=
  s.worker.handle = .dropped ∧ s.dispatcher.silent = true

/-- What the position of the call says. -/
def AppLifecycle.CallStands (clean : Prop) (s : AppLifecycle) : LifecycleCall → Prop
  | .idle => s.Held clean ∨ s.worker.handle = .dropped ∧ (clean → s.Closed ∧ s.ShowsEnd)
  | .announcing next (.returns _) =>
      s.Held clean ∧ next.state ≠ .stopped ∨ s.Closed ∧ s.status = next ∧ next.state.live = false
  | .announcing next _ => s.Held clean ∧ next.state ≠ .stopped
  | .opening | .opened | .spawning | .pausing _ _ | .acknowledged _ | .publishing _ _ => s.Held clean
  | .joining => s.worker.handle = .joining ∧ (clean → s.worker.EndsWell)
  | .draining _ => s.worker.handle = .dropped
  | .stopping _ => s.Closed

/-- A Stopped was published last, and nothing is left that publishes. -/
structure AppLifecycle.HasStopped (s : AppLifecycle) : Prop where
  closed : s.Closed
  noCall : s.call = .idle
  last : ∃ front last, s.published = front ++ [last] ∧ ∀ status ∈ front, status.state ≠ .stopped

/-- `clean` says that every step so far was clean. -/
structure AppLifecycle.Managed (clean : Prop) (s : AppLifecycle) : Prop where
  call : s.CallStands clean s.call
  notSpawned : s.call.beforeLoop = true → s.dispatcher.silent = true
  announces : ∀ next, s.dispatcher = .announcing next → next.state ≠ .stopped
  noPanic : clean → s.dispatcher ≠ .panicked
  published : (∀ status ∈ s.published, status.state ≠ .stopped) ∨ s.HasStopped

variable {clean : Prop} {s : AppLifecycle}

theorem managed_starting (clean : Prop) (sampling : SamplingPolicy) (nowMs : ℕ) :
    (AppLifecycle.starting sampling nowMs).Managed clean where
  call := ⟨⟨rfl, fun _ => ⟨rfl, by simp [AppLifecycle.starting, CaptureWorker.started],
    List.not_mem_nil⟩⟩, by simp [statusOf]⟩
  notSpawned := fun _ => rfl
  announces := fun _ h => (by cases h)
  noPanic := fun _ h => (by cases h)
  published := Or.inl (fun _ h => absurd h List.not_mem_nil)

theorem AppLifecycle.Managed.stoppedIsLast (h : s.Managed clean) : s.StoppedIsLast := by
  intro front last back heq hstopped
  rcases h.published with hnone | hlast
  · refine absurd hstopped (hnone last ?_)
    rw [heq]
    simp
  · obtain ⟨front', last', hpublished, hnone⟩ := hlast.last
    rcases List.eq_nil_or_concat back with rfl | ⟨back', status, rfl⟩
    · rfl
    · -- the Stopped would stand before the last status
      have hsplit : (front ++ last :: back') ++ [status] = front' ++ [last'] := by
        rw [← hpublished, heq]
        simp
      have heq' : front ++ last :: back' = front' := (List.append_inj' hsplit rfl).1
      exact absurd hstopped (hnone last (heq' ▸ by simp))

theorem AppLifecycle.Managed.endIsShown (h : s.Managed True) : s.EndIsShown := by
  intro hsettled
  have hcall := h.call
  rw [hsettled.noCall] at hcall
  rcases hcall with ⟨-, hserving⟩ | ⟨-, hover⟩
  · have := (hserving trivial).running
    rw [hsettled.threadEnded] at this
    cases this
  · exact (hover trivial).2

/-- Steps of the thread and of the dispatcher leave what the position of the call says. -/
theorem AppLifecycle.CallStands.frame {s' : AppLifecycle} {call : LifecycleCall}
    (hcall : s.CallStands clean call) (hhandle : s'.worker.handle = s.worker.handle)
    (hserving : s.Held clean → clean → s'.worker.Serving)
    (hends : clean → s.worker.EndsWell → s'.worker.EndsWell)
    (hclosed : s.dispatcher.silent = true → s'.dispatcher.silent = true ∧ s'.status = s.status ∧
      s'.published = s.published) : s'.CallStands clean call := by
  have hheld : s.Held clean → s'.Held clean := fun h => ⟨hhandle.trans h.1, hserving h⟩
  have hstays : s.Closed → s'.Closed := fun h => ⟨hhandle.trans h.1, (hclosed h.2).1⟩
  cases call with
  | idle =>
      refine Or.imp hheld (fun ⟨hdropped, hover⟩ => ⟨hhandle.trans hdropped, fun hc => ?_⟩) hcall
      obtain ⟨hclose, hshows⟩ := hover hc
      obtain ⟨-, hstatus, hpublished⟩ := hclosed hclose.2
      refine ⟨hstays hclose, ?_⟩
      rw [AppLifecycle.ShowsEnd, hstatus, hpublished]
      exact hshows
  | announcing next after =>
      cases after with
      | returns result =>
          refine Or.imp (And.imp_left hheld) (fun ⟨hclose, hstatus, hdead⟩ => ?_) hcall
          exact ⟨hstays hclose, (hclosed hclose.2).2.1.trans hstatus, hdead⟩
      | openWorker | spawnDispatcher => exact ⟨hheld hcall.1, hcall.2⟩
  | opening | opened | spawning | pausing | acknowledged | publishing => exact hheld hcall
  | joining => exact ⟨hhandle.trans hcall.1, fun hc => hends hc (hcall.2 hc)⟩
  | draining => exact hhandle.trans hcall
  | stopping => exact hstays hcall

/-- The invariant after a step of the thread or of the dispatcher. -/
theorem AppLifecycle.Managed.frame {s' : AppLifecycle} (h : s.Managed clean)
    (hcall : s'.call = s.call) (hhandle : s'.worker.handle = s.worker.handle)
    (hserving : s.Held clean → clean → s'.worker.Serving)
    (hends : clean → s.worker.EndsWell → s'.worker.EndsWell)
    (hclosed : s.dispatcher.silent = true → s'.dispatcher.silent = true ∧ s'.status = s.status ∧
      s'.published = s.published)
    (hannounces : ∀ next, s'.dispatcher = .announcing next → next.state ≠ .stopped)
    (hnoPanic : clean → s'.dispatcher ≠ .panicked)
    (hnone : (∀ status ∈ s.published, status.state ≠ .stopped) →
      ∀ status ∈ s'.published, status.state ≠ .stopped) : s'.Managed clean where
  call := hcall ▸ h.call.frame hhandle hserving hends hclosed
  notSpawned := fun hbefore => (hclosed (h.notSpawned (hcall ▸ hbefore))).1
  announces := hannounces
  noPanic := hnoPanic
  published := by
    refine Or.imp hnone (fun hlast => ?_) h.published
    obtain ⟨hsilent, -, hpublished⟩ := hclosed hlast.closed.2
    exact ⟨⟨hhandle.trans hlast.closed.1, hsilent⟩, hcall.trans hlast.noCall,
      hpublished ▸ hlast.last⟩

theorem AppLifecycle.Managed.work (h : s.Managed clean) {step : WorkerStep}
    (hclean : clean → step.Clean) : (s.exec (.work step)).Managed clean := by
  unfold AppLifecycle.exec
  dsimp only
  split_ifs with hthread
  · refine h.frame rfl (s.worker.exec_handle hthread.1) ?_ ?_ (fun hsilent => ⟨hsilent, rfl, rfl⟩)
      h.announces h.noPanic id
    · exact fun hheld hc => (hheld.2 hc).exec hthread.1 (hclean hc) hheld.1
    · exact fun hc hends => hends.exec hthread.1 (hclean hc)
  · exact h

/-- The dispatcher's own steps, of which only one publishes. -/
theorem AppLifecycle.Managed.dispatch {s' : AppLifecycle} (h : s.Managed clean)
    (hbusy : s.dispatcher.silent = false) (hcall : s'.call = s.call)
    (hhandle : s'.worker.handle = s.worker.handle) (hphase : s'.worker.phase = s.worker.phase)
    (hqueue : s'.worker.queue = s.worker.queue)
    (hannounces : ∀ next, s'.dispatcher = .announcing next → next.state ≠ .stopped)
    (hnoPanic : clean → s'.dispatcher ≠ .panicked)
    (hnone : (∀ status ∈ s.published, status.state ≠ .stopped) →
      ∀ status ∈ s'.published, status.state ≠ .stopped) : s'.Managed clean := by
  refine h.frame hcall hhandle ?_ ?_ (fun hsilent => ?_) hannounces hnoPanic hnone
  · intro hheld hc
    obtain ⟨hrunning, hnotFinishing, hnoShutdown⟩ := hheld.2 hc
    exact ⟨hphase ▸ hrunning, hphase ▸ hnotFinishing, hqueue ▸ hnoShutdown⟩
  · intro _ hends
    rw [CaptureWorker.EndsWell, hphase]
    exact hends
  · rw [hbusy] at hsilent
    cases hsilent

theorem AppLifecycle.Managed.publishEvent (h : s.Managed clean) :
    (s.exec .publishEvent).Managed clean := by
  unfold AppLifecycle.exec
  dsimp only
  split
  · next event isPaused hholding =>
    refine h.dispatch (by rw [hholding]; rfl) rfl rfl rfl rfl (fun next hnext => ?_)
      (fun _ hpanic => (by cases hpanic)) id
    cases hnext
    cases isPaused <;> simp [workerEventStatus, pausedState]
  · exact h

theorem AppLifecycle.Managed.announceEvent (h : s.Managed clean) :
    (s.exec .announceEvent).Managed clean := by
  unfold AppLifecycle.exec
  dsimp only
  split
  · next next hannouncing =>
    refine h.dispatch (by rw [hannouncing]; rfl) rfl rfl rfl rfl (fun _ hnext => (by cases hnext))
      (fun _ hpanic => (by cases hpanic)) (fun hnone => ?_)
    exact List.forall_mem_append.2 ⟨hnone, List.forall_mem_singleton.2 (h.announces next hannouncing)⟩
  · exact h

/-- A call under way means that no Stopped was published. -/
theorem AppLifecycle.Managed.noStopped (h : s.Managed clean)
    (hbusy : s.call ≠ .idle ∨ s.worker.handle = .shared) :
    ∀ status ∈ s.published, status.state ≠ .stopped := by
  rcases h.published with hnone | hlast
  · exact hnone
  · rcases hbusy with hbusy | hshared
    · exact absurd hlast.noCall hbusy
    · have := hlast.closed.1
      rw [hshared] at this
      cases this

/-- The invariant after a step of the call that publishes nothing. -/
theorem AppLifecycle.Managed.advance {s' : AppLifecycle} (h : s.Managed clean)
    (hbusy : s.call ≠ .idle ∨ s.worker.handle = .shared) (hstands : s'.CallStands clean s'.call)
    (hbefore : s'.call.beforeLoop = true → s.call.beforeLoop = true)
    (hdispatcher : s'.dispatcher = s.dispatcher) (hpublished : s'.published = s.published) :
    s'.Managed clean where
  call := hstands
  notSpawned := fun hb => hdispatcher ▸ h.notSpawned (hbefore hb)
  announces := hdispatcher ▸ h.announces
  noPanic := hdispatcher ▸ h.noPanic
  published := Or.inl (hpublished ▸ h.noStopped hbusy)

/-- From a position of the call to the next one. -/
theorem AppLifecycle.Managed.proceed {s' : AppLifecycle} {call : LifecycleCall}
    (h : s.Managed clean) (hcall : s.call = call) (hbusy : call ≠ .idle)
    (hstands : s.CallStands clean call → s'.CallStands clean s'.call)
    (hbefore : s'.call.beforeLoop = true → call.beforeLoop = true)
    (hdispatcher : s'.dispatcher = s.dispatcher) (hpublished : s'.published = s.published) :
    s'.Managed clean := by
  subst hcall
  exact h.advance (Or.inl hbusy) (hstands h.call) hbefore hdispatcher hpublished

/-- A call that is refused at once leaves everything but the record of results. -/
theorem AppLifecycle.Managed.refuse (h : s.Managed clean) (returned : List LifecycleResult) :
    AppLifecycle.Managed clean { s with returned := returned } where
  call := h.call.frame rfl And.right (fun _ hends => hends) (fun hsilent => ⟨hsilent, rfl, rfl⟩)
  notSpawned := h.notSpawned
  announces := h.announces
  noPanic := h.noPanic
  published := h.published.imp_right (fun hlast => ⟨hlast.closed, hlast.noCall, hlast.last⟩)

theorem AppLifecycle.Managed.announce (h : s.Managed clean) : (s.exec .announce).Managed clean := by
  unfold AppLifecycle.exec
  dsimp only
  split
  · next next after hcall =>
    have hstands := h.call
    rw [hcall] at hstands
    have hnone := h.noStopped (Or.inl (by rw [hcall]; simp))
    have hwith : next.state ≠ .stopped →
        ∀ status ∈ s.published ++ [next], status.state ≠ .stopped :=
      fun hne => List.forall_mem_append.2 ⟨hnone, List.forall_mem_singleton.2 hne⟩
    cases after with
    | openWorker =>
        exact ⟨hstands.1, fun _ => h.notSpawned (by rw [hcall]; rfl), h.announces, h.noPanic,
          Or.inl (hwith hstands.2)⟩
    | spawnDispatcher =>
        exact ⟨hstands.1, fun hb => (by cases hb), h.announces, h.noPanic,
          Or.inl (hwith hstands.2)⟩
    | returns result =>
        rcases hstands with ⟨hheld, hne⟩ | ⟨hclose, hstatus, hdead⟩
        · exact ⟨Or.inl hheld, fun hb => (by cases hb), h.announces, h.noPanic, Or.inl (hwith hne)⟩
        · refine ⟨Or.inr ⟨hclose.1, fun _ => ⟨hclose, hstatus ▸ hdead, ?_⟩⟩,
            fun hb => (by cases hb), h.announces, h.noPanic, ?_⟩
          · intro last hlast
            obtain rfl : next = last := by
              simpa [AppLifecycle.andThen, AppLifecycle.returning] using hlast
            exact hdead
          · by_cases hstopped : next.state = .stopped
            · exact Or.inr ⟨hclose, rfl, s.published, next, rfl, hnone⟩
            · exact Or.inl (hwith hstopped)
  · exact h

theorem AppLifecycle.Managed.failStart (h : s.Managed clean) (error : CaptureWorkerStartError)
    (nowMs : ℕ) : (s.exec (.failStart error nowMs)).Managed clean := by
  unfold AppLifecycle.exec
  dsimp only
  split
  · next hcall =>
    refine h.proceed hcall (by simp) (fun _ => Or.inr ⟨⟨rfl, ?_⟩, rfl, rfl⟩)
      (fun hb => (by cases hb)) rfl rfl
    exact h.notSpawned (by rw [hcall]; rfl)
  · exact h

/-- A worker that serves its handle has not ended. -/
theorem AppLifecycle.Held.not_ended (h : s.Held clean) (hc : clean) :
    ¬ s.worker.phase.ended = true := by
  rw [(h.2 hc).running]
  exact Bool.false_ne_true

theorem AppLifecycle.Managed.setPaused (h : s.Managed clean) (call : ℕ) (paused : Bool) :
    (s.exec (.setPaused call paused)).Managed clean := by
  have hstands := h.call
  unfold AppLifecycle.exec
  dsimp only
  split
  · exact h
  · next hshared hcall hspawned =>
    rw [hcall] at hstands
    have hheld : s.Held clean := by
      rcases hstands with hheld | ⟨hdropped, -⟩
      · exact hheld
      · rw [hshared] at hdropped
        cases hdropped
    have haccepts : call ∉ s.worker.calls →
        ¬ (s.worker.handle = .dropped ∨ call ∈ s.worker.calls) := by
      intro hcalls
      rw [hshared, not_or]
      exact ⟨by decide, hcalls⟩
    -- the number is in use, the loop has ended, or the command is queued
    split_ifs with hcalls hended
    · exact h
    · refine h.advance (Or.inr hshared) (Or.inl ⟨?_, fun hc => absurd hended (hheld.not_ended hc)⟩)
        (fun hb => (by cases hb)) rfl rfl
      simp only [AppLifecycle.returning, CaptureWorker.exec, if_neg (haccepts hcalls),
        if_pos hended]
      exact hshared
    · have hworker : s.worker.exec (.setPaused call paused) = { s.worker with
          queue := s.worker.queue ++ [.setPaused call paused]
          calls := call :: s.worker.calls
          pending := call :: s.worker.pending
          log := s.worker.log ++ [.queued (.setPaused call paused)] } := by
        simp only [CaptureWorker.exec, if_neg (haccepts hcalls), if_neg hended]
      refine h.advance (Or.inr hshared) ?_ (fun hb => (by cases hb)) rfl rfl
      rw [hworker]
      refine ⟨hshared, fun hc => ?_⟩
      obtain ⟨hrunning, hnotFinishing, hnoShutdown⟩ := hheld.2 hc
      exact ⟨hrunning, hnotFinishing, by simpa using hnoShutdown⟩
  · exact h
  · exact h.refuse _

theorem AppLifecycle.Managed.giveUp (h : s.Managed clean) : (s.exec .giveUp).Managed clean := by
  unfold AppLifecycle.exec
  dsimp only
  split
  · next call paused hcall =>
    split_ifs with hended
    · refine h.proceed hcall (by simp) (fun hheld : s.Held clean => Or.inl ⟨?_, fun hc => ?_⟩)
        (fun hb => (by cases hb)) rfl rfl
      · simp only [AppLifecycle.returning, CaptureWorker.exec, if_pos hended]
        exact hheld.1
      · exact absurd hended.1 (hheld.not_ended hc)
    · exact h
  · exact h

theorem AppLifecycle.Managed.shutdown (h : s.Managed clean) : (s.exec .shutdown).Managed clean := by
  have hstands := h.call
  unfold AppLifecycle.exec
  dsimp only
  split
  · exact h
  · next hshared hcall hspawned =>
    rw [hcall] at hstands
    refine h.advance (Or.inr hshared) ?_ (fun hb => (by cases hb)) rfl rfl
    have hexec : (s.worker.exec .shutdown).handle = .joining ∧
        (s.worker.exec .shutdown).phase = s.worker.phase := by
      simp only [CaptureWorker.exec, hshared]
      split_ifs <;> exact ⟨rfl, rfl⟩
    refine ⟨hexec.1, fun hc hended => ?_⟩
    rw [hexec.2] at hended
    rcases hstands with hheld | ⟨hdropped, -⟩
    · exact absurd hended (hheld.not_ended hc)
    · rw [hshared] at hdropped
      cases hdropped
  · exact h
  · exact h.refuse _

theorem AppLifecycle.Managed.joinWorker (h : s.Managed clean) :
    (s.exec .joinWorker).Managed clean := by
  unfold AppLifecycle.exec
  dsimp only
  split
  · next hcall hphase =>
    exact h.proceed hcall (by simp) (fun _ => rfl) (fun hb => (by cases hb)) rfl rfl
  · next error hcall hphase =>
    refine h.proceed hcall (by simp) (fun hjoining => Or.inr ⟨rfl, fun hc => ?_⟩)
      (fun hb => (by cases hb)) rfl rfl
    exact absurd hphase ((hjoining.2 hc).not_in rfl (by simp))
  · next hcall hphase =>
    refine h.proceed hcall (by simp) (fun hjoining => Or.inr ⟨rfl, fun hc => ?_⟩)
      (fun hb => (by cases hb)) rfl rfl
    exact absurd hphase ((hjoining.2 hc).not_in rfl (by simp))
  · exact h

theorem AppLifecycle.Managed.joinDispatcher (h : s.Managed clean) :
    (s.exec .joinDispatcher).Managed clean := by
  unfold AppLifecycle.exec
  dsimp only
  split
  · next hcall hended =>
    refine h.proceed hcall (by simp) (fun hdropped => ⟨hdropped, ?_⟩) (fun hb => (by cases hb))
      rfl rfl
    rw [hended]
    rfl
  · next hcall hpanicked =>
    refine h.proceed hcall (by simp) (fun hdropped => Or.inr ⟨hdropped, fun hc => ?_⟩)
      (fun hb => (by cases hb)) rfl rfl
    exact absurd hpanicked (h.noPanic hc)
  · exact h

theorem AppLifecycle.Managed.exec (h : s.Managed clean) {step : OwnerStep}
    (hclean : clean → step.Clean) : (s.exec step).Managed clean := by
  unfold AppLifecycle.exec
  cases step with
  | announce => exact h.announce
  | failStart error nowMs => exact h.failStart error nowMs
  | work step => exact h.work hclean
  | setPaused call paused => exact h.setPaused call paused
  | giveUp => exact h.giveUp
  | shutdown => exact h.shutdown
  | joinWorker => exact h.joinWorker
  | joinDispatcher => exact h.joinDispatcher
  | publishEvent => exact h.publishEvent
  | announceEvent => exact h.announceEvent
  -- the steps of `start` that only go on to the next one
  | openWorker =>
      dsimp only
      split
      · next hcall => exact h.proceed hcall (by simp) id (fun hb => (by cases hb)) rfl rfl
      · exact h
  | publishRunning nowMs =>
      dsimp only
      split
      · next hcall =>
        exact h.proceed hcall (by simp) (fun hheld => ⟨hheld, by simp [statusOf]⟩)
          (fun hb => (by cases hb)) rfl rfl
      · exact h
  -- from here on events are published by another thread
  | spawnDispatcher =>
      dsimp only
      split
      · next hcall =>
        have hheld := h.call
        rw [hcall] at hheld
        exact ⟨Or.inl hheld, fun hb => (by cases hb), fun _ hnext => (by cases hnext),
          fun _ hpanic => (by cases hpanic), Or.inl (h.noStopped (Or.inl (by rw [hcall]; simp)))⟩
      · exact h
  | confirm =>
      dsimp only
      split
      · next call paused hcall =>
        split_ifs
        · exact h.proceed hcall (by simp) id (fun hb => (by cases hb)) rfl rfl
        · exact h
      · exact h
  | readStatus =>
      dsimp only
      split
      · next paused hcall =>
        exact h.proceed hcall (by simp) id (fun hb => (by cases hb)) rfl rfl
      · exact h
  | publishPaused nowMs =>
      dsimp only
      split
      · next paused tick hcall =>
        refine h.proceed hcall (by simp) (fun hheld => Or.inl ⟨hheld, ?_⟩)
          (fun hb => (by cases hb)) rfl rfl
        cases paused <;> simp [pausedState]
      · exact h
  | publishStopped nowMs =>
      dsimp only
      split
      · next report hcall =>
        exact h.proceed hcall (by simp) (fun hclosed => Or.inr ⟨hclosed, rfl, rfl⟩)
          (fun hb => (by cases hb)) rfl rfl
      · exact h
  -- the dispatcher: no call moves, and the worker stays as it is
  | takeEvent =>
      dsimp only
      split
      · next event rest hreceiving hevents =>
        exact h.dispatch (by rw [hreceiving]; rfl) rfl rfl rfl rfl (fun _ hnext => (by cases hnext))
          (fun _ hpanic => (by cases hpanic)) id
      · exact h
  | endDispatcher =>
      dsimp only
      split
      · next hreceiving hevents =>
        split_ifs
        · exact h.dispatch (by rw [hreceiving]; rfl) rfl rfl rfl rfl
            (fun _ hnext => (by cases hnext)) (fun _ hpanic => (by cases hpanic)) id
        · exact h
      · exact h
  | panicSink =>
      dsimp only
      split
      · next next hannouncing =>
        exact h.dispatch (by rw [hannouncing]; rfl) rfl rfl rfl rfl
          (fun _ hnext => (by cases hnext)) (fun hc => absurd (hclean hc) id) id
      · exact h

/-- **What the published status may claim.** In every run nothing is published after a Stopped; and
    in a run whose steps are clean, once the thread has ended, the dispatcher is drained and no call
    is under way, the status claims no capture thread. -/
theorem status_after_end (sampling : SamplingPolicy) (nowMs : ℕ) (steps : List OwnerStep) :
    AllStates AppLifecycle.exec AppLifecycle.StoppedIsLast (.starting sampling nowMs) steps ∧
      (StepsMeet AppLifecycle.exec (fun _ step => step.Clean) (.starting sampling nowMs) steps →
        AllStates AppLifecycle.exec AppLifecycle.EndIsShown (.starting sampling nowMs) steps) := by
  constructor
  · exact (AllStates.of_step (fun _ _ h => h.exec False.elim)
      (managed_starting False sampling nowMs)).imp (fun _ h => h.stoppedIsLast)
  · intro hsteps
    exact (AllStates.of_invariant (fun _ _ h hclean => h.exec (fun _ => hclean))
      (managed_starting True sampling nowMs) hsteps).imp (fun _ h => h.endIsShown)

/-! ## Ends of a capture thread -/

section Ends

/-- `start` to its end. -/
def startUp : List OwnerStep :=
  [.announce, .openWorker, .publishRunning 1, .announce, .spawnDispatcher]

/-- A pause, an event of a tick before it, and a shutdown that flushes. -/
def pauseAndStop : List OwnerStep :=
  startUp ++ [.work (.decide 0 5000), .work (.endTick storedEvent), .setPaused 0 true,
    .work .receive, .work .acknowledge, .confirm, .readStatus, .publishPaused 6000, .announce,
    .takeEvent, .publishEvent, .announceEvent, .shutdown, .work .receive, .work (.flush (.ok 3)),
    .joinWorker, .endDispatcher, .joinDispatcher, .publishStopped 7000, .announce]

theorem status_after_pauseAndStop :
    AllStates AppLifecycle.exec AppLifecycle.EndIsShown (.starting .ofDefault 0) pauseAndStop := by
  refine (status_after_end .ofDefault 0 pauseAndStop).2 ?_
  simp [pauseAndStop, startUp, StepsMeet, OwnerStep.Clean, WorkerStep.Clean]

example : ((final AppLifecycle.exec (.starting .ofDefault 0) pauseAndStop).published.map
    CaptureRuntimeStatus.state) = [.starting, .running, .paused, .paused, .stopped] := by decide

/-- A shutdown whose final flush fails. -/
def failedFlush : List OwnerStep :=
  startUp ++ [.work (.decide (seconds 1000) 5000), .shutdown, .work .receive,
    .work (.flush (.error (.wrongDimension [] 0 1))), .joinWorker, .endDispatcher]

/-- A tick that panics. -/
def panickedTick : List OwnerStep :=
  startUp ++ [.work (.decide 0 5000), .work .panicTick, .endDispatcher]

/-- After a failed final flush and after a panicked tick the status stays Running: the thread and
    the dispatcher are gone, and the first run has no call left that could change it. -/
theorem running_after_end :
    ¬ AllStates AppLifecycle.exec AppLifecycle.EndIsShown (.starting .ofDefault 0) failedFlush ∧
      ¬ AllStates AppLifecycle.exec AppLifecycle.EndIsShown (.starting .ofDefault 0) panickedTick := by
  have hlive : ∀ steps : List OwnerStep,
      (final AppLifecycle.exec (.starting .ofDefault 0) steps).Settled →
      (final AppLifecycle.exec (.starting .ofDefault 0) steps).status.state.live = true →
      ¬ AllStates AppLifecycle.exec AppLifecycle.EndIsShown (.starting .ofDefault 0) steps := by
    intro steps hsettled hstatus hall
    have hdead := (hall.final hsettled).1
    rw [hstatus] at hdead
    cases hdead
  exact ⟨hlive failedFlush ⟨rfl, Or.inl rfl, rfl⟩ rfl, hlive panickedTick ⟨rfl, Or.inl rfl, rfl⟩ rfl⟩

end Ends

end Fndr
