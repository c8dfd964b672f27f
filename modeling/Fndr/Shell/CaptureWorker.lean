import Fndr.Library.History
import Fndr.Shell.CaptureLifecycle

set_option autoImplicit false

/-! # The capture worker

`run_capture_loop` of `capture_worker.rs` with its callers: the command channel, the rendezvous of
every `set_paused`, the handle that is shut down or dropped, and the loop between two receives as
one step of a transition system. A step that is not enabled changes nothing, so every run of steps
is an interleaving. What the worker did is kept in `log`.

The loop receives in four places. They differ in what they do without a command, not in what they do
with one, so an acknowledged pause holds, commands are applied in the order they were queued, and
the loop ends with one flush (`commandProtocol_throughout`). -/

namespace Fndr

open RustStd Runs History

/-! ## Sampling -/

/-- `Duration::from_secs`. Durations are nanoseconds. -/
def seconds (n : ℕ) : ℕ := n * 10 ^ 9

/-- `Duration::from_millis`. -/
def millis (n : ℕ) : ℕ := n * 10 ^ 6

/-- How often the loop captures, by how long the input has been idle. Durations are in nanoseconds.
    -/
structure SamplingPolicy where
  activeInterval : ℕ
  idleInterval : ℕ
  idleAfter : ℕ
  deepIdleAfter : ℕ
  forcedCaptureAfter : ℕ
  deriving DecidableEq

/-- `SamplingPolicy::default`. -/
def SamplingPolicy.ofDefault : SamplingPolicy where
  activeInterval := seconds 2
  idleInterval := seconds 15
  idleAfter := seconds 60
  deepIdleAfter := seconds (5 * 60)
  forcedCaptureAfter := seconds (2 * 60)

/-- What the loop does next. -/
inductive SamplingDecision
  | captureNow
  | wait (duration : ℕ)
  | deepIdle
  deriving DecidableEq

/-- Choose a cadence from an input-idle observation and the time since the last capture. -/
def SamplingPolicy.decide (policy : SamplingPolicy) (inputIdle sinceCapture : ℕ) :
    SamplingDecision :=
  if policy.deepIdleAfter ≤ inputIdle then .deepIdle
  else if policy.forcedCaptureAfter ≤ sinceCapture then .captureNow
  else
    let interval := if policy.idleAfter ≤ inputIdle then policy.idleInterval
      else policy.activeInterval
    -- `checked_sub` gives nothing, or a wait of zero
    if interval ≤ sinceCapture then .captureNow else .wait (interval - sinceCapture)

/-! ## The worker and its callers -/

/-- A `set_paused` command, under the number of its call, or a shutdown. -/
inductive WorkerCommand
  | shutdown
  | setPaused (call : ℕ) (paused : Bool)
  deriving DecidableEq

/-- The result of a shutdown. `ticks` is a `u64` in the code; with ticks `MIN_CAPTURE_INTERVAL` apart
    it does not reach its bound. -/
structure CaptureWorkerReport where
  ticks : ℕ
  shutdownFlushedChunks : ℕ

/-- Where the loop is. -/
inductive LoopPhase
  /-- The top of the loop: a decision, or the receive of a paused worker. -/
  | top
  | ticking
  /-- The `try_recv` after a tick. -/
  | afterTick
  /-- The `recv_timeout` of a wait. -/
  | waiting (duration : ℕ)
  /-- The `recv_timeout` of deep idle. -/
  | deepIdle
  /-- The `send` of an acknowledgement, which waits for the caller. -/
  | acknowledging (call : ℕ) (paused : Bool)
  /-- The `flush_on_shutdown` of `finish`. -/
  | finishing
  | returned (result : Except FlushError CaptureWorkerReport)
  | panicked

/-- The thread has ended, and with it the receiver of the commands. -/
@[simp] def LoopPhase.ended : LoopPhase → Bool
  | .returned _ | .panicked => true
  | _ => false

/-- The sender of the commands: shared by the callers, in a `shutdown` that joins the thread, or
    gone. -/
inductive HandleState
  | shared
  | joining
  | dropped
  deriving DecidableEq

/-- What happened, in order. -/
inductive LoopEvent
  | queued (command : WorkerCommand)
  | applied (command : WorkerCommand)
  /-- The rendezvous, which makes the call return `Ok`. -/
  | acknowledged (call : ℕ) (paused : Bool)
  /-- The call returns `Unavailable`. -/
  | unavailable (call : ℕ)
  | tickStarted
  | flushed
  deriving DecidableEq

/-- The worker thread with its handle, the queue of commands, the status channel, the calls of
    `set_paused` that were made, and the log of what the loop did. -/
structure CaptureWorker where
  sampling : SamplingPolicy
  handle : HandleState
  queue : List WorkerCommand
  phase : LoopPhase
  paused : Bool
  ticks : ℕ
  lastCaptureMs : ℕ
  /-- The channel of the status events. -/
  events : List CaptureWorkerEvent
  /-- The calls made, and those that have not returned. -/
  calls : List ℕ
  pending : List ℕ
  log : List LoopEvent

/-- The worker as it enters the loop. -/
def CaptureWorker.started (sampling : SamplingPolicy) : CaptureWorker where
  sampling := sampling
  handle := .shared
  queue := []
  phase := .top
  paused := false
  ticks := 0
  lastCaptureMs := 0
  events := []
  calls := []
  pending := []
  log := []

/-- The loop waits for a command, or looks for one. -/
def CaptureWorker.receives (worker : CaptureWorker) : Bool :=
  match worker.phase with
  | .top => worker.paused
  | .afterTick | .waiting _ | .deepIdle => true
  | _ => false

/-- The receive may come back without a command: `try_recv`, and `recv_timeout` in time. -/
def CaptureWorker.mayGoOn (worker : CaptureWorker) : Bool :=
  match worker.phase with
  | .afterTick | .waiting _ | .deepIdle => true
  | _ => false

/-- What can happen next: a call or the end of the handle on one side, a step of the loop on the
    other, and a reader taking an event. -/
inductive WorkerStep
  | setPaused (call : ℕ) (paused : Bool)
  | shutdown
  | dropHandle
  | decide (inputIdle nowMs : ℕ)
  | endTick (event : CaptureWorkerEvent)
  | panicTick
  | receive
  | goOn
  | disconnected
  | acknowledge
  | flush (result : Except FlushError ℕ)
  | panicFlush
  | hangUp (call : ℕ)
  | takeEvent

/-- `apply_command` on the command just received. -/
def CaptureWorker.applyCommand (worker : CaptureWorker) (command : WorkerCommand) :
    CaptureWorker :=
  match command with
  | .shutdown => { worker with phase := .finishing, log := worker.log ++ [.applied command] }
  | .setPaused call paused =>
      { worker with
        paused := paused
        phase := .acknowledging call paused
        log := worker.log ++ [.applied command] }

/-- The thread ends. The commands still queued are dropped with the receiver. -/
def CaptureWorker.endWith (worker : CaptureWorker) (phase : LoopPhase) : CaptureWorker :=
  { worker with phase := phase, queue := [] }

/-- The worker after a step. A step that cannot happen leaves it as it is. -/
def CaptureWorker.exec (worker : CaptureWorker) : WorkerStep → CaptureWorker
  | .setPaused call paused =>
      if worker.handle = .dropped ∨ call ∈ worker.calls then worker
      else if worker.phase.ended then
        -- `send` fails once the loop has dropped its receiver
        { worker with calls := call :: worker.calls, log := worker.log ++ [.unavailable call] }
      else
        { worker with
          queue := worker.queue ++ [.setPaused call paused]
          calls := call :: worker.calls
          pending := call :: worker.pending
          log := worker.log ++ [.queued (.setPaused call paused)] }
  | .shutdown =>
      match worker.handle with
      | .shared =>
          -- `shutdown` ignores a failed send and goes on to join
          if worker.phase.ended then { worker with handle := .joining }
          else
            { worker with
              handle := .joining
              queue := worker.queue ++ [.shutdown]
              log := worker.log ++ [.queued .shutdown] }
      | _ => worker
  | .dropHandle => { worker with handle := .dropped }
  | .decide inputIdle nowMs =>
      match worker.phase, worker.paused with
      | .top, false =>
          match worker.sampling.decide inputIdle (millis (nowMs - worker.lastCaptureMs)) with
          -- the time is taken before the tick, so that a slow tick counts
          | .captureNow =>
              { worker with
                phase := .ticking
                lastCaptureMs := nowMs
                log := worker.log ++ [.tickStarted] }
          | .wait duration => { worker with phase := .waiting duration }
          | .deepIdle => { worker with phase := .deepIdle }
      | _, _ => worker
  | .endTick event =>
      match worker.phase with
      | .ticking =>
          { worker with
            phase := .afterTick
            ticks := worker.ticks + 1
            events := trySend worker.events event }
      | _ => worker
  | .panicTick =>
      match worker.phase with
      | .ticking => worker.endWith .panicked
      | _ => worker
  | .receive =>
      match worker.receives, worker.queue with
      | true, command :: queue => { worker with queue := queue }.applyCommand command
      | _, _ => worker
  | .goOn =>
      if worker.mayGoOn ∧ worker.queue = [] ∧ worker.handle ≠ .dropped then
        { worker with phase := .top }
      else worker
  | .disconnected =>
      -- `recv` reports a hang-up only once the queue is empty
      if worker.receives ∧ worker.queue = [] ∧ worker.handle = .dropped then
        { worker with phase := .finishing }
      else worker
  | .acknowledge =>
      match worker.phase with
      | .acknowledging call paused =>
          { worker with
            phase := .top
            pending := worker.pending.erase call
            log := worker.log ++ [.acknowledged call paused] }
      | _ => worker
  | .flush result =>
      match worker.phase with
      | .finishing =>
          { worker with log := worker.log ++ [LoopEvent.flushed] }.endWith
            (.returned (result.map (fun chunks => ⟨worker.ticks, chunks⟩)))
      | _ => worker
  | .panicFlush =>
      match worker.phase with
      | .finishing => { worker with log := worker.log ++ [LoopEvent.flushed] }.endWith .panicked
      | _ => worker
  | .hangUp call =>
      -- the reply channel goes with the command or with the loop
      if worker.phase.ended ∧ call ∈ worker.pending then
        { worker with
          pending := worker.pending.erase call
          log := worker.log ++ [.unavailable call] }
      else worker
  | .takeEvent => { worker with events := worker.events.tail }

/-! ## What the log shows -/

/-- The call a command answers to. -/
@[simp] def WorkerCommand.call : WorkerCommand → Option ℕ
  | .shutdown => none
  | .setPaused call _ => some call

/-- The command an event put into the queue. -/
@[simp] def LoopEvent.queuedCommand : LoopEvent → Option WorkerCommand
  | .queued command => some command
  | _ => none

/-- The command an event applied. -/
@[simp] def LoopEvent.appliedCommand : LoopEvent → Option WorkerCommand
  | .applied command => some command
  | _ => none

/-- The command an event acknowledged. -/
@[simp] def LoopEvent.acknowledgedCommand : LoopEvent → Option WorkerCommand
  | .acknowledged call paused => some (.setPaused call paused)
  | _ => none

/-- The commands that were put into the queue, in order. -/
def queuedCommands (log : List LoopEvent) : List WorkerCommand :=
  log.filterMap LoopEvent.queuedCommand

/-- The commands that were applied, in order. -/
def appliedCommands (log : List LoopEvent) : List WorkerCommand :=
  log.filterMap LoopEvent.appliedCommand

/-- The commands that were acknowledged, in order. -/
def acknowledgedCommands (log : List LoopEvent) : List WorkerCommand :=
  log.filterMap LoopEvent.acknowledgedCommand

/-- A pause that was acknowledged. -/
def LoopEvent.IsPause (event : LoopEvent) : Prop := ∃ call, event = .acknowledged call true

/-- A resume that was applied. -/
def LoopEvent.IsResume (event : LoopEvent) : Prop := ∃ call, event = .applied (.setPaused call false)

/-- The start of a tick. -/
def LoopEvent.IsTick (event : LoopEvent) : Prop := event = .tickStarted

/-- The final flush. -/
def LoopEvent.IsFlush (event : LoopEvent) : Prop := event = .flushed

/-- The command protocol, read off the log. -/
structure CaptureWorker.CommandProtocol (worker : CaptureWorker) : Prop where
  /-- After an acknowledged pause no tick starts until a resume has been applied. -/
  pauseHolds : Separated LoopEvent.IsPause LoopEvent.IsResume LoopEvent.IsTick worker.log
  /-- Commands are applied in the order they were queued, none of them skipped. -/
  inOrder : appliedCommands worker.log <+: queuedCommands worker.log
  /-- Acknowledgements come in the order of the applications. -/
  acksInOrder : acknowledgedCommands worker.log <+: (appliedCommands worker.log).filter (· ≠ .shutdown)
  /-- An acknowledged command was applied, and no other of its call. -/
  appliedOnce : ∀ call paused, .acknowledged call paused ∈ worker.log →
    (appliedCommands worker.log).filter (fun command => command.call = some call)
      = [.setPaused call paused]
  /-- A loop that returned has flushed once. -/
  flushedOnce : ∀ result, worker.phase = .returned result → worker.log.count .flushed = 1
  /-- No tick starts after a flush. -/
  noLateTick : Separated LoopEvent.IsFlush (fun _ => False) LoopEvent.IsTick worker.log
  /-- The report counts the ticks. -/
  ticksReported : ∀ report, worker.phase = .returned (.ok report) →
    report.ticks = worker.log.count .tickStarted

/-! ## What a step does -/

/-- The loop is between two ticks, and owes no acknowledgement. -/
def LoopPhase.between : LoopPhase → Bool
  | .top | .afterTick | .waiting _ | .deepIdle | .finishing => true
  | _ => false

/-- What becomes of a worker in one step, whichever receive of the loop it comes from. -/
inductive CaptureWorker.Effect (worker : CaptureWorker) : CaptureWorker → Prop
  /-- Nothing that the loop and its callers see. -/
  | outside (handle : HandleState) (events : List CaptureWorkerEvent) :
      Effect worker { worker with handle := handle, events := events }
  | refused (call : ℕ) (calls pending : List ℕ) (hcalls : ∀ other ∈ worker.calls, other ∈ calls) :
      Effect worker { worker with
        calls := calls
        pending := pending
        log := worker.log ++ [.unavailable call] }
  | queued (command : WorkerCommand) (handle : HandleState) (calls pending : List ℕ)
      (hrunning : worker.phase.ended = false)
      (hcalls : ∀ call, call ∈ worker.calls ∨ command.call = some call → call ∈ calls)
      (hnew : ∀ call ∈ worker.calls, command.call ≠ some call) :
      Effect worker { worker with
        handle := handle
        queue := worker.queue ++ [command]
        calls := calls
        pending := pending
        log := worker.log ++ [.queued command] }
  | turned (phase : LoopPhase) (hbefore : worker.phase.between) (hafter : phase.between) :
      Effect worker { worker with phase := phase }
  | tickStarted (nowMs : ℕ) (hphase : worker.phase = .top) (hpaused : worker.paused = false) :
      Effect worker { worker with
        phase := .ticking
        lastCaptureMs := nowMs
        log := worker.log ++ [.tickStarted] }
  | tickEnded (events : List CaptureWorkerEvent) (hphase : worker.phase = .ticking) :
      Effect worker { worker with
        phase := .afterTick
        ticks := worker.ticks + 1
        events := events }
  | tickPanicked (hphase : worker.phase = .ticking) : Effect worker (worker.endWith .panicked)
  | applied (command : WorkerCommand) (queue : List WorkerCommand)
      (hbetween : worker.phase.between) (hqueue : worker.queue = command :: queue) :
      Effect worker ({ worker with queue := queue }.applyCommand command)
  | acknowledged (call : ℕ) (paused : Bool) (hphase : worker.phase = .acknowledging call paused) :
      Effect worker { worker with
        phase := .top
        pending := worker.pending.erase call
        log := worker.log ++ [.acknowledged call paused] }
  | flushed (phase : LoopPhase) (hphase : worker.phase = .finishing) (hended : phase.ended = true)
      (hreport : ∀ report, phase = .returned (.ok report) → report.ticks = worker.ticks) :
      Effect worker ({ worker with log := worker.log ++ [LoopEvent.flushed] }.endWith phase)

theorem LoopPhase.ended_of_between {phase : LoopPhase} (h : phase.between = true) :
    phase.ended = false := by
  cases phase <;> first | rfl | cases h

theorem CaptureWorker.between_of_receives {worker : CaptureWorker} (h : worker.receives = true) :
    worker.phase.between = true := by
  unfold CaptureWorker.receives at h
  cases hphase : worker.phase <;> simp [hphase, LoopPhase.between] at h ⊢

theorem CaptureWorker.receives_of_mayGoOn {worker : CaptureWorker} (h : worker.mayGoOn = true) :
    worker.receives = true := by
  unfold CaptureWorker.mayGoOn at h
  unfold CaptureWorker.receives
  cases hphase : worker.phase <;> simp [hphase] at h ⊢

theorem CaptureWorker.exec_effect (worker : CaptureWorker) (step : WorkerStep) :
    worker.Effect (worker.exec step) := by
  unfold CaptureWorker.exec
  cases step with
  | setPaused call paused =>
      dsimp only
      split_ifs with hrefused hended
      · exact .outside _ _
      · exact .refused _ _ _ (fun other hother => List.mem_cons_of_mem _ hother)
      · -- the loop still receives, so the call waits for its acknowledgement
        refine .queued _ _ _ _ (eq_false_of_ne_true hended) ?_ ?_
        · rintro other (hold | hsame)
          · exact List.mem_cons_of_mem _ hold
          · exact Option.some.inj hsame ▸ List.mem_cons_self
        · intro other hother hsame
          exact hrefused (Or.inr (Option.some.inj hsame ▸ hother))
  | shutdown =>
      dsimp only
      split
      · split_ifs with hended
        · exact .outside _ _
        · exact .queued _ _ _ _ (eq_false_of_ne_true hended)
            (fun call hcall => hcall.elim id nofun) (fun call _ => nofun)
      · exact .outside _ _
  | dropHandle | takeEvent => exact .outside _ _
  -- only a tick is told apart; the two waits are turns of the loop
  | decide inputIdle nowMs =>
      dsimp only
      split
      · next hphase hpaused =>
        split
        · exact .tickStarted _ hphase hpaused
        · exact .turned _ (by rw [hphase]; rfl) rfl
        · exact .turned _ (by rw [hphase]; rfl) rfl
      · exact .outside _ _
  | endTick event =>
      dsimp only
      split
      · next hphase => exact .tickEnded _ hphase
      · exact .outside _ _
  | panicTick =>
      dsimp only
      split
      · next hphase => exact .tickPanicked hphase
      · exact .outside _ _
  | receive =>
      dsimp only
      split
      · next command queue hreceives hqueue =>
        exact .applied _ _ (between_of_receives hreceives) hqueue
      · exact .outside _ _
  | goOn =>
      dsimp only
      split_ifs with hidle
      · exact .turned _ (between_of_receives (receives_of_mayGoOn hidle.1)) rfl
      · exact .outside _ _
  | disconnected =>
      dsimp only
      split_ifs with hgone
      · exact .turned _ (between_of_receives hgone.1) rfl
      · exact .outside _ _
  | acknowledge =>
      dsimp only
      split
      · next call paused hphase => exact .acknowledged _ _ hphase
      · exact .outside _ _
  | flush result =>
      dsimp only
      split
      · next hphase =>
        refine .flushed _ hphase rfl (fun report hreport => ?_)
        cases result with
        | error error => cases hreport
        | ok chunks =>
            cases hreport
            rfl
      · exact .outside _ _
  | panicFlush =>
      dsimp only
      split
      · next hphase => exact .flushed _ hphase rfl nofun
      · exact .outside _ _
  | hangUp call =>
      dsimp only
      split_ifs
      · exact .refused _ _ _ (fun _ hother => hother)
      · exact .outside _ _

/-! ## Commands -/

/-- The command that is applied and not yet acknowledged. -/
@[simp] def LoopPhase.unacknowledged : LoopPhase → List WorkerCommand
  | .acknowledging call paused => [.setPaused call paused]
  | _ => []

theorem LoopPhase.unacknowledged_of_between {phase : LoopPhase} (h : phase.between = true) :
    phase.unacknowledged = [] := by
  cases phase <;> first | rfl | cases h

theorem LoopPhase.unacknowledged_of_ended {phase : LoopPhase} (h : phase.ended = true) :
    phase.unacknowledged = [] := by
  cases phase <;> first | rfl | cases h

/-- Each call queues one command, and what was queued is what was applied and what still waits, in
    order. -/
structure CaptureWorker.CommandsInOrder (worker : CaptureWorker) : Prop where
  calls : ∀ call ∈ (queuedCommands worker.log).filterMap WorkerCommand.call, call ∈ worker.calls
  distinct : ((queuedCommands worker.log).filterMap WorkerCommand.call).Nodup
  queue : worker.phase.ended = false →
    queuedCommands worker.log = appliedCommands worker.log ++ worker.queue
  inOrder : appliedCommands worker.log <+: queuedCommands worker.log
  acks : (appliedCommands worker.log).filter (· ≠ .shutdown)
    = acknowledgedCommands worker.log ++ worker.phase.unacknowledged

@[simp] theorem queuedCommands_append (log : List LoopEvent) (event : LoopEvent) :
    queuedCommands (log ++ [event]) = queuedCommands log ++ event.queuedCommand.toList := by
  cases event <;> simp [queuedCommands]

@[simp] theorem appliedCommands_append (log : List LoopEvent) (event : LoopEvent) :
    appliedCommands (log ++ [event]) = appliedCommands log ++ event.appliedCommand.toList := by
  cases event <;> simp [appliedCommands]

@[simp] theorem acknowledgedCommands_append (log : List LoopEvent) (event : LoopEvent) :
    acknowledgedCommands (log ++ [event])
      = acknowledgedCommands log ++ event.acknowledgedCommand.toList := by
  cases event <;> simp [acknowledgedCommands]

/-- Commands are not affected by what else changes. -/
theorem CaptureWorker.CommandsInOrder.of_eq {worker after : CaptureWorker}
    (h : worker.CommandsInOrder) (hqueued : queuedCommands after.log = queuedCommands worker.log)
    (happlied : appliedCommands after.log = appliedCommands worker.log)
    (hacks : acknowledgedCommands after.log = acknowledgedCommands worker.log)
    (hcalls : ∀ call ∈ worker.calls, call ∈ after.calls)
    (hqueue : after.phase.ended = false → worker.phase.ended = false ∧ after.queue = worker.queue)
    (hphase : after.phase.unacknowledged = worker.phase.unacknowledged) : after.CommandsInOrder where
  calls call hcall := hcalls call (h.calls call (hqueued ▸ hcall))
  distinct := hqueued ▸ h.distinct
  queue hended := by
    obtain ⟨hold, hsame⟩ := hqueue hended
    rw [hqueued, happlied, hsame]
    exact h.queue hold
  inOrder := by rw [hqueued, happlied]; exact h.inOrder
  acks := by rw [happlied, hacks, hphase]; exact h.acks

/-- A command at the end of the queue of a running worker. -/
theorem CaptureWorker.CommandsInOrder.enqueue {worker after : CaptureWorker}
    (h : worker.CommandsInOrder) (command : WorkerCommand) (hended : worker.phase.ended = false)
    (hlog : after.log = worker.log ++ [.queued command]) (hphase : after.phase = worker.phase)
    (hqueue : after.queue = worker.queue ++ [command])
    (hcalls : ∀ call, call ∈ worker.calls ∨ command.call = some call → call ∈ after.calls)
    (hnew : ∀ call ∈ worker.calls, command.call ≠ some call) : after.CommandsInOrder where
  calls call hcall := by
    simp only [hlog, queuedCommands_append, LoopEvent.queuedCommand, Option.toList_some,
      List.filterMap_append, List.mem_append] at hcall
    rcases hcall with hold | hcommand
    · exact hcalls call (Or.inl (h.calls call hold))
    · exact hcalls call (Or.inr (by simpa using hcommand))
  distinct := by
    simp only [hlog, queuedCommands_append, LoopEvent.queuedCommand, Option.toList_some,
      List.filterMap_append]
    have hone : ([command].filterMap WorkerCommand.call).Nodup := by
      cases command with
      | shutdown => exact List.nodup_nil
      | setPaused call paused => exact List.nodup_singleton call
    refine h.distinct.append hone ?_
    intro call hold hcommand
    exact hnew call (h.calls call hold) (by simpa using hcommand)
  queue _ := by simp [hlog, hqueue, h.queue hended]
  inOrder := by
    rw [hlog]
    simpa using h.inOrder.trans (List.prefix_append _ _)
  acks := by simpa [hlog, hphase] using h.acks

/-- The head of the queue, applied. -/
theorem CaptureWorker.CommandsInOrder.applied {worker : CaptureWorker} (h : worker.CommandsInOrder)
    {command : WorkerCommand} {queue : List WorkerCommand} (hbetween : worker.phase.between)
    (hqueue : worker.queue = command :: queue) :
    ({ worker with queue := queue }.applyCommand command).CommandsInOrder := by
  have hqueued := h.queue (LoopPhase.ended_of_between hbetween)
  have hacks := h.acks
  rw [hqueue] at hqueued
  rw [LoopPhase.unacknowledged_of_between hbetween, List.append_nil] at hacks
  cases command with
  | shutdown | setPaused call paused =>
      refine ⟨?_, ?_, ?_, ?_, ?_⟩
      · simpa [applyCommand] using h.calls
      · simpa [applyCommand] using h.distinct
      · simpa [applyCommand] using hqueued
      · simp [applyCommand, hqueued]
      · simpa [applyCommand] using hacks

theorem CaptureWorker.CommandsInOrder.of_effect {worker after : CaptureWorker}
    (h : worker.CommandsInOrder) (heffect : worker.Effect after) : after.CommandsInOrder := by
  have hkeep : ∀ call ∈ worker.calls, call ∈ worker.calls := fun _ hcall => hcall
  cases heffect with
  | outside => exact h.of_eq rfl rfl rfl hkeep (fun hrunning => ⟨hrunning, rfl⟩) rfl
  | refused call calls pending hcalls =>
      exact h.of_eq (by simp) (by simp) (by simp) hcalls (fun hrunning => ⟨hrunning, rfl⟩) rfl
  | queued command handle calls pending hrunning hcalls hnew =>
      exact h.enqueue command hrunning rfl rfl rfl hcalls hnew
  | turned phase hbefore hafter =>
      refine h.of_eq rfl rfl rfl hkeep (fun _ => ⟨LoopPhase.ended_of_between hbefore, rfl⟩) ?_
      rw [LoopPhase.unacknowledged_of_between hbefore]
      exact LoopPhase.unacknowledged_of_between hafter
  | tickStarted nowMs hphase hpaused =>
      exact h.of_eq (by simp) (by simp) (by simp) hkeep (by simp [hphase]) (by simp [hphase])
  | tickEnded events hphase =>
      exact h.of_eq rfl rfl rfl hkeep (by simp [hphase]) (by simp [hphase])
  | tickPanicked hphase => exact h.of_eq rfl rfl rfl hkeep nofun (by simp [endWith, hphase])
  | applied command queue hbetween hqueue => exact h.applied hbetween hqueue
  | acknowledged call paused hphase =>
      have hacks := h.acks
      rw [hphase] at hacks
      refine ⟨by simpa using h.calls, by simpa using h.distinct, fun _ => ?_,
        by simpa using h.inOrder, by simpa using hacks⟩
      simpa using h.queue (by rw [hphase]; rfl)
  | flushed phase hphase hended hreport =>
      refine h.of_eq (by simp [endWith]) (by simp [endWith]) (by simp [endWith]) hkeep ?_ ?_
      · exact fun hrunning => nomatch hended.symm.trans hrunning
      · rw [hphase]
        exact LoopPhase.unacknowledged_of_ended hended

/-! ## Pauses -/

/-- A pause that was acknowledged and not resumed is in force. -/
structure CaptureWorker.PausesHold (worker : CaptureWorker) : Prop where
  flag : ∀ call paused, worker.phase = .acknowledging call paused → worker.paused = paused
  inForce : Armed LoopEvent.IsPause LoopEvent.IsResume worker.log → worker.paused = true
  noTick : Separated LoopEvent.IsPause LoopEvent.IsResume LoopEvent.IsTick worker.log

/-- An event that is neither an acknowledgement nor a tick, of a worker whose flag it leaves. -/
theorem CaptureWorker.PausesHold.of_event {worker after : CaptureWorker} (h : worker.PausesHold)
    {event : LoopEvent} (hlog : after.log = worker.log ++ [event]) (hpause : ¬ event.IsPause)
    (htick : ¬ event.IsTick) (hpaused : after.paused = worker.paused)
    (hphase : ∀ call paused, after.phase = .acknowledging call paused →
      worker.phase = .acknowledging call paused) : after.PausesHold where
  flag call paused hcall := hpaused.trans (h.flag call paused (hphase call paused hcall))
  inForce harmed := by
    rw [hlog, armed_append] at harmed
    rcases harmed with hnow | ⟨hbefore, -⟩
    · exact absurd hnow hpause
    · exact hpaused.trans (h.inForce hbefore)
  noTick := by
    rw [hlog, separated_append]
    exact ⟨h.noTick, fun hnow => absurd hnow htick⟩

/-- No event, and the flag as it was. -/
theorem CaptureWorker.PausesHold.of_quiet {worker after : CaptureWorker} (h : worker.PausesHold)
    (hlog : after.log = worker.log) (hpaused : after.paused = worker.paused)
    (hphase : ∀ call paused, after.phase = .acknowledging call paused →
      worker.phase = .acknowledging call paused) : after.PausesHold where
  flag call paused hcall := hpaused.trans (h.flag call paused (hphase call paused hcall))
  inForce := by rw [hlog, hpaused]; exact h.inForce
  noTick := by rw [hlog]; exact h.noTick

theorem CaptureWorker.PausesHold.of_effect {worker after : CaptureWorker} (h : worker.PausesHold)
    (heffect : worker.Effect after) : after.PausesHold := by
  cases heffect with
  | outside => exact h.of_quiet rfl rfl (fun _ _ hcall => hcall)
  | refused => exact h.of_event rfl nofun nofun rfl (fun _ _ hcall => hcall)
  | queued => exact h.of_event rfl nofun nofun rfl (fun _ _ hcall => hcall)
  | turned phase hbefore hafter =>
      refine h.of_quiet rfl rfl (fun call paused hphase => ?_)
      rw [show phase = .acknowledging call paused from hphase] at hafter
      cases hafter
  | tickStarted nowMs hphase hpaused =>
      -- the worker is not paused, so no pause is in force
      have hidle : ¬ Armed LoopEvent.IsPause LoopEvent.IsResume worker.log := by
        intro harmed
        rw [h.inForce harmed] at hpaused
        cases hpaused
      refine ⟨nofun, fun harmed => ?_, ?_⟩
      · rw [armed_append] at harmed
        rcases harmed with ⟨call, hcall⟩ | ⟨hbefore, -⟩
        · cases hcall
        · exact absurd hbefore hidle
      · rw [separated_append]
        exact ⟨h.noTick, fun _ => hidle⟩
  | tickEnded => exact h.of_quiet rfl rfl nofun
  | tickPanicked => exact h.of_quiet rfl rfl nofun
  | applied command queue hbetween hqueue =>
      cases command with
      | shutdown => exact h.of_event rfl nofun nofun rfl nofun
      | setPaused call paused =>
          refine ⟨?_, fun harmed => ?_, ?_⟩
          · rintro _ _ ⟨⟩
            rfl
          · -- a resume disarms the log, and a pause sets the flag
            change Armed _ _ (worker.log ++ [_]) at harmed
            rw [armed_append] at harmed
            rcases harmed with ⟨_, hcall⟩ | ⟨-, hresume⟩
            · cases hcall
            · cases paused with
              | true => rfl
              | false => exact absurd ⟨call, rfl⟩ hresume
          · change Separated _ _ _ (worker.log ++ [_])
            rw [separated_append]
            exact ⟨h.noTick, nofun⟩
  | acknowledged call paused hphase =>
      have hflag := h.flag call paused hphase
      refine ⟨nofun, fun harmed => ?_, ?_⟩
      · rw [armed_append] at harmed
        rcases harmed with ⟨_, hcall⟩ | ⟨hbefore, -⟩
        · cases hcall
          exact hflag
        · exact h.inForce hbefore
      · rw [separated_append]
        exact ⟨h.noTick, nofun⟩
  | flushed phase hphase hended hreport =>
      refine h.of_event rfl nofun nofun rfl (fun call paused hcall => ?_)
      rw [show phase = .acknowledging call paused from hcall] at hended
      cases hended

/-! ## Ticks and the flush -/

/-- The tick that has started and is not counted yet. -/
@[simp] def LoopPhase.tickInHand : LoopPhase → ℕ
  | .ticking => 1
  | _ => 0

theorem LoopPhase.tickInHand_of_between {phase : LoopPhase} (h : phase.between = true) :
    phase.tickInHand = 0 := by
  cases phase <;> first | rfl | cases h

/-- The final flush comes after everything else and once, and the ticks are counted. -/
structure CaptureWorker.FlushesLast (worker : CaptureWorker) : Prop where
  notYet : worker.phase.ended = false → .flushed ∉ worker.log
  counted : worker.phase.ended = false →
    worker.log.count .tickStarted = worker.ticks + worker.phase.tickInHand
  returned : ∀ result, worker.phase = .returned result → worker.log.count .flushed = 1 ∧
    ∀ report, result = .ok report → report.ticks = worker.log.count .tickStarted
  noLateTick : Separated LoopEvent.IsFlush (fun _ => False) LoopEvent.IsTick worker.log

theorem not_flushed {log : List LoopEvent} (h : .flushed ∉ log) :
    ¬ Armed LoopEvent.IsFlush (fun _ => False) log := by
  rw [armed_of_never (fun _ hfalse => hfalse)]
  rintro ⟨event, hmem, rfl⟩
  exact h hmem

/-- No event, and the count of the ticks as it was. -/
theorem CaptureWorker.FlushesLast.of_quiet {worker after : CaptureWorker} (h : worker.FlushesLast)
    (hlog : after.log = worker.log) (hended : after.phase.ended = false → worker.phase.ended = false)
    (hticks : worker.phase.ended = false → after.phase.ended = false →
      after.ticks + after.phase.tickInHand = worker.ticks + worker.phase.tickInHand)
    (hreturned : ∀ result, after.phase = .returned result → worker.phase = .returned result) :
    after.FlushesLast where
  notYet hrunning := hlog ▸ h.notYet (hended hrunning)
  counted hrunning := by
    rw [hlog, hticks (hended hrunning) hrunning]
    exact h.counted (hended hrunning)
  returned result hresult := hlog ▸ h.returned result (hreturned result hresult)
  noLateTick := hlog ▸ h.noLateTick

/-- An event that is neither a tick nor a flush. -/
theorem CaptureWorker.FlushesLast.of_event {worker after : CaptureWorker} (h : worker.FlushesLast)
    {event : LoopEvent} (hlog : after.log = worker.log ++ [event]) (hflush : event ≠ .flushed)
    (htick : event ≠ .tickStarted)
    (hended : after.phase.ended = false → worker.phase.ended = false)
    (hticks : after.phase.ended = false →
      after.ticks + after.phase.tickInHand = worker.ticks + worker.phase.tickInHand)
    (hreturned : ∀ result, after.phase = .returned result → worker.phase = .returned result) :
    after.FlushesLast where
  notYet hrunning := by
    rw [hlog, List.mem_append, List.mem_singleton]
    exact not_or.2 ⟨h.notYet (hended hrunning), hflush.symm⟩
  counted hrunning := by
    rw [hlog, List.count_append, List.count_singleton, beq_eq_false_iff_ne.2 htick, hticks hrunning]
    exact h.counted (hended hrunning)
  returned result hresult := by
    rw [hlog, List.count_append, List.count_append, List.count_singleton, List.count_singleton,
      beq_eq_false_iff_ne.2 htick, beq_eq_false_iff_ne.2 hflush]
    exact h.returned result (hreturned result hresult)
  noLateTick := by
    rw [hlog, separated_append]
    exact ⟨h.noLateTick, fun hnow => absurd hnow htick⟩

/-- The loop finishes with the flush, whatever it returns. -/
theorem CaptureWorker.FlushesLast.finish {worker after : CaptureWorker} (h : worker.FlushesLast)
    (hphase : worker.phase = .finishing) (hlog : after.log = worker.log ++ [.flushed])
    (hended : after.phase.ended = true)
    (hreturned : ∀ report, after.phase = .returned (.ok report) → report.ticks = worker.ticks) :
    after.FlushesLast where
  notYet hrunning := nomatch hrunning.symm.trans hended
  counted hrunning := nomatch hrunning.symm.trans hended
  returned result hresult := by
    have hrunning : worker.phase.ended = false := by rw [hphase]; rfl
    have hcounted := h.counted hrunning
    rw [hphase] at hcounted
    rw [hlog]
    refine ⟨by simp [List.count_eq_zero.2 (h.notYet hrunning)], ?_⟩
    rintro report rfl
    rw [hreturned report hresult]
    simpa using hcounted.symm
  noLateTick := by
    rw [hlog, separated_append]
    exact ⟨h.noLateTick, nofun⟩

theorem CaptureWorker.FlushesLast.of_effect {worker after : CaptureWorker} (h : worker.FlushesLast)
    (heffect : worker.Effect after) : after.FlushesLast := by
  cases heffect with
  | outside => exact h.of_quiet rfl (fun hrunning => hrunning) (fun _ _ => rfl) (fun _ h => h)
  | refused =>
      exact h.of_event rfl nofun nofun (fun hrunning => hrunning) (fun _ => rfl) (fun _ h => h)
  | queued =>
      exact h.of_event rfl nofun nofun (fun hrunning => hrunning) (fun _ => rfl) (fun _ h => h)
  | turned phase hbefore hafter =>
      refine h.of_quiet rfl (fun _ => LoopPhase.ended_of_between hbefore) (fun _ _ => ?_)
        (fun result hresult => ?_)
      · rw [LoopPhase.tickInHand_of_between hbefore, LoopPhase.tickInHand_of_between hafter]
      · rw [show phase = .returned result from hresult] at hafter
        cases hafter
  -- a tick cannot follow the flush, which ends the loop
  | tickStarted nowMs hphase hpaused =>
      have hrunning : worker.phase.ended = false := by rw [hphase]; rfl
      refine ⟨fun _ => ?_, fun _ => ?_, nofun, ?_⟩
      · simpa using h.notYet hrunning
      · have hcounted := h.counted hrunning
        rw [hphase] at hcounted
        simpa using hcounted
      · rw [separated_append]
        exact ⟨h.noLateTick, fun _ => not_flushed (h.notYet hrunning)⟩
  | tickEnded events hphase => exact h.of_quiet rfl (by simp [hphase]) (by simp [hphase]) nofun
  | tickPanicked => exact h.of_quiet rfl nofun nofun nofun
  | applied command queue hbetween hqueue =>
      have hrunning := LoopPhase.ended_of_between hbetween
      have hnone := LoopPhase.tickInHand_of_between hbetween
      cases command with
      | shutdown | setPaused call paused =>
          exact h.of_event rfl nofun nofun (fun _ => hrunning) (fun _ => by rw [hnone]; rfl) nofun
  | acknowledged call paused hphase =>
      exact h.of_event rfl nofun nofun (by simp [hphase]) (by simp [hphase]) nofun
  | flushed phase hphase hended hreport => exact h.finish hphase rfl hended hreport

/-! ## The protocol -/

/-- The three sides of the protocol, kept by every step. -/
structure CaptureWorker.Sound (worker : CaptureWorker) : Prop where
  commands : worker.CommandsInOrder
  pauses : worker.PausesHold
  flushes : worker.FlushesLast

theorem CaptureWorker.Sound.exec (worker : CaptureWorker) (step : WorkerStep) (h : worker.Sound) :
    (worker.exec step).Sound :=
  have heffect := worker.exec_effect step
  ⟨h.commands.of_effect heffect, h.pauses.of_effect heffect, h.flushes.of_effect heffect⟩

theorem CaptureWorker.sound_started (sampling : SamplingPolicy) : (started sampling).Sound where
  commands := ⟨nofun, List.nodup_nil, fun _ => rfl, List.prefix_rfl, rfl⟩
  pauses := ⟨nofun, fun harmed => absurd harmed not_armed_nil, separated_nil⟩
  flushes := ⟨fun _ => List.not_mem_nil, fun _ => rfl, nofun, separated_nil⟩

/-- A call is one command, so its commands in a log where none is queued twice are one at most. -/
theorem filter_call_eq {commands : List WorkerCommand} {call : ℕ} {paused : Bool}
    (hdistinct : (commands.filterMap WorkerCommand.call).Nodup)
    (hmem : .setPaused call paused ∈ commands) :
    commands.filter (fun command => command.call = some call) = [.setPaused call paused] := by
  induction commands with
  | nil => cases hmem
  | cons command commands ih =>
      cases command with
      | shutdown =>
          rcases List.mem_cons.1 hmem with hhead | htail
          · cases hhead
          · rw [List.filter_cons_of_neg (by simp)]
            exact ih hdistinct htail
      | setPaused other flag =>
          obtain ⟨hnew, hrest⟩ := List.nodup_cons.1 hdistinct
          by_cases hsame : other = call
          · subst hsame
            have hnone : ∀ c ∈ commands, ¬ c.call = some other :=
              fun c hc hcall => hnew (List.mem_filterMap.2 ⟨c, hc, hcall⟩)
            rcases List.mem_cons.1 hmem with hhead | htail
            · rw [List.filter_cons_of_pos (by simp), hhead,
                List.filter_eq_nil_iff.2 (fun c hc => decide_eq_true_iff.not.2 (hnone c hc))]
            · exact absurd rfl (hnone _ htail)
          · rcases List.mem_cons.1 hmem with hhead | htail
            · cases hhead
              exact absurd rfl hsame
            · rw [List.filter_cons_of_neg (by simpa using hsame)]
              exact ih hrest htail

theorem CaptureWorker.Sound.commandProtocol {worker : CaptureWorker} (h : worker.Sound) :
    worker.CommandProtocol where
  pauseHolds := h.pauses.noTick
  inOrder := h.commands.inOrder
  acksInOrder := ⟨_, h.commands.acks.symm⟩
  appliedOnce call paused hack := by
    have hacked : .setPaused call paused ∈ acknowledgedCommands worker.log :=
      List.mem_filterMap.2 ⟨_, hack, rfl⟩
    have happlied := List.mem_append_left worker.phase.unacknowledged hacked
    rw [← h.commands.acks] at happlied
    have hdistinct := (h.commands.inOrder.sublist.filterMap WorkerCommand.call).nodup
      h.commands.distinct
    exact filter_call_eq hdistinct (List.mem_filter.1 happlied).1
  flushedOnce result hresult := (h.flushes.returned result hresult).1
  noLateTick := h.flushes.noLateTick
  ticksReported report hreport := (h.flushes.returned _ hreport).2 report rfl

/-- **The command protocol.** Whatever the callers do, however the steps interleave, and whatever
    the sampler, the ticks and the flush come to: an acknowledged pause holds until a resume is
    applied, commands are applied once and in order, and the loop ends with one flush and the right
    count. -/
theorem commandProtocol_throughout (sampling : SamplingPolicy) (steps : List WorkerStep) :
    AllStates CaptureWorker.exec CaptureWorker.CommandProtocol (.started sampling) steps :=
  (AllStates.of_step CaptureWorker.Sound.exec (CaptureWorker.sound_started sampling)).imp
    (fun _ h => h.commandProtocol)

/-- A pause, a resume and a shutdown, with a tick before and after. -/
example : (final CaptureWorker.exec (.started .ofDefault)
    [.decide 0 5000, .setPaused 1 true, .endTick ⟨5000, .stored, .notDue⟩, .receive, .acknowledge,
      .setPaused 2 false, .receive, .acknowledge, .decide 0 9000, .endTick ⟨9000, .stored, .notDue⟩,
      .shutdown, .receive, .flush (.ok 3)]).log =
    [.tickStarted, .queued (.setPaused 1 true), .applied (.setPaused 1 true), .acknowledged 1 true,
      .queued (.setPaused 2 false), .applied (.setPaused 2 false), .acknowledged 2 false, .tickStarted,
      .queued .shutdown, .applied .shutdown, .flushed] := by decide

end Fndr
