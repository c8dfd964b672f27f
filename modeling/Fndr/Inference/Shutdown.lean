import Fndr.Library.Runs
import Mathlib.Data.Nat.Notation

set_option autoImplicit false

/-! # Shutdown of the model worker

`Drop for ModelWorkerHandle`, `submit` and the wait loop of `run_worker`, one access to the queue's
lock, the flag or the condition variable at a time. Jobs have the number of the call that submits
them. The worker gives up the lock only as it begins to wait, but `drop` takes no lock: it can store
the flag and notify between the worker's check and its wait. Then nobody is left to notify, and
the worker waits for its timeout (`shutdownHeard_iff`). A store under the lock would be enough to
exclude this (`shutdownHeard_of_storesApart`). -/

namespace Fndr

open Runs

/-- Where the worker thread is. -/
inductive WaitPhase
  /-- About to look at the flag without the lock. -/
  | top
  | locking
  /-- With the lock, about to look at the flag. -/
  | checking
  /-- With the lock, about to pop. -/
  | popping
  /-- With the lock and without a job, about to wait. -/
  | emptyHanded
  /-- On the condition variable, without the lock. -/
  | waiting
  /-- About to lock again. -/
  | waking
  | working (call : ℕ)
  | ended
  deriving DecidableEq

/-- The phases in which the worker holds the lock of the queue. -/
def WaitPhase.holdsLock : WaitPhase → Bool
  | .checking | .popping | .emptyHanded => true
  | _ => false

/-- How far `drop` has come. -/
inductive DropPhase
  | live
  | stored
  | notified
  | joined
  deriving DecidableEq

/-- The worker, its handle and the callers, as far as the shutdown concerns them. -/
structure WorkerThreads where
  shutdown : Bool
  dropper : DropPhase
  worker : WaitPhase
  queue : List ℕ
  /-- The calls made, those about to notify, and those that wait for a reply. -/
  calls : List ℕ
  notifying : List ℕ
  receiving : List ℕ
  /-- The calls whose reply was sent, or its sender dropped. -/
  released : List ℕ

/-- The state `spawn` leaves. -/
def WorkerThreads.spawned : WorkerThreads where
  shutdown := false
  dropper := .live
  worker := .top
  queue := []
  calls := []
  notifying := []
  receiving := []
  released := []

/-- What one of the threads does next. -/
inductive ThreadsStep
  | checkFlag
  | lock
  | checkUnderLock
  | pop (call : ℕ)
  /-- Release the lock and wait. -/
  | wait
  | timeout
  | relock
  | answer
  | panic
  | push (call : ℕ)
  | notifyOne (call : ℕ)
  | receive (call : ℕ)
  | storeFlag
  | notifyAll
  | join
  deriving DecidableEq

/-- A notification reaches a worker that waits, and no other. -/
def WaitPhase.notify : WaitPhase → WaitPhase
  | .waiting => .waking
  | phase => phase

/-- Run one step; one that its thread is not ready for changes nothing. -/
def WorkerThreads.exec (threads : WorkerThreads) : ThreadsStep → WorkerThreads
  | .checkFlag =>
      match threads.worker with
      | .top => { threads with worker := if threads.shutdown then .ended else .locking }
      | _ => threads
  | .lock =>
      match threads.worker with
      | .locking => { threads with worker := .checking }
      | _ => threads
  | .checkUnderLock =>
      match threads.worker with
      | .checking => { threads with worker := if threads.shutdown then .ended else .popping }
      | _ => threads
  | .pop call =>
      match threads.worker with
      | .popping =>
          if threads.queue = [] then { threads with worker := .emptyHanded }
          else if call ∈ threads.queue then
            { threads with worker := .working call, queue := threads.queue.erase call }
          else threads
      | _ => threads
  | .wait =>
      match threads.worker with
      | .emptyHanded => { threads with worker := .waiting }
      | _ => threads
  | .timeout =>
      match threads.worker with
      | .waiting => { threads with worker := .waking }
      | _ => threads
  | .relock =>
      match threads.worker with
      | .waking => { threads with worker := .checking }
      | _ => threads
  | .answer =>
      match threads.worker with
      | .working call => { threads with worker := .top, released := call :: threads.released }
      | _ => threads
  | .panic =>
      match threads.worker with
      | .working call => { threads with worker := .ended, released := call :: threads.released }
      | _ => threads
  | .push call =>
      if threads.dropper = .live ∧ call ∉ threads.calls ∧ threads.worker.holdsLock = false then
        { threads with
          queue := threads.queue ++ [call]
          calls := call :: threads.calls
          notifying := call :: threads.notifying }
      else threads
  | .notifyOne call =>
      if call ∈ threads.notifying then
        { threads with
          worker := threads.worker.notify
          notifying := threads.notifying.erase call
          receiving := call :: threads.receiving }
      else threads
  | .receive call =>
      if call ∈ threads.released then
        { threads with receiving := threads.receiving.erase call }
      else threads
  | .storeFlag =>
      -- a call borrows the handle until it returns
      if threads.dropper = .live ∧ threads.notifying = [] ∧ threads.receiving = [] then
        { threads with shutdown := true, dropper := .stored }
      else threads
  | .notifyAll =>
      if threads.dropper = .stored then
        { threads with worker := threads.worker.notify, dropper := .notified }
      else threads
  | .join =>
      if threads.dropper = .notified ∧ threads.worker = .ended then
        { threads with dropper := .joined }
      else threads

/-- `drop` has notified, the worker waits, and nothing but its timeout wakes it. -/
def WorkerThreads.MissesShutdown (threads : WorkerThreads) : Prop :=
  threads.dropper = .notified ∧ threads.worker = .waiting ∧
    ∀ steps, .timeout ∉ steps → (final WorkerThreads.exec threads steps).worker = .waiting

/-- The worker does not begin to wait when `drop` has notified. -/
def WorkerThreads.WaitsBeforeNotify (threads : WorkerThreads) : ThreadsStep → Prop
  | .wait => threads.worker = .emptyHanded → threads.dropper ≠ .notified
  | _ => True

/-! ## What a step does -/

/-- What becomes of the threads in one step. -/
inductive WorkerThreads.Effect (threads : WorkerThreads) : ThreadsStep → WorkerThreads → Prop
  | unchanged (step : ThreadsStep) : Effect threads step threads
  | turned (step : ThreadsStep) (phase : WaitPhase) (queue released : List ℕ)
      (hbefore : threads.worker = .waiting → step = .timeout) (hafter : phase ≠ .waiting)
      (hpopping : phase = .popping → threads.shutdown = false)
      (hempty : phase = .emptyHanded → threads.worker = .popping) :
      Effect threads step { threads with worker := phase, queue := queue, released := released }
  | waits (hempty : threads.worker = .emptyHanded) :
      Effect threads .wait { threads with worker := .waiting }
  | pushed (call : ℕ) (hlive : threads.dropper = .live) :
      Effect threads (.push call) { threads with
        queue := threads.queue ++ [call]
        calls := call :: threads.calls
        notifying := call :: threads.notifying }
  | notifiedOne (call : ℕ) (hcall : call ∈ threads.notifying) :
      Effect threads (.notifyOne call) { threads with
        worker := threads.worker.notify
        notifying := threads.notifying.erase call
        receiving := call :: threads.receiving }
  | received (call : ℕ) : Effect threads (.receive call)
      { threads with receiving := threads.receiving.erase call }
  | flagStored (hlive : threads.dropper = .live) (hnotifying : threads.notifying = []) :
      Effect threads .storeFlag { threads with shutdown := true, dropper := .stored }
  | notifiedAll (hstored : threads.dropper = .stored) :
      Effect threads .notifyAll { threads with
        worker := threads.worker.notify
        dropper := .notified }
  | joined (hnotified : threads.dropper = .notified) (hended : threads.worker = .ended) :
      Effect threads .join { threads with dropper := .joined }

theorem WorkerThreads.exec_effect (threads : WorkerThreads) (step : ThreadsStep) :
    threads.Effect step (threads.exec step) := by
  have hturned (phase : WaitPhase) (hphase : threads.worker ≠ .waiting) (hafter : phase ≠ .waiting)
      (hpopping : phase = .popping → threads.shutdown = false)
      (hempty : phase = .emptyHanded → threads.worker = .popping) :
      threads.Effect step { threads with worker := phase } :=
    .turned step phase threads.queue threads.released
      (fun hwaiting => absurd hwaiting hphase) hafter hpopping hempty
  -- a step whose thread is not ready for it leaves everything as it was
  unfold WorkerThreads.exec
  cases step with
  | checkFlag =>
      dsimp only
      split
      · next hphase =>
        refine hturned _ (by simp [hphase]) ?_ ?_ ?_
        all_goals split <;> nofun
      · exact .unchanged _
  | lock =>
      dsimp only
      split
      · next hphase => exact hturned _ (by simp [hphase]) nofun nofun nofun
      · exact .unchanged _
  | checkUnderLock =>
      dsimp only
      split
      · next hphase =>
        split_ifs with hflag
        · exact hturned .ended (by simp [hphase]) nofun nofun nofun
        · exact hturned .popping (by simp [hphase]) nofun (fun _ => eq_false_of_ne_true hflag) nofun
      · exact .unchanged _
  -- with a job in hand, with none to take, or with a job that another worker has
  | pop call =>
      dsimp only
      split
      · next hphase =>
        split_ifs
        · exact hturned _ (by simp [hphase]) nofun nofun (fun _ => hphase)
        · exact .turned _ _ _ _ (fun hwaiting => by simp [hphase] at hwaiting) nofun nofun nofun
        · exact .unchanged _
      · exact .unchanged _
  | wait =>
      dsimp only
      split
      · next hphase => exact .waits hphase
      · exact .unchanged _
  | timeout =>
      dsimp only
      split
      · exact .turned _ _ _ _ (fun _ => rfl) nofun nofun nofun
      · exact .unchanged _
  | relock =>
      dsimp only
      split
      · next hphase => exact hturned _ (by simp [hphase]) nofun nofun nofun
      · exact .unchanged _
  | answer | panic =>
      dsimp only
      split
      · next hphase =>
        exact .turned _ _ _ _ (fun hwaiting => by simp [hphase] at hwaiting) nofun nofun nofun
      · exact .unchanged _
  | push call =>
      dsimp only
      split_ifs with hpush
      · exact .pushed call hpush.1
      · exact .unchanged _
  | notifyOne call =>
      dsimp only
      split_ifs with hcall
      · exact .notifiedOne call hcall
      · exact .unchanged _
  | receive call =>
      dsimp only
      split_ifs
      · exact .received call
      · exact .unchanged _
  | storeFlag =>
      dsimp only
      split_ifs with hdrop
      · exact .flagStored hdrop.1 hdrop.2.1
      · exact .unchanged _
  | notifyAll =>
      dsimp only
      split_ifs with hstored
      · exact .notifiedAll hstored
      · exact .unchanged _
  | join =>
      dsimp only
      split_ifs with hended
      · exact .joined hended.1 hended.2
      · exact .unchanged _

theorem WaitPhase.notify_ne_waiting (phase : WaitPhase) : phase.notify ≠ .waiting := by
  cases phase <;> nofun

/-! ## Waiting for the timeout -/

/-- Once the drop has begun, no call is about to notify. -/
def WorkerThreads.Quiet (threads : WorkerThreads) : Prop :=
  threads.dropper ≠ .live → threads.notifying = []

theorem WorkerThreads.Quiet.exec {threads : WorkerThreads} (h : threads.Quiet)
    (step : ThreadsStep) : (threads.exec step).Quiet := by
  have heffect := threads.exec_effect step
  generalize threads.exec step = after at heffect ⊢
  cases heffect with
  | pushed call hlive => exact fun hdropped => absurd hlive hdropped
  | notifiedOne call hcall =>
      intro hdropped
      rw [h hdropped] at hcall
      cases hcall
  | flagStored hlive hnotifying => exact fun _ => hnotifying
  | notifiedAll hstored => exact fun _ => h (by simp [hstored])
  | joined hnotified => exact fun _ => h (by simp [hnotified])
  | _ => exact h

/-- A worker that waits when `drop` has notified is woken by its timeout only. -/
theorem WorkerThreads.waiting_of_notified {threads : WorkerThreads} (hquiet : threads.Quiet)
    (hnotified : threads.dropper = .notified) (hwaiting : threads.worker = .waiting)
    {steps : List ThreadsStep} (htimeout : .timeout ∉ steps) :
    (final WorkerThreads.exec threads steps).worker = .waiting := by
  induction steps generalizing threads with
  | nil => exact hwaiting
  | cons step steps ih =>
      have hstep : step ≠ .timeout := fun heq => htimeout (heq ▸ List.mem_cons_self)
      have hnext : (threads.exec step).dropper = .notified ∧
          (threads.exec step).worker = .waiting := by
        have hnone := hquiet (by simp [hnotified])
        have heffect := threads.exec_effect step
        generalize threads.exec step = after at heffect ⊢
        cases heffect with
        | turned _ phase queue released hbefore => exact absurd (hbefore hwaiting) hstep
        | waits hempty => exact ⟨hnotified, rfl⟩
        | notifiedOne call hcall => rw [hnone] at hcall; cases hcall
        | flagStored hlive => rw [hnotified] at hlive; cases hlive
        | notifiedAll hstored => rw [hnotified] at hstored; cases hstored
        | joined _ hended => rw [hwaiting] at hended; cases hended
        | _ => exact ⟨hnotified, hwaiting⟩
      exact ih (hquiet.exec step) hnext.1 hnext.2
        fun hmem => htimeout (List.mem_cons_of_mem step hmem)

/-- No call is about to notify behind the drop, and the worker does not wait behind its
notification. -/
structure WorkerThreads.Hears (threads : WorkerThreads) : Prop where
  quiet : threads.Quiet
  apart : threads.dropper = .notified → threads.worker ≠ .waiting

theorem WorkerThreads.Hears.exec {threads : WorkerThreads} (h : threads.Hears)
    {step : ThreadsStep} (hstep : threads.WaitsBeforeNotify step) :
    (threads.exec step).Hears where
  quiet := h.quiet.exec step
  apart := by
    have heffect := threads.exec_effect step
    generalize threads.exec step = after at heffect ⊢
    cases heffect with
    | turned _ phase queue released hbefore hafter => exact fun _ => hafter
    | waits hempty => exact fun hnotified => absurd hnotified (hstep hempty)
    | notifiedOne => exact fun _ => threads.worker.notify_ne_waiting
    | flagStored => nofun
    | notifiedAll => exact fun _ => threads.worker.notify_ne_waiting
    | joined => nofun
    | _ => exact h.apart

/-- **The shutdown is never missed exactly on the runs where the worker does not begin to wait
when `drop` has notified.** -/
theorem shutdownHeard_iff (steps : List ThreadsStep) :
    AllStates WorkerThreads.exec (fun threads => ¬threads.MissesShutdown) .spawned steps ↔
      StepsMeet WorkerThreads.exec WorkerThreads.WaitsBeforeNotify .spawned steps := by
  refine allStates_iff_stepsMeet (S := WorkerThreads.Hears) (A := fun _ _ => True) ?_ ?_ ?_
    ⟨fun _ => rfl, nofun⟩ ?_
  · exact fun threads h hmisses => h.apart hmisses.1 hmisses.2.1
  · exact fun threads step h _ hstep => h.exec hstep
  · intro threads step h _ hstep hheard
    -- the step that begins to wait behind the notification
    obtain rfl : step = .wait := by
      cases step with
      | wait => rfl
      | _ => exact absurd trivial hstep
    obtain ⟨hempty, hlate⟩ := Classical.not_imp.1 hstep
    have hnotified : threads.dropper = .notified := not_not.1 hlate
    have hexec : threads.exec .wait = { threads with worker := .waiting } := by
      simp [WorkerThreads.exec, hempty]
    have hquiet : WorkerThreads.Quiet { threads with worker := .waiting } := h.quiet
    refine hheard ?_
    rw [hexec]
    exact ⟨hnotified, rfl, fun _ => WorkerThreads.waiting_of_notified hquiet hnotified rfl⟩
  · exact StepsMeet.of_allStates (I := fun _ => True) (fun _ _ _ => trivial)
      (AllStates.of_step (fun _ _ _ => trivial) trivial)

/-! ## The store under the lock -/

/-- `drop` stores the flag while the worker does not have the lock. -/
def WorkerThreads.StoresApart (threads : WorkerThreads) : ThreadsStep → Prop
  | .storeFlag => threads.worker.holdsLock = false
  | _ => True

theorem WaitPhase.holdsLock_of_checked {phase : WaitPhase}
    (h : phase = .popping ∨ phase = .emptyHanded) : phase.holdsLock = true := by
  rcases h with rfl | rfl <;> rfl

/-- A worker that has seen the flag unset has done so before it was stored. -/
structure WorkerThreads.SeesFlag (threads : WorkerThreads) : Prop where
  flag : threads.dropper ≠ .live → threads.shutdown = true
  checked : threads.worker = .popping ∨ threads.worker = .emptyHanded → threads.shutdown = false

theorem WorkerThreads.SeesFlag.exec {threads : WorkerThreads} (h : threads.SeesFlag)
    {step : ThreadsStep} (hstep : threads.StoresApart step) : (threads.exec step).SeesFlag := by
  have hnotify {phase : WaitPhase}
      (hphase : phase.notify = .popping ∨ phase.notify = .emptyHanded) :
      phase = .popping ∨ phase = .emptyHanded := by
    cases phase <;> simp_all [WaitPhase.notify]
  have heffect := threads.exec_effect step
  generalize threads.exec step = after at heffect ⊢
  cases heffect with
  | turned _ phase queue released hbefore hafter hpopping hempty =>
      exact ⟨h.flag, fun hphase =>
        hphase.elim hpopping fun hphase => h.checked (Or.inl (hempty hphase))⟩
  | waits hempty => exact ⟨h.flag, nofun⟩
  | notifiedOne => exact ⟨h.flag, fun hphase => h.checked (hnotify hphase)⟩
  | flagStored =>
      refine ⟨fun _ => rfl, fun hphase => ?_⟩
      exact absurd (hstep.symm.trans (WaitPhase.holdsLock_of_checked hphase)) Bool.false_ne_true
  | notifiedAll hstored =>
      exact ⟨fun _ => h.flag (by simp [hstored]), fun hphase => h.checked (hnotify hphase)⟩
  | joined hnotified => exact ⟨fun _ => h.flag (by simp [hnotified]), h.checked⟩
  | _ => exact ⟨h.flag, h.checked⟩

/-- Were the flag stored under the lock, the shutdown would never be missed. -/
theorem shutdownHeard_of_storesApart {steps : List ThreadsStep}
    (h : StepsMeet WorkerThreads.exec WorkerThreads.StoresApart .spawned steps) :
    AllStates WorkerThreads.exec (fun threads => ¬threads.MissesShutdown) .spawned steps := by
  have hsees : AllStates WorkerThreads.exec WorkerThreads.SeesFlag .spawned steps :=
    AllStates.of_invariant (fun threads step hsees hstep => hsees.exec hstep)
      ⟨fun hdropped => absurd rfl hdropped, by simp [WorkerThreads.spawned]⟩ h
  refine (shutdownHeard_iff steps).2 (StepsMeet.of_allStates (fun threads step hsees => ?_) hsees)
  cases step with
  | wait =>
      intro hempty hnotified
      have hset := hsees.flag (by simp [hnotified])
      rw [hsees.checked (Or.inr hempty)] at hset
      cases hset
  | _ => trivial

/-- The flag is stored and the notification sent between the worker's check and its wait. -/
def missedShutdown : List ThreadsStep :=
  [.checkFlag, .lock, .checkUnderLock, .pop 0, .storeFlag, .notifyAll, .wait]

/-- The worker then waits for its timeout. -/
theorem missesShutdown :
    ¬AllStates WorkerThreads.exec (fun threads => ¬threads.MissesShutdown) .spawned
      missedShutdown := by
  intro h
  refine h.final ⟨rfl, rfl, fun steps htimeout => ?_⟩
  exact WorkerThreads.waiting_of_notified (fun _ => rfl) rfl rfl htimeout

end Fndr
