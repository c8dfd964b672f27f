import Fndr.Shell.AppState
import Mathlib.Data.List.Chain

set_option autoImplicit false

/-! # The cadence of the capture loop

`start_worker` checks `active_interval` and nothing else, but a tick is also due after
`idle_interval` or `forced_capture_after`, and deep idle waits for `idle_interval`. `moments` is
what the loop does on a run, with the clock of every tick. Whether it stays clear of a busy loop
depends on these durations alone (`notBusy_iff`): the clock counts milliseconds, so an interval of
more than 1999 ms is as good as one of two seconds. -/

namespace Fndr

open RustStd Runs

/-- What the loop does that takes time, or is due after some. -/
inductive Moment
  | tick (nowMs : ℕ)
  | pause
  | wait (duration : ℕ)
  deriving DecidableEq

/-- The time at which a tick starts. -/
def Moment.clock : Moment → Option ℕ
  | .tick nowMs => some nowMs
  | _ => none

/-- What a step of the loop is. Deep idle waits like a wait, but not for what `decide` says. -/
def CaptureWorker.moment (worker : CaptureWorker) : WorkerStep → Option Moment
  | .decide inputIdle nowMs =>
      match worker.phase, worker.paused with
      | .top, false =>
          match worker.sampling.decide inputIdle (millis (nowMs - worker.lastCaptureMs)) with
          | .captureNow => some (.tick nowMs)
          | .wait duration => some (.wait duration)
          | .deepIdle => some (.wait worker.sampling.idleInterval)
      | _, _ => none
  -- of the commands a pause matters, since no tick is due while it lasts
  | .receive =>
      match worker.receives, worker.queue with
      | true, .setPaused _ true :: _ => some .pause
      | _, _ => none
  | _ => none

/-- What of a run counts for its cadence. -/
def CaptureWorker.moments (worker : CaptureWorker) : List WorkerStep → List Moment
  | [] => []
  | step :: steps => (worker.moment step).toList ++ (worker.exec step).moments steps

/-- The clock the loop reads at the top. -/
def WorkerStep.reading : WorkerStep → Option ℕ
  | .decide _ nowMs => some nowMs
  | _ => none

/-- The clock never goes back. -/
def NondecreasingClock (steps : List WorkerStep) : Prop :=
  (steps.filterMap WorkerStep.reading).Pairwise (· ≤ ·)

/-- Two ticks with no other tick and no pause between them are `MIN_CAPTURE_INTERVAL` apart, and no
wait is for nothing. -/
structure NotBusy (moments : List Moment) : Prop where
  spaced : ∀ before first between second after,
    moments = before ++ .tick first :: (between ++ .tick second :: after) →
    (∀ moment ∈ between, moment ≠ .pause ∧ moment.clock = none) →
    MIN_CAPTURE_INTERVAL ≤ millis (second - first)
  waits : Moment.wait 0 ∉ moments

/-- Every interval a tick can be due after is rounded up to `MIN_CAPTURE_INTERVAL` at least, and
deep idle waits. -/
structure SamplingPolicy.Unhurried (policy : SamplingPolicy) : Prop where
  deepIdle : 0 < policy.idleInterval
  forced : 0 < policy.deepIdleAfter → millis 1999 < policy.forcedCaptureAfter
  idle : policy.idleAfter < policy.deepIdleAfter → millis 1999 < policy.idleInterval

/-! ## One decision -/

theorem min_le_millis {n : ℕ} (h : millis 1999 < millis n) : MIN_CAPTURE_INTERVAL ≤ millis n := by
  simp only [MIN_CAPTURE_INTERVAL, millis, seconds] at h ⊢
  omega

/-- A tick is due after one of the three intervals. -/
theorem SamplingPolicy.decide_eq_captureNow {policy : SamplingPolicy} {inputIdle since : ℕ}
    (h : policy.decide inputIdle since = .captureNow) :
    inputIdle < policy.deepIdleAfter ∧
      (policy.forcedCaptureAfter ≤ since ∨
        (policy.idleAfter ≤ inputIdle ∧ policy.idleInterval ≤ since) ∨
        policy.activeInterval ≤ since) := by
  unfold SamplingPolicy.decide at h
  dsimp only at h
  split_ifs at h with hdeep hforced hidle hinterval hinterval
  · exact ⟨Nat.not_le.1 hdeep, Or.inl hforced⟩
  · exact ⟨Nat.not_le.1 hdeep, Or.inr (Or.inl ⟨hidle, hinterval⟩)⟩
  · exact ⟨Nat.not_le.1 hdeep, Or.inr (Or.inr hinterval)⟩

/-- A decision to wait is not for nothing. -/
theorem SamplingPolicy.decide_wait_pos {policy : SamplingPolicy} {inputIdle since duration : ℕ}
    (h : policy.decide inputIdle since = .wait duration) : 0 < duration := by
  unfold SamplingPolicy.decide at h
  dsimp only at h
  split_ifs at h with hdeep hforced hidle hinterval hinterval
  · exact SamplingDecision.wait.inj h ▸ Nat.sub_pos_of_lt (Nat.not_le.1 hinterval)
  · exact SamplingDecision.wait.inj h ▸ Nat.sub_pos_of_lt (Nat.not_le.1 hinterval)

/-- A tick is not due before the smallest interval has passed. -/
theorem SamplingPolicy.Unhurried.since_le {policy : SamplingPolicy} (h : policy.Unhurried)
    (hactive : MIN_CAPTURE_INTERVAL ≤ policy.activeInterval) {inputIdle elapsed : ℕ}
    (hnow : policy.decide inputIdle (millis elapsed) = .captureNow) :
    MIN_CAPTURE_INTERVAL ≤ millis elapsed := by
  obtain ⟨hdeep, hforced | ⟨hidle, hinterval⟩ | hinterval⟩ := decide_eq_captureNow hnow
  · exact min_le_millis ((h.forced (by omega)).trans_le hforced)
  · exact min_le_millis ((h.idle (by omega)).trans_le hinterval)
  · exact hactive.trans hinterval

/-! ## Runs -/

theorem CaptureWorker.sampling_of_effect {worker after : CaptureWorker}
    (h : worker.Effect after) : after.sampling = worker.sampling := by
  cases h with
  | applied command => cases command <;> rfl
  | _ => rfl

/-- A decision that takes effect is a moment of the loop. -/
theorem CaptureWorker.exec_decide (worker : CaptureWorker) (inputIdle nowMs : ℕ) :
    (worker.moment (.decide inputIdle nowMs) = none ∧
      (worker.exec (.decide inputIdle nowMs)).lastCaptureMs = worker.lastCaptureMs) ∨
    (worker.sampling.decide inputIdle (millis (nowMs - worker.lastCaptureMs)) = .captureNow ∧
      worker.moment (.decide inputIdle nowMs) = some (.tick nowMs) ∧
      (worker.exec (.decide inputIdle nowMs)).lastCaptureMs = nowMs) ∨
    ∃ duration, (duration = worker.sampling.idleInterval ∨
        worker.sampling.decide inputIdle (millis (nowMs - worker.lastCaptureMs)) =
          .wait duration) ∧
      worker.moment (.decide inputIdle nowMs) = some (.wait duration) ∧
      (worker.exec (.decide inputIdle nowMs)).lastCaptureMs = worker.lastCaptureMs := by
  by_cases htop : worker.phase = .top ∧ worker.paused = false
  · obtain ⟨hphase, hpaused⟩ := htop
    simp only [CaptureWorker.exec, CaptureWorker.moment, hphase, hpaused]
    cases hdecide : worker.sampling.decide inputIdle (millis (nowMs - worker.lastCaptureMs)) with
    | captureNow => exact Or.inr (Or.inl ⟨rfl, rfl, rfl⟩)
    | wait duration => exact Or.inr (Or.inr ⟨duration, Or.inr rfl, rfl, rfl⟩)
    | deepIdle => exact Or.inr (Or.inr ⟨_, Or.inl rfl, rfl, rfl⟩)
  · refine Or.inl ⟨?_, ?_⟩
    · unfold CaptureWorker.moment
      dsimp only
      split
      · next hphase hpaused => exact absurd ⟨hphase, hpaused⟩ htop
      · rfl
    · unfold CaptureWorker.exec
      dsimp only
      split
      · next hphase hpaused => exact absurd ⟨hphase, hpaused⟩ htop
      · rfl

/-- No other step is a tick or a wait. -/
theorem CaptureWorker.exec_other (worker : CaptureWorker) {step : WorkerStep}
    (h : step.reading = none) :
    (worker.moment step = none ∨ worker.moment step = some .pause) ∧
      (worker.exec step).lastCaptureMs = worker.lastCaptureMs := by
  cases step with
  | decide inputIdle nowMs => cases h
  | receive =>
      unfold CaptureWorker.exec CaptureWorker.moment
      dsimp only
      refine ⟨?_, ?_⟩
      · split
        · exact Or.inr rfl
        · exact Or.inl rfl
      · split
        · next command queue _ _ => cases command <;> rfl
        · rfl
  | _ =>
      refine ⟨Or.inl rfl, ?_⟩
      unfold CaptureWorker.exec
      dsimp only
      repeat' split
      all_goals rfl

/-- The ticks are spaced from the last capture on, and no wait is for nothing. -/
structure SpacedFrom (last : ℕ) (moments : List Moment) : Prop where
  ticks : List.IsChain (fun first second => MIN_CAPTURE_INTERVAL ≤ millis (second - first))
    (last :: moments.filterMap Moment.clock)
  waits : Moment.wait 0 ∉ moments

namespace SpacedFrom

theorem nil (last : ℕ) : SpacedFrom last [] := ⟨List.isChain_singleton last, List.not_mem_nil⟩

variable {last : ℕ} {moments : List Moment}

theorem pause (h : SpacedFrom last moments) : SpacedFrom last (.pause :: moments) where
  ticks := h.ticks
  waits := fun hmem => (List.mem_cons.1 hmem).elim nofun h.waits

theorem wait (h : SpacedFrom last moments) {duration : ℕ} (hpos : 0 < duration) :
    SpacedFrom last (.wait duration :: moments) where
  ticks := h.ticks
  waits := fun hmem => by
    rcases List.mem_cons.1 hmem with hzero | hmem
    · cases hzero
      exact Nat.lt_irrefl 0 hpos
    · exact h.waits hmem

theorem tick {nowMs : ℕ} (h : SpacedFrom nowMs moments)
    (hspaced : MIN_CAPTURE_INTERVAL ≤ millis (nowMs - last)) :
    SpacedFrom last (.tick nowMs :: moments) where
  ticks := List.isChain_cons_cons.2 ⟨hspaced, h.ticks⟩
  waits := fun hmem => (List.mem_cons.1 hmem).elim nofun h.waits

/-- Two ticks that no other tick separates are neighbours in the list of the ticks. -/
theorem notBusy (h : SpacedFrom last moments) : NotBusy moments where
  spaced := by
    intro before first between second after hmoments hbetween
    have hnone : between.filterMap Moment.clock = [] :=
      List.filterMap_eq_nil_iff.2 fun moment hmem => (hbetween moment hmem).2
    have hneighbours : [first, second] <:+: last :: moments.filterMap Moment.clock := by
      refine List.infix_cons ⟨before.filterMap Moment.clock, after.filterMap Moment.clock, ?_⟩
      simp [hmoments, hnone, Moment.clock]
    have hpair := h.ticks.infix hneighbours
    rwa [List.isChain_pair] at hpair
  waits := h.waits

end SpacedFrom

/-- A step of a worker with an unhurried policy puts its moment, if it is one, in front of spaced
ticks. -/
theorem SamplingPolicy.Unhurried.spaced_step {worker : CaptureWorker}
    (h : worker.sampling.Unhurried)
    (hactive : MIN_CAPTURE_INTERVAL ≤ worker.sampling.activeInterval) {step : WorkerStep}
    {moments : List Moment} (hnext : SpacedFrom (worker.exec step).lastCaptureMs moments) :
    SpacedFrom worker.lastCaptureMs ((worker.moment step).toList ++ moments) := by
  cases hreading : step.reading with
  | none =>
      obtain ⟨hmoment, hlast⟩ := worker.exec_other hreading
      rw [hlast] at hnext
      rcases hmoment with hmoment | hmoment <;> rw [hmoment]
      · exact hnext
      · exact hnext.pause
  | some nowMs =>
      obtain ⟨inputIdle, rfl⟩ : ∃ inputIdle, step = .decide inputIdle nowMs := by
        cases step with
        | decide inputIdle now => cases hreading; exact ⟨inputIdle, rfl⟩
        | _ => cases hreading
      rcases worker.exec_decide inputIdle nowMs with
        ⟨hmoment, hlast⟩ | ⟨hdecide, hmoment, hlast⟩ | ⟨duration, hduration, hmoment, hlast⟩ <;>
        rw [hlast] at hnext <;> rw [hmoment]
      · exact hnext
      · -- the clock has moved on since the last tick
        exact hnext.tick (h.since_le hactive hdecide)
      · refine hnext.wait ?_
        rcases hduration with rfl | hdecide
        · exact h.deepIdle
        · exact SamplingPolicy.decide_wait_pos hdecide

/-- From any state of a worker with an unhurried policy, the ticks are spaced, whatever the clock
does. By induction on the steps. -/
theorem SamplingPolicy.Unhurried.spaced_moments {worker : CaptureWorker}
    (h : worker.sampling.Unhurried)
    (hactive : MIN_CAPTURE_INTERVAL ≤ worker.sampling.activeInterval) (steps : List WorkerStep) :
    SpacedFrom worker.lastCaptureMs (worker.moments steps) := by
  induction steps generalizing worker with
  | nil => exact .nil _
  | cons step steps ih =>
      have hsampling := CaptureWorker.sampling_of_effect (worker.exec_effect step)
      refine spaced_step h hactive (ih ?_ ?_)
      · rwa [hsampling]
      · rwa [hsampling]

/-! ## Busy runs -/

theorem SamplingPolicy.decide_of_due {policy : SamplingPolicy} {inputIdle since : ℕ}
    (hdeep : inputIdle < policy.deepIdleAfter)
    (hdue : policy.forcedCaptureAfter ≤ since ∨
      policy.idleAfter ≤ inputIdle ∧ policy.idleInterval ≤ since) :
    policy.decide inputIdle since = .captureNow := by
  unfold SamplingPolicy.decide
  rw [if_neg (Nat.not_le.2 hdeep)]
  split
  · rfl
  · next hforced =>
    obtain ⟨hidle, hinterval⟩ := hdue.resolve_left hforced
    simp only [if_pos hidle, if_pos hinterval]

/-- A tick as soon as one is due, and the next one 1999 ms later. -/
def twoTicks (inputIdle startMs : ℕ) : List WorkerStep :=
  [.decide inputIdle startMs, .endTick storedEvent, .goOn, .decide inputIdle (startMs + 1999)]

theorem nondecreasingClock_twoTicks (inputIdle startMs : ℕ) :
    NondecreasingClock (twoTicks inputIdle startMs) := by
  change [startMs, startMs + 1999].Pairwise (· ≤ ·)
  simp

theorem moments_twoTicks {policy : SamplingPolicy} {inputIdle startMs : ℕ}
    (hfirst : policy.decide inputIdle (millis startMs) = .captureNow)
    (hsecond : policy.decide inputIdle (millis 1999) = .captureNow) :
    (CaptureWorker.started policy).moments (twoTicks inputIdle startMs) =
      [.tick startMs, .tick (startMs + 1999)] := by
  simp [twoTicks, CaptureWorker.moments, CaptureWorker.moment, CaptureWorker.exec,
    CaptureWorker.started, CaptureWorker.mayGoOn, hfirst, hsecond]

/-- Two ticks that are both due are too close. -/
theorem exists_busy_of_due {policy : SamplingPolicy} {inputIdle : ℕ}
    (hdeep : inputIdle < policy.deepIdleAfter)
    (hdue : policy.forcedCaptureAfter ≤ millis 1999 ∨
      policy.idleAfter ≤ inputIdle ∧ policy.idleInterval ≤ millis 1999) :
    ∃ steps, NondecreasingClock steps ∧
      ¬NotBusy ((CaptureWorker.started policy).moments steps) := by
  have hstart : policy.forcedCaptureAfter ≤ millis policy.forcedCaptureAfter :=
    Nat.le_mul_of_pos_right _ (by decide)
  refine ⟨_, nondecreasingClock_twoTicks inputIdle policy.forcedCaptureAfter, fun h => ?_⟩
  rw [moments_twoTicks (SamplingPolicy.decide_of_due hdeep (Or.inl hstart))
    (SamplingPolicy.decide_of_due hdeep hdue)] at h
  have hspaced := h.spaced [] policy.forcedCaptureAfter [] _ [] rfl nofun
  rw [Nat.add_sub_cancel_left] at hspaced
  exact absurd hspaced (by decide)

/-- Deep idle that waits for nothing spins. -/
theorem exists_busy_of_idleInterval {policy : SamplingPolicy} (h : policy.idleInterval = 0) :
    ∃ steps, NondecreasingClock steps ∧
      ¬NotBusy ((CaptureWorker.started policy).moments steps) := by
  have hdeep : policy.decide policy.deepIdleAfter (millis 0) = .deepIdle := if_pos le_rfl
  refine ⟨[.decide policy.deepIdleAfter 0], List.pairwise_singleton _ _, fun hbusy => ?_⟩
  refine hbusy.waits ?_
  simp [CaptureWorker.moments, CaptureWorker.moment, CaptureWorker.started, hdeep, h]

theorem SamplingPolicy.exists_busy {policy : SamplingPolicy} (h : ¬policy.Unhurried) :
    ∃ steps, NondecreasingClock steps ∧
      ¬NotBusy ((CaptureWorker.started policy).moments steps) := by
  by_cases hwait : 0 < policy.idleInterval
  · by_cases hforced : 0 < policy.deepIdleAfter → millis 1999 < policy.forcedCaptureAfter
    · by_cases hidle : policy.idleAfter < policy.deepIdleAfter → millis 1999 < policy.idleInterval
      · exact absurd ⟨hwait, hforced, hidle⟩ h
      · obtain ⟨hdeep, hshort⟩ := Classical.not_imp.1 hidle
        exact exists_busy_of_due hdeep (Or.inr ⟨le_rfl, Nat.not_lt.1 hshort⟩)
    · obtain ⟨hdeep, hshort⟩ := Classical.not_imp.1 hforced
      exact exists_busy_of_due hdeep (Or.inl (Nat.not_lt.1 hshort))
  · exact exists_busy_of_idleInterval (Nat.eq_zero_of_not_pos hwait)

theorem StartAttempt.min_le_of_startWorker {attempt : StartAttempt}
    {config : RealCaptureWorkerConfig} (h : attempt.startWorker config = .ok ()) :
    MIN_CAPTURE_INTERVAL ≤ config.sampling.activeInterval := by
  unfold StartAttempt.startWorker at h
  split at h
  · cases h
  · next hactive => exact Nat.not_lt.1 hactive

/-- **The loop of a worker that was started is not busy on any run exactly when the policy is
unhurried.** -/
theorem notBusy_iff (attempt : StartAttempt) (config : RealCaptureWorkerConfig)
    (h : attempt.startWorker config = .ok ()) :
    (∀ steps, NondecreasingClock steps →
      NotBusy ((CaptureWorker.started config.sampling).moments steps)) ↔
      config.sampling.Unhurried := by
  constructor
  · intro hruns
    by_contra hpolicy
    obtain ⟨steps, hclock, hbusy⟩ := SamplingPolicy.exists_busy hpolicy
    exact hbusy (hruns steps hclock)
  · intro hpolicy steps _
    have hstarted : (CaptureWorker.started config.sampling).sampling.Unhurried := hpolicy
    have hspaced := hstarted.spaced_moments (attempt.min_le_of_startWorker h) steps
    exact hspaced.notBusy

/-- A tick, a wait, a spell without input, and two ticks after it. -/
def idleSpell : List WorkerStep :=
  [.decide 0 5000, .endTick storedEvent, .goOn, .decide 0 6000, .goOn,
    .decide (seconds 600) 300000, .goOn, .decide 0 700000, .endTick storedEvent, .goOn,
    .decide (seconds 40) 702000]

/-- The policy of the app is unhurried. -/
theorem notBusy_of_workerConfig :
    let moments := (CaptureWorker.started
      (workerConfig 7 "/a".toList ⟨none, none⟩).sampling).moments idleSpell
    NotBusy moments ∧ moments = [.tick 5000, .wait (seconds 1), .wait (seconds 15), .tick 700000,
      .tick 702000] :=
  ⟨(notBusy_iff (attemptIn "/a".toList 0 (.ok ())) (workerConfig 7 "/a".toList ⟨none, none⟩)
    rfl).2 ⟨by decide, fun _ => by decide, fun _ => by decide⟩ _
      (show [5000, 6000, 300000, 700000, 702000].Pairwise (· ≤ ·) by decide), by decide +kernel⟩

/-- A policy with the smallest active interval and 20 ms between the captures of an idle machine. -/
def fastConfig : RealCaptureWorkerConfig where
  scheduler := (workerConfig 7 "/a".toList ⟨none, none⟩).scheduler
  sampling := {
    activeInterval := MIN_CAPTURE_INTERVAL
    idleInterval := millis 20
    idleAfter := millis 50
    deepIdleAfter := millis 200
    forcedCaptureAfter := seconds 120 }

/-- The worker accepts it, and captures twice in 20 ms after 100 ms without input. -/
theorem busy_of_fastConfig :
    (attemptIn "/a".toList 0 (.ok ())).startWorker fastConfig = .ok () ∧
    NondecreasingClock [.decide (millis 100) 1000000, .endTick storedEvent, .goOn,
      .decide (millis 100) 1000020] ∧
    ¬NotBusy ((CaptureWorker.started fastConfig.sampling).moments
      [.decide (millis 100) 1000000, .endTick storedEvent, .goOn,
        .decide (millis 100) 1000020]) := by
  refine ⟨rfl, show [1000000, 1000020].Pairwise (· ≤ ·) by decide, fun h => ?_⟩
  have hspaced := h.spaced [] 1000000 [] 1000020 [] (by decide) nofun
  exact absurd hspaced (by decide)

end Fndr
