import Fndr.Capture.Pipeline

set_option autoImplicit false

/-! # Does a failed tick suppress its retry?

A tick shows its frame to the perceptual deduper before OCR, and its text or URL to the semantic
window before the sink, and neither forgets what a failing stage could not store. So the retry of a
tick that failed in one of these stages is always skipped as a duplicate (`retry_is_duplicate`). -/

namespace Fndr

open RustStd Runs

section Ticks

variable {H σ : Type} [ImageHash H] [DefaultHasher]

/-- The tick failed in OCR or in the sink. -/
def Tick.FailedInStage (tick : Tick H σ) : Prop :=
  ∃ error, tick.outcome = .failed .ocrFailed error ∨ tick.outcome = .failed .persistenceFailed error

/-- The tick did not end as a duplicate. -/
def Tick.NotDuplicate (tick : Tick H σ) : Prop :=
  tick.outcome ≠ .skipped .perceptualDuplicate ∧ tick.outcome ≠ .skipped .semanticDuplicate

/-- The second tick sees what the first one saw, inside the dedup window, and everything it calls
    succeeds. -/
structure IsRetry (windowMs : ℕ) (first second : Components H σ) : Prop where
  context : ∀ context, first.currentContext = .ok context → ∃ observedAtMs,
    observedAtMs - context.observedAtMs ≤ windowMs ∧
      second.currentContext = .ok { context with observedAtMs := observedAtMs }
  frame : ∀ frame, first.grab = .ok frame → ∃ capturedAtMs,
    capturedAtMs - frame.capturedAtMs ≤ windowMs ∧
      second.grab = .ok { frame with capturedAtMs := capturedAtMs }
  admitted : ∀ context, second.evaluate context = .allow
  recognized : ∀ png appName bundleId minChars, ∃ ocr,
    second.recognize png appName bundleId minChars = .ok ocr ∧ ocr.lowSignal = false
  persisted : ∀ sink context frame ocr,
    (second.persistCapture sink context frame ocr).1 = .ok .stored
  urlPersisted : ∀ sink context, (second.persistUrlOnly sink context).1 = .ok .stored

/-! ## What a tick leaves in the dedupers -/

theorem exec_threshold (p : CapturePipeline H σ) (c : Components H σ) :
    (p.exec c).perceptualDeduper.threshold = p.perceptualDeduper.threshold := by
  have heffect := runTickInner_effect p c
  unfold CapturePipeline.exec CapturePipeline.runTick
  generalize p.runTickInner c = tick at heffect
  cases heffect <;> rfl

/-- A tick that failed in a stage had shown its frame, or its URL, to a deduper. -/
theorem FailedInStage.seen {p : CapturePipeline H σ} {c : Components H σ}
    (h : (p.runTick c).FailedInStage) :
    (∃ context frame signature, ReachesOcr p c context frame signature ∧
      (p.exec c).perceptualDeduper = (p.perceptualDeduper.shouldSkip signature).2) ∨
    ∃ context, c.Admits context .urlOnly ∧ (p.exec c).config = p.config ∧
      (p.exec c).semanticDeduper
        = (p.seeText context (context.url.getD []) context.observedAtMs).2.semanticDeduper := by
  have heffect := runTickInner_effect p c
  unfold CapturePipeline.exec CapturePipeline.runTick
  obtain ⟨error, h⟩ := h
  unfold CapturePipeline.runTick at h
  dsimp only at h
  generalize p.runTickInner c = tick at heffect h
  cases heffect with
  | urlPersisted context hadmits => exact Or.inr ⟨context, hadmits, rfl, rfl⟩
  | ocrFailed context frame signature _ hocr =>
      exact Or.inl ⟨context, frame, signature, hocr, rfl⟩
  | persisted context frame signature _ hocr =>
      exact Or.inl ⟨context, frame, signature, hocr, rfl⟩
  | grabFailed context error' _ _ => cases error' <;> simp [CaptureError.skipReason] at h
  | _ => simp at h

/-! ## The retry -/

/-- The second tick of a page or a frame that was already shown. -/
theorem retry_outcome (hdist : ∀ h : H, ImageHash.dist h h = 0) {p : CapturePipeline H σ}
    (hthreshold : 0 < p.perceptualDeduper.threshold) {first second : Components H σ}
    (hfailed : (p.runTick first).FailedInStage)
    (hretry : IsRetry p.config.semanticDedupWindowMs first second) :
    ((p.exec first).runTick second).outcome = .skipped .perceptualDuplicate ∨
      ((p.exec first).runTick second).outcome = .skipped .semanticDuplicate := by
  rcases FailedInStage.seen hfailed with
    ⟨context, frame, signature, hocr, hseen⟩ | ⟨context, hadmits, hconfig, hseen⟩
  · left
    obtain ⟨observedAtMs, -, hcontext⟩ := hretry.context context hocr.admits.known
    obtain ⟨capturedAtMs, -, hgrab⟩ := hretry.frame frame hocr.grabbed
    have hpolicy : ({ context with observedAtMs := observedAtMs } : CaptureContext).surfacePolicy
        = .normal := hocr.admits.surface
    have hduplicate : ((p.exec first).seeFrame signature).1 = true := by
      rw [CapturePipeline.seeFrame, hseen]
      exact p.perceptualDeduper.shouldSkip_again hdist hthreshold signature
    show ((p.exec first).runTickInner second).outcome = _
    simp only [CapturePipeline.runTickInner, hcontext, hretry.admitted, hpolicy,
      CapturePipeline.captureFrame, hgrab, hocr.signed, hduplicate, if_true]
  · right
    obtain ⟨observedAtMs, hwindow, hcontext⟩ := hretry.context context hadmits.known
    have hpolicy : ({ context with observedAtMs := observedAtMs } : CaptureContext).surfacePolicy
        = .urlOnly := hadmits.surface
    have hduplicate : ((p.exec first).seeText { context with observedAtMs := observedAtMs }
        (context.url.getD []) observedAtMs).1 = true := by
      rw [CapturePipeline.seeText, hseen, hconfig]
      exact SemanticDedupWindow.shouldSkip_again _ _ hwindow
    show ((p.exec first).runTickInner second).outcome = _
    simp only [CapturePipeline.runTickInner, hcontext, hretry.admitted, hpolicy,
      CapturePipeline.persistUrlOnly, hduplicate, if_true]

/-- **Every retry of a failed tick is skipped as a duplicate.** In every state a new pipeline can
    reach, whatever its boundaries do. -/
theorem retry_is_duplicate (hdist : ∀ h : H, ImageHash.dist h h = 0) (sink : σ)
    (config : CapturePipelineConfig) (ticks : List (Components H σ)) :
    AllStates CapturePipeline.exec
      (fun p => ∀ first second, (p.runTick first).FailedInStage →
        IsRetry p.config.semanticDedupWindowMs first second →
        ¬ ((p.exec first).runTick second).NotDuplicate)
      (CapturePipeline.new sink config) ticks := by
  have hthreshold : AllStates (CapturePipeline.exec (H := H))
      (fun p => 0 < p.perceptualDeduper.threshold) (CapturePipeline.new sink config) ticks := by
    refine AllStates.of_step (fun p c h => ?_) (by decide : 0 < 5)
    rw [exec_threshold]
    exact h
  refine hthreshold.imp (fun p hp first second hfailed hretry hnot => ?_)
  rcases retry_outcome hdist hp hfailed hretry with h | h
  · exact hnot.1 h
  · exact hnot.2 h

end Ticks

/-! ## A failed OCR -/

section Example

attribute [local instance] bitHash lengthHasher

/-- One window and one frame, at a time, with what OCR says. -/
def notesTick (nowMs : ℕ) (ocr : Except PipelineError OcrOutput) : Components (List Bool) Unit where
  currentContext := .ok ⟨"Notes".toList, none, "Plan".toList, none, nowMs⟩
  evaluate := fun _ => .allow
  grab := .ok ⟨[], nowMs, some ⟨[true, false], ⟨0, 0, 0⟩⟩⟩
  recognize := fun _ _ _ _ => ocr
  persistCapture := fun sink _ _ _ => (.ok .stored, sink)
  persistUrlOnly := fun sink _ => (.ok .stored, sink)

/-- A tick on the notes whose recognition fails. -/
def visionUnavailable : Components (List Bool) Unit :=
  notesTick 1000 (.error ⟨.ocr, "Vision is unavailable".toList⟩)

/-- The same window later, recognized. -/
def visionBack : Components (List Bool) Unit :=
  notesTick 3000 (.ok ⟨"plan the next quarter".toList, false⟩)

theorem visionBack_isRetry :
    IsRetry CapturePipelineConfig.default.semanticDedupWindowMs visionUnavailable visionBack where
  context := by
    rintro context ⟨⟩
    exact ⟨3000, by decide, rfl⟩
  frame := by
    rintro frame ⟨⟩
    exact ⟨3000, by decide, rfl⟩
  admitted := fun _ => rfl
  recognized := fun _ _ _ _ => ⟨_, rfl, rfl⟩
  persisted := fun _ _ _ _ => rfl
  urlPersisted := fun _ _ => rfl

/-- A new pipeline. -/
def freshPipeline : CapturePipeline (List Bool) Unit := .new () .default

theorem retry_is_duplicate_notes :
    AllStates CapturePipeline.exec
      (fun p => ∀ first second, (p.runTick first).FailedInStage →
        IsRetry p.config.semanticDedupWindowMs first second →
        ¬ ((p.exec first).runTick second).NotDuplicate)
      freshPipeline [visionUnavailable] :=
  retry_is_duplicate bitHash_dist_self () .default [visionUnavailable]

/-- OCR fails at one second; two seconds later everything works and the frame is a duplicate. -/
theorem failed_ocr_suppresses_retry :
    (freshPipeline.runTick visionUnavailable).FailedInStage ∧
      IsRetry freshPipeline.config.semanticDedupWindowMs visionUnavailable visionBack ∧
      ¬ ((freshPipeline.exec visionUnavailable).runTick visionBack).NotDuplicate := by
  refine ⟨⟨_, Or.inl rfl⟩, visionBack_isRetry, fun h => h.1 ?_⟩
  decide +kernel

end Example

end Fndr
