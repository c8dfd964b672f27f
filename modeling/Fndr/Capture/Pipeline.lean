import Fndr.Capture.Admission
import Fndr.Capture.Dedup
import Fndr.Library.Runs

set_option autoImplicit false

/-! # The capture pipeline

`pipeline.rs`: one synchronous tick through the stages. The boundaries (context source, frame
source, gate, OCR, sink) are what a `Components` says they do during that tick, so a pipeline over
time is a run with one `Components` for each tick. A tick's result lists the boundaries it called,
the gate and the context source apart. -/

namespace Fndr

open RustStd Runs

/-- Foreground metadata acquired before any pixel capture. -/
structure CaptureContext where
  appName : Str
  bundleId : Option Str
  windowTitle : Str
  url : Option Str
  observedAtMs : ℕ
  deriving DecidableEq

/-- A named stage for failure reporting. -/
inductive CaptureStage
  | metadata
  | capture
  | ocr
  | persistence
  deriving DecidableEq

/-- A failure, by the stage it came from. -/
structure PipelineError where
  stage : CaptureStage
  message : Str
  deriving DecidableEq

/-- The terminal reason counted for a skipped or failed tick. -/
inductive SkipReason
  | metadataUnavailable
  | preCapturePrivacy
  | privateBrowsing
  | admissionPolicy
  | perceptualDuplicate
  | missingPerceptualSignature
  | lowSignal
  | semanticDuplicate
  | finalPrivacy
  | screenRecordingOrCaptureUnavailable
  | captureFailed
  | ocrFailed
  | persistenceFailed
  deriving DecidableEq

/-- What the gate says before a capture. -/
inductive GateDecision
  | allow
  | skip (reason : SkipReason)
  deriving DecidableEq

/-- Typed capture failures; an I/O error is what it displays. -/
inductive CaptureError
  | permissionOrTool (message : Str)
  | io (error : Str)
  | empty
  | perceptualSignature (message : Str)

/-- `CaptureError::to_string`. -/
def CaptureError.display : CaptureError → Str
  | .permissionOrTool message =>
      "screen recording permission missing or capture tool failed: ".toList ++ message
  | .io error => "frame source I/O failed: ".toList ++ error
  | .empty => "capture produced no image data".toList
  | .perceptualSignature message =>
      "could not derive the frame's native perceptual signature: ".toList ++ message

/-- A grabbed frame: its PNG, its time, and its signature if it has one. -/
structure Frame (H : Type) where
  png : List UInt8
  capturedAtMs : ℕ
  perceptualSignature : Option (PerceptualSignature H)

/-- The part of the OCR output the pipeline and its sinks read. -/
structure OcrOutput where
  text : Str
  lowSignal : Bool
  deriving DecidableEq

/-- What the sink did with a capture: stored it, or left it out by the last check of the policy. -/
inductive PersistenceOutcome
  | stored
  | skippedFinalPrivacy
  deriving DecidableEq

/-- The characters a text needs, and the window in which a text counts as repeated. -/
structure CapturePipelineConfig where
  minOcrChars : ℕ
  semanticDedupWindowMs : ℕ

/-- `CapturePipelineConfig::default`. -/
def CapturePipelineConfig.default : CapturePipelineConfig := ⟨12, 30000⟩

/-- What became of a tick. -/
inductive CaptureTickOutcome
  | stored
  | urlOnlyStored
  | skipped (reason : SkipReason)
  | failed (reason : SkipReason) (error : PipelineError)
  deriving DecidableEq

/-- What the ticks came to. The code counts in `u64`; a tick adds one to one counter, and 2^64 ticks
    are out of reach. -/
structure CaptureCounters where
  stored : ℕ
  urlOnlyStored : ℕ
  skipped : SkipReason → ℕ

/-- `CaptureCounters::default`. -/
def CaptureCounters.default : CaptureCounters := ⟨0, 0, fun _ => 0⟩

/-- Count a tick by its outcome. -/
def CaptureCounters.record (counters : CaptureCounters) : CaptureTickOutcome → CaptureCounters
  | .stored => { counters with stored := counters.stored + 1 }
  | .urlOnlyStored => { counters with urlOnlyStored := counters.urlOnlyStored + 1 }
  | .skipped reason | .failed reason _ =>
      { counters with
        skipped := fun r => if r = reason then counters.skipped r + 1 else counters.skipped r }

/-- What the boundaries do during one tick; `σ` is the state of the sink. -/
structure Components (H σ : Type) where
  currentContext : Except PipelineError CaptureContext
  evaluate : CaptureContext → GateDecision
  grab : Except CaptureError (Frame H)
  recognize : List UInt8 → Str → Option Str → ℕ → Except PipelineError OcrOutput
  persistCapture : σ → CaptureContext → Frame H → OcrOutput →
    Except PipelineError PersistenceOutcome × σ
  persistUrlOnly : σ → CaptureContext → Except PipelineError PersistenceOutcome × σ

/-- The sink, the configuration, the two dedupers and the counters. -/
structure CapturePipeline (H σ : Type) where
  sink : σ
  config : CapturePipelineConfig
  perceptualDeduper : PerceptualDeduper H
  semanticDeduper : SemanticDedupWindow
  counters : CaptureCounters

variable {H σ : Type}

/-- A pipeline that has seen nothing. -/
def CapturePipeline.new (sink : σ) (config : CapturePipelineConfig) : CapturePipeline H σ where
  sink := sink
  config := config
  perceptualDeduper := .default
  semanticDeduper := .default
  counters := .default

/-- The boundaries behind the gate. -/
inductive BoundaryCall
  | grab
  | recognize
  | persistCapture
  | persistUrlOnly
  deriving DecidableEq

/-- What one tick did. -/
structure Tick (H σ : Type) where
  outcome : CaptureTickOutcome
  calls : List BoundaryCall
  pipeline : CapturePipeline H σ

/-- The tick after one more call in front. -/
def Tick.after (call : BoundaryCall) (tick : Tick H σ) : Tick H σ :=
  { tick with calls := call :: tick.calls }

variable [ImageHash H] [DefaultHasher]

/-! ## The stages, last first -/

/-- Show a frame's signature to the perceptual deduper. -/
def CapturePipeline.seeFrame (p : CapturePipeline H σ) (signature : PerceptualSignature H) :
    Bool × CapturePipeline H σ :=
  let seen := p.perceptualDeduper.shouldSkip signature
  (seen.1, { p with perceptualDeduper := seen.2 })

/-- Show a text, or a URL, to the semantic window. -/
def CapturePipeline.seeText (p : CapturePipeline H σ) (context : CaptureContext) (text : Str)
    (nowMs : ℕ) : Bool × CapturePipeline H σ :=
  let signature := semanticSignature context.appName context.windowTitle text
  let seen := p.semanticDeduper.shouldSkip signature nowMs p.config.semanticDedupWindowMs
  (seen.1, { p with semanticDeduper := seen.2 })

/-- The pipeline with another sink. -/
def CapturePipeline.withSink (p : CapturePipeline H σ) (sink : σ) : CapturePipeline H σ :=
  { p with sink := sink }

/-- What a tick returns for the answer of a sink. -/
def persistenceOutcome (success : CaptureTickOutcome) :
    Except PipelineError PersistenceOutcome → CaptureTickOutcome
  | .ok .stored => success
  | .ok .skippedFinalPrivacy => .skipped .finalPrivacy
  | .error error => .failed .persistenceFailed error

/-- The end of a tick: a text not seen lately goes to the sink. -/
def CapturePipeline.persistFrame (p : CapturePipeline H σ) (c : Components H σ)
    (context : CaptureContext) (frame : Frame H) (ocr : OcrOutput) : Tick H σ :=
  -- remembered whatever the sink answers
  let seen := p.seeText context ocr.text frame.capturedAtMs
  if seen.1 then ⟨.skipped .semanticDuplicate, [], seen.2⟩
  else
    let result := c.persistCapture seen.2.sink context frame ocr
    ⟨persistenceOutcome .stored result.1, [.persistCapture], seen.2.withSink result.2⟩

/-- Recognize the frame's text; one that is too poor is skipped, any other goes on. -/
def CapturePipeline.recognizeFrame (p : CapturePipeline H σ) (c : Components H σ)
    (context : CaptureContext) (frame : Frame H) : Tick H σ :=
  match c.recognize frame.png context.appName context.bundleId p.config.minOcrChars with
  | .error error => ⟨.failed .ocrFailed error, [.recognize], p⟩
  | .ok ocr =>
      if ocr.lowSignal then ⟨.skipped .lowSignal, [.recognize], p⟩
      else (p.persistFrame c context frame ocr).after .recognize

/-- The reason a failed grab is counted under. -/
def CaptureError.skipReason : CaptureError → SkipReason
  | .permissionOrTool _ => .screenRecordingOrCaptureUnavailable
  | _ => .captureFailed

/-- Grab a frame; one like the last frames is skipped, any other goes on. -/
def CapturePipeline.captureFrame (p : CapturePipeline H σ) (c : Components H σ)
    (context : CaptureContext) : Tick H σ :=
  match c.grab with
  | .error error => ⟨.failed error.skipReason ⟨.capture, error.display⟩, [.grab], p⟩
  | .ok frame =>
      match frame.perceptualSignature with
      | none => ⟨.skipped .missingPerceptualSignature, [.grab], p⟩
      | some signature =>
          -- remembered whatever OCR and the sink answer
          let seen := p.seeFrame signature
          if seen.1 then ⟨.skipped .perceptualDuplicate, [.grab], seen.2⟩
          else (seen.2.recognizeFrame c context frame).after .grab

/-- Store the URL without looking at the screen, unless it was seen lately. -/
def CapturePipeline.persistUrlOnly (p : CapturePipeline H σ) (c : Components H σ)
    (context : CaptureContext) : Tick H σ :=
  let seen := p.seeText context (context.url.getD []) context.observedAtMs
  if seen.1 then ⟨.skipped .semanticDuplicate, [], seen.2⟩
  else
    let result := c.persistUrlOnly seen.2.sink context
    ⟨persistenceOutcome .urlOnlyStored result.1, [.persistUrlOnly], seen.2.withSink result.2⟩

/-- The surface policy of a context. -/
def CaptureContext.surfacePolicy (context : CaptureContext) : CaptureSurfacePolicy :=
  classifyCaptureSurfacePolicy context.appName context.windowTitle context.url

/-- The documented scheduler order for one capture opportunity. -/
def CapturePipeline.runTickInner (p : CapturePipeline H σ) (c : Components H σ) : Tick H σ :=
  match c.currentContext with
  | .error error => ⟨.failed .metadataUnavailable error, [], p⟩
  | .ok context =>
      match c.evaluate context with
      | .skip reason => ⟨.skipped reason, [], p⟩
      | .allow =>
          match context.surfacePolicy with
          | .skipFrame => ⟨.skipped .admissionPolicy, [], p⟩
          | .urlOnly => p.persistUrlOnly c context
          | .normal => p.captureFrame c context

/-- One tick, counted. -/
def CapturePipeline.runTick (p : CapturePipeline H σ) (c : Components H σ) : Tick H σ :=
  let tick := p.runTickInner c
  { tick with
    pipeline := { tick.pipeline with counters := tick.pipeline.counters.record tick.outcome } }

/-- The pipeline a tick leaves. -/
def CapturePipeline.exec (p : CapturePipeline H σ) (c : Components H σ) : CapturePipeline H σ :=
  (p.runTick c).pipeline

/-! ## Everything a tick can do -/

/-- The context source and the gate let the context through to the stages of its policy. -/
structure Components.Admits (c : Components H σ) (context : CaptureContext)
    (policy : CaptureSurfacePolicy) : Prop where
  known : c.currentContext = .ok context
  allowed : c.evaluate context = .allow
  surface : context.surfacePolicy = policy

/-- A new frame with a signature reached OCR. -/
structure ReachesOcr (p : CapturePipeline H σ) (c : Components H σ) (context : CaptureContext)
    (frame : Frame H) (signature : PerceptualSignature H) : Prop where
  admits : c.Admits context .normal
  grabbed : c.grab = .ok frame
  signed : frame.perceptualSignature = some signature
  unseen : (p.seeFrame signature).1 = false

/-- The exits of a tick, with what was called and what was remembered on the way. -/
inductive TickEffect (p : CapturePipeline H σ) (c : Components H σ) : Tick H σ → Prop
  | noContext (error : PipelineError) (hcontext : c.currentContext = .error error) :
      TickEffect p c ⟨.failed .metadataUnavailable error, [], p⟩
  | gated (context : CaptureContext) (reason : SkipReason)
      (hcontext : c.currentContext = .ok context) (hgate : c.evaluate context = .skip reason) :
      TickEffect p c ⟨.skipped reason, [], p⟩
  | skipFrame (context : CaptureContext) (hadmits : c.Admits context .skipFrame) :
      TickEffect p c ⟨.skipped .admissionPolicy, [], p⟩
  | urlDuplicate (context : CaptureContext) (hadmits : c.Admits context .urlOnly) :
      TickEffect p c ⟨.skipped .semanticDuplicate, [],
        (p.seeText context (context.url.getD []) context.observedAtMs).2⟩
  | urlPersisted (context : CaptureContext) (hadmits : c.Admits context .urlOnly) :
      TickEffect p c ⟨persistenceOutcome .urlOnlyStored (c.persistUrlOnly p.sink context).1,
        [.persistUrlOnly],
        (p.seeText context (context.url.getD []) context.observedAtMs).2.withSink
          (c.persistUrlOnly p.sink context).2⟩
  | grabFailed (context : CaptureContext) (error : CaptureError)
      (hadmits : c.Admits context .normal) (hgrab : c.grab = .error error) :
      TickEffect p c ⟨.failed error.skipReason ⟨.capture, error.display⟩, [.grab], p⟩
  | noSignature (context : CaptureContext) (hadmits : c.Admits context .normal) :
      TickEffect p c ⟨.skipped .missingPerceptualSignature, [.grab], p⟩
  | frameDuplicate (context : CaptureContext) (signature : PerceptualSignature H)
      (hadmits : c.Admits context .normal) :
      TickEffect p c ⟨.skipped .perceptualDuplicate, [.grab], (p.seeFrame signature).2⟩
  | ocrFailed (context : CaptureContext) (frame : Frame H) (signature : PerceptualSignature H)
      (error : PipelineError) (hocr : ReachesOcr p c context frame signature) :
      TickEffect p c ⟨.failed .ocrFailed error, [.grab, .recognize], (p.seeFrame signature).2⟩
  | lowSignal (context : CaptureContext) (frame : Frame H) (signature : PerceptualSignature H)
      (hocr : ReachesOcr p c context frame signature) :
      TickEffect p c ⟨.skipped .lowSignal, [.grab, .recognize], (p.seeFrame signature).2⟩
  | textDuplicate (context : CaptureContext) (frame : Frame H) (signature : PerceptualSignature H)
      (ocr : OcrOutput) (hocr : ReachesOcr p c context frame signature) :
      TickEffect p c ⟨.skipped .semanticDuplicate, [.grab, .recognize],
        ((p.seeFrame signature).2.seeText context ocr.text frame.capturedAtMs).2⟩
  | persisted (context : CaptureContext) (frame : Frame H) (signature : PerceptualSignature H)
      (ocr : OcrOutput) (hocr : ReachesOcr p c context frame signature) :
      TickEffect p c ⟨persistenceOutcome .stored (c.persistCapture p.sink context frame ocr).1,
        [.grab, .recognize, .persistCapture],
        ((p.seeFrame signature).2.seeText context ocr.text frame.capturedAtMs).2.withSink
          (c.persistCapture p.sink context frame ocr).2⟩

theorem captureFrame_effect (p : CapturePipeline H σ) (c : Components H σ)
    (context : CaptureContext) (hadmits : c.Admits context .normal) :
    TickEffect p c (p.captureFrame c context) := by
  unfold CapturePipeline.captureFrame
  split
  · next error hgrab => exact .grabFailed context error hadmits hgrab
  · next frame hgrab =>
    split
    · exact .noSignature context hadmits
    · next signature hsignature =>
      dsimp only
      split
      · exact .frameDuplicate context signature hadmits
      · next hnew =>
        have hocr : ReachesOcr p c context frame signature :=
          ⟨hadmits, hgrab, hsignature, Bool.eq_false_iff.2 hnew⟩
        unfold CapturePipeline.recognizeFrame
        split
        · next error _ => exact .ocrFailed context frame signature error hocr
        · next ocr _ =>
          split
          · exact .lowSignal context frame signature hocr
          · unfold CapturePipeline.persistFrame
            dsimp only
            split
            · exact .textDuplicate context frame signature ocr hocr
            · exact .persisted context frame signature ocr hocr

/-- **Every tick takes one of the exits.** -/
theorem runTickInner_effect (p : CapturePipeline H σ) (c : Components H σ) :
    TickEffect p c (p.runTickInner c) := by
  unfold CapturePipeline.runTickInner
  split
  · next error hcontext => exact .noContext error hcontext
  · next context hcontext =>
    split
    · next reason hgate => exact .gated context reason hcontext hgate
    · next hgate =>
      split
      · next hpolicy => exact .skipFrame context ⟨hcontext, hgate, hpolicy⟩
      · next hpolicy =>
        have hadmits : c.Admits context .urlOnly := ⟨hcontext, hgate, hpolicy⟩
        unfold CapturePipeline.persistUrlOnly
        dsimp only
        split
        · exact .urlDuplicate context hadmits
        · exact .urlPersisted context hadmits
      · next hpolicy => exact captureFrame_effect p c context ⟨hcontext, hgate, hpolicy⟩

/-- Pixels are grabbed for admitted normal surfaces only. -/
theorem TickEffect.admits_of_grab {p : CapturePipeline H σ} {c : Components H σ} {tick : Tick H σ}
    (h : TickEffect p c tick) (hgrab : .grab ∈ tick.calls) :
    ∃ context, c.Admits context .normal := by
  cases h with
  | grabFailed context _ hadmits _ => exact ⟨context, hadmits⟩
  | noSignature context hadmits => exact ⟨context, hadmits⟩
  | frameDuplicate context _ hadmits => exact ⟨context, hadmits⟩
  | ocrFailed context _ _ _ hocr => exact ⟨context, hocr.admits⟩
  | lowSignal context _ _ hocr => exact ⟨context, hocr.admits⟩
  | textDuplicate context _ _ _ hocr => exact ⟨context, hocr.admits⟩
  | persisted context _ _ _ hocr => exact ⟨context, hocr.admits⟩
  | _ => simp at hgrab

end Fndr
