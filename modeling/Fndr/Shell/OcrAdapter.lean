import Fndr.Capture.Pipeline
import Fndr.Ocr.LowSignal
import Fndr.TextSignal.HighSignal

set_option autoImplicit false

/-! # The OCR adapter of the pipeline

`VisionOcrAdapter` of `capture_adapters.rs` around the OCR engine: the recognized text is reduced to
its high-signal lines, and what the pipeline skips as weak is decided on the reduced text. The
recognizer and the score of a line are parameters. A tick that gets to the recognizer is skipped for
its evidence exactly when this is not admitted (`recognizeFrame_lowSignal_iff`), so a frame with at
least the evidence of an admitted one is not (`recognizeFrame_of_moreEvidence`). -/

namespace Fndr

open RustStd

/-- Behind the recognizer nothing is skipped for weak evidence. -/
theorem persistFrame_ne_lowSignal {H σ : Type} [DefaultHasher] (p : CapturePipeline H σ)
    (c : Components H σ) (context : CaptureContext) (frame : Frame H) (ocr : OcrOutput) :
    (p.persistFrame c context frame ocr).outcome ≠ .skipped .lowSignal := by
  unfold CapturePipeline.persistFrame
  dsimp only
  split
  · nofun
  · unfold persistenceOutcome
    dsimp only
    split <;> nofun

section Adapter

variable [UnicodeTables] [NumeralTables] {F : Type} [ScoreArith F]

/-- The recognized text with its high-signal lines alone. -/
def RecognizedText.highSignal (score : AppIdentity → Str → Bool → F) (app : AppIdentity)
    (recognized : RecognizedText F) : RecognizedText F :=
  { recognized with text := (buildHighSignalTextForApp (score app) app recognized.text).text }

/-- The text that is kept of a screen, and whether it is too weak. -/
def normalizeRecognizedText (score : AppIdentity → Str → Bool → F) (app : AppIdentity)
    (recognized : RecognizedText F) (minChars : ℕ) : OcrOutput :=
  let reduced := recognized.highSignal score app
  { text := reduced.text, lowSignal := reduced.isLowSignal minChars }

/-- `VisionOcrAdapter`: the recognizer gives the lines of an image, or the text of an error. -/
structure VisionOcrAdapter (F : Type) where
  engine : OcrEngine
  rawLines : List UInt8 → Except Str (List (Str × F))

/-- Recognize the frame's lines, then keep what is worth keeping. -/
def VisionOcrAdapter.recognize (adapter : VisionOcrAdapter F)
    (score : AppIdentity → Str → Bool → F) (png : List UInt8) (appName : Str)
    (bundleId : Option Str) (minChars : ℕ) : Except PipelineError OcrOutput :=
  match adapter.rawLines png with
  | .error error => .error ⟨.ocr, error⟩
  | .ok rawLines =>
      .ok (normalizeRecognizedText score (.new appName bundleId)
        (adapter.engine.recognizeLines rawLines).1 minChars)

/-- The evidence the pipeline decides on. -/
def VisionOcrAdapter.evidence (adapter : VisionOcrAdapter F) (score : AppIdentity → Str → Bool → F)
    (context : CaptureContext) (rawLines : List (Str × F)) : Evidence F :=
  ((adapter.engine.recognizeLines rawLines).1.highSignal score
    (.new context.appName context.bundleId)).evidence

variable {H σ : Type} [DefaultHasher]

/-- A frame is skipped for its evidence exactly when this is not admitted. -/
theorem recognizeFrame_lowSignal_iff (adapter : VisionOcrAdapter F)
    (score : AppIdentity → Str → Bool → F) (p : CapturePipeline H σ) {c : Components H σ}
    (hadapter : c.recognize = adapter.recognize score) (context : CaptureContext)
    (frame : Frame H) :
    (p.recognizeFrame c context frame).outcome = .skipped .lowSignal ↔
      ∃ rawLines, adapter.rawLines frame.png = .ok rawLines ∧
        ¬(adapter.evidence score context rawLines).Admitted p.config.minOcrChars := by
  unfold CapturePipeline.recognizeFrame
  rw [hadapter, VisionOcrAdapter.recognize]
  cases adapter.rawLines frame.png with
  | error error => exact iff_of_false nofun nofun
  | ok rawLines =>
      simp only [Except.ok.injEq, exists_eq_left']
      rw [VisionOcrAdapter.evidence, ← RecognizedText.isLowSignal_eq_false_iff, Bool.not_eq_false]
      split
      · next hlow => exact iff_of_true rfl hlow
      · next hlow => exact iff_of_false (persistFrame_ne_lowSignal p c context frame _) hlow

end Adapter

/-- A frame with at least the evidence of one that is not skipped for it is not skipped for it. -/
theorem recognizeFrame_of_moreEvidence [UnicodeTables] [NumeralTables] {H σ : Type}
    [DefaultHasher] (adapter : VisionOcrAdapter ℚ) (score : AppIdentity → Str → Bool → ℚ)
    (p : CapturePipeline H σ) {c : Components H σ}
    (hadapter : c.recognize = adapter.recognize score) {context other : CaptureContext}
    {frame more : Frame H} {lines moreLines : List (Str × ℚ)}
    (hlines : adapter.rawLines frame.png = .ok lines)
    (hmoreLines : adapter.rawLines more.png = .ok moreLines)
    (hmore : adapter.evidence score context lines ≤ adapter.evidence score other moreLines)
    (h : (p.recognizeFrame c context frame).outcome ≠ .skipped .lowSignal) :
    (p.recognizeFrame c other more).outcome ≠ .skipped .lowSignal := by
  have hadmitted : (adapter.evidence score context lines).Admitted p.config.minOcrChars := by
    by_contra hrejected
    exact h ((recognizeFrame_lowSignal_iff adapter score p hadapter context frame).2
      ⟨lines, hlines, hrejected⟩)
  intro hskipped
  obtain ⟨found, hfound, hrejected⟩ :=
    (recognizeFrame_lowSignal_iff adapter score p hadapter other more).1 hskipped
  rw [hmoreLines] at hfound
  cases hfound
  exact hrejected (Evidence.monotone_admitted _ hmore hadmitted)

end Fndr
