import Fndr.Capture.Pipeline
import Fndr.Memory.WritePath

set_option autoImplicit false

/-! # The shell's capture adapters

`capture_adapters.rs`: the privacy gate in front of the pixels and the SQLite sink behind them, both
over one blocklist. What else a tick meets (metadata, pixels, OCR, the faults of SQLite) is its
`Surroundings`.

The metadata decides alone whether a capture is skipped, so the gate and the two checks of the write
path agree: a tick the metadata excludes ends at the gate, and no other tick is skipped for privacy
(`excluded_is_never_looked_at`). -/

namespace Fndr

open RustStd Rows Runs

section Adapters

variable [UnicodeTables] [UrlCrate]

/-- A context as the safety gate sees it. -/
def CaptureContext.safetyContext (context : CaptureContext) (ocrText : Option Str) :
    SafetyContext where
  appName := some context.appName
  bundleId := context.bundleId
  url := context.url
  windowTitle := some context.windowTitle
  ocrText := ocrText

/-- The metadata-only safety check in front of the frame source. -/
structure PrivacyGate where
  blocklist : Blocklist

/-- The decision on the context alone, before a frame is grabbed. -/
def PrivacyGate.evaluate (gate : PrivacyGate) (context : CaptureContext) : GateDecision :=
  match Fndr.evaluate (context.safetyContext none) gate.blocklist with
  | .skipStorage .privateBrowsing => .skip .privateBrowsing
  | .skipStorage _ => .skip .preCapturePrivacy
  | .allow | .redact _ => .allow

/-- The SQLite sink of one scheduler lifetime. -/
structure StoreCaptureSink where
  store : Store
  blocklist : Blocklist
  sessionId : Str
  nextSequence : ℕ

/-- A sink that has given out no id yet. -/
def StoreCaptureSink.new (store : Store) (blocklist : Blocklist) (sessionId : Str) :
    Except PipelineError StoreCaptureSink :=
  if trim sessionId = [] then
    .error ⟨.persistence, "capture sink requires a non-empty session id".toList⟩
  else
    .ok ⟨store, blocklist, sessionId, 0⟩

/-- An error of the store as the pipeline reports it. -/
def storeError (error : StoreError) : PipelineError := ⟨.persistence, error.display⟩

/-- The record id and the chunk id of the next capture. -/
def StoreCaptureSink.ids (sink : StoreCaptureSink) : (Str × Str) × StoreCaptureSink :=
  let recordId := sink.sessionId ++ "-".toList ++ (toString sink.nextSequence).toList
  ((recordId, recordId ++ "-0".toList),
    { sink with nextSequence := min (sink.nextSequence + 1) (2 ^ 64 - 1) })

/-- `persist_capture`'s outcome as the pipeline sees it. -/
def persistenceResult : Except StoreError PersistCaptureOutcome →
    Except PipelineError PersistenceOutcome
  | .error error => .error (storeError error)
  | .ok (.stored ..) => .ok .stored
  | .ok (.merged ..) => .ok .stored
  | .ok (.skipped _) => .ok .skippedFinalPrivacy

variable (F : Type) [ScoreArith F]

/-- Persist a text under ids of its own, unless its time does not fit a column. -/
def StoreCaptureSink.persist (sql : SqlFaults) (scan : Scan) (sink : StoreCaptureSink)
    (source : Str) (context : CaptureContext) (capturedAtMs : ℕ) (text : Str) :
    Except PipelineError PersistenceOutcome × StoreCaptureSink :=
  if capturedAtMs < 2 ^ 63 then
    -- the ids are spent even when nothing is stored under them
    let next := sink.ids
    let capture : CaptureForPersistence :=
      { recordId := next.1.1
        sessionId := sink.sessionId
        chunkId := next.1.2
        source := source
        appName := context.appName
        bundleId := context.bundleId
        url := context.url
        windowTitle := context.windowTitle
        ocrText := text
        capturedAtMs := capturedAtMs
        createdAtMs := capturedAtMs }
    let result := persistCapture F sql scan capture sink.blocklist sink.store
    (persistenceResult result.1, { next.2 with store := result.2 })
  else
    (.error ⟨.persistence, "capture timestamp exceeds i64".toList⟩, sink)

/-- Persist what was recognized in a frame. -/
def StoreCaptureSink.persistCapture {H : Type} (sql : SqlFaults) (scan : Scan)
    (sink : StoreCaptureSink) (context : CaptureContext) (frame : Frame H) (ocr : OcrOutput) :
    Except PipelineError PersistenceOutcome × StoreCaptureSink :=
  sink.persist F sql scan "screen".toList context frame.capturedAtMs ocr.text

/-- Persist the URL of a page whose text is not kept. -/
def StoreCaptureSink.persistUrlOnly (sql : SqlFaults) (scan : Scan) (sink : StoreCaptureSink)
    (context : CaptureContext) : Except PipelineError PersistenceOutcome × StoreCaptureSink :=
  match context.url.bind sanitizeUrlForStorage with
  | none =>
      (.error ⟨.persistence, "URL-only admission requires a sanitizable HTTP(S) URL".toList⟩, sink)
  | some safeUrl =>
      let text := context.windowTitle ++ '\n' :: safeUrl.asStr
      sink.persist F sql scan "browser_url_only".toList context context.observedAtMs text

/-- What a tick meets outside the adapters. -/
structure Surroundings (H : Type) where
  currentContext : Except PipelineError CaptureContext
  grab : Except CaptureError (Frame H)
  recognize : List UInt8 → Str → Option Str → ℕ → Except PipelineError OcrOutput
  sql : SqlFaults
  scan : Scan

/-- The real gate and the real sink in these surroundings. -/
def PrivacyGate.components {H : Type} (gate : PrivacyGate) (s : Surroundings H) :
    Components H StoreCaptureSink where
  currentContext := s.currentContext
  evaluate := gate.evaluate
  grab := s.grab
  recognize := s.recognize
  persistCapture := StoreCaptureSink.persistCapture F s.sql s.scan
  persistUrlOnly := StoreCaptureSink.persistUrlOnly F s.sql s.scan

/-! ## The gate and the write path agree -/

omit [UnicodeTables] [UrlCrate] in
theorem SafetyDecision.thenText_eq_skipStorage {decision textRule : SafetyDecision}
    (htext : ∀ reason, textRule ≠ .skipStorage reason) {reason : SafetyReason} :
    decision.thenText textRule = .skipStorage reason ↔ decision = .skipStorage reason := by
  cases decision with
  | skipStorage _ => exact Iff.rfl
  | allow => exact ⟨fun h => absurd h (htext reason), fun h => by cases h⟩
  | redact _ => exact ⟨fun h => absurd h (htext reason), fun h => by cases h⟩

/-- **Text neither makes nor lifts a skip.** -/
theorem evaluate_withText_eq_skipStorage (context : SafetyContext) (blocklist : Blocklist)
    (text : Str) (hnone : context.ocrText = none) (reason : SafetyReason) :
    evaluate (context.withText text) blocklist = .skipStorage reason ↔
      evaluate context blocklist = .skipStorage reason := by
  rw [evaluate_with_text context blocklist text hnone]
  refine SafetyDecision.thenText_eq_skipStorage (fun reason h => ?_)
  split at h <;> cases h

/-- The write path skips what the metadata excludes, and nothing else. -/
theorem recheckPolicy_eq_error {capture : CaptureForPersistence} {blocklist : Blocklist}
    {reason : SafetyReason} (h : recheckPolicy capture blocklist = .error reason) :
    evaluate (capture.safetyContext none) blocklist = .skipStorage reason := by
  unfold recheckPolicy at h
  split at h
  · next hskip =>
    cases h
    exact hskip
  · split at h
    · cases h
    · cases h
    · next hskip =>
      cases h
      exact (evaluate_withText_eq_skipStorage (capture.safetyContext none) blocklist
        capture.ocrText rfl _).1 hskip

theorem PrivacyGate.evaluate_eq_allow {gate : PrivacyGate} {context : CaptureContext} :
    gate.evaluate context = .allow ↔
      ∀ reason, Fndr.evaluate (context.safetyContext none) gate.blocklist ≠ .skipStorage reason := by
  unfold PrivacyGate.evaluate
  cases Fndr.evaluate (context.safetyContext none) gate.blocklist with
  | skipStorage reason => cases reason <;> simp
  | allow => simp
  | redact _ => simp

theorem PrivacyGate.evaluate_eq_skip {gate : PrivacyGate} {context : CaptureContext}
    {reason : SafetyReason}
    (h : Fndr.evaluate (context.safetyContext none) gate.blocklist = .skipStorage reason) :
    ∃ skipReason, gate.evaluate context = .skip skipReason := by
  unfold PrivacyGate.evaluate
  rw [h]
  cases reason <;> exact ⟨_, rfl⟩

theorem PrivacyGate.evaluate_ne_finalPrivacy (gate : PrivacyGate) (context : CaptureContext) :
    gate.evaluate context ≠ .skip .finalPrivacy := by
  unfold PrivacyGate.evaluate
  split <;> simp

variable {F}

theorem persist_blocklist (sql : SqlFaults) (scan : Scan) (sink : StoreCaptureSink) (source : Str)
    (context : CaptureContext) (capturedAtMs : ℕ) (text : Str) :
    (sink.persist F sql scan source context capturedAtMs text).2.blocklist = sink.blocklist := by
  unfold StoreCaptureSink.persist
  split <;> rfl

theorem persistUrlOnly_blocklist (sql : SqlFaults) (scan : Scan) (sink : StoreCaptureSink)
    (context : CaptureContext) :
    (sink.persistUrlOnly F sql scan context).2.blocklist = sink.blocklist := by
  unfold StoreCaptureSink.persistUrlOnly
  split
  · rfl
  · exact persist_blocklist sql scan sink _ context _ _

/-- What the gate lets through the write path stores, or fails to store. -/
theorem persist_ne_skipped {sql : SqlFaults} {scan : Scan} {sink : StoreCaptureSink} {source : Str}
    {context : CaptureContext} {capturedAtMs : ℕ} {text : Str}
    (hallowed : PrivacyGate.evaluate ⟨sink.blocklist⟩ context = .allow) :
    (sink.persist F sql scan source context capturedAtMs text).1 ≠ .ok .skippedFinalPrivacy := by
  unfold StoreCaptureSink.persist
  split
  · dsimp only
    generalize hcapture : CaptureForPersistence.mk _ _ _ _ _ _ _ _ _ _ _ = capture
    have hmetadata : capture.safetyContext none = context.safetyContext none := by
      rw [← hcapture]
      rfl
    have heffect := persistCapture_effect F sql scan capture sink.blocklist sink.store
    generalize persistCapture F sql scan capture sink.blocklist sink.store = result at heffect
    obtain ⟨outcome, store⟩ := result
    cases heffect with
    | failed error => simp [persistenceResult]
    | merged => simp [persistenceResult]
    | stored => simp [persistenceResult]
    | skipped reason hpolicy =>
        have hskip := recheckPolicy_eq_error hpolicy
        rw [hmetadata] at hskip
        exact absurd hskip (PrivacyGate.evaluate_eq_allow.1 hallowed reason)
  · simp

theorem persistUrlOnly_ne_skipped {sql : SqlFaults} {scan : Scan} {sink : StoreCaptureSink}
    {context : CaptureContext}
    (hallowed : PrivacyGate.evaluate ⟨sink.blocklist⟩ context = .allow) :
    (sink.persistUrlOnly F sql scan context).1 ≠ .ok .skippedFinalPrivacy := by
  unfold StoreCaptureSink.persistUrlOnly
  split
  · simp
  · exact persist_ne_skipped hallowed

omit [UnicodeTables] [UrlCrate] in
theorem persistenceOutcome_ne_finalPrivacy {success : CaptureTickOutcome}
    (hsuccess : success ≠ .skipped .finalPrivacy)
    {result : Except PipelineError PersistenceOutcome} (h : result ≠ .ok .skippedFinalPrivacy) :
    persistenceOutcome success result ≠ .skipped .finalPrivacy := by
  rcases result with error | (_ | _)
  · simp [persistenceOutcome]
  · exact hsuccess
  · exact absurd rfl h

/-! ## Ticks of the real pipeline -/

variable {H : Type} [ImageHash H] [DefaultHasher]

/-- One tick of the pipeline with the real gate and sink. -/
def PrivacyGate.runTick (F : Type) [ScoreArith F] (gate : PrivacyGate)
    (p : CapturePipeline H StoreCaptureSink) (s : Surroundings H) : Tick H StoreCaptureSink :=
  p.runTick (gate.components F s)

/-- The pipeline that a tick leaves. -/
def PrivacyGate.exec (F : Type) [ScoreArith F] (gate : PrivacyGate)
    (p : CapturePipeline H StoreCaptureSink) (s : Surroundings H) :
    CapturePipeline H StoreCaptureSink :=
  (gate.runTick F p s).pipeline

/-- What a tick owes to the metadata. -/
structure RespectsMetadata (F : Type) [ScoreArith F] (gate : PrivacyGate)
    (p : CapturePipeline H StoreCaptureSink) (s : Surroundings H) : Prop where
  excluded : ∀ context reason, s.currentContext = .ok context →
    evaluate (context.safetyContext none) gate.blocklist = .skipStorage reason →
    (∃ skipReason, (gate.runTick F p s).outcome = .skipped skipReason) ∧
      (gate.runTick F p s).calls = [] ∧
      (gate.exec F p s).perceptualDeduper = p.perceptualDeduper ∧
      (gate.exec F p s).semanticDeduper = p.semanticDeduper ∧ (gate.exec F p s).sink = p.sink
  grabbed : .grab ∈ (gate.runTick F p s).calls →
    ∃ context, s.currentContext = .ok context ∧ context.surfacePolicy = .normal
  neverFinal : (gate.runTick F p s).outcome ≠ .skipped .finalPrivacy

theorem exec_blocklist (gate : PrivacyGate) (p : CapturePipeline H StoreCaptureSink)
    (s : Surroundings H) : (gate.exec F p s).sink.blocklist = p.sink.blocklist := by
  have heffect := runTickInner_effect p (gate.components F s)
  unfold PrivacyGate.exec PrivacyGate.runTick CapturePipeline.runTick
  generalize p.runTickInner (gate.components F s) = tick at heffect
  cases heffect with
  | urlPersisted context _ => exact persistUrlOnly_blocklist s.sql s.scan p.sink context
  | persisted context frame _ ocr _ => exact persist_blocklist s.sql s.scan p.sink _ context _ _
  | _ => rfl

theorem respectsMetadata {gate : PrivacyGate} {p : CapturePipeline H StoreCaptureSink}
    (hblocklist : p.sink.blocklist = gate.blocklist) (s : Surroundings H) :
    RespectsMetadata F gate p s := by
  have hgate : (⟨p.sink.blocklist⟩ : PrivacyGate) = gate := by rw [hblocklist]
  have heffect := runTickInner_effect p (gate.components F s)
  refine ⟨fun context reason hcontext hskip => ?_, fun hgrab => ?_, ?_⟩
  · -- the gate decides before anything else is called
    obtain ⟨skipReason, hskipped⟩ := PrivacyGate.evaluate_eq_skip hskip
    have htick : p.runTickInner (gate.components F s) = ⟨.skipped skipReason, [], p⟩ := by
      simp only [CapturePipeline.runTickInner, PrivacyGate.components, hcontext, hskipped]
    unfold PrivacyGate.exec PrivacyGate.runTick CapturePipeline.runTick
    rw [htick]
    exact ⟨⟨skipReason, rfl⟩, rfl, rfl, rfl, rfl⟩
  · obtain ⟨context, hadmits⟩ := heffect.admits_of_grab hgrab
    exact ⟨context, hadmits.known, hadmits.surface⟩
  · unfold PrivacyGate.runTick CapturePipeline.runTick
    generalize p.runTickInner (gate.components F s) = tick at heffect
    cases heffect with
    | gated context reason _ hskipped =>
        intro h
        cases h
        exact gate.evaluate_ne_finalPrivacy context hskipped
    | urlPersisted context hadmits =>
        refine persistenceOutcome_ne_finalPrivacy (by simp) (persistUrlOnly_ne_skipped ?_)
        rw [hgate]
        exact hadmits.allowed
    | persisted context frame _ ocr hocr =>
        refine persistenceOutcome_ne_finalPrivacy (by simp) (persist_ne_skipped ?_)
        rw [hgate]
        exact hocr.admits.allowed
    | _ => simp

/-- **Nothing the metadata excludes is looked at or stored.** Over every run of a new pipeline with
    the gate and the sink of one blocklist, every tick respects the metadata; and the text of a
    capture neither makes nor lifts a skip. -/
theorem excluded_is_never_looked_at {store : Store} {blocklist : Blocklist} {sessionId : Str}
    {sink : StoreCaptureSink} (hsink : StoreCaptureSink.new store blocklist sessionId = .ok sink)
    (config : CapturePipelineConfig) (ticks : List (Surroundings H)) :
    StepsMeet (PrivacyGate.exec F ⟨blocklist⟩) (RespectsMetadata F ⟨blocklist⟩)
        (CapturePipeline.new sink config) ticks ∧
      ∀ (context : CaptureContext) (text : Str) (reason : SafetyReason),
        evaluate (context.safetyContext (some text)) blocklist = .skipStorage reason ↔
          evaluate (context.safetyContext none) blocklist = .skipStorage reason := by
  refine ⟨?_, fun context text reason =>
    evaluate_withText_eq_skipStorage (context.safetyContext none) blocklist text rfl reason⟩
  have hnew : sink.blocklist = blocklist := by
    unfold StoreCaptureSink.new at hsink
    split at hsink
    · cases hsink
    · cases hsink
      rfl
  have hblocklist : AllStates (PrivacyGate.exec (H := H) F ⟨blocklist⟩)
      (fun p => p.sink.blocklist = blocklist) (CapturePipeline.new sink config) ticks := by
    refine AllStates.of_step (fun p s h => ?_) hnew
    rw [exec_blocklist]
    exact h
  exact StepsMeet.of_allStates (fun p s h => respectsMetadata h s) hblocklist

end Adapters

/-! ## A private window -/

section Example

attribute [local instance] asciiTables noUrls bitHash lengthHasher

/-- A browser window with an incognito cue, and a screen that could be read. -/
def incognitoWindow : Surroundings (List Bool) where
  currentContext := .ok ⟨"Google Chrome".toList, none, "New Incognito Window".toList, none, 1000⟩
  grab := .ok ⟨[], 1000, some ⟨[true, false], ⟨0, 0, 0⟩⟩⟩
  recognize := fun _ _ _ _ => .ok ⟨"plan the next quarter".toList, false⟩
  sql := noFaults
  scan := tableOrder _

theorem excluded_is_never_looked_at_incognito :
    StepsMeet (PrivacyGate.exec ℚ ⟨⟨[], []⟩⟩) (RespectsMetadata ℚ ⟨⟨[], []⟩⟩)
        (CapturePipeline.new ⟨Store.empty, ⟨[], []⟩, "s".toList, 0⟩ .default) [incognitoWindow] ∧
      ∀ (context : CaptureContext) (text : Str) (reason : SafetyReason),
        evaluate (context.safetyContext (some text)) ⟨[], []⟩ = .skipStorage reason ↔
          evaluate (context.safetyContext none) ⟨[], []⟩ = .skipStorage reason := by
  have hsink : StoreCaptureSink.new Store.empty ⟨[], []⟩ "s".toList
      = .ok ⟨Store.empty, ⟨[], []⟩, "s".toList, 0⟩ := if_neg (by decide)
  exact excluded_is_never_looked_at hsink .default [incognitoWindow]

end Example

end Fndr
