import Fndr.Shell.CaptureScheduler

set_option autoImplicit false

/-! # Capture does not depend on the index

A flush stamps chunks of the store that the next captures write to, and a capture is merged into a
pending record only, so what a flush does decides which record a capture ends up in. It decides
nothing else: what a tick says of its capture and the pipeline it leaves, its sink's store apart, are
those of the pipeline run without an index (`capture_without_index`). -/

namespace Fndr

open RustStd Rows Runs

section Pipelines

variable {H σ : Type} [ImageHash H] [DefaultHasher]

/-! ## Two pipelines that differ in the sink -/

/-- One tick of two pipelines whose sinks are in `R` and end in `R'`. -/
structure SinksAgree (R R' : σ → σ → Prop) (c : Components H σ) : Prop where
  untouched : ∀ a b, R a b → R' a b
  capture : ∀ a b context frame ocr, R a b →
    (c.persistCapture b context frame ocr).1 = (c.persistCapture a context frame ocr).1 ∧
      R' (c.persistCapture a context frame ocr).2 (c.persistCapture b context frame ocr).2
  urlOnly : ∀ a b context, R a b →
    (c.persistUrlOnly b context).1 = (c.persistUrlOnly a context).1 ∧
      R' (c.persistUrlOnly a context).2 (c.persistUrlOnly b context).2

/-- The ticks agree, the sinks apart, which are in `R'`. -/
def TicksAgree (R' : σ → σ → Prop) (left right : Tick H σ) : Prop :=
  right.outcome = left.outcome ∧
    ∃ b, R' left.pipeline.sink b ∧ right.pipeline = left.pipeline.withSink b

variable {R R' : σ → σ → Prop} {c : Components H σ}

omit [ImageHash H] [DefaultHasher] in
theorem TicksAgree.after {left right : Tick H σ} (h : TicksAgree R' left right)
    (call : BoundaryCall) : TicksAgree R' (left.after call) (right.after call) := h

omit [ImageHash H] [DefaultHasher] in
theorem SinksAgree.still (h : SinksAgree R R' c) (p : CapturePipeline H σ) {b : σ}
    (hb : R p.sink b) (outcome : CaptureTickOutcome) (calls calls' : List BoundaryCall) :
    TicksAgree R' ⟨outcome, calls, p⟩ ⟨outcome, calls', p.withSink b⟩ :=
  ⟨rfl, b, h.untouched _ _ hb, rfl⟩

omit [ImageHash H] in
theorem SinksAgree.persistFrame (h : SinksAgree R R' c) (p : CapturePipeline H σ) {b : σ}
    (hb : R p.sink b) (context : CaptureContext) (frame : Frame H) (ocr : OcrOutput) :
    TicksAgree R' (p.persistFrame c context frame ocr)
      ((p.withSink b).persistFrame c context frame ocr) := by
  have hseen : (p.withSink b).seeText context ocr.text frame.capturedAtMs
      = ((p.seeText context ocr.text frame.capturedAtMs).1,
        (p.seeText context ocr.text frame.capturedAtMs).2.withSink b) := rfl
  unfold CapturePipeline.persistFrame
  rw [hseen]
  dsimp only
  split
  · exact h.still (p.seeText context ocr.text frame.capturedAtMs).2 hb _ _ _
  · obtain ⟨houtcome, hafter⟩ := h.capture p.sink b context frame ocr hb
    exact ⟨congrArg (persistenceOutcome .stored) houtcome, _, hafter, rfl⟩

omit [ImageHash H] in
theorem SinksAgree.recognizeFrame (h : SinksAgree R R' c) (p : CapturePipeline H σ) {b : σ}
    (hb : R p.sink b) (context : CaptureContext) (frame : Frame H) :
    TicksAgree R' (p.recognizeFrame c context frame)
      ((p.withSink b).recognizeFrame c context frame) := by
  have hconfig : (p.withSink b).config = p.config := rfl
  unfold CapturePipeline.recognizeFrame
  rw [hconfig]
  split
  · exact h.still p hb _ _ _
  · split
    · exact h.still p hb _ _ _
    · exact (h.persistFrame p hb context frame _).after .recognize

theorem SinksAgree.captureFrame (h : SinksAgree R R' c) (p : CapturePipeline H σ) {b : σ}
    (hb : R p.sink b) (context : CaptureContext) :
    TicksAgree R' (p.captureFrame c context) ((p.withSink b).captureFrame c context) := by
  unfold CapturePipeline.captureFrame
  split
  · exact h.still p hb _ _ _
  · next frame _ =>
    split
    · exact h.still p hb _ _ _
    · next signature _ =>
      have hseen : (p.withSink b).seeFrame signature
          = ((p.seeFrame signature).1, (p.seeFrame signature).2.withSink b) := rfl
      rw [hseen]
      dsimp only
      split
      · exact h.still (p.seeFrame signature).2 hb _ _ _
      · exact (h.recognizeFrame (p.seeFrame signature).2 hb context frame).after .grab

/-- **A tick looks at the sink through its answers alone.** -/
theorem SinksAgree.runTick (h : SinksAgree R R' c) (p : CapturePipeline H σ) {b : σ}
    (hb : R p.sink b) : TicksAgree R' (p.runTick c) ((p.withSink b).runTick c) := by
  have hinner : TicksAgree R' (p.runTickInner c) ((p.withSink b).runTickInner c) := by
    unfold CapturePipeline.runTickInner
    split
    · exact h.still p hb _ _ _
    · next context _ =>
      split
      · exact h.still p hb _ _ _
      · split
        · exact h.still p hb _ _ _
        · have hseen : (p.withSink b).seeText context (context.url.getD []) context.observedAtMs
              = ((p.seeText context (context.url.getD []) context.observedAtMs).1,
                (p.seeText context (context.url.getD []) context.observedAtMs).2.withSink b) := rfl
          unfold CapturePipeline.persistUrlOnly
          rw [hseen]
          dsimp only
          split
          · exact h.still (p.seeText context (context.url.getD []) context.observedAtMs).2 hb _ _ _
          · obtain ⟨houtcome, hafter⟩ := h.urlOnly p.sink b context hb
            exact ⟨congrArg (persistenceOutcome .urlOnlyStored) houtcome, _, hafter, rfl⟩
        · exact h.captureFrame p hb context
  obtain ⟨houtcome, b', hb', hpipeline⟩ := hinner
  refine ⟨houtcome, b', hb', ?_⟩
  unfold CapturePipeline.runTick
  dsimp only
  rw [houtcome, hpipeline]
  rfl

end Pipelines

/-! ## Sinks that have numbers left -/

/-- The ids of the capture with this number. -/
def StoreCaptureSink.numbered (sink : StoreCaptureSink) (n : ℕ) : Str × Str :=
  let recordId := sink.sessionId ++ "-".toList ++ (toString n).toList
  (recordId, recordId ++ "-0".toList)

/-- Nothing is stored under the numbers to come. -/
def StoreCaptureSink.NumbersUnused (sink : StoreCaptureSink) : Prop :=
  ∀ n, sink.nextSequence ≤ n →
    (∀ id ∈ sink.store.db.memoryRecords.map MemoryRecord.id, id ≠ (sink.numbered n).1) ∧
      ∀ id ∈ sink.store.db.chunks.map Chunk.id, id ≠ (sink.numbered n).2

theorem StoreCaptureSink.numbered_injective (sink : StoreCaptureSink) {m n : ℕ}
    (h : (sink.numbered m).1 = (sink.numbered n).1 ∨ (sink.numbered m).2 = (sink.numbered n).2) :
    m = n := by
  have hrecord : (sink.numbered m).1 = (sink.numbered n).1 :=
    h.elim id (fun hchunk => List.append_cancel_right hchunk)
  exact toString_toList_injective (List.append_cancel_left hrecord)

section Sinks

variable [UnicodeTables] [UrlCrate] {F : Type} [ScoreArith F]

/-- A capture whose time fits the column spends one number. -/
theorem SinkCall.persist_sink (call : SinkCall) (sink : StoreCaptureSink)
    (hroom : sink.nextSequence + 1 < 2 ^ 64) (htime : call.capturedAtMs < 2 ^ 63) :
    (call.persist F sink).2 = { sink with
      store := (call.persist F sink).2.store, nextSequence := sink.nextSequence + 1 } := by
  obtain ⟨capture, -, -, -, hafter⟩ := call.persist_eq F sink htime
  have hnext : min (sink.nextSequence + 1) (2 ^ 64 - 1) = sink.nextSequence + 1 :=
    Nat.min_eq_left (by omega)
  rw [hafter]
  unfold StoreCaptureSink.ids
  dsimp only
  rw [hnext]

/-- A capture uses the number it is given and no other. -/
theorem StoreCaptureSink.NumbersUnused.persist {sink : StoreCaptureSink} (h : sink.NumbersUnused)
    (hroom : sink.nextSequence + 1 < 2 ^ 64) (call : SinkCall) :
    (call.persist F sink).2.NumbersUnused := by
  by_cases htime : call.capturedAtMs < 2 ^ 63
  · have hids := call.persist_storedIds F sink
    rw [call.persist_sink sink hroom htime]
    intro n hn
    have hlater : sink.nextSequence + 1 ≤ n := hn
    obtain ⟨hrecords, hchunks⟩ := h n (by omega)
    rcases hids with ⟨hrecords', hchunks'⟩ | ⟨hrecords', hchunks'⟩
    · refine ⟨fun id hid => hrecords id ?_, fun id hid => hchunks id ?_⟩
      · rw [← hrecords']
        exact hid
      · rw [← hchunks']
        exact hid
    · -- the new ids are those of a smaller number
      have hne : sink.nextSequence ≠ n := by omega
      refine ⟨fun id hid => ?_, fun id hid => ?_⟩
      · rcases List.mem_append.1 (hrecords' ▸ hid) with hid | hid
        · exact hrecords id hid
        · rw [List.mem_singleton.1 hid]
          exact fun heq => hne (sink.numbered_injective (Or.inl heq))
      · rcases List.mem_append.1 (hchunks' ▸ hid) with hid | hid
        · exact hchunks id hid
        · rw [List.mem_singleton.1 hid]
          exact fun heq => hne (sink.numbered_injective (Or.inr heq))
  · rw [call.persist_late F sink htime]
    exact h

/-- Two sinks that differ in the store, with no number used and so many left. -/
structure SameSink (room : ℕ) (a b : StoreCaptureSink) : Prop where
  same : b = { a with store := b.store }
  unused : a.NumbersUnused
  unused' : b.NumbersUnused
  room : a.nextSequence + room < 2 ^ 64

omit [UnicodeTables] [UrlCrate] in
theorem SameSink.of_le {room : ℕ} {a b : StoreCaptureSink} (h : SameSink (room + 1) a b) :
    SameSink room a b :=
  ⟨h.same, h.unused, h.unused', by have := h.room; omega⟩

/-- Under new ids the policy decides alone whether a capture is stored. -/
theorem persistenceResult_persistCapture (scan : Scan) (capture : CaptureForPersistence)
    (blocklist : Blocklist) {store : Store}
    (hrecord : ∀ r ∈ store.db.memoryRecords, r.id ≠ capture.recordId)
    (hchunk : ∀ c ∈ store.db.chunks, c.id ≠ capture.chunkId) :
    persistenceResult (persistCapture F noFaults scan capture blocklist store).1
      = .ok (if (recheckPolicy capture blocklist).isOk then .stored else .skippedFinalPrivacy) := by
  have hfault : ∀ error, (persistCapture F noFaults scan capture blocklist store).1 = .error error →
      SqlFaults.Gave noFaults error := fun _ => persistCapture_fault F hrecord hchunk
  have heffect := persistCapture_effect F noFaults scan capture blocklist store
  generalize persistCapture F noFaults scan capture blocklist store = result at heffect hfault
  obtain ⟨outcome, store'⟩ := result
  cases heffect with
  | failed error =>
      obtain ⟨_, _, hgave, -⟩ := hfault error rfl
      cases hgave
  | skipped reason hpolicy =>
      rw [hpolicy]
      rfl
  | merged text count candidate store' hpolicy =>
      rw [hpolicy]
      rfl
  | stored text count store' hpolicy =>
      rw [hpolicy]
      rfl

/-- What the sink hands to the write path. -/
def SinkCall.capture (call : SinkCall) (sink : StoreCaptureSink) : CaptureForPersistence where
  recordId := (sink.numbered sink.nextSequence).1
  sessionId := sink.sessionId
  chunkId := (sink.numbered sink.nextSequence).2
  source := call.source
  appName := call.context.appName
  bundleId := call.context.bundleId
  url := call.context.url
  windowTitle := call.context.windowTitle
  ocrText := call.text
  capturedAtMs := call.capturedAtMs
  createdAtMs := call.capturedAtMs

theorem SinkCall.persist_answer {call : SinkCall} (hsql : call.sql = noFaults)
    {sink : StoreCaptureSink} (hunused : sink.NumbersUnused) (htime : call.capturedAtMs < 2 ^ 63) :
    (call.persist F sink).1 = .ok (if (recheckPolicy (call.capture sink) sink.blocklist).isOk
      then .stored else .skippedFinalPrivacy) := by
  obtain ⟨hrecords, hchunks⟩ := hunused sink.nextSequence (le_refl _)
  unfold SinkCall.persist StoreCaptureSink.persist
  rw [if_pos htime, hsql]
  exact persistenceResult_persistCapture call.scan (call.capture sink) sink.blocklist
    (fun r hr => hrecords r.id (List.mem_map_of_mem hr))
    (fun c hc => hchunks c.id (List.mem_map_of_mem hc))

/-- What a capture is answered does not depend on the store. -/
theorem SameSink.persist {room : ℕ} {a b : StoreCaptureSink} (h : SameSink (room + 1) a b)
    (call : SinkCall) (hsql : call.sql = noFaults) :
    (call.persist F b).1 = (call.persist F a).1 ∧
      SameSink room (call.persist F a).2 (call.persist F b).2 := by
  have hroom := h.room
  have hroom' : b.nextSequence + 1 < 2 ^ 64 := by
    rw [h.same]
    dsimp only
    omega
  have hunused := h.unused.persist (F := F) (by omega) call
  have hunused' := h.unused'.persist (F := F) hroom' call
  by_cases htime : call.capturedAtMs < 2 ^ 63
  · have hsink := call.persist_sink (F := F) a (by omega) htime
    have hsink' := call.persist_sink (F := F) b hroom' htime
    refine ⟨?_, ?_, hunused, hunused', ?_⟩
    · rw [SinkCall.persist_answer hsql h.unused htime, SinkCall.persist_answer hsql h.unused' htime,
        h.same]
      rfl
    · rw [hsink, hsink', h.same]
    · rw [hsink]
      dsimp only
      omega
  · have hlate := call.persist_late F a htime
    have hlate' := call.persist_late F b htime
    refine ⟨?_, ?_⟩
    · unfold SinkCall.persist StoreCaptureSink.persist
      rw [if_neg htime, if_neg htime]
    · rw [hlate, hlate']
      exact h.of_le

variable {H : Type}

theorem sinksAgree {room : ℕ} (gate : PrivacyGate) {surroundings : Surroundings H}
    (hsql : surroundings.sql = noFaults) :
    SinksAgree (SameSink (room + 1)) (SameSink room) (gate.components F surroundings) where
  untouched _ _ h := h.of_le
  capture a b context frame ocr h := h.persist ⟨surroundings.sql, surroundings.scan,
    "screen".toList, context, frame.capturedAtMs, ocr.text⟩ hsql
  urlOnly a b context h := by
    change (StoreCaptureSink.persistUrlOnly F surroundings.sql surroundings.scan b context).1
        = (StoreCaptureSink.persistUrlOnly F surroundings.sql surroundings.scan a context).1 ∧
      SameSink room (StoreCaptureSink.persistUrlOnly F surroundings.sql surroundings.scan a context).2
        (StoreCaptureSink.persistUrlOnly F surroundings.sql surroundings.scan b context).2
    unfold StoreCaptureSink.persistUrlOnly
    split
    · exact ⟨rfl, h.of_le⟩
    · next safeUrl _ =>
      exact h.persist ⟨surroundings.sql, surroundings.scan, "browser_url_only".toList, context,
        context.observedAtMs, context.windowTitle ++ '\n' :: safeUrl.asStr⟩ hsql

/-! ## A flush between two captures -/

/-- The ids of records and chunks. -/
def HasIds (recordIds chunkIds : List Str) (store : Store) (_ : List PendingChunk) : Prop :=
  store.db.memoryRecords.map MemoryRecord.id = recordIds ∧ store.db.chunks.map Chunk.id = chunkIds

omit [UnicodeTables] [UrlCrate] in
theorem hasIds_flush (recordIds chunkIds : List Str) (nowMs : ℤ) (scan : Scan) :
    FlushKeeps (HasIds recordIds chunkIds) nowMs scan := by
  refine ⟨fun _ _ h => h, fun store indexed h => ?_⟩
  rw [HasIds, Store.markChunksFlushed_db]
  have hstamped : ∀ c : Chunk, (c.stamped nowMs).id = c.id := fun _ => rfl
  exact ⟨h.1, (map_updateWhere (fun c _ => hstamped c) _).trans h.2⟩

omit [UnicodeTables] [UrlCrate] in
theorem FlushConditions.flushReport_ids (conditions : FlushConditions) (spec : EmbeddingSpec)
    (nowMs : ℕ) (v : Vault) :
    HasIds (v.store.db.memoryRecords.map MemoryRecord.id) (v.store.db.chunks.map Chunk.id)
      ((conditions.flushReport spec nowMs).final v).store [] := by
  obtain ⟨stop, hfinal⟩ := (conditions.faults.flushOnce_mayStop
    ⟨spec, conditions.embedDocuments⟩ (i64OfU64 nowMs) conditions.scan).final_eq_cut v
  rw [FlushConditions.flushReport, hfinal]
  exact (hasIds_flush _ _ _ _).flushOnce.cut (s := v) ⟨rfl, rfl⟩ ⟨rfl, rfl⟩ stop

omit [UnicodeTables] [UrlCrate] in
theorem SameSink.flushed {room : ℕ} {a b : StoreCaptureSink} (h : SameSink room a b)
    (conditions : FlushConditions) (spec : EmbeddingSpec) (nowMs : ℕ) (lance : Option LanceTable) :
    SameSink room a { b with
      store := ((conditions.flushReport spec nowMs).final ⟨b.store, lance⟩).store } := by
  obtain ⟨hrecords, hchunks⟩ := conditions.flushReport_ids spec nowMs ⟨b.store, lance⟩
  refine ⟨by rw [h.same], h.unused, fun n hn => ?_, h.room⟩
  obtain ⟨hrecord, hchunk⟩ := h.unused' n hn
  refine ⟨fun id hid => hrecord id ?_, fun id hid => hchunk id ?_⟩
  · rw [← hrecords]
    exact hid
  · rw [← hchunks]
    exact hid

/-! ## Runs -/

variable [ImageHash H] [DefaultHasher]

variable (F) in
/-- What the ticks of a run say of their captures. -/
def CaptureScheduler.captures (s : CaptureScheduler H) :
    List (SchedulerTick H) → List CaptureTickOutcome
  | [] => []
  | t :: ticks => (s.capture F t.surroundings).1 :: (s.ticked F t).captures ticks

variable (F) in
/-- The same of the pipeline by itself. -/
def PrivacyGate.outcomes (gate : PrivacyGate) (p : CapturePipeline H StoreCaptureSink) :
    List (Surroundings H) → List CaptureTickOutcome
  | [] => []
  | surroundings :: rest =>
      (gate.runTick F p surroundings).outcome :: gate.outcomes (gate.exec F p surroundings) rest

/-- The scheduler's pipeline is `p`, the store apart. -/
def CaptureScheduler.Follows (s : CaptureScheduler H) (room : ℕ) (gate : PrivacyGate)
    (p : CapturePipeline H StoreCaptureSink) : Prop :=
  s.gate = gate ∧ ∃ b, SameSink room p.sink b ∧ s.pipeline = p.withSink b

/-- A tick follows the tick of the pipeline by itself. -/
theorem CaptureScheduler.Follows.ticked {s : CaptureScheduler H} {room : ℕ} {gate : PrivacyGate}
    {p : CapturePipeline H StoreCaptureSink} (h : s.Follows (room + 1) gate p)
    {t : SchedulerTick H} (hsql : t.surroundings.sql = noFaults) :
    (s.capture F t.surroundings).1 = (gate.runTick F p t.surroundings).outcome ∧
      (s.ticked F t).Follows room gate (gate.exec F p t.surroundings) := by
  obtain ⟨rfl, b, hb, hpipeline⟩ := h
  obtain ⟨houtcome, b', hb', hafter⟩ := (sinksAgree (F := F) s.gate hsql).runTick p hb
  have hcapture : s.capture F t.surroundings = ((s.gate.runTick F p t.surroundings).outcome,
      { s with pipeline := (s.gate.exec F p t.surroundings).withSink b' }) := by
    unfold CaptureScheduler.capture
    dsimp only
    rw [PrivacyGate.runTick, hpipeline, houtcome, hafter]
    rfl
  refine ⟨congrArg Prod.fst hcapture, ?_⟩
  rw [CaptureScheduler.ticked, CaptureScheduler.tick, hcapture]
  dsimp only
  split
  · -- the flush changes the store, and none of its ids
    unfold CaptureScheduler.flushOnce
    dsimp only
    split <;> exact ⟨rfl, _, hb'.flushed t.flush s.spec t.nowMs s.lance, rfl⟩
  · exact ⟨rfl, b', hb', rfl⟩

theorem CaptureScheduler.Follows.run {s : CaptureScheduler H} {gate : PrivacyGate}
    {p : CapturePipeline H StoreCaptureSink} {ticks : List (SchedulerTick H)}
    (h : s.Follows ticks.length gate p) (hsql : ∀ t ∈ ticks, t.surroundings.sql = noFaults) :
    s.captures F ticks = gate.outcomes F p (ticks.map SchedulerTick.surroundings) ∧
      (final (CaptureScheduler.ticked F) s ticks).Follows 0 gate
        (final (PrivacyGate.exec F gate) p (ticks.map SchedulerTick.surroundings)) := by
  induction ticks generalizing s p with
  | nil => exact ⟨rfl, h⟩
  | cons tick ticks ih =>
      obtain ⟨houtcome, hnext⟩ := h.ticked (F := F) (hsql tick List.mem_cons_self)
      obtain ⟨houtcomes, hfinal⟩ := ih hnext
        (fun other hother => hsql other (List.mem_cons_of_mem tick hother))
      exact ⟨congrArg₂ List.cons houtcome houtcomes, hfinal⟩

/-- **Capture does not depend on the index.** Whatever the clock, the model and Lance do during a
    run, the captures are those of the pipeline by itself and leave the pipeline that it leaves, the
    store of the sink apart, as long as SQLite takes the captures under numbers that are new. -/
theorem capture_without_index (s : CaptureScheduler H) (ticks : List (SchedulerTick H))
    (hunused : s.pipeline.sink.NumbersUnused)
    (hroom : s.pipeline.sink.nextSequence + ticks.length < 2 ^ 64)
    (hsql : ∀ t ∈ ticks, t.surroundings.sql = noFaults) :
    let scheduled := final (CaptureScheduler.ticked F) s ticks
    let alone := final (PrivacyGate.exec F s.gate) s.pipeline
      (ticks.map SchedulerTick.surroundings)
    s.captures F ticks = s.gate.outcomes F s.pipeline (ticks.map SchedulerTick.surroundings) ∧
      scheduled.pipeline
        = alone.withSink { alone.sink with store := scheduled.pipeline.sink.store } := by
  have hstart : s.Follows ticks.length s.gate s.pipeline :=
    ⟨rfl, s.pipeline.sink, ⟨rfl, hunused, hunused, hroom⟩, rfl⟩
  obtain ⟨houtcomes, -, b, hsink, hpipeline⟩ := hstart.run (F := F) hsql
  intro scheduled alone
  have hstore : scheduled.pipeline.sink = b := by
    rw [hpipeline]
    rfl
  refine ⟨houtcomes, ?_⟩
  rw [hstore, ← hsink.same]
  exact hpipeline

end Sinks

/-! ## Two windows and no model -/

section Example

attribute [local instance] asciiTables noUrls bitHash lengthHasher

/-- A scheduler over an empty vault. -/
def desktopScheduler : CaptureScheduler (List Bool) where
  gate := ⟨⟨[], []⟩⟩
  pipeline := .new ⟨Store.empty, ⟨[], []⟩, desktopSession 7, 0⟩ .default
  lance := none
  spec := CHUNK_EMBEDDING_V1
  lastSuccessfulFlushMs := 0
  flushIntervalMs := 30 * 1000

/-- Two windows, the second one past the flush interval. -/
def twoWindows : List (SchedulerTick (List Bool)) :=
  [windowTick 2000 0 "plan the next quarter", windowTick 31000 200 "buy milk and bread"]

/-- The flush fails, and both windows are stored. -/
theorem capture_without_index_twoWindows :
    desktopScheduler.captures ℚ twoWindows = [.stored, .stored] ∧
      let scheduled := final (CaptureScheduler.ticked ℚ) desktopScheduler twoWindows
      let alone := final (PrivacyGate.exec ℚ desktopScheduler.gate) desktopScheduler.pipeline
        (twoWindows.map SchedulerTick.surroundings)
      desktopScheduler.captures ℚ twoWindows
          = desktopScheduler.gate.outcomes ℚ desktopScheduler.pipeline
            (twoWindows.map SchedulerTick.surroundings) ∧
        scheduled.pipeline
          = alone.withSink { alone.sink with store := scheduled.pipeline.sink.store } := by
  refine ⟨by decide +kernel, capture_without_index desktopScheduler twoWindows ?_ (by decide) ?_⟩
  · exact fun n _ => ⟨fun _ hid => (nomatch hid), fun _ hid => (nomatch hid)⟩
  · intro t ht
    rcases List.mem_pair.1 ht with rfl | rfl <;> rfl

end Example

end Fndr
