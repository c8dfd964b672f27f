import Fndr.Store.Rebuild

set_option autoImplicit false

/-! # The drain loops

Three loops repeat `flush_once` with one time until it writes nothing: the shutdown of the capture
scheduler, the rebuild and the vector baseline of the bench harness. They differ in what they add up
and in where the time comes from, so each is the loop of the rebuild seen from outside
(`flushOnShutdown_run`, `benchFlushLoop_run`). The time is also the stamp, and the stamp zero means
pending: a loop at the time zero writes the same batch for ever (`flushAll_zero`). -/

namespace Fndr

open RustStd Rows

/-! ## The loops -/

/-- `i64::try_from(now_ms).unwrap_or(i64::MAX)` of a `u64`. -/
def i64OfU64 (nowMs : ℕ) : ℤ := if nowMs < 2 ^ 63 then nowMs else 2 ^ 63 - 1

/-- `CaptureScheduler::flush_report`. -/
def flushReport (embedder : Embedder) (nowMs : ℕ) (scan : Scan) : Writer FlushReport :=
  flushOnce embedder (i64OfU64 nowMs) scan

/-- What `flush_on_shutdown` returns, and the time it leaves as that of the last flush. -/
structure ShutdownFlush where
  written : ℕ
  lastSuccessfulFlushMs : ℕ
  deriving DecidableEq

/-- `CaptureScheduler::flush_on_shutdown`. -/
def flushOnShutdown (embedder : Embedder) (nowMs : ℕ) (scan : Scan) :
    ℕ → ℕ → Writer ShutdownFlush
  | 0, _ => Durable.throw .outOfFuel
  | fuel + 1, written => do
      let report ← flushReport embedder nowMs scan
      if report.written = 0 then
        return ⟨written + report.written, nowMs⟩
      else
        flushOnShutdown embedder nowMs scan fuel (written + report.written)

/-- The flush loop of `run_vector_baseline`, which passes a constant time. -/
def benchFlushLoop (embedder : Embedder) (scan : Scan) : ℕ → Writer Unit
  | 0 => Durable.throw .outOfFuel
  | fuel + 1 => do
      let report ← flushOnce embedder 0 scan
      if report.written = 0 then return () else benchFlushLoop embedder scan fuel

theorem flushOnShutdown_succ (embedder : Embedder) (nowMs : ℕ) (scan : Scan) (fuel written : ℕ) :
    flushOnShutdown embedder nowMs scan (fuel + 1) written
      = (flushOnce embedder (i64OfU64 nowMs) scan >>= fun report =>
          if report.written = 0 then pure ⟨written + report.written, nowMs⟩
          else flushOnShutdown embedder nowMs scan fuel (written + report.written)) := rfl

theorem benchFlushLoop_succ (embedder : Embedder) (scan : Scan) (fuel : ℕ) :
    benchFlushLoop embedder scan (fuel + 1) = (flushOnce embedder 0 scan >>= fun report =>
      if report.written = 0 then pure () else benchFlushLoop embedder scan fuel) := rfl

/-- The shutdown loop is the rebuild loop with another report. -/
theorem flushOnShutdown_run (embedder : Embedder) (nowMs : ℕ) (scan : Scan) (fuel : ℕ) :
    ∀ (written : ℕ) (batches : ℕ) (v : Vault),
      flushOnShutdown embedder nowMs scan fuel written v =
        ((flushAll embedder (i64OfU64 nowMs) scan fuel ⟨written, batches⟩ v).1.map
            (fun report => ⟨report.chunks, nowMs⟩),
          (flushAll embedder (i64OfU64 nowMs) scan fuel ⟨written, batches⟩ v).2) := by
  induction fuel with
  | zero => exact fun _ _ _ => rfl
  | succ fuel ih =>
      intro written batches v
      rw [flushOnShutdown_succ, flushAll_succ]
      cases hflush : (flushOnce embedder (i64OfU64 nowMs) scan v).1 with
      | error halt =>
          rw [Durable.bind_run_error hflush, Durable.bind_run_error hflush]
          rfl
      | ok report =>
          rw [Durable.bind_run_ok hflush, Durable.bind_run_ok hflush]
          by_cases hwritten : report.written = 0
          · simp only [hwritten, if_true, Durable.pure_run]
            rfl
          · simp only [if_neg hwritten]
            rw [ih (written + report.written) (batches + 1)]

/-- The loop of the bench harness is the rebuild loop at the time zero. -/
theorem benchFlushLoop_run (embedder : Embedder) (scan : Scan) (fuel : ℕ) :
    ∀ (report : RebuildReport) (v : Vault),
      benchFlushLoop embedder scan fuel v =
        ((flushAll embedder 0 scan fuel report v).1.map (fun _ => ()),
          (flushAll embedder 0 scan fuel report v).2) := by
  induction fuel with
  | zero => exact fun _ _ => rfl
  | succ fuel ih =>
      intro report v
      rw [benchFlushLoop_succ, flushAll_succ]
      cases hflush : (flushOnce embedder 0 scan v).1 with
      | error halt =>
          rw [Durable.bind_run_error hflush, Durable.bind_run_error hflush]
          rfl
      | ok flush =>
          rw [Durable.bind_run_ok hflush, Durable.bind_run_ok hflush]
          by_cases hwritten : flush.written = 0
          · simp only [hwritten, if_true, Durable.pure_run]
            rfl
          · simp only [if_neg hwritten]
            rw [ih ⟨report.chunks + flush.written, report.batches + 1⟩]

/-! ## How many calls a loop makes -/

/-- With fewer passes than it needs the loop has not ended. -/
theorem flushAll_short {embedder : Embedder} (h : embedder.Complete) {nowMs : ℤ} (hnow : nowMs ≠ 0)
    (scan : Scan) (fuel : ℕ) :
    ∀ (report : RebuildReport) (v : Vault), fuel ≤ batchesFor v.store.db.queue.length →
      (flushAll embedder nowMs scan fuel report v).1 = .error .outOfFuel := by
  induction fuel with
  | zero => exact fun _ _ _ => rfl
  | succ fuel ih =>
      intro report v hfuel
      have hne : v.store.db.queue ≠ [] := by
        intro hnil
        rw [hnil] at hfuel
        exact absurd hfuel (by simp [batchesFor, FLUSH_BATCH_SIZE])
      have hpos : v.store.db.queue.length ≠ 0 := mt List.length_eq_zero_iff.1 hne
      have hlen := v.store.length_pendingChunks scan
      obtain ⟨added, stamped, hcommitted, hrun, -⟩ :=
        flushAll_of_pending h nowMs scan fuel report hne
      obtain ⟨-, -, hqueue⟩ := hcommitted.moved hnow
      have hbatches := batchesFor_sub _ hpos
      rw [← hlen, ← hqueue] at hbatches
      rw [hrun]
      exact ih _ stamped (by omega)

/-- Stamping pending chunks with zero changes nothing. -/
theorem Store.markChunksFlushed_zero (store : Store) (scan : Scan) :
    store.markChunksFlushed ((store.db.pendingChunks scan FLUSH_BATCH_SIZE).map
      PendingChunk.chunkId) 0 = store := by
  have hdb : (store.markChunksFlushed ((store.db.pendingChunks scan FLUSH_BATCH_SIZE).map
      PendingChunk.chunkId) 0).db = store.db := by
    rw [Store.markChunksFlushed_db]
    have hsame : updateWhere (fun c => decide (c.id ∈ (store.db.pendingChunks scan
        FLUSH_BATCH_SIZE).map PendingChunk.chunkId)) (·.stamped 0) store.db.chunks
        = store.db.chunks := by
      rw [updateWhere]
      conv_rhs => rw [← List.map_id store.db.chunks]
      refine List.map_congr_left (fun c hc => ?_)
      split
      · next hmem =>
        obtain ⟨p, hp, hid⟩ := List.mem_map.1 (of_decide_eq_true hmem)
        obtain ⟨row, hrow, rfl⟩ := Db.mem_pendingChunks hp
        obtain ⟨⟨hrowc, -, -⟩, hpending⟩ := Db.mem_pendingRows.1 hrow
        have hsame : row.1 = c := eq_of_key_eq store.constraints.chunkIds hrowc hc hid
        rw [hsame] at hpending
        obtain ⟨rowid, id, recordId, ord, text, flushedAtMs⟩ := c
        cases hpending
        rfl
      · rfl
    rw [hsame]
  cases hmarked : store.markChunksFlushed ((store.db.pendingChunks scan FLUSH_BATCH_SIZE).map
      PendingChunk.chunkId) 0 with
  | mk db constraints ftsCurrent =>
      rw [hmarked] at hdb
      cases hdb
      rfl

/-- **At the time zero a loop with something to write never ends.** -/
theorem flushAll_zero {embedder : Embedder} (h : embedder.Complete) (scan : Scan) (fuel : ℕ) :
    ∀ (report : RebuildReport) (v : Vault), v.store.db.queue ≠ [] →
      (flushAll embedder 0 scan fuel report v).1 = .error .outOfFuel := by
  induction fuel with
  | zero => exact fun _ _ _ => rfl
  | succ fuel ih =>
      intro report v hne
      obtain ⟨added, stamped, hcommitted, hrun, -⟩ := flushAll_of_pending h 0 scan fuel report hne
      have hstore : stamped.store = v.store :=
        hcommitted.stampedStore.trans (v.store.markChunksFlushed_zero scan)
      rw [hrun]
      exact ih _ stamped (by rw [hstore]; exact hne)

/-! ## Draining -/

/-- Every pending chunk of `v` was written exactly once and stamped, and nothing else changed. -/
structure Drained (v w : Vault) : Prop where
  stamped : ∀ c ∈ w.store.db.chunks, c.flushedAtMs ≠ 0
  written : w.indexed.Perm (v.indexed ++ v.store.db.queue)
  truth : w.store.db.resetFlushState = v.store.db.resetFlushState

/-- A loop that is allowed `calls` calls of `flush_once` ends exactly when that is one call per
    batch and one more, and what it leaves is `origin` drained. -/
def DrainsIn {α : Type} (loop : ℕ → Writer α) (v origin : Vault) (pending : ℕ) : Prop :=
  (∀ calls, (∃ a, (loop calls v).1 = .ok a) ↔ batchesFor pending + 1 ≤ calls) ∧
    ∀ calls, batchesFor pending + 1 ≤ calls → Drained origin ((loop calls).final v)

/-- A loop seen through another result drains as it does. -/
theorem drainsIn_map {α β : Type} {loop : ℕ → Writer α} {loop' : ℕ → Writer β} {f : α → β}
    {v : Vault} (hrun : ∀ calls, loop' calls v = ((loop calls v).1.map f, (loop calls v).2))
    (origin : Vault) (pending : ℕ) :
    DrainsIn loop' v origin pending ↔ DrainsIn loop v origin pending := by
  have hends : ∀ calls, (∃ b, (loop' calls v).1 = .ok b) ↔ ∃ a, (loop calls v).1 = .ok a := by
    intro calls
    rw [hrun]
    cases (loop calls v).1 with
    | error halt => exact ⟨fun ⟨_, h⟩ => (by cases h), fun ⟨_, h⟩ => (by cases h)⟩
    | ok a => exact ⟨fun _ => ⟨a, rfl⟩, fun _ => ⟨f a, rfl⟩⟩
  have hfinal : ∀ calls, (loop' calls).final v = (loop calls).final v := by
    intro calls
    rw [Durable.final, hrun]
    rfl
  simp only [DrainsIn, hends, hfinal]

theorem Drained.of_flushAll {v w : Vault} (hperm : w.indexed.Perm (v.indexed ++ v.store.db.queue))
    (hnil : w.store.db.queue = [])
    (hreset : w.store.db.resetFlushState = v.store.db.resetFlushState) : Drained v w := by
  refine ⟨fun c hc hpending => ?_, hperm, hreset⟩
  obtain ⟨p, hp, -⟩ := w.store.queue_ids_of_pending hc hpending
  rw [hnil] at hp
  cases hp

theorem flushAll_drainsIn_of_ne {embedder : Embedder} (h : embedder.Complete) {nowMs : ℤ}
    (hnow : nowMs ≠ 0) (scan : Scan) (v : Vault) :
    DrainsIn (fun calls => flushAll embedder nowMs scan calls ⟨0, 0⟩) v v
      v.store.db.queue.length := by
  refine ⟨fun calls => ?_, fun calls hcalls => ?_⟩
  · constructor
    · rintro ⟨report, hok⟩
      by_contra hshort
      dsimp only at hok
      rw [flushAll_short h hnow scan calls ⟨0, 0⟩ v (by omega)] at hok
      cases hok
    · exact fun hcalls => ⟨_, (flushAll_moves h hnow scan calls ⟨0, 0⟩ v hcalls).1⟩
  · obtain ⟨-, hperm, hnil, hreset⟩ := flushAll_moves h hnow scan calls ⟨0, 0⟩ v hcalls
    exact .of_flushAll hperm hnil hreset

theorem flushAll_drainsIn_of_empty (embedder : Embedder) (nowMs : ℤ) (scan : Scan) {v : Vault}
    (hnil : v.store.db.queue = []) :
    DrainsIn (fun calls => flushAll embedder nowMs scan calls ⟨0, 0⟩) v v
      v.store.db.queue.length := by
  have hzero : batchesFor v.store.db.queue.length = 0 := by
    rw [hnil]
    decide
  rw [DrainsIn, hzero]
  refine ⟨fun calls => ?_, fun calls hcalls => ?_⟩
  · cases calls with
    | zero => exact ⟨fun ⟨_, h⟩ => (by cases h), fun h => absurd h (by decide)⟩
    | succ calls =>
        refine ⟨fun _ => by omega, fun _ => ⟨⟨0, 0⟩, ?_⟩⟩
        rw [flushAll_of_empty embedder nowMs scan calls ⟨0, 0⟩ hnil]
  · obtain ⟨calls, rfl⟩ : ∃ n, calls = n + 1 := ⟨calls - 1, by omega⟩
    have hfinal : (flushAll embedder nowMs scan (calls + 1) ⟨0, 0⟩).final v = v := by
      rw [Durable.final, flushAll_of_empty embedder nowMs scan calls ⟨0, 0⟩ hnil]
      rfl
    rw [hfinal]
    exact .of_flushAll (by rw [hnil, List.append_nil]) hnil rfl

/-- The loop of the rebuild drains exactly when its time is not zero or there is nothing to do. -/
theorem flushAll_drainsIn_iff {embedder : Embedder} (h : embedder.Complete) (nowMs : ℤ)
    (scan : Scan) (v : Vault) :
    DrainsIn (fun calls => flushAll embedder nowMs scan calls ⟨0, 0⟩) v v
        v.store.db.queue.length ↔ nowMs ≠ 0 ∨ v.store.db.queue = [] := by
  constructor
  · intro hdrains
    by_contra hcon
    push Not at hcon
    obtain ⟨rfl, hne⟩ := hcon
    obtain ⟨report, hok⟩ := (hdrains.1 _).2 (le_refl _)
    dsimp only at hok
    rw [flushAll_zero h scan _ ⟨0, 0⟩ v hne] at hok
    cases hok
  · rintro (hnow | hnil)
    · exact flushAll_drainsIn_of_ne h hnow scan v
    · exact flushAll_drainsIn_of_empty embedder nowMs scan hnil

theorem i64OfU64_eq_zero_iff (nowMs : ℕ) : i64OfU64 nowMs = 0 ↔ nowMs = 0 := by
  unfold i64OfU64
  split <;> omega

theorem rebuild_drainsIn_iff (embedder : Embedder) (nowMs : ℤ) (scan : Scan) (v : Vault)
    (pending : ℕ) :
    DrainsIn (rebuild embedder nowMs scan) v v.reset pending ↔
      DrainsIn (fun calls => flushAll embedder nowMs scan calls ⟨0, 0⟩) v.reset v.reset pending := by
  have hfinal : ∀ calls, (rebuild embedder nowMs scan calls).final v
      = (flushAll embedder nowMs scan calls ⟨0, 0⟩).final v.reset := by
    intro calls
    rw [Durable.final, rebuild_run, Durable.getLastD_append, List.getLastD_cons]
    rfl
  simp only [DrainsIn, rebuild_run, hfinal]

/-- **Every drain loop ends exactly when its time is not the pending stamp**, or there is nothing to
    drain: the shutdown at every reading of the clock, the rebuild at every time of its caller, and
    the bench harness, whose time is the constant zero. -/
theorem drain_loops_iff {embedder : Embedder} (h : embedder.Complete) (scan : Scan) (v : Vault) :
    (∀ clockMs : ℕ, DrainsIn (fun calls => flushOnShutdown embedder clockMs scan calls 0) v v
        v.store.db.queue.length ↔ clockMs ≠ 0 ∨ v.store.db.queue = []) ∧
    (∀ nowMs : ℤ, DrainsIn (rebuild embedder nowMs scan) v v.reset v.store.db.chunks.length ↔
      nowMs ≠ 0 ∨ v.store.db.chunks = []) ∧
    (DrainsIn (benchFlushLoop embedder scan) v v v.store.db.queue.length ↔
      v.store.db.queue = []) := by
  refine ⟨fun clockMs => ?_, fun nowMs => ?_, ?_⟩
  · rw [drainsIn_map (fun calls => flushOnShutdown_run embedder clockMs scan calls 0 0 v),
      flushAll_drainsIn_iff h, Ne, i64OfU64_eq_zero_iff]
  · have hqueue : v.reset.store.db.queue = [] ↔ v.store.db.chunks = [] := by
      rw [← List.length_eq_zero_iff, v.length_reset_queue, List.length_eq_zero_iff]
    rw [rebuild_drainsIn_iff, ← v.length_reset_queue, flushAll_drainsIn_iff h, hqueue]
  · rw [drainsIn_map (fun calls => benchFlushLoop_run embedder scan calls ⟨0, 0⟩ v),
      flushAll_drainsIn_iff h]
    exact or_iff_right (fun hne => hne rfl)

theorem oneChunk_drains_on_shutdown :
    DrainsIn (fun calls => flushOnShutdown constantEmbedder 1000 (tableOrder _) calls 0)
      ⟨oneChunkStore, none⟩ ⟨oneChunkStore, none⟩ 1 :=
  ((drain_loops_iff constantEmbedder_complete (tableOrder _) ⟨oneChunkStore, none⟩).1 1000).2
    (Or.inl (by decide))

/-- The bench harness over one record, and a shutdown before the epoch: no number of calls is
    enough. -/
theorem oneChunk_never_drains :
    (∀ calls, (benchFlushLoop constantEmbedder (tableOrder _) calls ⟨oneChunkStore, none⟩).1
      = .error .outOfFuel) ∧
    (∀ calls, (flushOnShutdown constantEmbedder 0 (tableOrder _) calls 0
      ⟨oneChunkStore, none⟩).1 = .error .outOfFuel) := by
  have hne : (⟨oneChunkStore, none⟩ : Vault).store.db.queue ≠ [] := by decide
  refine ⟨fun calls => ?_, fun calls => ?_⟩
  · rw [benchFlushLoop_run constantEmbedder (tableOrder _) calls ⟨0, 0⟩,
      flushAll_zero constantEmbedder_complete (tableOrder _) calls ⟨0, 0⟩ _ hne]
    rfl
  · rw [flushOnShutdown_run constantEmbedder 0 (tableOrder _) calls 0 0]
    have hzero : i64OfU64 0 = 0 := rfl
    rw [hzero, flushAll_zero constantEmbedder_complete (tableOrder _) calls ⟨0, 0⟩ _ hne]
    rfl

end Fndr
