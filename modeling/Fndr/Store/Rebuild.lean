import Fndr.Store.LanceWriter

set_option autoImplicit false

/-! # Rebuild converges to truth

Between any two complete flushes the rows of the index and the pending queue together are SQLite
truth, one row per chunk, plus whatever rows were duplicated earlier (`Balanced`). A complete flush
moves a batch from the queue to the index and keeps the balance; a stop between the Lance commit and
the stamp leaves the batch in both, and it is duplicated by the next flush. So a rebuild that runs
to its end leaves exactly one row per chunk, and one that stops can be finished by flushes, at the
price of at most one duplicated batch (`rebuild_converges`). -/

namespace Fndr

open RustStd Rows

/-- What the index should say: one row per chunk. -/
def Db.expectedIndex (db : Db) : List PendingChunk := db.joined.map PendingChunk.ofRow

/-- What the index should say about the pending chunks. -/
def Db.queue (db : Db) : List PendingChunk := db.pendingRows.map PendingChunk.ofRow

/-- Index and queue together are the truth, plus `extra` rows. -/
def Vault.Balanced (v : Vault) (extra : List PendingChunk) : Prop :=
  (v.indexed ++ v.store.db.queue).Perm (v.store.db.expectedIndex ++ extra)

/-! ## Truth apart from the stamps -/

theorem Store.reset_markChunksFlushed (store : Store) (chunkIds : List Str) (nowMs : ℤ) :
    (store.markChunksFlushed chunkIds nowMs).db.resetFlushState = store.db.resetFlushState := by
  rw [Store.markChunksFlushed_db]
  simp only [Db.resetFlushState, updateWhere, List.map_map]
  congr 1
  refine List.map_congr_left (fun c _ => ?_)
  by_cases h : c.id ∈ chunkIds <;> simp [h, Chunk.stamped]

theorem Db.reset_resetFlushState (db : Db) :
    db.resetFlushState.resetFlushState = db.resetFlushState := by
  simp only [Db.resetFlushState, updateWhere, List.map_map]
  rfl

/-- Two stores that differ in stamps only expect the same index. -/
theorem expectedIndex_of_reset_eq {s t : Store}
    (h : s.db.resetFlushState = t.db.resetFlushState) :
    s.db.expectedIndex = t.db.expectedIndex := by
  have hs := (Store.pendingRows_resetFlushState s).2
  have ht := (Store.pendingRows_resetFlushState t).2
  rw [Db.expectedIndex, ← hs, Db.expectedIndex, ← ht]
  exact congrArg (fun db : Db => db.joined.map PendingChunk.ofRow) h

/-! ## One batch -/

theorem Store.joined_ids_nodup (store : Store) :
    (store.db.joined.map (fun row => row.1.id)).Nodup := by
  have : store.db.joined.map (fun row => row.1.id)
      = (store.db.joined.map Prod.fst).map Chunk.id := by
    rw [List.map_map]
    rfl
  rw [this, store.joined_fst]
  exact store.constraints.chunkIds

theorem Store.pendingRows_ids_nodup (store : Store) :
    (store.db.pendingRows.map (fun row => row.1.id)).Nodup :=
  store.joined_ids_nodup.sublist (List.filter_sublist.map _)

theorem Store.length_pendingChunks (store : Store) (scan : Scan) :
    (store.db.pendingChunks scan FLUSH_BATCH_SIZE).length
      = min FLUSH_BATCH_SIZE store.db.queue.length := by
  rw [Db.pendingChunks, List.length_map, Db.queue, List.length_map]
  exact length_orderLimit scan FLUSH_BATCH_SIZE _

theorem Store.pendingChunks_eq_nil_iff (store : Store) (scan : Scan) :
    store.db.pendingChunks scan FLUSH_BATCH_SIZE = [] ↔ store.db.queue = [] := by
  rw [← List.length_eq_zero_iff, store.length_pendingChunks scan, ← List.length_eq_zero_iff,
    FLUSH_BATCH_SIZE]
  omega

/-- Stamping a batch leaves the rest of the queue. -/
theorem Store.queue_perm_batch (store : Store) (scan : Scan) {nowMs : ℤ} (hnow : nowMs ≠ 0) :
    let batch := store.db.pendingChunks scan FLUSH_BATCH_SIZE
    store.db.queue.Perm (batch ++
      (store.markChunksFlushed (batch.map PendingChunk.chunkId) nowMs).db.queue) := by
  intro batch
  have hids : batch.map PendingChunk.chunkId
      = (orderLimit OldestFirst scan (asI64 FLUSH_BATCH_SIZE) store.db.pendingRows).map
          (fun row => row.1.id) := List.map_map
  have hsplit := perm_orderLimit_append_filter OldestFirst scan (asI64 FLUSH_BATCH_SIZE)
    store.pendingRows_ids_nodup
  rw [Db.queue, Db.queue, Store.pendingRows_markChunksFlushed store _ hnow, hids]
  refine (hsplit.map PendingChunk.ofRow).trans ?_
  rw [List.map_append]
  rfl

/-- **A complete flush moves its batch** from the queue to the index. -/
theorem FlushCommitted.moved {nowMs : ℤ} {scan : Scan} {v added stamped : Vault}
    (h : FlushCommitted (v.store.db.pendingChunks scan FLUSH_BATCH_SIZE) nowMs v added stamped)
    (hnow : nowMs ≠ 0) :
    (stamped.indexed ++ stamped.store.db.queue).Perm (v.indexed ++ v.store.db.queue) ∧
      stamped.store.db.resetFlushState = v.store.db.resetFlushState ∧
      stamped.store.db.queue.length
        = v.store.db.queue.length - (v.store.db.pendingChunks scan FLUSH_BATCH_SIZE).length := by
  have hqueue := v.store.queue_perm_batch scan hnow
  refine ⟨?_, ?_, ?_⟩
  · rw [h.stampedIndexed, h.stampedStore, List.append_assoc]
    exact hqueue.symm.append_left v.indexed
  · rw [h.stampedStore, Store.reset_markChunksFlushed]
  · rw [h.stampedStore, hqueue.length_eq, List.length_append]
    omega

/-- **A complete flush keeps the balance.** -/
theorem FlushCommitted.balanced {nowMs : ℤ} {scan : Scan} {v added stamped : Vault}
    {extra : List PendingChunk}
    (h : FlushCommitted (v.store.db.pendingChunks scan FLUSH_BATCH_SIZE) nowMs v added stamped)
    (hnow : nowMs ≠ 0) (hv : v.Balanced extra) :
    stamped.Balanced extra ∧
      stamped.store.db.resetFlushState = v.store.db.resetFlushState := by
  obtain ⟨hmoved, hreset, -⟩ := h.moved hnow
  refine ⟨?_, hreset⟩
  rw [Vault.Balanced, expectedIndex_of_reset_eq hreset]
  exact hmoved.trans hv

/-! ## The loop -/

/-- Batches needed for `n` chunks: `n / FLUSH_BATCH_SIZE`, rounded up. -/
def batchesFor (n : ℕ) : ℕ := (n + (FLUSH_BATCH_SIZE - 1)) / FLUSH_BATCH_SIZE

theorem batchesFor_sub (n : ℕ) (h : n ≠ 0) :
    batchesFor (n - min FLUSH_BATCH_SIZE n) + 1 = batchesFor n := by
  simp only [batchesFor, FLUSH_BATCH_SIZE]
  omega

/-- The pass that sees an empty queue ends the loop. -/
theorem flushAll_of_empty (embedder : Embedder) (nowMs : ℤ) (scan : Scan) (fuel : ℕ)
    (report : RebuildReport) {v : Vault} (hnil : v.store.db.queue = []) :
    flushAll embedder nowMs scan (fuel + 1) report v = (.ok report, []) := by
  have hflush : flushOnce embedder nowMs scan v = (.ok ⟨0, false⟩, []) := by
    rw [flushOnce_run embedder nowMs scan v rfl,
      if_pos ((v.store.pendingChunks_eq_nil_iff scan).2 hnil)]
    rfl
  rw [flushAll_succ, Durable.bind_run, hflush]
  rfl

/-- A pass over a queue commits one batch and goes on. -/
theorem flushAll_of_pending {embedder : Embedder} (h : embedder.Complete) (nowMs : ℤ) (scan : Scan)
    (fuel : ℕ) (report : RebuildReport) {v : Vault} (hne : v.store.db.queue ≠ []) :
    ∃ added stamped,
      FlushCommitted (v.store.db.pendingChunks scan FLUSH_BATCH_SIZE) nowMs v added stamped ∧
      let report' : RebuildReport :=
        ⟨report.chunks + (v.store.db.pendingChunks scan FLUSH_BATCH_SIZE).length,
          report.batches + 1⟩
      (flushAll embedder nowMs scan (fuel + 1) report v).1
          = (flushAll embedder nowMs scan fuel report' stamped).1 ∧
        (flushAll embedder nowMs scan (fuel + 1) report).final v
          = (flushAll embedder nowMs scan fuel report').final stamped := by
  have hbatch : v.store.db.pendingChunks scan FLUSH_BATCH_SIZE ≠ [] :=
    mt (v.store.pendingChunks_eq_nil_iff scan).1 hne
  obtain ⟨opened, added, stamped, hcommitted, hflush⟩ := h.flushOnce nowMs scan v rfl hbatch
  have hfinal : (flushOnce embedder nowMs scan).final v = stamped := by
    rw [Durable.final, hflush]
    exact Durable.getLastD_append opened [added, stamped] v
  have hwritten : (v.store.db.pendingChunks scan FLUSH_BATCH_SIZE).length ≠ 0 :=
    mt List.length_eq_zero_iff.1 hbatch
  refine ⟨added, stamped, hcommitted, ?_⟩
  rw [flushAll_succ, Durable.final_bind_ok (by rw [hflush]),
    Durable.bind_run_ok (by rw [hflush]), if_neg hwritten, hfinal]
  exact ⟨rfl, rfl⟩

/-- **The flush loop empties the queue.** It needs one pass per batch and one more to see that
    nothing is left. -/
theorem flushAll_moves {embedder : Embedder} (h : embedder.Complete) {nowMs : ℤ} (hnow : nowMs ≠ 0)
    (scan : Scan) (fuel : ℕ) :
    ∀ (report : RebuildReport) (v : Vault), batchesFor v.store.db.queue.length < fuel →
      (flushAll embedder nowMs scan fuel report v).1
          = .ok ⟨report.chunks + v.store.db.queue.length,
              report.batches + batchesFor v.store.db.queue.length⟩ ∧
        ((flushAll embedder nowMs scan fuel report).final v).indexed.Perm
          (v.indexed ++ v.store.db.queue) ∧
        ((flushAll embedder nowMs scan fuel report).final v).store.db.queue = [] ∧
        ((flushAll embedder nowMs scan fuel report).final v).store.db.resetFlushState
          = v.store.db.resetFlushState := by
  induction fuel with
  | zero => intro _ _ hfuel; omega
  | succ fuel ih =>
      intro report v hfuel
      by_cases hnil : v.store.db.queue = []
      · rw [Durable.final, flushAll_of_empty embedder nowMs scan fuel report hnil, hnil,
          List.append_nil]
        exact ⟨rfl, List.Perm.refl _, hnil, rfl⟩
      · -- one batch moves from the queue to the index, and the rest needs one pass less
        have hpos : v.store.db.queue.length ≠ 0 := mt List.length_eq_zero_iff.1 hnil
        have hlen := v.store.length_pendingChunks scan
        obtain ⟨added, stamped, hcommitted, hrun, hfinal⟩ :=
          flushAll_of_pending h nowMs scan fuel report hnil
        obtain ⟨hmoved, hreset, hqueue⟩ := hcommitted.moved hnow
        have hbatches := batchesFor_sub _ hpos
        rw [← hlen, ← hqueue] at hbatches
        obtain ⟨hok, hperm, hnil', hreset'⟩ := ih
          ⟨report.chunks + (v.store.db.pendingChunks scan FLUSH_BATCH_SIZE).length,
            report.batches + 1⟩ stamped (by omega)
        rw [hrun, hfinal]
        refine ⟨hok.trans ?_, hperm.trans hmoved, hnil', hreset'.trans hreset⟩
        simp only [Except.ok.injEq, RebuildReport.mk.injEq]
        omega

theorem flushAll_ok {embedder : Embedder} (h : embedder.Complete) {nowMs : ℤ} (hnow : nowMs ≠ 0)
    (scan : Scan) {fuel : ℕ} (report : RebuildReport) {v : Vault} {extra : List PendingChunk}
    (hv : v.Balanced extra) (hfuel : batchesFor v.store.db.queue.length < fuel) :
    (flushAll embedder nowMs scan fuel report v).1
        = .ok ⟨report.chunks + v.store.db.queue.length,
            report.batches + batchesFor v.store.db.queue.length⟩ ∧
      ((flushAll embedder nowMs scan fuel report).final v).Balanced extra ∧
      ((flushAll embedder nowMs scan fuel report).final v).store.db.queue = [] ∧
      ((flushAll embedder nowMs scan fuel report).final v).store.db.resetFlushState
        = v.store.db.resetFlushState := by
  obtain ⟨hok, hperm, hnil, hreset⟩ := flushAll_moves h hnow scan fuel report v hfuel
  refine ⟨hok, ?_, hnil, hreset⟩
  rw [Vault.Balanced, hnil, List.append_nil, expectedIndex_of_reset_eq hreset]
  exact hperm.trans hv

/-! ## Where a rebuild can stop -/

/-- The rows of the index whose chunk is still pending. -/
def Vault.unstamped (v : Vault) : List PendingChunk :=
  v.indexed.filter (fun p => v.store.db.pendingChunkExists p.chunkId p.recordId)

/-- A state of the flush loop: balanced, or one batch is in Lance and not yet stamped. -/
structure Resumable (origin : Store) (scan : Scan) (v : Vault) : Prop where
  truth : v.store.db.resetFlushState = origin.db.resetFlushState
  balanced : v.Balanced [] ∨ ∃ w : Vault, w.store = v.store ∧ w.Balanced [] ∧
    v.indexed = w.indexed ++ v.store.db.pendingChunks scan FLUSH_BATCH_SIZE

/-- Every state the flush loop leaves after an effect is resumable, whatever the embedder does. -/
theorem flushAll_resumable (embedder : Embedder) {nowMs : ℤ} (hnow : nowMs ≠ 0) (scan : Scan)
    (origin : Store) (fuel : ℕ) :
    ∀ (report : RebuildReport) (v : Vault), v.store.db.resetFlushState = origin.db.resetFlushState →
      v.Balanced [] →
      ∀ t ∈ (flushAll embedder nowMs scan fuel report v).2, Resumable origin scan t := by
  induction fuel with
  | zero => intro _ _ _ _ t ht; nomatch ht
  | succ fuel ih =>
      intro report v hreset hv t ht
      have hopened : ∀ opened : List Vault,
          (∀ t ∈ opened, t.store = v.store ∧ t.indexed = v.indexed) →
          t ∈ opened → Resumable origin scan t := by
        intro opened hsame hmem
        obtain ⟨hstore, hindexed⟩ := hsame t hmem
        refine ⟨by rw [hstore, hreset], Or.inl ?_⟩
        rw [Vault.Balanced, hstore, hindexed]
        exact hv
      rw [flushAll_succ] at ht
      rcases flushOnce_cases embedder nowMs scan v rfl with
        ⟨-, hflush⟩ | ⟨-, opened, hsame, ⟨halt, hflush⟩ | ⟨added, stamped, hcommitted, hflush⟩⟩
      · rw [Durable.bind_run, hflush] at ht
        cases ht
      · rw [Durable.bind_run, hflush] at ht
        exact hopened opened hsame ht
      · obtain ⟨hbal, hreset'⟩ := hcommitted.balanced hnow hv
        rw [Durable.bind_run, hflush] at ht
        simp only [Durable.getLastD_append, List.mem_append] at ht
        rcases ht with (ht | ht) | ht
        · exact hopened opened hsame ht
        · rcases List.mem_pair.1 ht with rfl | rfl
          · -- the one state that is not balanced: the batch is in Lance, its stamp is to come
            refine ⟨by rw [hcommitted.addedStore, hreset], Or.inr ⟨v, ?_, hv, ?_⟩⟩
            · exact hcommitted.addedStore.symm
            · rw [hcommitted.addedIndexed, hcommitted.addedStore]
          · exact ⟨hreset'.trans hreset, Or.inl hbal⟩
        · split at ht
          · cases ht
          · exact ih _ stamped (hreset'.trans hreset) hbal t ht

theorem Store.queue_ids_of_pending (store : Store) {c : Chunk} (hc : c ∈ store.db.chunks)
    (hpending : c.flushedAtMs = 0) : ∃ p ∈ store.db.queue, p.chunkId = c.id := by
  rw [← store.joined_fst] at hc
  obtain ⟨row, hrow, rfl⟩ := List.mem_map.1 hc
  refine ⟨PendingChunk.ofRow row, List.mem_map.2 ⟨row, ?_, rfl⟩, rfl⟩
  exact List.mem_filter.2 ⟨hrow, by simpa using hpending⟩

theorem Db.pendingChunkExists_of_mem_pendingChunks {db : Db} {scan : Scan} {limit : ℕ}
    {p : PendingChunk} (h : p ∈ db.pendingChunks scan limit) :
    db.pendingChunkExists p.chunkId p.recordId = true := by
  obtain ⟨row, hrow, rfl⟩ := Db.mem_pendingChunks h
  obtain ⟨⟨hc, -, -⟩, hpending⟩ := Db.mem_pendingRows.1 hrow
  rw [Db.pendingChunkExists, List.any_eq_true]
  exact ⟨row.1, hc, by simp [PendingChunk.ofRow, hpending]⟩

/-- In a balanced state without duplicates no indexed chunk is pending. -/
theorem Vault.Balanced.unstamped {v : Vault} (hv : v.Balanced []) : v.unstamped = [] := by
  have hnodup : ((v.indexed ++ v.store.db.queue).map PendingChunk.chunkId).Nodup := by
    refine (hv.map PendingChunk.chunkId).nodup_iff.2 ?_
    rw [List.append_nil, Db.expectedIndex, List.map_map]
    exact v.store.joined_ids_nodup
  rw [List.map_append] at hnodup
  rw [Vault.unstamped, List.filter_eq_nil_iff]
  intro p hp hexists
  simp only [Db.pendingChunkExists, List.any_eq_true, Bool.and_eq_true, beq_iff_eq] at hexists
  obtain ⟨c, hc, ⟨hid, -⟩, hpending⟩ := hexists
  obtain ⟨q, hq, hqid⟩ := v.store.queue_ids_of_pending hc hpending
  -- its chunk would be in the index and in the queue, and the balance has it once
  refine List.disjoint_of_nodup_append hnodup (List.mem_map.2 ⟨p, hp, rfl⟩) ?_
  exact List.mem_map.2 ⟨q, hq, hqid.trans hid⟩

/-- What a stop leaves: the rows in Lance whose stamp did not happen are none, or one batch, and
    the state is balanced with them as the duplicates to come. -/
theorem Resumable.unstamped {origin : Store} {scan : Scan} {t : Vault}
    (h : Resumable origin scan t) :
    t.Balanced t.unstamped ∧
      (t.unstamped = [] ∨ t.unstamped = t.store.db.pendingChunks scan FLUSH_BATCH_SIZE) := by
  rcases h.balanced with hv | ⟨w, hstore, hw, hindexed⟩
  · rw [hv.unstamped]
    exact ⟨hv, Or.inl rfl⟩
  · have hbatch : t.unstamped = t.store.db.pendingChunks scan FLUSH_BATCH_SIZE := by
      have hnil := hw.unstamped
      rw [Vault.unstamped, hstore] at hnil
      rw [Vault.unstamped, hindexed, List.filter_append, hnil, List.nil_append,
        List.filter_eq_self]
      exact fun p hp => Db.pendingChunkExists_of_mem_pendingChunks hp
    rw [Vault.Balanced, hstore, List.append_nil] at hw
    refine ⟨?_, Or.inr hbatch⟩
    rw [hbatch, Vault.Balanced, hindexed, List.append_assoc]
    refine List.Perm.trans ?_ (hw.append_right _)
    rw [List.append_assoc]
    exact List.perm_append_comm.append_left w.indexed

/-! ## Convergence -/

/-- Truth is what it was, apart from the stamps; no chunk is pending; and the index holds exactly
    one row per chunk and, besides, the rows of `extra`. -/
structure Converged (before after : Vault) (extra : List PendingChunk) : Prop where
  truth : after.store.db.resetFlushState = before.store.db.resetFlushState
  noPending : ∀ c ∈ after.store.db.chunks, c.flushedAtMs ≠ 0
  rows : after.indexed.Perm (before.store.db.expectedIndex ++ extra)

/-- States reached by successful flushes. -/
inductive SuccessfulFlushes (embedder : Embedder) (nowMs : ℤ) (scan : Scan) : Vault → Vault → Prop
  | refl (v : Vault) : SuccessfulFlushes embedder nowMs scan v v
  | flush {v w : Vault} {report : FlushReport}
      (hok : (flushOnce embedder nowMs scan v).1 = .ok report)
      (hrest : SuccessfulFlushes embedder nowMs scan ((flushOnce embedder nowMs scan).final v) w) :
      SuccessfulFlushes embedder nowMs scan v w

/-- A flush loop that returns is a sequence of successful flushes. -/
theorem SuccessfulFlushes.of_flushAll (embedder : Embedder) (nowMs : ℤ) (scan : Scan) (fuel : ℕ) :
    ∀ (report : RebuildReport) (v : Vault) {result : RebuildReport},
      (flushAll embedder nowMs scan fuel report v).1 = .ok result →
      SuccessfulFlushes embedder nowMs scan v
        ((flushAll embedder nowMs scan fuel report).final v) := by
  induction fuel with
  | zero => intro _ _ _ hok; nomatch hok
  | succ fuel ih =>
      intro report v result hok
      rw [flushAll_succ] at hok ⊢
      cases hflush : (flushOnce embedder nowMs scan v).1 with
      | error halt =>
          rw [Durable.bind_run_error hflush] at hok
          cases hok
      | ok flush =>
          rw [Durable.bind_run_ok hflush] at hok
          rw [Durable.final_bind_ok hflush]
          refine .flush hflush ?_
          split
          · exact .refl _
          · next hwritten =>
            rw [if_neg hwritten] at hok
            exact ih _ _ hok

theorem Converged.of_balanced {origin after : Vault} {extra : List PendingChunk}
    (hbal : after.Balanced extra) (hqueue : after.store.db.queue = [])
    (hreset : after.store.db.resetFlushState = origin.store.db.resetFlushState) :
    Converged origin after extra := by
  refine ⟨hreset, ?_, ?_⟩
  · intro c hc hpending
    obtain ⟨p, hp, -⟩ := after.store.queue_ids_of_pending hc hpending
    rw [hqueue] at hp
    cases hp
  · rw [Vault.Balanced, hqueue, List.append_nil, expectedIndex_of_reset_eq hreset] at hbal
    exact hbal

theorem SuccessfulFlushes.balanced {embedder : Embedder} {nowMs : ℤ} (hnow : nowMs ≠ 0)
    {scan : Scan} {v w : Vault} (h : SuccessfulFlushes embedder nowMs scan v w)
    {extra : List PendingChunk} (hv : v.Balanced extra) :
    w.Balanced extra ∧ w.store.db.resetFlushState = v.store.db.resetFlushState := by
  induction h with
  | refl v => exact ⟨hv, rfl⟩
  | @flush v w report hok _ ih =>
      rcases flushOnce_cases embedder nowMs scan v rfl with
        ⟨-, hflush⟩ | ⟨-, opened, -, ⟨halt, hflush⟩ | ⟨added, stamped, hcommitted, hflush⟩⟩
      · have hfinal : (flushOnce embedder nowMs scan).final v = v := by
          rw [Durable.final, hflush]
          rfl
        rw [hfinal] at ih
        exact ih hv
      · rw [hflush] at hok
        cases hok
      · have hfinal : (flushOnce embedder nowMs scan).final v = stamped := by
          rw [Durable.final, hflush]
          exact Durable.getLastD_append opened [added, stamped] v
        obtain ⟨hbal, hreset⟩ := hcommitted.balanced hnow hv
        rw [hfinal] at ih
        exact ⟨(ih hbal).1, (ih hbal).2.trans hreset⟩

/-- A balanced state with duplicates has not converged. -/
theorem Converged.extra_eq_nil {before after : Vault} {extra : List PendingChunk}
    (h : Converged before after []) (hbal : after.Balanced extra) : extra = [] := by
  have hqueue : after.store.db.queue = [] := by
    rw [Db.queue, List.map_eq_nil_iff, List.eq_nil_iff_forall_not_mem]
    intro row hrow
    obtain ⟨⟨hc, -, -⟩, hpending⟩ := Db.mem_pendingRows.1 hrow
    exact h.noPending _ hc hpending
  have hrows := h.rows.length_eq
  have htotal := hbal.length_eq
  rw [hqueue, expectedIndex_of_reset_eq h.truth] at htotal
  simp only [List.append_nil, List.length_append] at hrows htotal
  exact List.length_eq_zero_iff.1 (by omega)

theorem Vault.reset_balanced (v : Vault) : v.reset.Balanced [] := by
  have hpending : v.reset.store.db.pendingRows = v.reset.store.db.joined :=
    v.store.pendingRows_resetFlushState.1
  rw [Vault.Balanced, List.append_nil, Db.expectedIndex, Db.queue, hpending]
  exact List.Perm.refl _

theorem Vault.length_reset_queue (v : Vault) :
    v.reset.store.db.queue.length = v.store.db.chunks.length := by
  obtain ⟨hpending, hjoined⟩ := v.store.pendingRows_resetFlushState
  rw [Db.queue, Vault.reset, hpending, hjoined, List.length_map, ← v.store.joined_fst,
    List.length_map]

/-- A stop after the reset leaves a resumable state. -/
theorem rebuild_resumable (embedder : Embedder) {nowMs : ℤ} (hnow : nowMs ≠ 0) (scan : Scan)
    (fuel : ℕ) (v : Vault) {k : ℕ} (hk : v.resetEffects ≤ k) :
    Resumable v.store scan ((rebuild embedder nowMs scan fuel).stopAfter v k) := by
  have hmem := rebuild_stopAfter_mem embedder nowMs scan fuel v hk
  have hreset : v.reset.store.db.resetFlushState = v.store.db.resetFlushState :=
    v.store.db.reset_resetFlushState
  rcases List.mem_cons.1 hmem with heq | hmem
  · rw [heq]
    exact ⟨hreset, Or.inl v.reset_balanced⟩
  · exact flushAll_resumable embedder hnow scan v.store fuel _ v.reset hreset v.reset_balanced _ hmem

/-- **Rebuild converges to truth.** Run to its end it leaves exactly one row per chunk and nothing
    pending, whatever the table held before. Stopped after the stamps were reset, it is finished by
    successful flushes, with one more row for each chunk that was in Lance but not yet stamped:
    none, or one batch. -/
theorem rebuild_converges {embedder : Embedder} (hcomplete : embedder.Complete) {nowMs : ℤ}
    (hnow : 0 < nowMs) (scan : Scan) (v : Vault) :
    (∀ fuel, batchesFor v.store.db.chunks.length < fuel →
      (rebuild embedder nowMs scan fuel v).1
          = .ok ⟨v.store.db.chunks.length, batchesFor v.store.db.chunks.length⟩ ∧
        Converged v ((rebuild embedder nowMs scan fuel).final v) []) ∧
    ∀ (failing : Embedder) (scan' : Scan) (fuel k : ℕ), v.resetEffects ≤ k →
      let t := (rebuild failing nowMs scan' fuel).stopAfter v k
      (t.unstamped = [] ∨ t.unstamped = t.store.db.pendingChunks scan' FLUSH_BATCH_SIZE) ∧
        ∃ t', SuccessfulFlushes embedder nowMs scan t t' ∧ Converged v t' t.unstamped := by
  have hne : nowMs ≠ 0 := ne_of_gt hnow
  constructor
  · intro fuel hfuel
    have hreset : v.reset.store.db.resetFlushState = v.store.db.resetFlushState :=
      v.store.db.reset_resetFlushState
    have henough : batchesFor v.reset.store.db.queue.length < fuel := by
      rw [v.length_reset_queue]
      exact hfuel
    obtain ⟨hok, hbal, hqueue, hreset'⟩ :=
      flushAll_ok hcomplete hne scan ⟨0, 0⟩ v.reset_balanced henough
    rw [v.length_reset_queue] at hok
    have hfinal : (rebuild embedder nowMs scan fuel).final v
        = (flushAll embedder nowMs scan fuel ⟨0, 0⟩).final v.reset := by
      rw [Durable.final, rebuild_run, Durable.getLastD_append, List.getLastD_cons]
      rfl
    rw [rebuild_run, hfinal]
    refine ⟨hok.trans (by simp), Converged.of_balanced hbal hqueue (hreset'.trans hreset)⟩
  · intro failing scan' fuel k hk t
    -- wherever it stops, one batch at most is in Lance without its stamp
    have hresumable := rebuild_resumable failing hne scan' fuel v hk
    obtain ⟨hbal, hbatch⟩ := hresumable.unstamped
    obtain ⟨hok, hbal', hqueue, hreset⟩ := flushAll_ok hcomplete hne scan ⟨0, 0⟩ hbal
      (Nat.lt_succ_self _)
    exact ⟨hbatch, _, SuccessfulFlushes.of_flushAll embedder nowMs scan _ _ t hok,
      Converged.of_balanced hbal' hqueue (hreset.trans hresumable.truth)⟩

/-! ## A stop between commit and stamp -/

theorem constantEmbedder_complete : constantEmbedder.Complete := by
  intro texts
  refine ⟨_, rfl, List.length_map _, fun vector hvector => ?_⟩
  obtain ⟨_, -, rfl⟩ := List.mem_map.1 hvector
  rfl

/-- Two captures of a session, the first of them flushed. -/
def twoChunkStore : Store where
  db :=
    { memoryRecords := [("r", 1000), ("q", 2000)].map (fun (id, ms) =>
        ⟨id.toList, "s".toList, "screen".toList, "Notes".toList, none, none, "plan".toList, ms, ms⟩)
      chunks := [⟨1, "c".toList, "r".toList, 0, "note".toList, 5⟩,
        ⟨2, "d".toList, "q".toList, 0, "plan".toList, 0⟩]
      chunksFts := [⟨1, "note".toList⟩, ⟨2, "plan".toList⟩] }
  constraints := ⟨by decide, by decide, by decide, by decide, by decide⟩
  ftsCurrent := List.Perm.refl _

/-- The first chunk twice, and a row of a chunk that is gone. -/
def strayRows : LanceTable where
  indices := []
  rows := ["c", "c", "b"].map (fun id =>
    ⟨id.toList, "r".toList, 0, "note".toList, "screen".toList, 1000, []⟩)

/-- The rebuild cleans the table, run to its end or stopped before the stamps and taken up again. -/
theorem rebuild_converges_strayRows :
    let v : Vault := ⟨twoChunkStore, some strayRows⟩
    let t := (rebuild constantEmbedder 9 (tableOrder _) 2).stopAfter v 5
    Converged v ((rebuild constantEmbedder 9 (tableOrder _) 2).final v) [] ∧
      ∃ t', SuccessfulFlushes constantEmbedder 9 (tableOrder _) t t' ∧
        Converged v t' t.unstamped := by
  intro v t
  have hnow : (0 : ℤ) < 9 := by decide
  obtain ⟨hend, hstopped⟩ := rebuild_converges constantEmbedder_complete hnow (tableOrder _) v
  exact ⟨(hend 2 (by decide)).2,
    (hstopped constantEmbedder (tableOrder _) 2 5 (by decide)).2⟩

/-- One capture, not yet flushed. -/
def oneChunkStore : Store where
  db :=
    { memoryRecords := [⟨"r".toList, "s".toList, "screen".toList, "Notes".toList, none, none,
        "plan".toList, 1000, 1000⟩]
      chunks := [⟨1, "c".toList, "r".toList, 0, "note".toList, 0⟩]
      chunksFts := [⟨1, "note".toList⟩] }
  constraints := ⟨by decide, by decide, by decide, by decide, by decide⟩
  ftsCurrent := List.Perm.refl _

/-- Stopped after the Lance commit of the one batch, no number of successful flushes makes the table
    exact again: the row is there twice. -/
theorem rebuild_stop_duplicates :
    let v : Vault := ⟨oneChunkStore, none⟩
    let t := (rebuild constantEmbedder 1 (tableOrder _) 2).stopAfter v 5
    v.resetEffects ≤ 5 ∧
      ¬ ∃ t', SuccessfulFlushes constantEmbedder 1 (tableOrder _) t t' ∧ Converged v t' [] := by
  intro v t
  refine ⟨by decide, ?_⟩
  rintro ⟨t', hflushes, hconverged⟩
  have hone : (1 : ℤ) ≠ 0 := by decide
  have hresumable : Resumable v.store (tableOrder _) t :=
    rebuild_resumable constantEmbedder hone (tableOrder _) 2 v (by decide)
  have hbal := (hflushes.balanced hone hresumable.unstamped.1).1
  have hnone : t.unstamped = [] := hconverged.extra_eq_nil hbal
  exact absurd hnone (by decide)

end Fndr
