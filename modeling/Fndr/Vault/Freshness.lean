import Fndr.Vault.Calls

set_option autoImplicit false

/-! # Do rows carry the current text?

A merge edits a chunk that is still pending, and a pending chunk is meant to be one that Lance has
never seen. A flush that stops between the Lance commit and the stamp breaks that: its batch is in
the table and still pending, and a capture that continues one of these records leaves a stale row.
As long as no capture does (`VaultCall.TargetNotIndexed`), every row carries its chunk's text and
its record's capture time (`rowsFresh_of_targetNotIndexed`). -/

namespace Fndr

open RustStd Rows Runs

/-- Every row of a chunk in SQLite carries the chunk's text and its record's capture time. -/
def Vault.RowsFresh (v : Vault) : Prop :=
  ∀ row ∈ v.rows, ∀ c ∈ v.store.db.chunks, c.id = row.id →
    row.text = c.text ∧
      ∀ r ∈ v.store.db.memoryRecords, r.id = c.recordId → row.capturedAtMs = r.capturedAtMs

instance (v : Vault) : Decidable v.RowsFresh :=
  inferInstanceAs (Decidable (∀ row ∈ v.rows, _))

/-- The invariant behind it. -/
structure FreshIndex (store : Store) (indexed : List PendingChunk) : Prop where
  fresh : ∀ p ∈ indexed, ∀ c ∈ store.db.chunks, c.id = p.chunkId →
    p.text = c.text ∧
      ∀ r ∈ store.db.memoryRecords, r.id = c.recordId → p.capturedAtMs = r.capturedAtMs
  known : ∀ p ∈ indexed, ∃ c ∈ store.db.chunks, c.id = p.chunkId
  oneChunk : (store.db.chunks.map Chunk.recordId).Nodup

theorem FreshIndex.rowsFresh {v : Vault} (h : FreshIndex v.store v.indexed) : v.RowsFresh :=
  fun row hrow c hc hid => h.fresh row.chunk (List.mem_map.2 ⟨row, hrow, rfl⟩) c hc hid

theorem freshIndex_empty : FreshIndex Vault.empty.store Vault.empty.indexed :=
  ⟨fun _ hp => (nomatch hp), fun _ hp => (nomatch hp), List.nodup_nil⟩

/-! ## Flushing -/

theorem freshIndex_add (scan : Scan) (store : Store) (indexed : List PendingChunk)
    (h : FreshIndex store indexed) :
    FreshIndex store (indexed ++ store.db.pendingChunks scan FLUSH_BATCH_SIZE) := by
  have hrow : ∀ p ∈ store.db.pendingChunks scan FLUSH_BATCH_SIZE, ∃ c ∈ store.db.chunks,
      ∃ r ∈ store.db.memoryRecords, r.id = c.recordId ∧ p = PendingChunk.ofRow (c, r) := by
    intro p hp
    obtain ⟨row, hrow, rfl⟩ := Db.mem_pendingChunks hp
    obtain ⟨⟨hc, hr, hid⟩, -⟩ := Db.mem_pendingRows.1 hrow
    exact ⟨row.1, hc, row.2, hr, hid, rfl⟩
  refine ⟨fun p hp c hc hid => ?_, fun p hp => ?_, h.oneChunk⟩
  · rcases List.mem_append.1 hp with hp | hp
    · exact h.fresh p hp c hc hid
    · obtain ⟨c', hc', r', hr', hrid, rfl⟩ := hrow p hp
      cases eq_of_key_eq store.constraints.chunkIds hc hc' hid
      refine ⟨rfl, fun r hr hr'id => ?_⟩
      cases eq_of_key_eq store.constraints.recordIds hr hr' (hr'id.trans hrid.symm)
      rfl
  · rcases List.mem_append.1 hp with hp | hp
    · exact h.known p hp
    · obtain ⟨c', hc', r', -, -, rfl⟩ := hrow p hp
      exact ⟨c', hc', rfl⟩

/-- Stamps are not among the columns a row carries. -/
theorem FreshIndex.markChunksFlushed {store : Store} {indexed : List PendingChunk}
    (h : FreshIndex store indexed) (chunkIds : List Str) (nowMs : ℤ) :
    FreshIndex (store.markChunksFlushed chunkIds nowMs) indexed := by
  have hstamp : ∀ c : Chunk, let d := if decide (c.id ∈ chunkIds) then c.stamped nowMs else c
      d.id = c.id ∧ d.text = c.text ∧ d.recordId = c.recordId := by
    intro c d
    by_cases hmem : c.id ∈ chunkIds <;> simp [d, hmem, Chunk.stamped]
  constructor
  · rw [Store.markChunksFlushed_db]
    intro p hp c hc hid
    obtain ⟨d, hd, rfl⟩ := mem_updateWhere.1 hc
    obtain ⟨hdid, hdtext, hdrecord⟩ := hstamp d
    rw [hdtext, hdrecord]
    exact h.fresh p hp d hd (hdid.symm.trans hid)
  · rw [Store.markChunksFlushed_db]
    intro p hp
    obtain ⟨c, hc, hid⟩ := h.known p hp
    exact ⟨_, mem_updateWhere.2 ⟨c, hc, rfl⟩, (hstamp c).1.trans hid⟩
  · rw [Store.markChunksFlushed_db]
    have hrecord := map_updateWhere (p := fun c : Chunk => decide (c.id ∈ chunkIds))
      (f := (·.stamped nowMs)) (g := Chunk.recordId) (fun _ _ => rfl) store.db.chunks
    rw [hrecord]
    exact h.oneChunk

theorem freshIndex_flush (nowMs : ℤ) (scan : Scan) : FlushKeeps FreshIndex nowMs scan :=
  ⟨freshIndex_add scan, fun store indexed h =>
    (freshIndex_add scan store indexed h).markChunksFlushed _ nowMs⟩

/-! ## Capturing -/

/-- A new record with a new chunk is in no row. -/
theorem FreshIndex.withCapture {store store' : Store} {indexed : List PendingChunk}
    (h : FreshIndex store indexed) {record : NewRecord} {chunk : NewChunk}
    (hrecord : ∀ r ∈ store.db.memoryRecords, r.id ≠ record.id)
    (hchunk : ∀ c ∈ store.db.chunks, c.id ≠ chunk.id)
    (hdb : store'.db = store.db.withCapture record chunk) : FreshIndex store' indexed := by
  constructor
  · rw [hdb]
    intro p hp c hc hid
    rcases List.mem_append.1 hc with hc | hc
    · obtain ⟨htext, htime⟩ := h.fresh p hp c hc hid
      refine ⟨htext, fun r hr hrid => ?_⟩
      rcases List.mem_append.1 hr with hr | hr
      · exact htime r hr hrid
      · -- the new record has no older chunk
        cases List.mem_singleton.1 hr
        exact absurd hrid.symm (store.chunk_recordId_ne hrecord c hc)
    · cases List.mem_singleton.1 hc
      obtain ⟨c', hc', hid'⟩ := h.known p hp
      exact absurd (hid'.trans hid.symm) (hchunk c' hc')
  · rw [hdb]
    intro p hp
    obtain ⟨c, hc, hid⟩ := h.known p hp
    exact ⟨c, List.mem_append_left _ hc, hid⟩
  · rw [hdb]
    exact nodup_map_concat h.oneChunk (store.chunk_recordId_ne hrecord)

/-- A merge into a chunk without a row touches what no row shows. -/
theorem FreshIndex.withMerge {store store' : Store} {indexed : List PendingChunk}
    (h : FreshIndex store indexed) {candidate : PendingContinuityCandidate}
    (hpending : candidate.IsPending store.db) (hrow : ∀ p ∈ indexed, p.chunkId ≠ candidate.chunkId)
    {record : NewRecord} {text : Str}
    (hdb : store'.db = store.db.withMerge candidate.recordId candidate.chunkId record text) :
    FreshIndex store' indexed := by
  obtain ⟨row, hmem, -, rfl⟩ := hpending
  obtain ⟨⟨hc₀, -, hid₀⟩, -⟩ := Db.mem_pendingRows.1 hmem
  have hkeys : ∀ c : Chunk, ∀ b : Bool,
      (if b then c.withText text else c).id = c.id ∧
        (if b then c.withText text else c).recordId = c.recordId := by
    intro c b
    cases b <;> exact ⟨rfl, rfl⟩
  constructor
  · rw [hdb]
    intro p hp c hc hid
    obtain ⟨d, hd, rfl⟩ := mem_updateWhere.1 hc
    rw [(hkeys d _).1] at hid
    -- the merged chunk has no row, so this is another chunk, of another record
    have hother : d.id ≠ row.1.id := fun heq => hrow p hp (hid.symm.trans heq)
    have hotherRecord : d.recordId ≠ row.2.id := by
      intro heq
      cases eq_of_key_eq h.oneChunk hd hc₀ (heq.trans hid₀)
      exact hother rfl
    have hbeq : (d.id == row.1.id) = false := beq_eq_false_iff_ne.2 hother
    simp only [PendingContinuityCandidate.ofRow, hbeq, Bool.false_and, Bool.false_eq_true,
      if_false]
    obtain ⟨htext, htime⟩ := h.fresh p hp d hd hid
    refine ⟨htext, fun r hr hrid => ?_⟩
    obtain ⟨r', hr', rfl⟩ := mem_updateWhere.1 hr
    by_cases hmerged : r'.id = row.2.id
    · refine absurd ?_ hotherRecord
      rw [← hrid, if_pos (by simpa using hmerged)]
      exact hmerged
    · rw [if_neg (by simpa using hmerged)] at hrid ⊢
      exact htime r' hr' hrid
  · rw [hdb]
    intro p hp
    obtain ⟨c, hc, hid⟩ := h.known p hp
    exact ⟨_, mem_updateWhere.2 ⟨c, hc, rfl⟩, (hkeys c _).1.trans hid⟩
  · rw [hdb, Db.withMerge_recordIds]
    exact h.oneChunk

section Calls

variable [UnicodeTables] [UrlCrate] (F : Type) [ScoreArith F]

/-- Captures and flushes. -/
def VaultCall.CapturesOrFlushes : VaultCall → Prop
  | .persistCapture _ => True
  | .flushOnce .. => True
  | _ => False

/-- The pending record a capture would be merged into, if any, is in no row. -/
def VaultCall.TargetNotIndexed (v : Vault) : VaultCall → Prop
  | .persistCapture call => ∀ text count,
      recheckPolicy call.capture call.blocklist = .ok (text, count) →
      ∀ candidate, mergeTarget F call.scan call.capture.newRecord text v.store = some candidate →
        ∀ row ∈ v.rows, row.id ≠ candidate.chunkId
  | _ => True

variable {F}

theorem freshIndex_exec (v : Vault) (call : VaultCall) (h : FreshIndex v.store v.indexed)
    (hcall : call.CapturesOrFlushes ∧ call.TargetNotIndexed F v) :
    FreshIndex (call.exec F v).store (call.exec F v).indexed := by
  cases call with
  | persistCapture call =>
      have heffect := call.effect F v.store
      rw [VaultCall.exec, show (v.onStore (PersistCall.exec F · call)).indexed = v.indexed from rfl,
        show (v.onStore (PersistCall.exec F · call)).store = PersistCall.exec F v.store call from rfl]
      generalize PersistCall.exec F v.store call = store' at heffect
      generalize call.result F v.store = result at heffect
      cases heffect with
      | failed error => exact h
      | skipped reason _ => exact h
      | stored text count store' _ _ hrecord hchunk hdb => exact h.withCapture hrecord hchunk hdb
      | merged text count candidate store' hpolicy htarget hpending hdb =>
          refine h.withMerge hpending (fun p hp => ?_) hdb
          obtain ⟨row, hrow, rfl⟩ := List.mem_map.1 hp
          exact hcall.2 text count hpolicy candidate htarget row hrow
  | flushOnce embedder nowMs scan stop =>
      exact (freshIndex_flush nowMs scan).flushOnce.cut (s := v) h h stop
  | rebuild => exact hcall.1.elim
  | deleteEverywhere => exact hcall.1.elim

/-- **No stale row, as long as no capture continues an indexed record.** Over every run of captures
    and flushes, wherever the flushes stop. -/
theorem rowsFresh_of_targetNotIndexed (calls : List VaultCall)
    (hcalls : StepsMeet (VaultCall.exec F) (fun _ call => call.CapturesOrFlushes) Vault.empty calls)
    (htarget : StepsMeet (VaultCall.exec F) (VaultCall.TargetNotIndexed F) Vault.empty calls) :
    AllStates (VaultCall.exec F) Vault.RowsFresh Vault.empty calls :=
  (AllStates.of_invariant freshIndex_exec freshIndex_empty (hcalls.and htarget)).imp
    (fun _ h => h.rowsFresh)

end Calls

/-! ## A flush that stops before the stamp -/

section Example

attribute [local instance] asciiTables noUrls

/-- Two captures of one note, a flush, and the note again. -/
def mergeFlushCapture : List VaultCall :=
  [.persistCapture (noteCall "1".toList 1000), .persistCapture (noteCall "2".toList 2000),
    .flushOnce constantEmbedder 2500 (tableOrder _) none,
    .persistCapture (noteCall "3".toList 3000)]

/-- The second capture is merged before anything is indexed; after the flush nothing is pending, so
    the third has no target. -/
theorem rowsFresh_of_targetNotIndexed_complete :
    AllStates (VaultCall.exec ℚ) Vault.RowsFresh Vault.empty mergeFlushCapture ∧
      (final (VaultCall.exec ℚ) Vault.empty mergeFlushCapture).rows.map
        (fun row => (row.recordId, row.capturedAtMs)) = [("1".toList, 2000)] := by
  refine ⟨rowsFresh_of_targetNotIndexed _ ⟨trivial, trivial, trivial, trivial, trivial⟩
    ⟨?_, ?_, trivial, ?_, trivial⟩, by decide +kernel⟩
  · exact fun _ _ _ _ _ row hrow => nomatch hrow
  · exact fun _ _ _ _ _ row hrow => nomatch hrow
  · intro text count _ candidate htarget
    obtain ⟨row, hrow, -⟩ := isPending_of_mem_candidates (List.mem_of_find?_eq_some htarget)
    have hnone : (final (VaultCall.exec ℚ) Vault.empty
        (mergeFlushCapture.take 3)).store.db.pendingRows = [] := by decide +kernel
    have hsame : row ∈ (final (VaultCall.exec ℚ) Vault.empty
        (mergeFlushCapture.take 3)).store.db.pendingRows := hrow
    rw [hnone] at hsame
    cases hsame

/-- Two captures of one note with a flush between them, complete or stopped. -/
def captureFlushCapture (stop : Option ℕ) : List VaultCall :=
  [.persistCapture (noteCall "1".toList 1000), .flushOnce constantEmbedder 1 (tableOrder _) stop,
    .persistCapture (noteCall "2".toList 2000)]

/-- Stopped after the Lance commit, the batch is indexed and pending; the second capture is merged
    into it and its row is stale. -/
theorem merge_leaves_stale_row :
    StepsMeet (VaultCall.exec ℚ) (fun _ call => call.CapturesOrFlushes) Vault.empty
        (captureFlushCapture (some 4)) ∧
      ¬ AllStates (VaultCall.exec ℚ) Vault.RowsFresh Vault.empty (captureFlushCapture (some 4)) := by
  refine ⟨⟨trivial, trivial, trivial, trivial⟩, fun h => ?_⟩
  have hlast : (final (VaultCall.exec ℚ) Vault.empty (captureFlushCapture (some 4))).RowsFresh :=
    h.final
  exact absurd hlast (by decide +kernel)

end Example

end Fndr
