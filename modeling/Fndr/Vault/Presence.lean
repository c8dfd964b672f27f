import Fndr.Vault.Calls

set_option autoImplicit false

/-! # What a vault holds, and for how long

A chunk stays as long as its record does, a record that is gone comes back only by a capture under
its id, and every row of the index is one of a chunk that is there. -/

namespace Fndr

open RustStd Rows Runs

/-- `SELECT 1 FROM memory_records WHERE id = ?`. -/
def Db.HasRecord (db : Db) (id : Str) : Prop := ∃ r ∈ db.memoryRecords, r.id = id

instance (db : Db) : DecidablePred db.HasRecord :=
  fun id => inferInstanceAs (Decidable (∃ r ∈ db.memoryRecords, r.id = id))

/-- `SELECT 1 FROM chunks WHERE id = ? AND record_id = ?`. -/
def Db.HasChunk (db : Db) (recordId chunkId : Str) : Prop :=
  ∃ c ∈ db.chunks, c.id = chunkId ∧ c.recordId = recordId

instance (db : Db) (recordId chunkId : Str) : Decidable (db.HasChunk recordId chunkId) :=
  inferInstanceAs (Decidable (∃ c ∈ db.chunks, c.id = chunkId ∧ c.recordId = recordId))

theorem Store.hasRecord_of_hasChunk {store : Store} {recordId chunkId : Str}
    (h : store.db.HasChunk recordId chunkId) : store.db.HasRecord recordId := by
  obtain ⟨c, hc, -, rfl⟩ := h
  exact store.constraints.foreignKey c hc

theorem Db.hasChunk_updateWhere {db : Db} {p : Chunk → Bool} {f : Chunk → Chunk}
    {recordId chunkId : Str} (hid : ∀ c, (f c).id = c.id)
    (hrecord : ∀ c, (f c).recordId = c.recordId) (h : db.HasChunk recordId chunkId) :
    ∃ c ∈ updateWhere p f db.chunks, c.id = chunkId ∧ c.recordId = recordId := by
  obtain ⟨c, hc, rfl, rfl⟩ := h
  refine ⟨_, mem_updateWhere.2 ⟨c, hc, rfl⟩, ?_, ?_⟩
  · split
    · exact hid c
    · rfl
  · split
    · exact hrecord c
    · rfl

theorem Store.hasChunk_markChunksFlushed {store : Store} {recordId chunkId : Str}
    (chunkIds : List Str) (nowMs : ℤ) (h : store.db.HasChunk recordId chunkId) :
    (store.markChunksFlushed chunkIds nowMs).db.HasChunk recordId chunkId := by
  rw [Store.markChunksFlushed_db]
  exact Db.hasChunk_updateWhere (fun _ => rfl) (fun _ => rfl) h

theorem Store.hasChunk_resetFlushState {store : Store} {recordId chunkId : Str}
    (h : store.db.HasChunk recordId chunkId) :
    store.resetFlushState.db.HasChunk recordId chunkId :=
  Db.hasChunk_updateWhere (fun _ => rfl) (fun _ => rfl) h

theorem Store.hasRecord_deleteRecords {store : Store} {recordIds : List Str} {id : Str} :
    (store.deleteRecords recordIds).2.db.HasRecord id ↔
      store.db.HasRecord id ∧ id ∉ recordIds := by
  unfold Db.HasRecord
  rw [Store.deleteRecords_records]
  constructor
  · rintro ⟨r, hr, rfl⟩
    obtain ⟨hr, hkept⟩ := mem_deleteWhere.1 hr
    exact ⟨⟨r, hr, rfl⟩, of_decide_eq_false hkept⟩
  · rintro ⟨⟨r, hr, rfl⟩, hid⟩
    exact ⟨r, mem_deleteWhere.2 ⟨hr, decide_eq_false hid⟩, rfl⟩

theorem Store.hasChunk_deleteRecords {store : Store} {recordIds : List Str}
    {recordId chunkId : Str} (h : store.db.HasChunk recordId chunkId) (hid : recordId ∉ recordIds) :
    (store.deleteRecords recordIds).2.db.HasChunk recordId chunkId := by
  obtain ⟨c, hc, hcid, rfl⟩ := h
  refine ⟨c, ?_, hcid, rfl⟩
  rw [Store.deleteRecords_chunks]
  exact mem_deleteWhere.2 ⟨hc, decide_eq_false hid⟩

section Calls

variable [UnicodeTables] [UrlCrate] {F : Type} [ScoreArith F]

/-! ## Chunks -/

/-- A capture takes no chunk away. -/
theorem PersistCall.hasChunk {store : Store} {recordId chunkId : Str} (call : PersistCall)
    (h : store.db.HasChunk recordId chunkId) :
    (PersistCall.exec F store call).db.HasChunk recordId chunkId := by
  have heffect := call.effect F store
  generalize PersistCall.exec F store call = store' at heffect
  generalize call.result F store = result at heffect
  cases heffect with
  | failed error => exact h
  | skipped reason _ => exact h
  | stored text count store' _ _ _ _ hdb =>
      obtain ⟨c, hc, hid⟩ := h
      rw [hdb]
      exact ⟨c, List.mem_append_left _ hc, hid⟩
  | merged text count candidate store' _ _ _ hdb =>
      rw [hdb]
      exact Db.hasChunk_updateWhere (fun _ => rfl) (fun _ => rfl) h

/-- The chunk is there, or its record is gone. -/
def ChunkWithRecord (recordId chunkId : Str) (store : Store) (_ : List PendingChunk) : Prop :=
  store.db.HasRecord recordId → store.db.HasChunk recordId chunkId

/-- **A chunk stays as long as its record does.** -/
theorem VaultCall.hasChunk {v : Vault} {recordId chunkId : Str} (call : VaultCall)
    (h : v.store.db.HasChunk recordId chunkId)
    (hrecord : (call.exec F v).store.db.HasRecord recordId) :
    (call.exec F v).store.db.HasChunk recordId chunkId := by
  have hv : ChunkWithRecord recordId chunkId v.store v.indexed := fun _ => h
  have hflush : ∀ nowMs scan, FlushKeeps (ChunkWithRecord recordId chunkId) nowMs scan := by
    refine fun nowMs scan => ⟨fun store indexed hstore => hstore, ?_⟩
    intro store indexed hstore pending hmarked
    rw [Store.markChunksFlushed_db] at hmarked
    exact Store.hasChunk_markChunksFlushed _ nowMs (hstore hmarked)
  cases call with
  | persistCapture call => exact call.hasChunk h
  | flushOnce embedder nowMs scan stop =>
      exact (hflush nowMs scan).flushOnce.cut (s := v) hv hv stop hrecord
  | rebuild embedder nowMs scan fuel stop =>
      refine rebuild_keeps (hflush nowMs scan) (fun _ _ hstore => hstore) ?_ hv stop hrecord
      exact fun store hstore hreset => Store.hasChunk_resetFlushState (hstore hreset)
  | deleteEverywhere scope stop =>
      refine deleteEverywhere_keeps ⟨fun _ _ _ hstore => hstore, ?_⟩ hv stop hrecord
      intro store indexed recordIds hstore _ hkept
      obtain ⟨hkept, hid⟩ := Store.hasRecord_deleteRecords.1 hkept
      exact Store.hasChunk_deleteRecords (hstore hkept) hid

/-! ## Records -/

/-- `memory_records` reads so. -/
def RecordsHold (P : List MemoryRecord → Prop) (store : Store) (_ : List PendingChunk) : Prop :=
  P store.db.memoryRecords

omit [UnicodeTables] [UrlCrate] in
/-- A flush stamps chunks, and the records stay as they are. -/
theorem flush_records (P : List MemoryRecord → Prop) (nowMs : ℤ) (scan : Scan) :
    FlushKeeps (RecordsHold P) nowMs scan := by
  refine ⟨fun store indexed hstore => hstore, ?_⟩
  intro store indexed hstore pending
  rw [RecordsHold, Store.markChunksFlushed_db]
  exact hstore

omit [UnicodeTables] [UrlCrate] in
theorem rebuild_records {P : List MemoryRecord → Prop} {v : Vault}
    (h : P v.store.db.memoryRecords) (embedder : Embedder) (nowMs : ℤ) (scan : Scan)
    (fuel : ℕ) (stop : Option ℕ) :
    P ((rebuild embedder nowMs scan fuel).cut v stop).store.db.memoryRecords :=
  rebuild_keeps (I := RecordsHold P) (flush_records P nowMs scan) (fun _ _ hstore => hstore)
    (fun _ hstore => hstore) h stop

/-- The id a call may add. -/
def VaultCall.Captures (id : Str) : VaultCall → Prop
  | .persistCapture call => call.capture.recordId = id
  | _ => False

/-- The call deletes, whatever its scope. -/
def VaultCall.Deletes : VaultCall → Prop
  | .deleteEverywhere _ _ => True
  | _ => False

/-- A capture takes no record away. -/
theorem PersistCall.hasRecord {store : Store} {id : Str} (call : PersistCall)
    (h : store.db.HasRecord id) : (PersistCall.exec F store call).db.HasRecord id := by
  have heffect := call.effect F store
  generalize PersistCall.exec F store call = store' at heffect
  generalize call.result F store = result at heffect
  obtain ⟨r, hr, rfl⟩ := h
  cases heffect with
  | failed error => exact ⟨r, hr, rfl⟩
  | skipped reason _ => exact ⟨r, hr, rfl⟩
  | stored text count store' _ _ _ _ hdb =>
      rw [hdb]
      exact ⟨r, List.mem_append_left _ hr, rfl⟩
  | merged text count candidate store' _ _ _ hdb =>
      rw [hdb]
      refine ⟨_, mem_updateWhere.2 ⟨r, hr, rfl⟩, ?_⟩
      split <;> rfl

/-- **A record stays until a deletion.** -/
theorem VaultCall.hasRecord {v : Vault} {id : Str} (call : VaultCall)
    (h : v.store.db.HasRecord id) (hcall : ¬ call.Deletes) :
    (call.exec F v).store.db.HasRecord id := by
  cases call with
  | persistCapture call => exact call.hasRecord h
  | flushOnce embedder nowMs scan stop =>
      exact (flush_records (fun records => ∃ r ∈ records, r.id = id) nowMs scan).flushOnce.cut
        (s := v) h h stop
  | rebuild embedder nowMs scan fuel stop =>
      exact rebuild_records (P := fun records => ∃ r ∈ records, r.id = id) h _ _ _ _ stop
  | deleteEverywhere scope stop => exact absurd trivial hcall

theorem PersistCall.noRecord {store : Store} {id : Str} (call : PersistCall)
    (h : ¬ store.db.HasRecord id) (hid : call.capture.recordId ≠ id) :
    ¬ (PersistCall.exec F store call).db.HasRecord id := by
  have heffect := call.effect F store
  generalize PersistCall.exec F store call = store' at heffect
  generalize call.result F store = result at heffect
  cases heffect with
  | failed error => exact h
  | skipped reason _ => exact h
  | stored text count store' _ _ _ _ hdb =>
      rintro ⟨r, hr, hrid⟩
      rw [hdb] at hr
      rcases List.mem_append.1 hr with hr | hr
      · exact h ⟨r, hr, hrid⟩
      · rw [List.mem_singleton.1 hr] at hrid
        exact hid hrid
  | merged text count candidate store' _ _ _ hdb =>
      rintro ⟨r, hr, hrid⟩
      rw [hdb] at hr
      obtain ⟨old, hold, rfl⟩ := mem_updateWhere.1 hr
      refine h ⟨old, hold, ?_⟩
      rw [← hrid]
      split <;> rfl

/-- **A record that is gone comes back only by a capture under its id.** -/
theorem VaultCall.noRecord {v : Vault} {id : Str} (call : VaultCall)
    (h : ¬ v.store.db.HasRecord id) (hcall : ¬ call.Captures id) :
    ¬ (call.exec F v).store.db.HasRecord id := by
  cases call with
  | persistCapture call => exact call.noRecord h hcall
  | flushOnce embedder nowMs scan stop =>
      exact (flush_records (fun records => ¬ ∃ r ∈ records, r.id = id) nowMs scan).flushOnce.cut
        (s := v) h h stop
  | rebuild embedder nowMs scan fuel stop =>
      exact rebuild_records (P := fun records => ¬ ∃ r ∈ records, r.id = id) h _ _ _ _ stop
  | deleteEverywhere scope stop =>
      refine deleteEverywhere_keeps (I := RecordsHold (fun records => ¬ ∃ r ∈ records, r.id = id))
        ⟨fun _ _ _ hstore => hstore, ?_⟩ h stop
      exact fun store indexed recordIds hstore _ hkept =>
        hstore (Store.hasRecord_deleteRecords.1 hkept).1

/-! ## Rows -/

/-- Every row is one of a chunk that is there. -/
def RowsHaveChunks (store : Store) (indexed : List PendingChunk) : Prop :=
  ∀ p ∈ indexed, store.db.HasChunk p.recordId p.chunkId

theorem rowsHaveChunks_exec (v : Vault) (call : VaultCall) (h : RowsHaveChunks v.store v.indexed) :
    RowsHaveChunks (call.exec F v).store (call.exec F v).indexed := by
  have hadded : ∀ scan store indexed, RowsHaveChunks store indexed →
      RowsHaveChunks store (indexed ++ store.db.pendingChunks scan FLUSH_BATCH_SIZE) := by
    intro scan store indexed hrows p hp
    rcases List.mem_append.1 hp with hp | hp
    · exact hrows p hp
    · obtain ⟨row, hrow, rfl⟩ := Db.mem_pendingChunks hp
      exact ⟨row.1, (Db.mem_pendingRows.1 hrow).1.1, rfl, rfl⟩
  have hflush : ∀ nowMs scan, FlushKeeps RowsHaveChunks nowMs scan := by
    refine fun nowMs scan => ⟨hadded scan, ?_⟩
    intro store indexed hrows pending p hp
    exact Store.hasChunk_markChunksFlushed _ nowMs (hadded scan store indexed hrows p hp)
  cases call with
  | persistCapture call => exact fun p hp => call.hasChunk (h p hp)
  | flushOnce embedder nowMs scan stop =>
      exact (hflush nowMs scan).flushOnce.cut (s := v) h h stop
  | rebuild embedder nowMs scan fuel stop =>
      refine rebuild_keeps (hflush nowMs scan) ?_ ?_ h stop
      · exact fun _ _ _ p hp => nomatch hp
      · exact fun _ _ p hp => nomatch hp
  | deleteEverywhere scope stop =>
      refine deleteEverywhere_keeps ⟨fun store indexed _ hrows p hp => ?_, ?_⟩ h stop
      · exact hrows p (mem_deleteWhere.1 hp).1
      · exact fun store indexed recordIds hrows hids p hp =>
          Store.hasChunk_deleteRecords (hrows p hp) (hids p hp)

end Calls

end Fndr
