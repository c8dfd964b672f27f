import Fndr.Memory.WritePath
import Fndr.Store.Deletion

set_option autoImplicit false

/-! # Runs over one vault

The operations that write a vault, as the labels of a run: every argument of a call is in its label,
with the faults of its SQL statements (`persist_capture`, one transaction) or the number of store
effects after which it stops (the operations that span both stores; `none` runs to the end). Calls
are executed one after another, as the owner of `&mut Store` executes them.

What a run preserves is proved of one call at a time, from what each operation can do
(`PersistEffect`, `FlushKeeps`, `rebuild_cut_cases`, `deleteEverywhere_cases`). -/

namespace Fndr

open RustStd Rows

/-- The operations of the host on vault and index. -/
inductive VaultCall
  | persistCapture (call : PersistCall)
  | flushOnce (embedder : Embedder) (nowMs : ℤ) (scan : Scan) (stop : Option ℕ)
  | rebuild (embedder : Embedder) (nowMs : ℤ) (scan : Scan) (fuel : ℕ) (stop : Option ℕ)
  | deleteEverywhere (scope : DeleteScope) (stop : Option ℕ)

variable [UnicodeTables] [UrlCrate] (F : Type) [ScoreArith F]

/-- The vault a call leaves. -/
def VaultCall.exec (v : Vault) : VaultCall → Vault
  | .persistCapture call => v.onStore (PersistCall.exec F · call)
  | .flushOnce embedder nowMs scan stop => (Fndr.flushOnce embedder nowMs scan).cut v stop
  | .rebuild embedder nowMs scan fuel stop => (Fndr.rebuild embedder nowMs scan fuel).cut v stop
  | .deleteEverywhere scope stop => (Fndr.deleteEverywhere scope).cut v stop

/-- The result of a `persist_capture` call. -/
def PersistCall.result (store : Store) (call : PersistCall) :
    Except StoreError PersistCaptureOutcome :=
  (Fndr.persistCapture F call.sql call.scan call.capture call.blocklist store).1

theorem PersistCall.effect (store : Store) (call : PersistCall) :
    PersistEffect F call.scan call.capture call.blocklist store (call.result F store)
      (PersistCall.exec F store call) :=
  persistCapture_effect F call.sql call.scan call.capture call.blocklist store

/-! ## What one call keeps -/

/-- A property of truth and index that a capture keeps. -/
def PersistKeeps (I : Store → List PendingChunk → Prop) : Prop :=
  ∀ (store : Store) (indexed : List PendingChunk) (call : PersistCall), I store indexed →
    I (PersistCall.exec F store call) indexed

variable {F}

omit [UnicodeTables] [UrlCrate] in
/-- A rebuild keeps what flushes keep, if the empty index has it before and after the reset. -/
theorem rebuild_keeps {I : Store → List PendingChunk → Prop} {embedder : Embedder} {nowMs : ℤ}
    {scan : Scan} {fuel : ℕ} (hflush : FlushKeeps I nowMs scan)
    (hdrop : ∀ store indexed, I store indexed → I store [])
    (hreset : ∀ store, I store [] → I store.resetFlushState []) {v : Vault}
    (hv : I v.store v.indexed) (stop : Option ℕ) :
    let w := (rebuild embedder nowMs scan fuel).cut v stop
    I w.store w.indexed := by
  have hdropped : I v.store [] := hdrop _ _ hv
  have hreset' : I v.reset.store v.reset.indexed := hreset _ hdropped
  have hcases := rebuild_cut_cases embedder nowMs scan fuel v stop
  generalize (rebuild embedder nowMs scan fuel).cut v stop = w at hcases
  rcases hcases with rfl | ⟨-, -, rfl⟩ | hmem
  · exact hv
  · exact hdropped
  · rcases List.mem_cons.1 hmem with rfl | hmem
    · exact hreset'
    · exact (hflush.flushAll fuel ⟨0, 0⟩ v.reset hreset').1 w hmem

/-- A deletion keeps, wherever it stops, what survives losing rows and then their records. -/
theorem deleteEverywhere_keeps {I : Store → List PendingChunk → Prop} {scope : DeleteScope}
    (hdelete : DeletionKeeps I) {v : Vault} (hv : I v.store v.indexed) (stop : Option ℕ) :
    let w := (deleteEverywhere scope).cut v stop
    I w.store w.indexed := by
  have hcases := Durable.cut_cases (deleteEverywhere scope) v stop
  generalize (deleteEverywhere scope).cut v stop = w at hcases
  rcases hcases with rfl | hmem
  · exact hv
  · rcases deleteEverywhere_cases scope v with
      ⟨error, -, hrun⟩ | ⟨recordIds, report, effects, removed, -, heffects, hstore, hrows, hrun⟩
    · rw [hrun] at hmem
      cases hmem
    · have hindexed : removed.indexed
          = deleteWhere (fun p => decide (p.recordId ∈ recordIds)) v.indexed := by
        rw [Vault.indexed, hrows, Vault.indexed, deleteWhere, deleteWhere, List.filter_map]
        rfl
      have hremoved : I removed.store removed.indexed := by
        rw [hstore, hindexed]
        exact hdelete.rows _ _ recordIds hv
      rw [hrun] at hmem
      rcases List.mem_append.1 hmem with hmem | hmem
      · rw [heffects w hmem]
        exact hremoved
      · rw [List.mem_singleton.1 hmem]
        refine hdelete.records removed.store removed.indexed recordIds hremoved (fun p hp => ?_)
        rw [hindexed] at hp
        exact of_decide_eq_false (mem_deleteWhere.1 hp).2

/-! ## Every row belongs to a record -/

/-- The record of every indexed row exists. -/
def RowsHaveRecords (store : Store) (indexed : List PendingChunk) : Prop :=
  ∀ p ∈ indexed, ∃ r ∈ store.db.memoryRecords, r.id = p.recordId

omit [UnicodeTables] [UrlCrate] in
theorem rowsHaveRecords_flush (nowMs : ℤ) (scan : Scan) :
    FlushKeeps RowsHaveRecords nowMs scan := by
  have hadded : ∀ store indexed, RowsHaveRecords store indexed →
      RowsHaveRecords store (indexed ++ store.db.pendingChunks scan FLUSH_BATCH_SIZE) := by
    intro store indexed h p hp
    rcases List.mem_append.1 hp with hp | hp
    · exact h p hp
    · obtain ⟨row, hrow, rfl⟩ := Db.mem_pendingChunks hp
      obtain ⟨⟨-, hr, hid⟩, -⟩ := Db.mem_pendingRows.1 hrow
      exact ⟨row.2, hr, hid⟩
  refine ⟨hadded, fun store indexed h p hp => ?_⟩
  rw [Store.markChunksFlushed_db]
  exact hadded store indexed h p hp

omit [UnicodeTables] [UrlCrate] in
theorem rowsHaveRecords_delete : DeletionKeeps RowsHaveRecords := by
  refine ⟨fun store indexed ids h p hp => h p (mem_deleteWhere.1 hp).1, ?_⟩
  intro store indexed ids h hids p hp
  obtain ⟨r, hr, hid⟩ := h p hp
  refine ⟨r, ?_, hid⟩
  rw [Store.deleteRecords_records]
  exact mem_deleteWhere.2 ⟨hr, by simpa [hid] using hids p hp⟩

/-- A capture forgets no record. -/
theorem PersistEffect.record_ids {scan : Scan} {capture : CaptureForPersistence}
    {blocklist : Blocklist} {store store' : Store}
    {result : Except StoreError PersistCaptureOutcome}
    (h : PersistEffect F scan capture blocklist store result store') {id : Str}
    (hid : ∃ r ∈ store.db.memoryRecords, r.id = id) :
    ∃ r ∈ store'.db.memoryRecords, r.id = id := by
  obtain ⟨r, hr, rfl⟩ := hid
  cases h with
  | failed error => exact ⟨r, hr, rfl⟩
  | skipped reason _ => exact ⟨r, hr, rfl⟩
  | stored text count store' _ _ _ _ hdb =>
      rw [hdb]
      exact ⟨r, List.mem_append_left _ hr, rfl⟩
  | merged text count candidate store' _ _ _ hdb =>
      rw [hdb]
      refine ⟨_, mem_updateWhere.2 ⟨r, hr, rfl⟩, ?_⟩
      split <;> rfl

theorem rowsHaveRecords_persist : PersistKeeps F RowsHaveRecords :=
  fun store _ call h p hp => (call.effect F store).record_ids (h p hp)

theorem rowsHaveRecords_exec (v : Vault) (call : VaultCall)
    (h : RowsHaveRecords v.store v.indexed) :
    RowsHaveRecords (call.exec F v).store (call.exec F v).indexed := by
  cases call with
  | persistCapture call => exact rowsHaveRecords_persist v.store v.indexed call h
  | flushOnce embedder nowMs scan stop =>
      exact (rowsHaveRecords_flush nowMs scan).flushOnce.cut (s := v) h h stop
  | rebuild embedder nowMs scan fuel stop =>
      refine rebuild_keeps (rowsHaveRecords_flush nowMs scan) ?_ ?_ h stop
      · exact fun _ _ _ p hp => nomatch hp
      · exact fun _ _ p hp => nomatch hp
  | deleteEverywhere scope stop => exact deleteEverywhere_keeps rowsHaveRecords_delete h stop

/-- **Deleted content never stays in the index.** Over every run, wherever its calls stop, the
    record of every Lance row exists; and a deletion that returns leaves nothing of the resolved
    records in any store, and every other record's rows as they were. -/
theorem index_holds_no_deleted_content (calls : List VaultCall) :
    Runs.AllStates (VaultCall.exec F)
      (fun v =>
        (∀ row ∈ v.rows, ∃ r ∈ v.store.db.memoryRecords, r.id = row.recordId) ∧
        ∀ scope report, (deleteEverywhere scope v).1 = .ok report →
          ∃ recordIds, v.store.db.recordIdsForDelete scope = .ok recordIds ∧
            Removed recordIds v ((deleteEverywhere scope).final v))
      Vault.empty calls := by
  have hrows : Runs.AllStates (VaultCall.exec F)
      (fun v => RowsHaveRecords v.store v.indexed) Vault.empty calls :=
    Runs.AllStates.of_step rowsHaveRecords_exec (fun _ hp => nomatch hp)
  refine hrows.imp (fun v h => ⟨fun row hrow => ?_, fun scope report hok => ?_⟩)
  · exact h row.chunk (List.mem_map.2 ⟨row, hrow, rfl⟩)
  · exact deleteEverywhere_removed hok

/-! ## Captures to run -/

/-- A capture of a note, with ids ending in `name`. -/
def noteCall (name : Str) (capturedAtMs : ℤ) : PersistCall where
  sql := noFaults
  scan := tableOrder _
  capture :=
    { recordId := name
      sessionId := "s".toList
      chunkId := 'c' :: name
      source := "screen".toList
      appName := "Notes".toList
      bundleId := none
      url := none
      windowTitle := "quarterly planning notes".toList
      ocrText := "plan the next quarter".toList
      capturedAtMs := capturedAtMs
      createdAtMs := capturedAtMs }
  blocklist := ⟨[], []⟩

end Fndr
