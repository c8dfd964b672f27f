import Fndr.Library.Durable
import Fndr.Privacy.Blocklist
import Fndr.Store.Schema

set_option autoImplicit false

/-! # The store's operations

`store.rs`, for the operations the write path, the Lance writer and owner deletion use. A write runs
in a transaction: its statements work on an open copy, and an error anywhere, the commit included,
leaves the store as it was. Besides the schema's own refusals any statement may fail for reasons
outside it (a full disk, a busy lock); which ones do is an oracle `SqlFaults`.

Each operation comes with one lemma saying everything a call can have done; the sections after them
are what holds of every query result. -/

namespace Fndr

open RustStd Rows

/-- `n as i64`. -/
def asI64 (n : ℕ) : ℤ := (n : ℤ).bmod (2 ^ 64)

/-- The record of a capture that is about to be stored. -/
structure NewRecord where
  id : Str
  sessionId : Str
  source : Str
  appName : Str
  bundleId : Option Str
  url : Option SanitizedUrl
  windowTitle : Str
  capturedAtMs : ℤ
  createdAtMs : ℤ

/-- A chunk of it. -/
structure NewChunk where
  id : Str
  ord : ℤ
  text : Str

/-- A chunk awaiting Lance flush, joined with the record fields that become prefilter columns. -/
structure PendingChunk where
  chunkId : Str
  recordId : Str
  ord : ℤ
  text : Str
  source : Str
  capturedAtMs : ℤ
  deriving DecidableEq

/-- A pending chunk with its record, as the write path compares it. -/
structure PendingContinuityCandidate where
  recordId : Str
  chunkId : Str
  appName : Str
  url : Option Str
  windowTitle : Str
  text : Str
  capturedAtMs : ℤ

/-- What the owner asks to have deleted. -/
inductive DeleteScope
  | recordIds (ids : List Str)
  | timeRange (startMs endMs : ℤ)
  | domain (domain : Str)
  | all

/-- The row `insert_capture` writes for a record. -/
def NewRecord.row (record : NewRecord) : MemoryRecord where
  id := record.id
  sessionId := record.sessionId
  source := record.source
  appName := record.appName
  bundleId := record.bundleId
  url := record.url.map SanitizedUrl.asStr
  windowTitle := record.windowTitle
  capturedAtMs := record.capturedAtMs
  createdAtMs := record.createdAtMs

/-- The columns a merge refreshes. -/
def MemoryRecord.refresh (r : MemoryRecord) (incoming : NewRecord) : MemoryRecord :=
  { r with
    appName := incoming.appName
    bundleId := incoming.bundleId
    url := incoming.url.map SanitizedUrl.asStr
    windowTitle := incoming.windowTitle
    capturedAtMs := incoming.capturedAtMs }

/-! ## Transactions -/

/-- The transactions of the write path, told apart by the row they are about. -/
inductive Tx
  | insertCapture (recordId : Str)
  | mergePendingCapture (chunkId : Str)

/-- The statements of the store that can fail. -/
inductive Statement
  | selectContinuityCandidates
  | begin (tx : Tx)
  | insertRecord (id : Str)
  | insertChunk (id : Str)
  | updateRecord (id : Str)
  | updateChunk (id : Str)
  | commit (tx : Tx)
  | rollback (tx : Tx)

/-- The statements that fail for reasons outside the schema. -/
abbrev SqlFaults := Statement → Option SqliteError

/-- SQLite reports no error. -/
def noFaults : SqlFaults := fun _ => none

/-- The error a statement reports, if it does. -/
def SqlFaults.check (sql : SqlFaults) (statement : Statement) : Except StoreError Unit :=
  match sql statement with
  | some error => .error (.sqlite error)
  | none => .ok ()

/-- How the body of a transaction ends when no statement failed. -/
inductive TxEnd (α : Type)
  | commit (value : α) (store : Store)
  | rollback (value : α)

/-- `conn.transaction()`, the body on the open transaction, then the end it asks for. On an error
    the open transaction is dropped, which rolls back. -/
def Store.transaction {α : Type} (sql : SqlFaults) (tx : Tx)
    (body : Store → Except StoreError (TxEnd α)) (store : Store) : Except StoreError α × Store :=
  let result : Except StoreError (α × Store) := do
    sql.check (.begin tx)
    match ← body store with
    | .commit value store' =>
        sql.check (.commit tx)
        return (value, store')
    | .rollback value =>
        sql.check (.rollback tx)
        return (value, store)
  -- an error, that of the commit included, drops the open transaction
  match result with
  | .ok (value, store') => (.ok value, store')
  | .error error => (.error error, store)

theorem SqlFaults.check_bind_eq_ok {α : Type} {sql : SqlFaults} {statement : Statement}
    {k : Unit → Except StoreError α} {a : α} :
    (sql.check statement >>= k) = .ok a ↔ sql statement = none ∧ k () = .ok a := by
  unfold SqlFaults.check
  cases sql statement with
  | some e => exact ⟨fun h => (nomatch h), fun h => (nomatch h.1)⟩
  | none => exact ⟨fun h => ⟨rfl, h⟩, fun h => h.2⟩

/-- Everything a transaction can have done. -/
theorem Store.transaction_cases {α : Type} (sql : SqlFaults) (tx : Tx)
    (body : Store → Except StoreError (TxEnd α)) (store : Store) :
    (∃ error, store.transaction sql tx body = (.error error, store)) ∨
    (∃ value, body store = .ok (.rollback value) ∧
      store.transaction sql tx body = (.ok value, store)) ∨
    (∃ value store', body store = .ok (.commit value store') ∧
      store.transaction sql tx body = (.ok value, store')) := by
  unfold Store.transaction
  dsimp only
  split
  · next value store' hr =>
      right
      obtain ⟨txEnd, hbody, hend⟩ := Except.bind_eq_ok.1 (SqlFaults.check_bind_eq_ok.1 hr).2
      cases txEnd with
      | commit value store' =>
          cases (SqlFaults.check_bind_eq_ok.1 hend).2
          exact Or.inr ⟨value, store', hbody, rfl⟩
      | rollback value =>
          cases (SqlFaults.check_bind_eq_ok.1 hend).2
          exact Or.inl ⟨value, hbody, rfl⟩
  · next error hr => exact Or.inl ⟨error, rfl⟩

/-! ## Statements on a store -/

/-- The row of a record, if its id is new. -/
def Store.insertRecord (store : Store) (record : MemoryRecord) : Except StoreError Store :=
  match h : store.db.insertRecord record with
  | .ok db => .ok ⟨db, store.constraints.insertRecord h, store.ftsCurrent.insertRecord h⟩
  | .error e => .error e

/-- The row of a chunk and its entry in the index, if its id is new and its record is there. -/
def Store.insertChunk (store : Store) (id recordId : Str) (ord : ℤ) (text : Str) :
    Except StoreError Store :=
  match h : store.db.insertChunk id recordId ord text with
  | .ok db => .ok ⟨db, store.constraints.insertChunk h, store.ftsCurrent.insertChunk h⟩
  | .error e => .error e

theorem Store.insertRecord_ok {store store' : Store} {record : MemoryRecord}
    (h : store.insertRecord record = .ok store') :
    store.db.insertRecord record = .ok store'.db := by
  unfold Store.insertRecord at h
  split at h
  · next hdb => cases h; exact hdb
  · cases h

theorem Store.insertChunk_ok {store store' : Store} {id recordId text : Str} {ord : ℤ}
    (h : store.insertChunk id recordId ord text = .ok store') :
    store.db.insertChunk id recordId ord text = .ok store'.db := by
  unfold Store.insertChunk at h
  split at h
  · next hdb => cases h; exact hdb
  · cases h

/-! ## Capture writes -/

/-- The chunk loop of `insert_capture`. -/
def Store.insertChunks (sql : SqlFaults) (recordId : Str) :
    List NewChunk → Store → Except StoreError Store
  | [], store => return store
  | chunk :: chunks, store => do
      sql.check (.insertChunk chunk.id)
      let store ← store.insertChunk chunk.id recordId chunk.ord chunk.text
      Store.insertChunks sql recordId chunks store

/-- Persist one capture: record plus chunks, atomically. -/
def Store.insertCapture (sql : SqlFaults) (record : NewRecord) (chunks : List NewChunk)
    (store : Store) : Except StoreError Unit × Store :=
  store.transaction sql (.insertCapture record.id) fun store => do
    sql.check (.insertRecord record.id)
    let store ← store.insertRecord record.row
    let store ← Store.insertChunks sql record.id chunks store
    .ok (.commit () store)

/-- `EXISTS (SELECT 1 FROM chunks WHERE id = ? AND record_id = ? AND flushed_at_ms = 0)`. -/
def Db.pendingChunkExists (db : Db) (chunkId recordId : Str) : Bool :=
  db.chunks.any (fun c => c.id == chunkId && c.recordId == recordId && c.flushedAtMs == 0)

/-- The rows `UPDATE memory_records .. WHERE id = ? AND EXISTS (..)` touches. -/
def Db.updatedRecord (db : Db) (candidate : PendingContinuityCandidate) : ℕ :=
  if db.pendingChunkExists candidate.chunkId candidate.recordId then
    db.memoryRecords.countP (fun r => r.id == candidate.recordId)
  else 0

/-- The record with the metadata of a later capture. -/
def Store.updateRecord (store : Store) (recordId : Str) (incoming : NewRecord) : Store :=
  ⟨store.db.updateRecord recordId (·.refresh incoming),
    store.constraints.updateRecord recordId (fun _ => rfl), store.ftsCurrent⟩

/-- The text of a chunk that is still pending, replaced in the table and in the index. -/
def Store.updatePendingText (store : Store) (chunkId text : Str) : Store :=
  ⟨store.db.updatePendingText chunkId text, store.constraints.updatePendingText chunkId text,
    store.ftsCurrent.updatePendingText chunkId text⟩

/-- Refresh one unflushed record with its merged text; `false` when the chunk is no longer
    pending. -/
def Store.mergePendingCapture (sql : SqlFaults) (candidate : PendingContinuityCandidate)
    (incoming : NewRecord) (mergedText : Str) (store : Store) : Except StoreError Bool × Store :=
  store.transaction sql (.mergePendingCapture candidate.chunkId) fun store => do
    sql.check (.updateRecord candidate.recordId)
    -- no row changed: the chunk is flushed or gone, which the caller takes as no candidate
    if store.db.updatedRecord candidate == 0 then
      .ok (.rollback false)
    else
      let store := store.updateRecord candidate.recordId incoming
      sql.check (.updateChunk candidate.chunkId)
      .ok (.commit true (store.updatePendingText candidate.chunkId mergedText))

/-- The database after one capture is inserted as a record with one chunk. -/
def Db.withCapture (db : Db) (record : NewRecord) (chunk : NewChunk) : Db where
  memoryRecords := db.memoryRecords ++ [record.row]
  chunks := db.chunks ++ [⟨db.nextRowid, chunk.id, record.id, chunk.ord, chunk.text, 0⟩]
  chunksFts := db.chunksFts ++ [⟨db.nextRowid, chunk.text⟩]

/-- The database after a capture is merged into a record and its pending chunk. -/
def Db.withMerge (db : Db) (recordId chunkId : Str) (incoming : NewRecord) (text : Str) : Db :=
  (db.updateRecord recordId (·.refresh incoming)).updatePendingText chunkId text

/-- Everything `insert_capture` with one chunk can have done. -/
theorem Store.insertCapture_cases (sql : SqlFaults) (record : NewRecord) (chunk : NewChunk)
    (store : Store) :
    (∃ error, store.insertCapture sql record [chunk] = (.error error, store)) ∨
    (∃ store', store.insertCapture sql record [chunk] = (.ok (), store') ∧
      (∀ r ∈ store.db.memoryRecords, r.id ≠ record.id) ∧
      (∀ c ∈ store.db.chunks, c.id ≠ chunk.id) ∧
      store'.db = store.db.withCapture record chunk) := by
  have hcases := store.transaction_cases sql (.insertCapture record.id) (fun store => do
    sql.check (.insertRecord record.id)
    let store ← store.insertRecord record.row
    let store ← Store.insertChunks sql record.id [chunk] store
    .ok (.commit () store))
  rcases hcases with ⟨error, h⟩ | ⟨value, hbody, -⟩ | ⟨value, store', hbody, h⟩
  · exact Or.inl ⟨error, h⟩
  · obtain ⟨_, -, hbody⟩ := Except.bind_eq_ok.1 (SqlFaults.check_bind_eq_ok.1 hbody).2
    obtain ⟨_, -, hbody⟩ := Except.bind_eq_ok.1 hbody
    cases hbody
  · obtain ⟨s₁, h₁, hbody⟩ := Except.bind_eq_ok.1 (SqlFaults.check_bind_eq_ok.1 hbody).2
    obtain ⟨s₂, h₂, hend⟩ := Except.bind_eq_ok.1 hbody
    cases hend
    obtain ⟨s₃, h₃, hdone⟩ := Except.bind_eq_ok.1 (SqlFaults.check_bind_eq_ok.1 h₂).2
    cases hdone
    obtain ⟨hrecord, hs₁⟩ := Db.insertRecord_ok (Store.insertRecord_ok h₁)
    obtain ⟨hchunk, -, -, hs₃⟩ := Db.insertChunk_ok (Store.insertChunk_ok h₃)
    rw [hs₁] at hchunk hs₃
    exact Or.inr ⟨store', h, hrecord, hchunk, hs₃⟩

theorem Store.insertChunks_memoryRecords {sql : SqlFaults} {recordId : Str} {chunks : List NewChunk}
    {store store' : Store} (h : Store.insertChunks sql recordId chunks store = .ok store') :
    store'.db.memoryRecords = store.db.memoryRecords := by
  induction chunks generalizing store with
  | nil =>
      cases h
      rfl
  | cons chunk chunks ih =>
      obtain ⟨inserted, hinsert, hrest⟩ := Except.bind_eq_ok.1 (SqlFaults.check_bind_eq_ok.1 h).2
      obtain ⟨-, -, -, hdb⟩ := Db.insertChunk_ok (Store.insertChunk_ok hinsert)
      rw [ih hrest, hdb]

/-- An insert that is refused leaves the records as they were; one that commits appends its own. -/
theorem Store.insertCapture_memoryRecords (sql : SqlFaults) (record : NewRecord)
    (chunks : List NewChunk) (store : Store) :
    (store.insertCapture sql record chunks).2.db.memoryRecords = store.db.memoryRecords ∨
    ((store.insertCapture sql record chunks).1 = .ok () ∧
      (store.insertCapture sql record chunks).2.db.memoryRecords
        = store.db.memoryRecords ++ [record.row]) := by
  have hcases := store.transaction_cases sql (.insertCapture record.id) (fun store => do
    sql.check (.insertRecord record.id)
    let store ← store.insertRecord record.row
    let store ← Store.insertChunks sql record.id chunks store
    .ok (.commit () store))
  rcases hcases with ⟨error, h⟩ | ⟨value, -, h⟩ | ⟨value, store', hbody, h⟩
  · exact Or.inl (congrArg (fun result => result.2.db.memoryRecords) h)
  · exact Or.inl (congrArg (fun result => result.2.db.memoryRecords) h)
  · obtain ⟨withRecord, hrecord, hbody⟩ :=
      Except.bind_eq_ok.1 (SqlFaults.check_bind_eq_ok.1 hbody).2
    obtain ⟨withChunks, hchunks, hend⟩ := Except.bind_eq_ok.1 hbody
    cases hend
    obtain ⟨-, hdb⟩ := Db.insertRecord_ok (Store.insertRecord_ok hrecord)
    refine Or.inr ⟨congrArg Prod.fst h, ?_⟩
    rw [Store.insertCapture, h]
    exact (Store.insertChunks_memoryRecords hchunks).trans (congrArg Db.memoryRecords hdb)

theorem Db.exists_of_updatedRecord {db : Db} {candidate : PendingContinuityCandidate}
    (h : ¬ (db.updatedRecord candidate == 0) = true) :
    (∃ r ∈ db.memoryRecords, r.id = candidate.recordId) ∧
      ∃ c ∈ db.chunks, c.id = candidate.chunkId ∧ c.recordId = candidate.recordId ∧
        c.flushedAtMs = 0 := by
  unfold Db.updatedRecord at h
  split at h
  · next hpending =>
    rw [beq_iff_eq, List.countP_eq_zero] at h
    refine ⟨by simpa using h, ?_⟩
    simpa [Db.pendingChunkExists, and_assoc] using hpending
  · simp at h

/-- Everything `merge_pending_capture` can have done. -/
theorem Store.mergePendingCapture_cases (sql : SqlFaults) (candidate : PendingContinuityCandidate)
    (incoming : NewRecord) (mergedText : Str) (store : Store) :
    (∃ error, store.mergePendingCapture sql candidate incoming mergedText
      = (.error error, store)) ∨
    (store.db.updatedRecord candidate = 0 ∧
      store.mergePendingCapture sql candidate incoming mergedText = (.ok false, store)) ∨
    (∃ store', store.mergePendingCapture sql candidate incoming mergedText = (.ok true, store') ∧
      (∃ r ∈ store.db.memoryRecords, r.id = candidate.recordId) ∧
      (∃ c ∈ store.db.chunks, c.id = candidate.chunkId ∧ c.recordId = candidate.recordId ∧
        c.flushedAtMs = 0) ∧
      store'.db = store.db.withMerge candidate.recordId candidate.chunkId incoming mergedText) := by
  have hcases := store.transaction_cases sql (.mergePendingCapture candidate.chunkId)
    (fun store => do
      sql.check (.updateRecord candidate.recordId)
      if store.db.updatedRecord candidate == 0 then
        .ok (.rollback false)
      else
        let store := store.updateRecord candidate.recordId incoming
        sql.check (.updateChunk candidate.chunkId)
        .ok (.commit true (store.updatePendingText candidate.chunkId mergedText)))
  -- failed, rolled back because the chunk is no longer pending, or committed
  rcases hcases with ⟨error, h⟩ | ⟨value, hbody, h⟩ | ⟨value, store', hbody, h⟩
  · exact Or.inl ⟨error, h⟩
  · replace hbody := (SqlFaults.check_bind_eq_ok.1 hbody).2
    split at hbody
    · next hcount =>
      cases hbody
      exact Or.inr (Or.inl ⟨beq_iff_eq.1 hcount, h⟩)
    · cases (SqlFaults.check_bind_eq_ok.1 hbody).2
  · replace hbody := (SqlFaults.check_bind_eq_ok.1 hbody).2
    split at hbody
    · cases hbody
    · next hcount =>
      cases (SqlFaults.check_bind_eq_ok.1 hbody).2
      obtain ⟨hrecord, hpending⟩ := Db.exists_of_updatedRecord hcount
      exact Or.inr (Or.inr ⟨_, h, hrecord, hpending, rfl⟩)

/-- A merge moves no chunk to another record. -/
theorem Db.withMerge_recordIds (db : Db) (recordId chunkId : Str) (incoming : NewRecord)
    (text : Str) :
    (db.withMerge recordId chunkId incoming text).chunks.map Chunk.recordId
      = db.chunks.map Chunk.recordId := by
  refine map_updateWhere (fun c _ => ?_) db.chunks
  rfl

/-- And no record to another id. -/
theorem Db.withMerge_memoryRecordIds (db : Db) (recordId chunkId : Str) (incoming : NewRecord)
    (text : Str) :
    (db.withMerge recordId chunkId incoming text).memoryRecords.map MemoryRecord.id
      = db.memoryRecords.map MemoryRecord.id := by
  refine map_updateWhere (fun r _ => ?_) db.memoryRecords
  rfl

/-- An id that no record has is the record id of no chunk. -/
theorem Store.chunk_recordId_ne (store : Store) {id : Str}
    (hfresh : ∀ r ∈ store.db.memoryRecords, r.id ≠ id) : ∀ c ∈ store.db.chunks, c.recordId ≠ id := by
  intro c hc heq
  obtain ⟨r, hr, hid⟩ := store.constraints.foreignKey c hc
  exact hfresh r hr (hid.trans heq)

/-! ## Queries -/

/-- `chunks c JOIN memory_records r ON r.id = c.record_id`. -/
def Db.joined (db : Db) : List (Chunk × MemoryRecord) :=
  db.chunks.flatMap (fun c =>
    (db.memoryRecords.filter (fun r => r.id == c.recordId)).map (fun r => (c, r)))

/-- What a flush takes of a joined row. -/
def PendingChunk.ofRow (row : Chunk × MemoryRecord) : PendingChunk where
  chunkId := row.1.id
  recordId := row.1.recordId
  ord := row.1.ord
  text := row.1.text
  source := row.2.source
  capturedAtMs := row.2.capturedAtMs

/-- What the write path takes of a joined row. -/
def PendingContinuityCandidate.ofRow (row : Chunk × MemoryRecord) : PendingContinuityCandidate where
  recordId := row.2.id
  chunkId := row.1.id
  appName := row.2.appName
  url := row.2.url
  windowTitle := row.2.windowTitle
  text := row.1.text
  capturedAtMs := row.2.capturedAtMs

/-- `ORDER BY r.captured_at_ms, c.ord`. -/
def OldestFirst (a b : Chunk × MemoryRecord) : Prop :=
  a.2.capturedAtMs < b.2.capturedAtMs ∨
    (a.2.capturedAtMs = b.2.capturedAtMs ∧ a.1.ord ≤ b.1.ord)

instance : DecidableRel OldestFirst := fun _ _ => inferInstanceAs (Decidable (_ ∨ _))

/-- `ORDER BY r.captured_at_ms DESC`. -/
def NewestFirst (a b : Chunk × MemoryRecord) : Prop := b.2.capturedAtMs ≤ a.2.capturedAtMs

instance : DecidableRel NewestFirst := fun _ _ => inferInstanceAs (Decidable (_ ≤ _))

/-- How SQLite visits the joined rows of a query. -/
abbrev Scan := ScanOrder (Chunk × MemoryRecord)

/-- The joined rows of pending chunks. -/
def Db.pendingRows (db : Db) : List (Chunk × MemoryRecord) :=
  db.joined.filter (fun row => row.1.flushedAtMs == 0)

/-- Chunks not yet flushed to Lance, oldest capture first. -/
def Db.pendingChunks (db : Db) (scan : Scan) (limit : ℕ) : List PendingChunk :=
  (orderLimit OldestFirst scan (asI64 limit) db.pendingRows).map PendingChunk.ofRow

/-- Recent one-chunk records still owned by the pending queue, newest first. -/
def Db.pendingContinuityCandidates (db : Db) (scan : Scan) (capturedAfterMs : ℤ) (limit : ℕ) :
    List PendingContinuityCandidate :=
  (orderLimit NewestFirst scan (asI64 (min limit 64)) (db.joined.filter (fun row =>
    row.1.flushedAtMs == 0 && row.1.ord == 0 &&
      decide (capturedAfterMs ≤ row.2.capturedAtMs)))).map PendingContinuityCandidate.ofRow

theorem Db.mem_joined {db : Db} {row : Chunk × MemoryRecord} :
    row ∈ db.joined ↔
      row.1 ∈ db.chunks ∧ row.2 ∈ db.memoryRecords ∧ row.2.id = row.1.recordId := by
  obtain ⟨c, r⟩ := row
  simp only [Db.joined, List.mem_flatMap, List.mem_map, List.mem_filter, beq_iff_eq, Prod.mk.injEq]
  constructor
  · rintro ⟨c, hc, r, ⟨hr, hid⟩, rfl, rfl⟩
    exact ⟨hc, hr, hid⟩
  · rintro ⟨hc, hr, hid⟩
    exact ⟨c, hc, r, ⟨hr, hid⟩, rfl, rfl⟩

/-- The join has one row per chunk. -/
theorem Store.joined_fst (store : Store) : store.db.joined.map Prod.fst = store.db.chunks := by
  have hrow : ∀ c ∈ store.db.chunks,
      ((store.db.memoryRecords.filter (fun r => r.id == c.recordId)).map (fun r => (c, r))).map
        Prod.fst = [c] := by
    intro c hc
    obtain ⟨r, hr, hid⟩ := store.constraints.foreignKey c hc
    rw [← hid, filter_key_eq_singleton store.constraints.recordIds hr]
    rfl
  rw [Db.joined, List.map_flatMap, List.flatMap_congr hrow, List.flatMap_singleton']

theorem Db.mem_pendingRows {db : Db} {row : Chunk × MemoryRecord} :
    row ∈ db.pendingRows ↔ (row.1 ∈ db.chunks ∧ row.2 ∈ db.memoryRecords ∧
      row.2.id = row.1.recordId) ∧ row.1.flushedAtMs = 0 := by
  rw [Db.pendingRows, List.mem_filter, Db.mem_joined, beq_iff_eq]

/-- Where a pending chunk comes from. -/
theorem Db.mem_pendingChunks {db : Db} {scan : Scan} {limit : ℕ} {p : PendingChunk}
    (h : p ∈ db.pendingChunks scan limit) :
    ∃ row ∈ db.pendingRows, p = PendingChunk.ofRow row := by
  obtain ⟨row, hrow, rfl⟩ := List.mem_map.1 h
  exact ⟨row, mem_of_mem_orderLimit scan hrow, rfl⟩

/-- Where a continuity candidate comes from. -/
theorem Db.mem_pendingContinuityCandidates {db : Db} {scan : Scan} {after : ℤ} {limit : ℕ}
    {candidate : PendingContinuityCandidate}
    (h : candidate ∈ db.pendingContinuityCandidates scan after limit) :
    ∃ row ∈ db.pendingRows, row.1.ord = 0 ∧ after ≤ row.2.capturedAtMs ∧
      candidate = PendingContinuityCandidate.ofRow row := by
  obtain ⟨row, hrow, rfl⟩ := List.mem_map.1 h
  have hmem := List.mem_filter.1 (mem_of_mem_orderLimit scan hrow)
  simp only [Bool.and_eq_true, beq_iff_eq, decide_eq_true_eq] at hmem
  exact ⟨row, List.mem_filter.2 ⟨hmem.1, by simpa using hmem.2.1.1⟩, hmem.2.1.2, hmem.2.2, rfl⟩

/-! ## Flush stamps -/

/-- Stamp chunks as flushed: the effect of the committed transaction. -/
def Store.markChunksFlushed (chunkIds : List Str) (nowMs : ℤ) (store : Store) : Store :=
  chunkIds.foldl (fun store id =>
    ⟨store.db.stampChunk nowMs id, store.constraints.stampChunk nowMs id,
      store.ftsCurrent.stampChunk nowMs id⟩) store

/-- `UPDATE chunks SET flushed_at_ms = 0`. -/
def Db.resetFlushState (db : Db) : Db :=
  { db with chunks := updateWhere (fun _ => true) (·.stamped 0) db.chunks }

theorem Store.markChunksFlushed_db (chunkIds : List Str) (nowMs : ℤ) (store : Store) :
    (store.markChunksFlushed chunkIds nowMs).db =
      { store.db with
        chunks := updateWhere (fun c => decide (c.id ∈ chunkIds)) (·.stamped nowMs)
          store.db.chunks } := by
  induction chunkIds generalizing store with
  | nil =>
      have : updateWhere (fun c => decide (c.id ∈ ([] : List Str))) (·.stamped nowMs)
          store.db.chunks = store.db.chunks := updateWhere_of_forall_not (by simp)
      rw [this]
      rfl
  | cons id ids ih =>
      rw [Store.markChunksFlushed, List.foldl_cons]
      refine (ih _).trans ?_
      simp only [Db.stampChunk, updateWhere, List.map_map]
      congr 1
      refine List.map_congr_left (fun c _ => ?_)
      by_cases h₁ : c.id = id
      · by_cases h₂ : id ∈ ids <;> simp [h₁, h₂, Chunk.stamped]
      · simp [h₁]

/-- `UPDATE chunks SET flushed_at_ms = 0`, as a store. -/
def Store.resetFlushState (store : Store) : Store where
  db := store.db.resetFlushState
  constraints := by
    refine Db.Constraints.updateChunks store.constraints _ (fun c => ?_) store.db.chunksFts
    exact ⟨rfl, rfl, rfl, rfl⟩
  ftsCurrent := by
    have hentries : store.db.resetFlushState.chunks.map Chunk.ftsEntry
        = store.db.chunks.map Chunk.ftsEntry := by
      refine map_updateWhere (fun c _ => ?_) store.db.chunks
      rfl
    rw [Db.FtsCurrent, hentries]
    exact store.ftsCurrent

/-- Changing chunk columns other than the foreign key changes the join row by row. -/
theorem Db.joined_updateChunks (db : Db) (f : Chunk → Chunk)
    (hf : ∀ c, (f c).recordId = c.recordId) :
    ({ db with chunks := db.chunks.map f } : Db).joined
      = db.joined.map (fun row => (f row.1, row.2)) := by
  simp only [Db.joined, List.flatMap_map, List.map_flatMap, List.map_map, hf]
  rfl

/-- Stamping takes exactly the stamped chunks out of the pending queue. -/
theorem Store.pendingRows_markChunksFlushed (store : Store) (chunkIds : List Str) {nowMs : ℤ}
    (hnow : nowMs ≠ 0) :
    (store.markChunksFlushed chunkIds nowMs).db.pendingRows
      = store.db.pendingRows.filter (fun row => !decide (row.1.id ∈ chunkIds)) := by
  rw [Store.markChunksFlushed_db, Db.pendingRows, updateWhere, Db.joined_updateChunks, Db.pendingRows,
    List.filter_filter, List.filter_map]
  · -- a row that survives the filter was not stamped, so the update left it alone
    rw [List.filter_congr (q := fun row => !decide (row.1.id ∈ chunkIds) && row.1.flushedAtMs == 0)]
    · conv_rhs => rw [← List.map_id (List.filter _ _)]
      refine List.map_congr_left (fun row hrow => ?_)
      have := (List.mem_filter.1 hrow).2
      simp only [Bool.and_eq_true, Bool.not_eq_true', decide_eq_false_iff_not] at this
      simp [this.1]
    · intro row _
      by_cases h : row.1.id ∈ chunkIds <;> simp [h, Chunk.stamped, hnow]
  · intro c
    split <;> rfl

/-- After a reset every chunk is pending, with the columns it had. -/
theorem Store.pendingRows_resetFlushState (store : Store) :
    store.resetFlushState.db.pendingRows = store.resetFlushState.db.joined ∧
      store.resetFlushState.db.joined.map PendingChunk.ofRow
        = store.db.joined.map PendingChunk.ofRow := by
  have hjoin : store.resetFlushState.db.joined
      = store.db.joined.map (fun row => (row.1.stamped 0, row.2)) :=
    Db.joined_updateChunks store.db (fun c => c.stamped 0) (fun _ => rfl)
  constructor
  · rw [Db.pendingRows, List.filter_eq_self, hjoin]
    intro row hrow
    obtain ⟨row', -, rfl⟩ := List.mem_map.1 hrow
    rfl
  · rw [hjoin, List.map_map]
    rfl

/-! ## Owner deletion -/

/-- `SELECT id FROM memory_records WHERE .. ORDER BY id`. -/
def Db.recordIdsWhere (db : Db) (p : MemoryRecord → Bool) : List Str :=
  ((db.memoryRecords.filter p).map MemoryRecord.id).insertionSort (· ≤ ·)

section Scopes

variable [UnicodeTables] [UrlCrate]

/-- Resolve a deletion scope to stable record ids. -/
def Db.recordIdsForDelete (db : Db) : DeleteScope → Except StoreError (List Str)
  | .recordIds ids =>
      .ok ((ids.filter (fun id => db.memoryRecords.any (fun r => r.id == id))).insertionSort
        (· ≤ ·)).eraseReps
  -- both ends belong to the range
  | .timeRange startMs endMs =>
      if startMs > endMs then
        .error (.invalidDeleteScope "time range start must not be after its end".toList)
      else
        .ok (db.recordIdsWhere (fun r =>
          decide (startMs ≤ r.capturedAtMs) && decide (r.capturedAtMs ≤ endMs)))
  | .domain domain =>
      if (normalizeDomain domain).isNone then
        .error (.invalidDeleteScope "domain must be a valid host or HTTP(S) URL".toList)
      else
        .ok (db.recordIdsWhere (fun r => r.url.any (fun url => urlMatchesDomainSuffix url domain)))
  | .all => .ok (db.recordIdsWhere (fun _ => true))

omit [UnicodeTables] [UrlCrate] in
theorem mem_recordIdsWhere {db : Db} {p : MemoryRecord → Bool} {id : Str} :
    id ∈ db.recordIdsWhere p ↔ ∃ r ∈ db.memoryRecords, p r = true ∧ r.id = id := by
  simp [Db.recordIdsWhere, List.mem_insertionSort, and_assoc]

variable {db : Db} {recordIds : List Str} {id : Str}

theorem Db.mem_recordIdsForDelete_recordIds {ids : List Str}
    (h : db.recordIdsForDelete (.recordIds ids) = .ok recordIds) :
    id ∈ recordIds ↔ id ∈ ids ∧ ∃ r ∈ db.memoryRecords, r.id = id := by
  cases h
  simp only [mem_eraseReps, List.mem_insertionSort, List.mem_filter, List.any_eq_true, beq_iff_eq]

theorem Db.mem_recordIdsForDelete_timeRange {startMs endMs : ℤ}
    (h : db.recordIdsForDelete (.timeRange startMs endMs) = .ok recordIds) :
    id ∈ recordIds ↔
      ∃ r ∈ db.memoryRecords, (startMs ≤ r.capturedAtMs ∧ r.capturedAtMs ≤ endMs) ∧ r.id = id := by
  rw [Db.recordIdsForDelete] at h
  split at h
  · cases h
  · cases h
    simp only [mem_recordIdsWhere, Bool.and_eq_true, decide_eq_true_eq]

theorem Db.mem_recordIdsForDelete_domain {domain : Str}
    (h : db.recordIdsForDelete (.domain domain) = .ok recordIds) :
    id ∈ recordIds ↔ ∃ r ∈ db.memoryRecords,
      (∃ url ∈ r.url, urlMatchesDomainSuffix url domain = true) ∧ r.id = id := by
  rw [Db.recordIdsForDelete] at h
  split at h
  · cases h
  · cases h
    simp only [mem_recordIdsWhere, Option.any_eq_true, Option.mem_def]

theorem Db.mem_recordIdsForDelete_all (h : db.recordIdsForDelete .all = .ok recordIds) :
    id ∈ recordIds ↔ ∃ r ∈ db.memoryRecords, r.id = id := by
  cases h
  simp only [mem_recordIdsWhere, true_and]

/-- The records that a scope is about. -/
def DeleteScope.Covers (scope : DeleteScope) (r : MemoryRecord) : Prop :=
  match scope with
  | .recordIds ids => r.id ∈ ids
  | .timeRange startMs endMs => startMs ≤ r.capturedAtMs ∧ r.capturedAtMs ≤ endMs
  | .domain suffix => ∃ url ∈ r.url, urlMatchesDomainSuffix url suffix = true
  | .all => True

/-- **A scope resolves to the ids of the records it covers.** -/
theorem Db.mem_recordIdsForDelete {scope : DeleteScope}
    (h : db.recordIdsForDelete scope = .ok recordIds) :
    id ∈ recordIds ↔ ∃ r ∈ db.memoryRecords, scope.Covers r ∧ r.id = id := by
  cases scope with
  | recordIds ids =>
      rw [Db.mem_recordIdsForDelete_recordIds h]
      constructor
      · rintro ⟨hid, r, hr, rfl⟩
        exact ⟨r, hr, hid, rfl⟩
      · rintro ⟨r, hr, hid, rfl⟩
        exact ⟨hid, r, hr, rfl⟩
  | timeRange startMs endMs => exact Db.mem_recordIdsForDelete_timeRange h
  | domain domain => exact Db.mem_recordIdsForDelete_domain h
  | all =>
      rw [Db.mem_recordIdsForDelete_all h]
      exact ⟨fun ⟨r, hr, hid⟩ => ⟨r, hr, trivial, hid⟩, fun ⟨r, hr, _, hid⟩ => ⟨r, hr, hid⟩⟩

end Scopes

/-- Remove resolved records from SQLite truth: rows deleted, and the effect of the committed
    transaction. -/
def Store.deleteRecords (recordIds : List Str) (store : Store) : ℕ × Store :=
  recordIds.foldl (fun acc id =>
    (acc.1 + (acc.2.db.deleteRecord id).1,
      ⟨(acc.2.db.deleteRecord id).2, acc.2.constraints.deleteRecord id,
        acc.2.ftsCurrent.deleteRecord id⟩)) (0, store)

/-- The fold of `delete_records` from any count. -/
theorem Store.deleteRecords_fold (recordIds : List Str) (n : ℕ) (store : Store) :
    let after := recordIds.foldl (fun acc id =>
      (acc.1 + (acc.2.db.deleteRecord id).1,
        (⟨(acc.2.db.deleteRecord id).2, acc.2.constraints.deleteRecord id,
          acc.2.ftsCurrent.deleteRecord id⟩ : Store))) (n, store)
    after.2.db.memoryRecords
        = deleteWhere (fun r => decide (r.id ∈ recordIds)) store.db.memoryRecords ∧
      after.2.db.chunks = deleteWhere (fun c => decide (c.recordId ∈ recordIds)) store.db.chunks ∧
      ∀ q : FtsEntry → Bool,
        (∀ c ∈ store.db.chunks, c.recordId ∈ recordIds → q c.ftsEntry = false) →
        after.2.db.chunksFts.filter q = store.db.chunksFts.filter q := by
  induction recordIds generalizing n store with
  | nil => simp [deleteWhere]
  | cons id ids ih =>
      obtain ⟨hrecords, hchunks, hfts⟩ := ih (n + (store.db.deleteRecord id).1)
        ⟨(store.db.deleteRecord id).2, store.constraints.deleteRecord id,
          store.ftsCurrent.deleteRecord id⟩
      refine ⟨hrecords.trans ?_, hchunks.trans ?_, fun q hq => (hfts q ?_).trans ?_⟩
      · simp only [Db.deleteRecord, deleteWhere, List.filter_filter]
        refine List.filter_congr (fun r _ => ?_)
        by_cases h₁ : r.id = id <;> by_cases h₂ : r.id ∈ ids <;> simp [h₁, h₂]
      · simp only [Db.deleteRecord, deleteWhere, List.filter_filter]
        refine List.filter_congr (fun c _ => ?_)
        by_cases h₁ : c.recordId = id <;> by_cases h₂ : c.recordId ∈ ids <;> simp [h₁, h₂]
      · intro c hc hid
        exact hq c (mem_deleteWhere.1 hc).1 (List.mem_cons_of_mem id hid)
      · refine filter_unindex Chunk.ftsEntry q _ _ (fun c hc => ?_)
        obtain ⟨hmem, howned⟩ := List.mem_filter.1 hc
        exact hq c hmem (by rw [beq_iff_eq.1 howned]; exact List.mem_cons_self)

theorem Store.deleteRecords_records (recordIds : List Str) (store : Store) :
    (store.deleteRecords recordIds).2.db.memoryRecords
      = deleteWhere (fun r => decide (r.id ∈ recordIds)) store.db.memoryRecords :=
  (Store.deleteRecords_fold recordIds 0 store).1

theorem Store.deleteRecords_chunks (recordIds : List Str) (store : Store) :
    (store.deleteRecords recordIds).2.db.chunks
      = deleteWhere (fun c => decide (c.recordId ∈ recordIds)) store.db.chunks :=
  (Store.deleteRecords_fold recordIds 0 store).2.1

/-- Index entries other than those of the deleted chunks stay where they are. -/
theorem Store.deleteRecords_fts (recordIds : List Str) (store : Store) {q : FtsEntry → Bool}
    (hq : ∀ c ∈ store.db.chunks, c.recordId ∈ recordIds → q c.ftsEntry = false) :
    (store.deleteRecords recordIds).2.db.chunksFts.filter q = store.db.chunksFts.filter q :=
  (Store.deleteRecords_fold recordIds 0 store).2.2 q hq

end Fndr
