import Fndr.Library.Strings
import Fndr.Library.Tables

set_option autoImplicit false

/-! # The SQLite schema

The tables the modelled code reads and writes: `memory_records`, `chunks` (with the implicit rowid
and the `flushed_at_ms` stamp of migration 2) and the external-content FTS index of migration 4,
as its entries. The row operations below are single SQL statements together with the triggers and
cascades they fire. `Db.Constraints` is what SQLite enforces on every statement and `Db.FtsCurrent`
what the triggers keep; a `Store` is a database with both, so no operation can build one without
them. Timestamps and ordinals are `i64` columns. -/

namespace Fndr

open RustStd Rows

/-- What SQLite reports, as `rusqlite` displays it. -/
structure SqliteError where
  message : Str
  deriving DecidableEq

/-- Why an operation of the store failed. -/
inductive StoreError
  | sqlite (error : SqliteError)
  | schemaTooNew (onDisk supported : ℤ)
  | invalidDeleteScope (message : Str)
  deriving DecidableEq

/-- `StoreError::to_string`. -/
def StoreError.display : StoreError → Str
  | .sqlite error => "sqlite error: ".toList ++ error.message
  | .schemaTooNew onDisk supported =>
      "database schema v".toList ++ (toString onDisk).toList ++
        " is newer than this build supports (v".toList ++ (toString supported).toList ++
        "); update FNDR instead of downgrading".toList
  | .invalidDeleteScope message => "invalid deletion scope: ".toList ++ message

/-- Which statements of a kind fail for reasons outside the schema. -/
abbrev Faults (statement : Type) : Type := statement → Option SqliteError

/-- The error that the statement is made to fail with, if any. -/
def Faults.check {statement : Type} (faults : Faults statement) (s : statement) :
    Except StoreError Unit :=
  match faults s with
  | some error => .error (.sqlite error)
  | none => .ok ()

theorem Faults.check_bind_eq_ok {statement α : Type} {faults : Faults statement} {s : statement}
    {k : Unit → Except StoreError α} {a : α} :
    (faults.check s >>= k) = .ok a ↔ faults s = none ∧ k () = .ok a := by
  unfold Faults.check
  cases faults s with
  | some e => exact ⟨fun h => (nomatch h), fun h => (nomatch h.1)⟩
  | none => exact ⟨fun h => ⟨rfl, h⟩, fun h => h.2⟩

/-- A query that a fault alone can fail. -/
theorem Faults.check_bind_pure {statement α : Type} {faults : Faults statement} {s : statement}
    {a b : α} : (faults.check s >>= fun _ => (.ok b : Except StoreError α)) = .ok a ↔
      faults s = none ∧ a = b :=
  Faults.check_bind_eq_ok.trans
    (and_congr_right' ⟨fun h => (Except.ok.inj h).symm, fun h => congrArg _ h.symm⟩)

theorem Faults.check_bind_eq_error {statement α : Type} {faults : Faults statement} {s : statement}
    {k : Unit → Except StoreError α} {error : StoreError}
    (h : (faults.check s >>= k) = .error error) :
    (∃ fault, faults s = some fault ∧ error = .sqlite fault) ∨ k () = .error error := by
  unfold Faults.check at h
  cases hfault : faults s with
  | some fault =>
      rw [hfault] at h
      cases h
      exact Or.inl ⟨fault, rfl, rfl⟩
  | none =>
      rw [hfault] at h
      exact Or.inr h

/-- A row of `memory_records`, as far as the modelled operations read it. -/
structure MemoryRecord where
  id : Str
  sessionId : Str
  source : Str
  appName : Str
  bundleId : Option Str
  url : Option Str
  windowTitle : Str
  capturedAtMs : ℤ
  createdAtMs : ℤ
  deriving DecidableEq

/-- A row of `chunks`, with the rowid under which its text is indexed. -/
structure Chunk where
  rowid : ℕ
  id : Str
  recordId : Str
  ord : ℤ
  text : Str
  flushedAtMs : ℤ
  deriving DecidableEq

/-- One document of `chunks_fts`. -/
structure FtsEntry where
  rowid : ℕ
  text : Str
  deriving DecidableEq

/-- The entry that the triggers keep in the full-text index for the chunk. -/
def Chunk.ftsEntry (c : Chunk) : FtsEntry := ⟨c.rowid, c.text⟩

/-- The tables of the vault file that captures write. -/
structure Db where
  memoryRecords : List MemoryRecord
  chunks : List Chunk
  chunksFts : List FtsEntry
  deriving DecidableEq

/-- A freshly migrated database. -/
def Db.empty : Db := ⟨[], [], []⟩

/-- Keys, unique columns and the foreign key of the schema. -/
structure Db.Constraints (db : Db) : Prop where
  recordIds : (db.memoryRecords.map MemoryRecord.id).Nodup
  chunkIds : (db.chunks.map Chunk.id).Nodup
  rowids : (db.chunks.map Chunk.rowid).Nodup
  recordOrd : (db.chunks.map (fun c => (c.recordId, c.ord))).Nodup
  foreignKey : ∀ c ∈ db.chunks, ∃ r ∈ db.memoryRecords, r.id = c.recordId

/-- The FTS index holds exactly one entry per chunk, with the chunk's current text. -/
def Db.FtsCurrent (db : Db) : Prop := db.chunksFts.Perm (db.chunks.map Chunk.ftsEntry)

/-- A database as SQLite and the triggers of the schema can leave it. -/
structure Store where
  db : Db
  constraints : db.Constraints
  ftsCurrent : db.FtsCurrent

/-! ## Statements -/

/-- The rowid SQLite gives the next chunk: one more than the largest in use. -/
def Db.nextRowid (db : Db) : ℕ := (db.chunks.map Chunk.rowid).foldr max 0 + 1

/-- `INSERT INTO memory_records`. -/
def Db.insertRecord (db : Db) (record : MemoryRecord) : Except StoreError Db :=
  if db.memoryRecords.any (fun r => r.id == record.id) then
    .error (.sqlite ⟨"UNIQUE constraint failed: memory_records.id".toList⟩)
  else
    .ok { db with memoryRecords := db.memoryRecords ++ [record] }

/-- `INSERT INTO chunks (id, record_id, ord, text)`; the insert trigger indexes the new text. -/
def Db.insertChunk (db : Db) (id recordId : Str) (ord : ℤ) (text : Str) : Except StoreError Db :=
  if db.chunks.any (fun c => c.id == id) then
    .error (.sqlite ⟨"UNIQUE constraint failed: chunks.id".toList⟩)
  else if db.chunks.any (fun c => c.recordId == recordId && c.ord == ord) then
    .error (.sqlite ⟨"UNIQUE constraint failed: chunks.record_id, chunks.ord".toList⟩)
  else if !db.memoryRecords.any (fun r => r.id == recordId) then
    .error (.sqlite ⟨"FOREIGN KEY constraint failed".toList⟩)
  else
    -- pending, and indexed by the trigger
    let chunk : Chunk := ⟨db.nextRowid, id, recordId, ord, text, 0⟩
    .ok { db with
      chunks := db.chunks ++ [chunk]
      chunksFts := db.chunksFts ++ [chunk.ftsEntry] }

/-- `UPDATE memory_records SET .. WHERE id = ?`, for the columns a merge refreshes. -/
def Db.updateRecord (db : Db) (id : Str) (refresh : MemoryRecord → MemoryRecord) : Db :=
  { db with memoryRecords := updateWhere (fun r => r.id == id) refresh db.memoryRecords }

/-- The chunk with its text replaced. -/
def Chunk.withText (c : Chunk) (text : Str) : Chunk := { c with text := text }

/-- `UPDATE chunks SET text = ? WHERE id = ? AND flushed_at_ms = 0`; the update trigger replaces
    the indexed text. -/
def Db.updatePendingText (db : Db) (id text : Str) : Db :=
  let matching := fun c : Chunk => c.id == id && c.flushedAtMs == 0
  { db with
    chunks := updateWhere matching (·.withText text) db.chunks
    chunksFts := reindex Chunk.ftsEntry (·.withText text) (db.chunks.filter matching) db.chunksFts }

/-- The chunk as the flush leaves it. -/
def Chunk.stamped (c : Chunk) (nowMs : ℤ) : Chunk := { c with flushedAtMs := nowMs }

/-- `UPDATE chunks SET flushed_at_ms = ? WHERE id = ?`; no trigger watches the stamp. -/
def Db.stampChunk (db : Db) (nowMs : ℤ) (id : Str) : Db :=
  { db with chunks := updateWhere (fun c => c.id == id) (·.stamped nowMs) db.chunks }

/-- `DELETE FROM memory_records WHERE id = ?` and the number of rows deleted. The foreign key
    cascades to the record's chunks, whose delete trigger drops their index entries. -/
def Db.deleteRecord (db : Db) (id : Str) : ℕ × Db :=
  let owned := fun c : Chunk => c.recordId == id
  (db.memoryRecords.countP (fun r => r.id == id),
    { memoryRecords := deleteWhere (fun r => r.id == id) db.memoryRecords
      chunks := deleteWhere owned db.chunks
      chunksFts := unindex Chunk.ftsEntry (db.chunks.filter owned) db.chunksFts })

/-! ## Statements keep the constraints -/

theorem constraints_empty : Db.empty.Constraints :=
  ⟨List.nodup_nil, List.nodup_nil, List.nodup_nil, List.nodup_nil, fun _ h => nomatch h⟩

theorem ftsCurrent_empty : Db.empty.FtsCurrent := List.Perm.refl _

/-- A freshly created store. -/
def Store.empty : Store := ⟨Db.empty, constraints_empty, ftsCurrent_empty⟩

theorem Db.rowid_lt_nextRowid (db : Db) : ∀ c ∈ db.chunks, c.rowid < db.nextRowid := by
  unfold Db.nextRowid
  induction db.chunks with
  | nil => simp
  | cons d ds ih =>
      intro c hc
      simp only [List.map_cons, List.foldr_cons]
      rcases List.mem_cons.1 hc with rfl | hc
      · omega
      · have := ih c hc
        omega

theorem Db.insertRecord_ok {db db' : Db} {record : MemoryRecord}
    (h : db.insertRecord record = .ok db') :
    (∀ r ∈ db.memoryRecords, r.id ≠ record.id) ∧
      db' = { db with memoryRecords := db.memoryRecords ++ [record] } := by
  unfold Db.insertRecord at h
  split at h
  · cases h
  · next hfresh =>
    refine ⟨?_, (Except.ok.inj h).symm⟩
    simpa using hfresh

theorem Db.insertChunk_ok {db db' : Db} {id recordId text : Str} {ord : ℤ}
    (h : db.insertChunk id recordId ord text = .ok db') :
    (∀ c ∈ db.chunks, c.id ≠ id) ∧ (∀ c ∈ db.chunks, (c.recordId, c.ord) ≠ (recordId, ord)) ∧
      (∃ r ∈ db.memoryRecords, r.id = recordId) ∧
      db' = { db with
        chunks := db.chunks ++ [⟨db.nextRowid, id, recordId, ord, text, 0⟩]
        chunksFts := db.chunksFts ++ [⟨db.nextRowid, text⟩] } := by
  unfold Db.insertChunk at h
  split at h
  · cases h
  · next hid =>
    split at h
    · cases h
    · next hord =>
      split at h
      · cases h
      · next hfk =>
        refine ⟨by simpa using hid, ?_, by simpa using hfk, (Except.ok.inj h).symm⟩
        intro c hc heq
        simp only [List.any_eq_true, not_exists, not_and, Bool.and_eq_true, beq_iff_eq] at hord
        exact hord c hc (Prod.ext_iff.1 heq).1 (Prod.ext_iff.1 heq).2

theorem Db.Constraints.insertRecord {db db' : Db} {record : MemoryRecord} (hdb : db.Constraints)
    (h : db.insertRecord record = .ok db') : db'.Constraints := by
  obtain ⟨hfresh, rfl⟩ := Db.insertRecord_ok h
  refine { hdb with recordIds := nodup_map_concat hdb.recordIds hfresh, foreignKey := ?_ }
  intro c hc
  obtain ⟨r, hr, hid⟩ := hdb.foreignKey c hc
  exact ⟨r, List.mem_append_left _ hr, hid⟩

theorem Db.Constraints.insertChunk {db db' : Db} {id recordId text : Str} {ord : ℤ}
    (hdb : db.Constraints) (h : db.insertChunk id recordId ord text = .ok db') :
    db'.Constraints := by
  obtain ⟨hid, hord, hfk, rfl⟩ := Db.insertChunk_ok h
  refine ⟨hdb.recordIds, nodup_map_concat hdb.chunkIds hid, ?_,
    nodup_map_concat hdb.recordOrd hord, ?_⟩
  · refine nodup_map_concat hdb.rowids (fun c hc => ?_)
    exact Nat.ne_of_lt (db.rowid_lt_nextRowid c hc)
  · intro c hc
    rcases List.mem_append.1 hc with hc | hc
    · exact hdb.foreignKey c hc
    · rw [List.mem_singleton] at hc
      subst hc
      exact hfk

theorem Db.Constraints.updateRecord {db : Db} (hdb : db.Constraints) (id : Str)
    {refresh : MemoryRecord → MemoryRecord} (hid : ∀ r, (refresh r).id = r.id) :
    (db.updateRecord id refresh).Constraints := by
  refine { hdb with recordIds := ?_, foreignKey := ?_ }
  · rw [Db.updateRecord, map_updateWhere (fun r _ => hid r)]
    exact hdb.recordIds
  · intro c hc
    obtain ⟨r, hr, hrid⟩ := hdb.foreignKey c hc
    refine ⟨_, mem_updateWhere.2 ⟨r, hr, rfl⟩, ?_⟩
    split
    · rw [hid, hrid]
    · exact hrid

/-- An update of chunk columns other than the keys. -/
theorem Db.Constraints.updateChunks {db : Db} (hdb : db.Constraints) (p : Chunk → Bool)
    {f : Chunk → Chunk} (hf : ∀ c, (f c).rowid = c.rowid ∧ (f c).id = c.id ∧
      (f c).recordId = c.recordId ∧ (f c).ord = c.ord) (fts : List FtsEntry) :
    ({ db with chunks := updateWhere p f db.chunks, chunksFts := fts } : Db).Constraints := by
  refine ⟨hdb.recordIds, ?_, ?_, ?_, ?_⟩
  · rw [map_updateWhere (fun c _ => (hf c).2.1)]; exact hdb.chunkIds
  · rw [map_updateWhere (fun c _ => (hf c).1)]; exact hdb.rowids
  · rw [map_updateWhere (fun c _ => by rw [(hf c).2.2.1, (hf c).2.2.2])]; exact hdb.recordOrd
  · intro c hc
    obtain ⟨d, hd, rfl⟩ := mem_updateWhere.1 hc
    obtain ⟨r, hr, hid⟩ := hdb.foreignKey d hd
    refine ⟨r, hr, hid.trans ?_⟩
    split
    · exact (hf d).2.2.1.symm
    · rfl

theorem Db.Constraints.updatePendingText {db : Db} (hdb : db.Constraints) (id text : Str) :
    (db.updatePendingText id text).Constraints := by
  refine Db.Constraints.updateChunks hdb _ (fun c => ?_) _
  exact ⟨rfl, rfl, rfl, rfl⟩

theorem Db.Constraints.stampChunk {db : Db} (hdb : db.Constraints) (nowMs : ℤ) (id : Str) :
    (db.stampChunk nowMs id).Constraints := by
  refine Db.Constraints.updateChunks hdb _ (fun c => ?_) db.chunksFts
  exact ⟨rfl, rfl, rfl, rfl⟩

theorem Db.Constraints.deleteRecord {db : Db} (hdb : db.Constraints) (id : Str) :
    (db.deleteRecord id).2.Constraints := by
  refine ⟨?_, ?_, ?_, ?_, ?_⟩
  · exact hdb.recordIds.sublist ((deleteWhere_sublist _ _).map _)
  · exact hdb.chunkIds.sublist ((deleteWhere_sublist _ _).map _)
  · exact hdb.rowids.sublist ((deleteWhere_sublist _ _).map _)
  · exact hdb.recordOrd.sublist ((deleteWhere_sublist _ _).map _)
  · intro c hc
    obtain ⟨hmem, hkeep⟩ := mem_deleteWhere.1 hc
    obtain ⟨r, hr, hid⟩ := hdb.foreignKey c hmem
    refine ⟨r, mem_deleteWhere.2 ⟨hr, ?_⟩, hid⟩
    rw [hid]
    exact hkeep

/-! ## Statements keep the index current -/

theorem Db.FtsCurrent.insertRecord {db db' : Db} {record : MemoryRecord}
    (hdb : db.FtsCurrent) (h : db.insertRecord record = .ok db') : db'.FtsCurrent := by
  obtain ⟨-, rfl⟩ := Db.insertRecord_ok h
  exact hdb

theorem Db.FtsCurrent.insertChunk {db db' : Db} {id recordId text : Str} {ord : ℤ}
    (hdb : db.FtsCurrent) (h : db.insertChunk id recordId ord text = .ok db') :
    db'.FtsCurrent := by
  obtain ⟨-, -, -, rfl⟩ := Db.insertChunk_ok h
  rw [Db.FtsCurrent, List.map_append]
  exact List.Perm.append hdb (List.Perm.refl _)

theorem Db.FtsCurrent.updatePendingText {db : Db} (hdb : db.FtsCurrent) (id text : Str) :
    (db.updatePendingText id text).FtsCurrent := reindex_perm Chunk.ftsEntry hdb

theorem Db.FtsCurrent.stampChunk {db : Db} (hdb : db.FtsCurrent) (nowMs : ℤ) (id : Str) :
    (db.stampChunk nowMs id).FtsCurrent := by
  have hentries : (db.stampChunk nowMs id).chunks.map Chunk.ftsEntry
      = db.chunks.map Chunk.ftsEntry := by
    refine map_updateWhere (fun c _ => ?_) db.chunks
    rfl
  rw [Db.FtsCurrent, hentries]
  exact hdb

theorem Db.FtsCurrent.deleteRecord {db : Db} (hdb : db.FtsCurrent) (id : Str) :
    (db.deleteRecord id).2.FtsCurrent := unindex_perm Chunk.ftsEntry hdb

end Fndr
