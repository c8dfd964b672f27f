import Fndr.Library.Ddl
import Fndr.Store.Store

set_option autoImplicit false

/-! # Migrations

The six migration files as scripts, and `migrations::apply`: read `user_version`, then run each
migration that is left in a transaction of its own that also writes the new version. A stop inside a
transaction leaves the last committed version.

`crashSafe_iff` is the contract of `apply` and says for which stored versions it holds. The number
is a signed column and the loop skips `current as usize` migrations, so a negative one skips them
all. `VaultFile.openStore` is the step from an older schema to the store the other modules work on:
its index is current because the fourth migration fills it. -/

namespace Fndr

open RustStd Rows Ddl

/-! ## The migration files -/

/-- `migrations/0001_schema_v1.sql`. -/
def schemaV1 : List Ddl.Statement := [
  .create (.table "memory_records" [
    ⟨"id", .text, [.primaryKey]⟩,
    ⟨"session_id", .text, [.notNull, .default "''"]⟩,
    ⟨"source", .text, [.notNull]⟩,
    ⟨"app_name", .text, [.notNull, .default "''"]⟩,
    ⟨"window_title", .text, [.notNull, .default "''"]⟩,
    ⟨"captured_at_ms", .integer, [.notNull]⟩,
    ⟨"created_at_ms", .integer, [.notNull]⟩,
    ⟨"lifecycle", .integer, [.notNull, .default "0"]⟩,
    ⟨"reviewed_at_ms", .integer, [.notNull, .default "0"]⟩,
    ⟨"reviewer_generation", .integer, [.notNull, .default "0"]⟩] []),
  .create (.index "idx_records_captured_at" "memory_records" ["captured_at_ms"] none),
  .create (.index "idx_records_session" "memory_records" ["session_id"] none),
  .create (.index "idx_records_lifecycle" "memory_records" ["lifecycle"] none),
  .create (.table "memory_texts" [
    ⟨"record_id", .text, [.primaryKey, .references "memory_records" "id" .cascade]⟩,
    ⟨"raw_text", .text, [.notNull, .default "''"]⟩,
    ⟨"cleaned_text", .text, [.notNull, .default "''"]⟩,
    ⟨"summary", .text, [.notNull, .default "''"]⟩,
    ⟨"embedding_text", .text, [.notNull, .default "''"]⟩,
    ⟨"updated_at_ms", .integer, [.notNull, .default "0"]⟩] []),
  .create (.table "memory_scores" [
    ⟨"record_id", .text, [.notNull, .references "memory_records" "id" .cascade]⟩,
    ⟨"name", .text, [.notNull]⟩,
    ⟨"value", .real, [.notNull]⟩] [.primaryKey ["record_id", "name"]]),
  .create (.table "chunks" [
    ⟨"id", .text, [.primaryKey]⟩,
    ⟨"record_id", .text, [.notNull, .references "memory_records" "id" .cascade]⟩,
    ⟨"ord", .integer, [.notNull]⟩,
    ⟨"text", .text, [.notNull]⟩,
    ⟨"span_start", .integer, [.notNull, .default "0"]⟩,
    ⟨"span_end", .integer, [.notNull, .default "0"]⟩] [.unique ["record_id", "ord"]]),
  .create (.index "idx_chunks_record" "chunks" ["record_id"] none),
  .create (.table "graph_nodes" [
    ⟨"id", .text, [.primaryKey]⟩,
    ⟨"kind", .integer, [.notNull]⟩,
    ⟨"name", .text, [.notNull]⟩,
    ⟨"created_at_ms", .integer, [.notNull]⟩] []),
  .create (.index "idx_nodes_kind_name" "graph_nodes" ["kind", "name"] none),
  .create (.table "graph_edges" [
    ⟨"src", .text, [.notNull, .references "graph_nodes" "id" .cascade]⟩,
    ⟨"dst", .text, [.notNull, .references "graph_nodes" "id" .cascade]⟩,
    ⟨"kind", .integer, [.notNull]⟩,
    ⟨"weight", .real, [.notNull, .default "1.0"]⟩,
    ⟨"created_at_ms", .integer, [.notNull]⟩] [.primaryKey ["src", "dst", "kind"]]),
  .create (.index "idx_edges_dst" "graph_edges" ["dst"] none),
  .create (.table "node_mentions" [
    ⟨"node_id", .text, [.notNull, .references "graph_nodes" "id" .cascade]⟩,
    ⟨"record_id", .text, [.notNull, .references "memory_records" "id" .cascade]⟩]
    [.primaryKey ["node_id", "record_id"]]),
  .create (.index "idx_mentions_record" "node_mentions" ["record_id"] none),
  .create (.table "entity_aliases" [
    ⟨"node_id", .text, [.notNull, .references "graph_nodes" "id" .cascade]⟩,
    ⟨"alias", .text, [.notNull]⟩] [.primaryKey ["node_id", "alias"]]),
  .create (.index "idx_aliases_alias" "entity_aliases" ["alias"] none),
  .create (.table "tasks" [
    ⟨"id", .text, [.primaryKey]⟩,
    ⟨"title", .text, [.notNull]⟩,
    ⟨"status", .integer, [.notNull, .default "0"]⟩,
    ⟨"source_record_id", .text, [.references "memory_records" "id" .setNull]⟩,
    ⟨"due_at_ms", .integer, [.notNull, .default "0"]⟩,
    ⟨"created_at_ms", .integer, [.notNull]⟩,
    ⟨"updated_at_ms", .integer, [.notNull]⟩] []),
  .create (.index "idx_tasks_status" "tasks" ["status"] none),
  .create (.table "meetings" [
    ⟨"id", .text, [.primaryKey]⟩,
    ⟨"title", .text, [.notNull, .default "''"]⟩,
    ⟨"started_at_ms", .integer, [.notNull]⟩,
    ⟨"ended_at_ms", .integer, [.notNull, .default "0"]⟩,
    ⟨"created_at_ms", .integer, [.notNull]⟩] []),
  .create (.table "meeting_segments" [
    ⟨"id", .integer, [.primaryKey, .autoincrement]⟩,
    ⟨"meeting_id", .text, [.notNull, .references "meetings" "id" .cascade]⟩,
    ⟨"started_at_ms", .integer, [.notNull]⟩,
    ⟨"ended_at_ms", .integer, [.notNull, .default "0"]⟩,
    ⟨"speaker", .text, [.notNull, .default "''"]⟩,
    ⟨"text", .text, [.notNull, .default "''"]⟩] []),
  .create (.index "idx_segments_meeting" "meeting_segments" ["meeting_id"] none),
  .create (.table "decision_ledger" [
    ⟨"id", .integer, [.primaryKey, .autoincrement]⟩,
    ⟨"decided_at_ms", .integer, [.notNull]⟩,
    ⟨"statement", .text, [.notNull]⟩,
    ⟨"record_id", .text, [.references "memory_records" "id" .setNull]⟩] []),
  .create (.table "review_queue" [
    ⟨"id", .integer, [.primaryKey, .autoincrement]⟩,
    ⟨"record_id", .text, [.notNull, .unique, .references "memory_records" "id" .cascade]⟩,
    ⟨"enqueued_at_ms", .integer, [.notNull]⟩,
    ⟨"attempts", .integer, [.notNull, .default "0"]⟩,
    ⟨"next_attempt_at_ms", .integer, [.notNull, .default "0"]⟩] []),
  .create (.index "idx_review_next_attempt" "review_queue" ["next_attempt_at_ms"] none),
  .create (.table "settings" [
    ⟨"key", .text, [.primaryKey]⟩,
    ⟨"value", .text, [.notNull]⟩,
    ⟨"updated_at_ms", .integer, [.notNull]⟩] []),
  .create (.table "devices" [
    ⟨"id", .text, [.primaryKey]⟩,
    ⟨"name", .text, [.notNull, .default "''"]⟩,
    ⟨"paired_at_ms", .integer, [.notNull]⟩,
    ⟨"last_seen_ms", .integer, [.notNull, .default "0"]⟩] []),
  .create (.table "tokens" [
    ⟨"id", .text, [.primaryKey]⟩,
    ⟨"kind", .integer, [.notNull]⟩,
    ⟨"hash", .text, [.notNull]⟩,
    ⟨"device_id", .text, [.references "devices" "id" .cascade]⟩,
    ⟨"created_at_ms", .integer, [.notNull]⟩,
    ⟨"last_used_ms", .integer, [.notNull, .default "0"]⟩] [])]

/-- `migrations/0002_chunk_flush.sql`. -/
def chunkFlush : List Ddl.Statement := [
  .addColumn "chunks" ⟨"flushed_at_ms", .integer, [.notNull, .default "0"]⟩,
  .create (.index "idx_chunks_unflushed" "chunks" ["flushed_at_ms"] (some "flushed_at_ms = 0"))]

/-- `migrations/0003_capture_metadata.sql`. -/
def captureMetadata : List Ddl.Statement := [
  .addColumn "memory_records" ⟨"bundle_id", .text, []⟩,
  .addColumn "memory_records" ⟨"url", .text, []⟩,
  .create (.index "idx_records_url" "memory_records" ["url"] (some "url IS NOT NULL"))]

/-- `migrations/0004_chunk_fts.sql`. -/
def chunkFts : List Ddl.Statement := [
  .create (.virtualTable "chunks_fts" "fts5"
    ["text", "content='chunks'", "content_rowid='rowid'", "tokenize='porter unicode61'"]),
  .create (.trigger "chunks_fts_insert" .afterInsert "chunks"
    ["INSERT INTO chunks_fts(rowid, text) VALUES (new.rowid, new.text)"]),
  .create (.trigger "chunks_fts_delete" .afterDelete "chunks"
    ["INSERT INTO chunks_fts(chunks_fts, rowid, text) VALUES ('delete', old.rowid, old.text)"]),
  .create (.trigger "chunks_fts_update" (.afterUpdateOf "text") "chunks"
    ["INSERT INTO chunks_fts(chunks_fts, rowid, text) VALUES ('delete', old.rowid, old.text)",
      "INSERT INTO chunks_fts(rowid, text) VALUES (new.rowid, new.text)"]),
  .insertSelect "chunks_fts" "chunks"]

/-- `migrations/0005_mcp_audit.sql`. -/
def mcpAudit : List Ddl.Statement := [
  .create (.table "mcp_audit" [
    ⟨"id", .integer, [.primaryKey, .autoincrement]⟩,
    ⟨"at_ms", .integer, [.notNull]⟩,
    ⟨"tool", .text, [.notNull]⟩,
    ⟨"outcome", .text, [.notNull]⟩,
    ⟨"raw_released", .integer, [.notNull, .default "0"]⟩] []),
  .create (.index "idx_mcp_audit_at" "mcp_audit" ["at_ms"] none)]

/-- `migrations/0006_result_feedback.sql`. -/
def resultFeedback : List Ddl.Statement := [
  .create (.table "result_feedback" [
    ⟨"id", .integer, [.primaryKey, .autoincrement]⟩,
    ⟨"at_ms", .integer, [.notNull]⟩,
    ⟨"record_id", .text, [.references "memory_records" "id" .setNull]⟩,
    ⟨"chunk_id", .text, []⟩,
    ⟨"query", .text, [.notNull, .default "''"]⟩,
    ⟨"rating", .text, [.notNull]⟩,
    ⟨"note", .text, [.notNull, .default "''"]⟩] []),
  .create (.index "idx_result_feedback_at" "result_feedback" ["at_ms"] none)]

/-- The migrations in order, the first of which makes version 1. -/
def MIGRATIONS : List (List Ddl.Statement) :=
  [schemaV1, chunkFlush, captureMetadata, chunkFts, mcpAudit, resultFeedback]

/-- The version that an open leaves. -/
def schemaVersion : ℤ := MIGRATIONS.length

/-! ## Applying them -/

/-- A database file: the version in its header, its schema, and the rows of the modelled tables. A
    column that the schema lacks means nothing. -/
structure Disk where
  userVersion : ℤ
  schema : Schema
  db : Db

/-- What a schema statement does to the rows of the modelled tables. A new column holds its default
    in every row; the index of `chunks` starts empty and is filled by the `INSERT .. SELECT`. -/
def Db.effect (db : Db) : Ddl.Statement → Db
  | .create (.table "memory_records" _ _) => { db with memoryRecords := [] }
  | .create (.table "chunks" _ _) => { db with chunks := [] }
  | .create (.virtualTable "chunks_fts" _ _) => { db with chunksFts := [] }
  | .create _ => db
  -- the default of the new column goes into every row
  | .addColumn table column =>
      match table, column.name with
      | "chunks", "flushed_at_ms" => { db with chunks := db.chunks.map (·.stamped 0) }
      | "memory_records", "bundle_id" =>
          { db with memoryRecords := db.memoryRecords.map fun r => { r with bundleId := none } }
      | "memory_records", "url" =>
          { db with memoryRecords := db.memoryRecords.map fun r => { r with url := none } }
      | _, _ => db
  -- the backfill of the full-text index
  | .insertSelect "chunks_fts" "chunks" =>
      { db with chunksFts := db.chunksFts ++ db.chunks.map Chunk.ftsEntry }
  | .insertSelect .. => db

/-- The statements of opening a store, told apart by the migration they belong to. -/
inductive MigrationStatement
  | journalMode
  | foreignKeys
  | readVersion
  | begin (index : ℕ)
  | run (index : ℕ) (statement : ℕ)
  | setVersion (index : ℕ)
  | commit (index : ℕ)

/-- The statements that fail for reasons outside the schema. -/
abbrev MigrationFaults := Faults MigrationStatement

/-- No statement of a migration fails. -/
def noMigrationFaults : MigrationFaults := fun _ => none

/-- `execute_batch`, from a given statement on. -/
def executeBatch (faults : MigrationFaults) (index : ℕ) :
    ℕ → List Ddl.Statement → Disk → Except StoreError Disk
  | _, [], disk => .ok disk
  | position, statement :: sql, disk => do
      faults.check (.run index position)
      match disk.schema.exec statement with
      | .error message => .error (.sqlite ⟨message.toList⟩)
      | .ok schema =>
          executeBatch faults index (position + 1) sql
            { disk with schema := schema, db := disk.db.effect statement }

/-- The transaction of one migration, up to and with its commit. -/
def migrate (faults : MigrationFaults) (sql : List Ddl.Statement) (index : ℕ) (disk : Disk) :
    Except StoreError Disk := do
  faults.check (.begin index)
  let disk ← executeBatch faults index 0 sql disk
  faults.check (.setVersion index)
  faults.check (.commit index)
  return { disk with userVersion := (index + 1 : ℕ) }

/-- The loop of `apply`: what is durable after each turn is what the turn committed. -/
def applyEach (faults : MigrationFaults) :
    List (List Ddl.Statement × ℕ) → Durable Disk StoreError Unit
  | [] => pure ()
  | (sql, index) :: rest => do
      let disk ← Durable.get
      let after ← Durable.lift (migrate faults sql index disk)
      Durable.commit (fun _ => after)
      applyEach faults rest

/-- `n as usize`. -/
def asUsize (n : ℤ) : ℕ := (n % 2 ^ 64).toNat

/-- `migrations::apply`. -/
def applyMigrations (faults : MigrationFaults) : Durable Disk StoreError Unit := do
  let disk ← Durable.get
  Durable.lift (faults.check .readVersion)
  if disk.userVersion > schemaVersion then
    Durable.throw (.schemaTooNew disk.userVersion schemaVersion)
  else
    applyEach faults (MIGRATIONS.zipIdx.drop (asUsize disk.userVersion))

/-- `Store::init`. -/
def storeInit (faults : MigrationFaults) : Durable Disk StoreError Unit := do
  Durable.lift (faults.check .journalMode)
  Durable.lift (faults.check .foreignKeys)
  applyMigrations faults

/-- A file that SQLite has just created. -/
def Disk.fresh : Disk := ⟨0, [], Db.empty⟩

/-! ## The schema a version stands for

`MIGRATIONS` is append-only, so a newer binary's list is this one with more at its end. -/

variable (later : List (List Ddl.Statement))

/-- Exactly the first `w` migrations have been applied, and the file says so. -/
structure Disk.AtVersion (disk : Disk) (w : ℕ) : Prop where
  version : disk.userVersion = w
  known : w ≤ (MIGRATIONS ++ later).length
  schema : execAll ((MIGRATIONS ++ later).take w).flatten [] = .ok disk.schema

/-- A stored version with the schema it stands for: that of its first migrations, which for a number
    below 1 are none. -/
structure Disk.StandsFor (disk : Disk) : Prop where
  stored : -2 ^ 31 ≤ disk.userVersion ∧ disk.userVersion < 2 ^ 31
  known : disk.userVersion.toNat ≤ (MIGRATIONS ++ later).length
  schema : execAll ((MIGRATIONS ++ later).take disk.userVersion.toNat).flatten [] = .ok disk.schema

/-- The contract of `apply` for one file. -/
structure Disk.CrashSafe (disk : Disk) : Prop where
  /-- A stop anywhere leaves the file at some version. -/
  stops : ∀ faults stop, ∃ w, ((applyMigrations faults).cut disk stop).AtVersion later w
  /-- `Ok` means the schema of a fresh database. -/
  completes : ∀ faults, (applyMigrations faults disk).1 = .ok () →
    let after := (applyMigrations faults).final disk
    after.userVersion = schemaVersion ∧
      after.schema = ((applyMigrations noMigrationFaults).final Disk.fresh).schema
  /-- Run again after a stop, `apply` finishes the job. -/
  resumes : ∀ faults stop, disk.userVersion ≤ schemaVersion →
    let stopped := (applyMigrations faults).cut disk stop
    let after := (applyMigrations noMigrationFaults).final stopped
    (applyMigrations noMigrationFaults stopped).1 = .ok () ∧ after.userVersion = schemaVersion ∧
      after.schema = ((applyMigrations noMigrationFaults).final Disk.fresh).schema
  /-- Where the schema is too new nothing changes. -/
  untouched : ∀ faults onDisk supported stop,
    (applyMigrations faults disk).1 = .error (.schemaTooNew onDisk supported) →
    (applyMigrations faults).cut disk stop = disk

/-! ## One migration -/

/-- The batch changes the schema as the script does, and the rows as its statements do. -/
theorem executeBatch_ok {faults : MigrationFaults} {index position : ℕ}
    {sql : List Ddl.Statement} {disk after : Disk}
    (h : executeBatch faults index position sql disk = .ok after) :
    after.userVersion = disk.userVersion ∧ execAll sql disk.schema = .ok after.schema ∧
      after.db = sql.foldl Db.effect disk.db := by
  induction sql generalizing position disk with
  | nil =>
      cases h
      exact ⟨rfl, rfl, rfl⟩
  | cons statement sql ih =>
      replace h := (Faults.check_bind_eq_ok.1 h).2
      rw [execAll]
      cases hexec : disk.schema.exec statement with
      | error message =>
          rw [hexec] at h
          cases h
      | ok schema =>
          rw [hexec] at h
          exact ih h

theorem executeBatch_noFaults {sql : List Ddl.Statement} {disk : Disk} {schema : Schema}
    (index position : ℕ) (h : execAll sql disk.schema = .ok schema) :
    ∃ after, executeBatch noMigrationFaults index position sql disk = .ok after := by
  induction sql generalizing position disk with
  | nil => exact ⟨disk, rfl⟩
  | cons statement sql ih =>
      rw [execAll] at h
      cases hexec : disk.schema.exec statement with
      | error message =>
          rw [hexec] at h
          cases h
      | ok mid =>
          rw [hexec] at h
          let next : Disk := { disk with schema := mid, db := disk.db.effect statement }
          have hnext : execAll sql next.schema = .ok schema := h
          obtain ⟨after, hafter⟩ := ih (position + 1) hnext
          refine ⟨after, Faults.check_bind_eq_ok.2 ⟨rfl, ?_⟩⟩
          rw [hexec]
          exact hafter

theorem migrate_ok {faults : MigrationFaults} {sql : List Ddl.Statement} {index : ℕ}
    {disk after : Disk} (h : migrate faults sql index disk = .ok after) :
    after.userVersion = (index + 1 : ℕ) ∧ execAll sql disk.schema = .ok after.schema ∧
      after.db = sql.foldl Db.effect disk.db := by
  obtain ⟨done, hbatch, hrest⟩ := Except.bind_eq_ok.1 (Faults.check_bind_eq_ok.1 h).2
  replace hrest := (Faults.check_bind_eq_ok.1
    (Faults.check_bind_eq_ok.1 hrest).2).2
  cases hrest
  obtain ⟨-, hschema, hdb⟩ := executeBatch_ok hbatch
  exact ⟨rfl, hschema, hdb⟩

theorem migrate_noFaults {sql : List Ddl.Statement} {index : ℕ} {disk : Disk} {schema : Schema}
    (h : execAll sql disk.schema = .ok schema) :
    ∃ after, migrate noMigrationFaults sql index disk = .ok after := by
  obtain ⟨done, hbatch⟩ := executeBatch_noFaults index 0 h
  refine ⟨{ done with userVersion := (index + 1 : ℕ) },
    Faults.check_bind_eq_ok.2 ⟨rfl, Except.bind_eq_ok.2 ⟨done, hbatch, ?_⟩⟩⟩
  exact Faults.check_bind_eq_ok.2 ⟨rfl, Faults.check_bind_eq_ok.2 ⟨rfl, rfl⟩⟩

theorem migrations_run : ∃ schema, execAll MIGRATIONS.flatten [] = .ok schema := by
  have hok : (execAll MIGRATIONS.flatten []).isOk = true := by decide +kernel
  cases h : execAll MIGRATIONS.flatten [] with
  | ok schema => exact ⟨schema, rfl⟩
  | error message =>
      rw [h] at hok
      cases hok

variable {later}

/-- The scripts of the first `w + 1` migrations are those of the first `w` and one more. -/
theorem scripts_succ {w : ℕ} (hw : w < MIGRATIONS.length) :
    ((MIGRATIONS ++ later).take (w + 1)).flatten
      = ((MIGRATIONS ++ later).take w).flatten ++ MIGRATIONS[w] := by
  have hlength : w < (MIGRATIONS ++ later).length := by
    rw [List.length_append]
    omega
  rw [← List.take_concat_get' _ w hlength, List.flatten_append, List.flatten_singleton,
    List.getElem_append_left hw]

theorem Disk.AtVersion.migrate {faults : MigrationFaults} {disk after : Disk} {w : ℕ}
    (h : disk.AtVersion later w) (hw : w < MIGRATIONS.length)
    (hmigrate : Fndr.migrate faults MIGRATIONS[w] w disk = .ok after) :
    after.AtVersion later (w + 1) := by
  obtain ⟨hversion, hschema, -⟩ := migrate_ok hmigrate
  refine ⟨hversion, ?_, ?_⟩
  · rw [List.length_append]
    omega
  · rw [scripts_succ hw, execAll_append_ok h.schema]
    exact hschema

/-- Without faults no migration of the list is refused on the schema its number stands for. -/
theorem Disk.AtVersion.migrate_noFaults {disk : Disk} {w : ℕ} (h : disk.AtVersion later w)
    (hw : w < MIGRATIONS.length) :
    ∃ after, Fndr.migrate noMigrationFaults MIGRATIONS[w] w disk = .ok after := by
  obtain ⟨schema, hrun⟩ := migrations_run
  have hall : MIGRATIONS.flatten = ((MIGRATIONS ++ later).take (w + 1)).flatten
      ++ (MIGRATIONS.drop (w + 1)).flatten := by
    rw [List.take_append_of_le_length (by omega), ← List.flatten_append, List.take_append_drop]
  rw [hall] at hrun
  obtain ⟨mid, hmid, -⟩ := execAll_beginning hrun
  rw [scripts_succ hw, execAll_append_ok h.schema] at hmid
  exact Fndr.migrate_noFaults hmid

/-- A migration fails with an error of SQLite, never with the one that reports a version. -/
theorem executeBatch_error {faults : MigrationFaults} {index position : ℕ}
    {sql : List Ddl.Statement} {disk : Disk} {error : StoreError}
    (h : executeBatch faults index position sql disk = .error error) :
    ∃ cause, error = .sqlite cause := by
  induction sql generalizing position disk with
  | nil => cases h
  | cons statement sql ih =>
      rcases Faults.check_bind_eq_error h with ⟨fault, -, rfl⟩ | h
      · exact ⟨fault, rfl⟩
      · cases hexec : disk.schema.exec statement with
        | error message =>
            rw [hexec] at h
            cases h
            exact ⟨_, rfl⟩
        | ok schema =>
            rw [hexec] at h
            exact ih h

theorem migrate_error {faults : MigrationFaults} {sql : List Ddl.Statement} {index : ℕ}
    {disk : Disk} {error : StoreError} (h : migrate faults sql index disk = .error error) :
    ∃ cause, error = .sqlite cause := by
  rcases Faults.check_bind_eq_error h with ⟨fault, -, rfl⟩ | h
  · exact ⟨fault, rfl⟩
  · cases hbatch : executeBatch faults index 0 sql disk with
    | error e =>
        rw [hbatch] at h
        cases h
        exact executeBatch_error hbatch
    | ok done =>
        rw [hbatch] at h
        rcases Faults.check_bind_eq_error h with ⟨fault, -, rfl⟩ | h
        · exact ⟨fault, rfl⟩
        · rcases Faults.check_bind_eq_error h with ⟨fault, -, rfl⟩ | h
          · exact ⟨fault, rfl⟩
          · cases h

/-! ## The loop -/

theorem migrations_drop {w : ℕ} (hw : w < MIGRATIONS.length) :
    MIGRATIONS.zipIdx.drop w = (MIGRATIONS[w], w) :: MIGRATIONS.zipIdx.drop (w + 1) := by
  rw [List.drop_eq_getElem_cons (by simpa using hw), List.getElem_zipIdx, Nat.zero_add]

/-- What each migration takes from its number to the next, the loop takes to the last, and only
    states of that kind are left behind on the way. -/
theorem applyEach_crash {faults : MigrationFaults} {I : ℕ → Disk → Prop}
    (hstep : ∀ (w : ℕ) (hw : w < MIGRATIONS.length) (disk after : Disk), I w disk →
      migrate faults MIGRATIONS[w] w disk = .ok after → I (w + 1) after) (k w : ℕ)
    (hk : w + k = MIGRATIONS.length) :
    Durable.Crash (I w) (applyEach faults (MIGRATIONS.zipIdx.drop w))
      (fun _ => I MIGRATIONS.length) (fun disk => ∃ w ≤ MIGRATIONS.length, I w disk) := by
  induction k generalizing w with
  | zero =>
      rw [List.drop_of_length_le (by simpa using hk.ge)]
      exact Durable.Crash.pure (fun disk h => by rw [← hk]; exact h)
  | succ k ih =>
      have hw : w < MIGRATIONS.length := by omega
      rw [migrations_drop hw, applyEach]
      refine Durable.Crash.get_bind (fun disk hdisk => ?_)
      refine Durable.Crash.bind
        (Q := fun after _ => migrate faults MIGRATIONS[w] w disk = .ok after)
        (Durable.Crash.lift (fun _ _ _ hok => hok)) (fun after => ?_)
      refine Durable.Crash.bind (Q := fun _ t => I (w + 1) t)
        (Durable.Crash.commit (fun _ hmigrate => ?_)) (fun _ => ih (w + 1) (by omega))
      have hafter := hstep w hw disk after hdisk hmigrate
      exact ⟨⟨w + 1, hw, hafter⟩, hafter⟩

/-- Without faults the loop runs to its end from every version. -/
theorem applyEach_noFaults (k w : ℕ) (hk : w + k = MIGRATIONS.length) {disk : Disk}
    (h : disk.AtVersion later w) :
    (applyEach noMigrationFaults (MIGRATIONS.zipIdx.drop w) disk).1 = .ok () := by
  induction k generalizing w disk with
  | zero =>
      rw [List.drop_of_length_le (by simpa using hk.ge)]
      rfl
  | succ k ih =>
      have hw : w < MIGRATIONS.length := by omega
      obtain ⟨after, hmigrate⟩ := h.migrate_noFaults hw
      rw [migrations_drop hw, applyEach, Durable.get_bind_run, hmigrate]
      exact ih (w + 1) (by omega) (h.migrate hw hmigrate)

/-! ## The whole of `apply` -/

theorem applyMigrations_run {faults : MigrationFaults} {disk : Disk} :
    applyMigrations faults disk = (match faults .readVersion with
      | some error => (.error (.sqlite error), [])
      | none =>
          if disk.userVersion > schemaVersion then
            (.error (.schemaTooNew disk.userVersion schemaVersion), [])
          else applyEach faults (MIGRATIONS.zipIdx.drop (asUsize disk.userVersion)) disk) := by
  rw [applyMigrations, Durable.get_bind_run]
  cases hread : faults .readVersion with
  | some error =>
      have hcheck : faults.check .readVersion = .error (.sqlite error) := by
        rw [Faults.check, hread]
      rw [hcheck]
      rfl
  | none =>
      have hcheck : faults.check .readVersion = .ok () := by
        rw [Faults.check, hread]
      rw [hcheck]
      dsimp only
      split <;> rfl

/-- A version that the list knows is skipped over. -/
theorem asUsize_of_nonneg {n : ℤ} (h : 0 ≤ n) (hmax : n ≤ schemaVersion) : asUsize n = n.toNat := by
  have : schemaVersion = 6 := rfl
  rw [asUsize, Int.emod_eq_of_lt h (by omega)]

/-- A negative one is past the end of every list. -/
theorem asUsize_of_neg {n : ℤ} (h : n < 0) (hmin : -2 ^ 31 ≤ n) :
    MIGRATIONS.length ≤ asUsize n := by
  have hlength : MIGRATIONS.length = 6 := rfl
  have hmod : n % 2 ^ 64 = n + 2 ^ 64 := by
    rw [← Int.add_emod_right, Int.emod_eq_of_lt (by omega) (by omega)]
  rw [asUsize, hmod, hlength]
  omega

/-- What each migration takes from its number to the next, `apply` takes from the stored version to
    the last. -/
theorem applyMigrations_crash {faults : MigrationFaults} {I : ℕ → Disk → Prop}
    (hversion : ∀ w disk, I w disk → disk.userVersion = w)
    (hstep : ∀ (w : ℕ) (hw : w < MIGRATIONS.length) (disk after : Disk), I w disk →
      migrate faults MIGRATIONS[w] w disk = .ok after → I (w + 1) after)
    {w : ℕ} (hw : w ≤ MIGRATIONS.length) :
    Durable.Crash (I w) (applyMigrations faults) (fun _ => I MIGRATIONS.length)
      (fun disk => ∃ w ≤ MIGRATIONS.length, I w disk) := by
  intro disk hdisk
  have hstored : disk.userVersion = w := hversion w disk hdisk
  have hknown : disk.userVersion ≤ schemaVersion := by
    rw [hstored]
    exact Int.ofNat_le.2 hw
  rw [Durable.final, applyMigrations_run]
  cases faults .readVersion with
  | some error =>
      constructor
      · intro _ ht
        cases ht
      · intro _ ha
        cases ha
  | none =>
      dsimp only
      rw [if_neg (by omega), asUsize_of_nonneg (by omega) hknown, hstored, Int.toNat_natCast]
      exact applyEach_crash hstep (MIGRATIONS.length - w) w (by omega) disk hdisk

/-- From a version the list knows, `apply` only leaves versions behind and ends at the last. -/
theorem applyMigrations_atVersion (faults : MigrationFaults) {w : ℕ} (hw : w ≤ MIGRATIONS.length) :
    Durable.Crash (fun disk => disk.AtVersion later w) (applyMigrations faults)
      (fun _ disk => disk.AtVersion later MIGRATIONS.length)
      (fun disk => ∃ w ≤ MIGRATIONS.length, disk.AtVersion later w) :=
  applyMigrations_crash (I := fun w disk => disk.AtVersion later w) (fun _ _ h => h.version)
    (fun _ hw _ _ h hmigrate => h.migrate hw hmigrate) hw

theorem applyMigrations_noFaults {disk : Disk} {w : ℕ} (h : disk.AtVersion later w)
    (hw : w ≤ MIGRATIONS.length) : (applyMigrations noMigrationFaults disk).1 = .ok () := by
  have hversion : disk.userVersion ≤ schemaVersion := by
    rw [h.version]
    exact Int.ofNat_le.2 hw
  have hskip : asUsize disk.userVersion = w := by
    rw [asUsize_of_nonneg (by rw [h.version]; omega) hversion, h.version, Int.toNat_natCast]
  rw [applyMigrations_run, show noMigrationFaults .readVersion = none from rfl]
  dsimp only
  rw [if_neg (by omega), hskip]
  exact applyEach_noFaults (MIGRATIONS.length - w) w (by omega) h

/-- Over a negative version every migration is skipped, and `apply` is done. -/
theorem applyMigrations_negative {disk : Disk} (h : disk.userVersion < 0)
    (hmin : -2 ^ 31 ≤ disk.userVersion) :
    applyMigrations noMigrationFaults disk = (.ok (), []) := by
  have hold : ¬ disk.userVersion > schemaVersion :=
    not_lt.2 (h.le.trans (Int.natCast_nonneg MIGRATIONS.length))
  have hnone : MIGRATIONS.zipIdx.drop (asUsize disk.userVersion) = [] := by
    rw [List.drop_eq_nil_iff, List.length_zipIdx]
    exact asUsize_of_neg h hmin
  rw [applyMigrations_run, show noMigrationFaults .readVersion = none from rfl]
  dsimp only
  rw [if_neg hold, hnone]
  rfl

theorem Disk.fresh_atVersion : Disk.fresh.AtVersion [] 0 := ⟨rfl, Nat.zero_le _, rfl⟩

/-- Every file at the last version has the schema of a fresh database. -/
theorem Disk.AtVersion.last {disk : Disk} (h : disk.AtVersion later MIGRATIONS.length) :
    disk.userVersion = schemaVersion ∧
      disk.schema = ((applyMigrations noMigrationFaults).final Disk.fresh).schema := by
  have hfresh := ((applyMigrations_atVersion noMigrationFaults (Nat.zero_le _)) Disk.fresh
    Disk.fresh_atVersion).2 () (applyMigrations_noFaults Disk.fresh_atVersion (Nat.zero_le _))
  have hschema := h.schema
  have hcurrent := hfresh.schema
  rw [List.take_left] at hschema
  rw [List.append_nil, List.take_length, hschema] at hcurrent
  exact ⟨h.version, Except.ok.inj hcurrent⟩

theorem Disk.StandsFor.atVersion {disk : Disk} (h : disk.StandsFor later)
    (hversion : 0 ≤ disk.userVersion) : disk.AtVersion later disk.userVersion.toNat :=
  ⟨(Int.toNat_of_nonneg hversion).symm, h.known, h.schema⟩

theorem applyEach_error {faults : MigrationFaults} {rest : List (List Ddl.Statement × ℕ)}
    {disk : Disk} {error : StoreError} (h : (applyEach faults rest disk).1 = .error error) :
    ∃ cause, error = .sqlite cause := by
  induction rest generalizing disk with
  | nil => cases h
  | cons entry rest ih =>
      obtain ⟨sql, index⟩ := entry
      rw [applyEach, Durable.get_bind_run] at h
      cases hmigrate : migrate faults sql index disk with
      | error e =>
          rw [hmigrate] at h
          cases h
          exact migrate_error hmigrate
      | ok after =>
          rw [hmigrate] at h
          exact ih h

/-- Only a version past the list is reported as too new. -/
theorem applyMigrations_ne_tooNew {faults : MigrationFaults} {disk : Disk}
    (h : disk.userVersion ≤ schemaVersion) (onDisk supported : ℤ) :
    (applyMigrations faults disk).1 ≠ .error (.schemaTooNew onDisk supported) := by
  intro herror
  rw [applyMigrations_run] at herror
  cases hread : faults .readVersion with
  | some error =>
      rw [hread] at herror
      cases herror
  | none =>
      rw [hread] at herror
      dsimp only at herror
      rw [if_neg (by omega)] at herror
      obtain ⟨cause, hcause⟩ := applyEach_error herror
      cases hcause

/-- A file that `apply` finds too new is left alone. -/
theorem applyMigrations_tooNew {faults : MigrationFaults} {disk : Disk}
    (h : schemaVersion < disk.userVersion) :
    (applyMigrations faults disk).2 = [] ∧ (applyMigrations faults disk).1 ≠ .ok () := by
  rw [applyMigrations_run]
  cases faults .readVersion with
  | some error => exact ⟨rfl, fun h => (nomatch h)⟩
  | none =>
      dsimp only
      rw [if_pos h]
      exact ⟨rfl, fun h => (nomatch h)⟩

/-- **Which stored versions `apply` is safe for.** It keeps its contract, whatever fails and
    wherever it stops, exactly when the stored version is not negative. -/
theorem crashSafe_iff {disk : Disk} (h : disk.StandsFor later) :
    disk.CrashSafe later ↔ 0 ≤ disk.userVersion := by
  constructor
  · intro hsafe
    by_contra hnegative
    -- `skip` of a negative version runs every migration again
    have hrun := applyMigrations_negative (by omega) h.stored.1
    have hcompleted := (hsafe.completes noMigrationFaults (by rw [hrun])).1
    rw [Durable.final, hrun] at hcompleted
    exact hnegative (hcompleted ▸ Int.natCast_nonneg MIGRATIONS.length)
  · intro hversion
    have hat := h.atVersion hversion
    -- a newer file is refused untouched; an older one goes up turn by turn
    by_cases hnew : schemaVersion < disk.userVersion
    · have hstay : ∀ faults stop, (applyMigrations faults).cut disk stop = disk :=
        fun faults stop => Durable.cut_of_no_effects (applyMigrations_tooNew hnew).1 stop
      refine ⟨fun faults stop => ⟨disk.userVersion.toNat, ?_⟩, fun faults hok => ?_,
        fun faults stop hle => ?_, fun faults _ _ stop _ => hstay faults stop⟩
      · rw [hstay]
        exact hat
      · exact absurd hok (applyMigrations_tooNew hnew).2
      · omega
    · have hw : disk.userVersion.toNat ≤ MIGRATIONS.length := by
        have : schemaVersion = (MIGRATIONS.length : ℤ) := rfl
        omega
      refine ⟨fun faults stop => ?_, fun faults hok => ?_, fun faults stop _ => ?_,
        fun faults onDisk supported stop herror => ?_⟩
      · obtain ⟨w, -, hstopped⟩ := (applyMigrations_atVersion faults hw).cut hat ⟨_, hw, hat⟩ stop
        exact ⟨w, hstopped⟩
      · exact ((applyMigrations_atVersion faults hw disk hat).2 () hok).last
      · obtain ⟨w, hw', hstopped⟩ := (applyMigrations_atVersion faults hw).cut hat ⟨_, hw, hat⟩ stop
        have hok := applyMigrations_noFaults hstopped hw'
        exact ⟨hok, ((applyMigrations_atVersion noMigrationFaults hw' _ hstopped).2 () hok).last⟩
      · exact absurd herror (applyMigrations_ne_tooNew (by omega) onDisk supported)

/-- A vault of the second version. -/
theorem crashSafe_v2 : ∃ schema, Disk.CrashSafe [] ⟨2, schema, Db.empty⟩ := by
  obtain ⟨after, hrun⟩ := migrations_run
  have hall : MIGRATIONS.flatten
      = ((MIGRATIONS ++ []).take 2).flatten ++ (MIGRATIONS.drop 2).flatten := rfl
  rw [hall] at hrun
  obtain ⟨schema, hschema, -⟩ := execAll_beginning hrun
  have hstands : Disk.StandsFor [] ⟨2, schema, Db.empty⟩ :=
    ⟨⟨by simp, by simp⟩, Nat.le_of_ble_eq_true rfl, hschema⟩
  exact ⟨schema, (crashSafe_iff hstands).2 (Int.natCast_nonneg 2)⟩

/-- A database stamped −1 opens without an error and without a schema. -/
theorem not_crashSafe_negative : ¬ Disk.CrashSafe [] ⟨-1, [], Db.empty⟩ := by
  intro hsafe
  have hrun : applyMigrations noMigrationFaults ⟨-1, [], Db.empty⟩ = (.ok (), []) :=
    applyMigrations_negative (by decide) (by decide)
  -- the file ends at the version it had
  have hversion := (hsafe.completes noMigrationFaults (by rw [hrun])).1
  rw [Durable.final, hrun] at hversion
  exact absurd hversion (by decide)

/-! ## From an older schema to a store -/

/-- A vault file as the binary of its version left it; at version 0 SQLite has just created it. From
    the fourth version on it has the index and the triggers that keep it. -/
structure VaultFile where
  disk : Disk
  version : ℕ
  atVersion : disk.AtVersion [] version
  constraints : disk.db.Constraints
  indexed : 4 ≤ version → disk.db.FtsCurrent

/-- The file that SQLite creates. -/
def VaultFile.fresh : VaultFile :=
  ⟨Disk.fresh, 0, Disk.fresh_atVersion, constraints_empty, fun _ => ftsCurrent_empty⟩

/-- At version `w`, with the rows as SQLite and the triggers of that version keep them. -/
structure Disk.Sound (disk : Disk) (w : ℕ) : Prop where
  atVersion : disk.AtVersion [] w
  constraints : disk.db.Constraints
  indexed : 4 ≤ w → disk.db.FtsCurrent

/-- A record as it stands before its bundle id and its URL are known. -/
def MemoryRecord.unattributed (r : MemoryRecord) : MemoryRecord :=
  { r with bundleId := none, url := none }

theorem chunkFlush_effect (db : Db) : chunkFlush.foldl Db.effect db
    = { db with chunks := updateWhere (fun _ => true) (·.stamped 0) db.chunks } := rfl

theorem captureMetadata_effect (db : Db) : captureMetadata.foldl Db.effect db
    = { db with memoryRecords := db.memoryRecords.map MemoryRecord.unattributed } := by
  have heffect : captureMetadata.foldl Db.effect db = { db with
      memoryRecords := (db.memoryRecords.map fun r => { r with bundleId := none }).map
        fun r => { r with url := none } } := rfl
  rw [heffect, List.map_map]
  rfl

theorem Db.Constraints.unattributed {db : Db} (h : db.Constraints) :
    ({ db with memoryRecords := db.memoryRecords.map MemoryRecord.unattributed } : Db).Constraints :=
    by
  refine ⟨?_, h.chunkIds, h.rowids, h.recordOrd, fun c hc => ?_⟩
  · rw [List.map_map]
    exact h.recordIds
  · obtain ⟨r, hr, hid⟩ := h.foreignKey c hc
    exact ⟨r.unattributed, List.mem_map_of_mem hr, hid⟩

theorem migration_constraints {db : Db} (h : db.Constraints) {w : ℕ} (hw : w < MIGRATIONS.length) :
    (MIGRATIONS[w].foldl Db.effect db).Constraints := by
  match w, hw with
  | 0, _ => exact ⟨List.nodup_nil, List.nodup_nil, List.nodup_nil, List.nodup_nil,
      fun _ hc => nomatch hc⟩
  | 1, _ =>
      have hstamped : (chunkFlush.foldl Db.effect db).Constraints := by
        rw [chunkFlush_effect]
        refine h.updateChunks _ (fun c => ?_) db.chunksFts
        exact ⟨rfl, rfl, rfl, rfl⟩
      exact hstamped
  | 2, _ =>
      have hmetadata : (captureMetadata.foldl Db.effect db).Constraints := by
        rw [captureMetadata_effect]
        exact h.unattributed
      exact hmetadata
  | 3, _ => exact ⟨h.recordIds, h.chunkIds, h.rowids, h.recordOrd, h.foreignKey⟩
  | 4, _ => exact h
  | 5, _ => exact h

/-- The fourth migration makes the index current, and the later ones leave it alone. -/
theorem migration_ftsCurrent {db : Db} {w : ℕ} (h : 4 ≤ w → db.FtsCurrent)
    (hw : w < MIGRATIONS.length) (hindex : 4 ≤ w + 1) :
    (MIGRATIONS[w].foldl Db.effect db).FtsCurrent := by
  match w, hw with
  | 3, _ => exact List.Perm.refl _
  | 4, _ => exact h (by omega)
  | 5, _ => exact h (by omega)

theorem Disk.Sound.migrate {faults : MigrationFaults} {disk after : Disk} {w : ℕ}
    (h : disk.Sound w) (hw : w < MIGRATIONS.length)
    (hmigrate : Fndr.migrate faults MIGRATIONS[w] w disk = .ok after) : after.Sound (w + 1) := by
  obtain ⟨-, -, hdb⟩ := migrate_ok hmigrate
  refine ⟨h.atVersion.migrate hw hmigrate, ?_, fun hindex => ?_⟩
  · rw [hdb]
    exact migration_constraints h.constraints hw
  · rw [hdb]
    exact migration_ftsCurrent h.indexed hw hindex

theorem storeInit_sound (faults : MigrationFaults) {w : ℕ} (hw : w ≤ MIGRATIONS.length) :
    Durable.Crash (fun disk : Disk => disk.Sound w) (storeInit faults)
      (fun _ disk => disk.Sound MIGRATIONS.length)
      (fun disk => ∃ w ≤ MIGRATIONS.length, disk.Sound w) := by
  refine Durable.Crash.bind (Q := fun _ disk => disk.Sound w)
    (Durable.Crash.lift (fun _ _ h _ => h)) (fun _ => ?_)
  refine Durable.Crash.bind (Q := fun _ disk => disk.Sound w)
    (Durable.Crash.lift (fun _ _ h _ => h)) (fun _ => ?_)
  exact applyMigrations_crash (I := fun w disk => disk.Sound w) (fun _ _ h => h.atVersion.version)
    (fun _ hw _ _ h hmigrate => h.migrate hw hmigrate) hw

theorem storeInit_noFaults (file : VaultFile) :
    (storeInit noMigrationFaults file.disk).1 = .ok () :=
  applyMigrations_noFaults file.atVersion file.atVersion.known

/-- `Store::open`. -/
def VaultFile.openStore (file : VaultFile) (faults : MigrationFaults) : Except StoreError Store :=
  match h : (storeInit faults file.disk).1 with
  | .error error => .error error
  | .ok () =>
      have hsound := (storeInit_sound faults file.atVersion.known file.disk
        ⟨file.atVersion, file.constraints, file.indexed⟩).2 () h
      .ok ⟨((storeInit faults).final file.disk).db, hsound.constraints, hsound.indexed (by decide)⟩

/-- What is opened is what the migrations left. -/
theorem VaultFile.openStore_db {file : VaultFile} {faults : MigrationFaults}
    (h : (storeInit faults file.disk).1 = .ok ()) :
    ∃ store, file.openStore faults = .ok store ∧
      store.db = ((storeInit faults).final file.disk).db := by
  unfold VaultFile.openStore
  split
  · next herror =>
    rw [h] at herror
    cases herror
  · exact ⟨_, rfl, rfl⟩

/-! ## The life of a vault -/

/-- The writes of the store, with what SQLite does during them: a transaction that does not commit
    leaves the store as it was. -/
inductive StoreOp
  | insertCapture (sql : SqlFaults) (record : NewRecord) (chunks : List NewChunk)
  | mergePendingCapture (sql : SqlFaults) (candidate : PendingContinuityCandidate)
      (incoming : NewRecord) (mergedText : Str)
  | markChunksFlushed (commits : Bool) (chunkIds : List Str) (nowMs : ℤ)
  | resetFlushState (commits : Bool)
  | deleteRecords (commits : Bool) (recordIds : List Str)

/-- The store that the operation leaves, whether it succeeds or not. -/
def StoreOp.exec (store : Store) : StoreOp → Store
  | .insertCapture sql record chunks => (store.insertCapture sql record chunks).2
  | .mergePendingCapture sql candidate incoming mergedText =>
      (store.mergePendingCapture sql candidate incoming mergedText).2
  | .markChunksFlushed commits chunkIds nowMs =>
      if commits then store.markChunksFlushed chunkIds nowMs else store
  | .resetFlushState commits => if commits then store.resetFlushState else store
  | .deleteRecords commits recordIds => if commits then (store.deleteRecords recordIds).2 else store

end Fndr
