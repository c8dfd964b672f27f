import Fndr.Store.Search
import Mathlib.Algebra.BigOperators.Ring.Finset

set_option autoImplicit false

/-! # Records, activity and changes

The read-only queries behind the tools that show a record or count activity. `record_evidence` is
the one query that reads stored text; the others read `memory_records` only. -/

namespace Fndr

open RustStd Rows

/-- One chunk's stored evidence, in capture order. -/
structure ChunkEvidence where
  chunkId : Str
  ord : ℤ
  text : Str
  deriving DecidableEq

/-- Everything SQLite retains behind one capture record. -/
structure RecordEvidence where
  recordId : Str
  sessionId : Str
  source : Str
  appName : Str
  bundleId : Option Str
  url : Option Str
  windowTitle : Str
  capturedAtMs : ℤ
  chunks : List ChunkEvidence
  deriving DecidableEq

/-- The widths of a bucket. -/
inductive TimelineGranularity
  | hour
  | day
  deriving DecidableEq

/-- The width in milliseconds. -/
def TimelineGranularity.widthMs : TimelineGranularity → ℤ
  | .hour => 60 * 60 * 1000
  | .day => 24 * 60 * 60 * 1000

/-- One app's activity inside one time bucket. -/
structure ActivityBucket where
  bucketStartMs : ℤ
  appName : Str
  recordCount : ℤ
  deriving DecidableEq

/-- The number of new records of one app. -/
structure AppChange where
  appName : Str
  recordCount : ℤ
  deriving DecidableEq

/-- What changed since an instant: totals and per-app counts. -/
structure ChangeSummary where
  recordCount : ℤ
  newestCapturedAtMs : Option ℤ
  apps : List AppChange
  deriving DecidableEq

/-! ## One record -/

/-- `SELECT id, ord, text FROM chunks WHERE record_id = ? ORDER BY ord`. -/
def Db.chunksOf (db : Db) (recordId : Str) : List Chunk :=
  (db.chunks.filter (fun c => c.recordId == recordId)).insertionSort (fun a b => a.ord ≤ b.ord)

/-- What evidence shows of a chunk. -/
def ChunkEvidence.ofChunk (c : Chunk) : ChunkEvidence := ⟨c.id, c.ord, c.text⟩

/-- What evidence shows of a record, with its chunks in their order. -/
def RecordEvidence.ofRecord (db : Db) (r : MemoryRecord) : RecordEvidence where
  recordId := r.id
  sessionId := r.sessionId
  source := r.source
  appName := r.appName
  bundleId := r.bundleId
  url := r.url
  windowTitle := r.windowTitle
  capturedAtMs := r.capturedAtMs
  chunks := (db.chunksOf r.id).map ChunkEvidence.ofChunk

/-- The evidence of a record that is there. -/
def Db.evidence (db : Db) (recordId : Str) : Option RecordEvidence :=
  (db.memoryRecords.find? (fun r => r.id == recordId)).map (RecordEvidence.ofRecord db)

/-- Read one record's retained metadata and its chunks' stored text. -/
def Store.recordEvidence (reads : ReadFaults) (reader : Reader) (store : Store) (recordId : Str) :
    Except StoreError (Option RecordEvidence) := do
  reads.check (.evidenceRecord reader)
  match store.db.evidence recordId with
  | none => return none
  | some evidence => do
      reads.check (.evidenceChunks reader)
      return some evidence

/-- A chunk of the store is found by its id in the evidence of its record. -/
theorem Store.evidence_of_chunk (store : Store) {c : Chunk} (hc : c ∈ store.db.chunks) :
    ∃ evidence, store.db.evidence c.recordId = some evidence ∧
      evidence.chunks.find? (fun chunk => chunk.chunkId == c.id) = some (.ofChunk c) := by
  obtain ⟨r, hr, hid⟩ := store.constraints.foreignKey c hc
  refine ⟨.ofRecord store.db r, ?_, ?_⟩
  · rw [Db.evidence, ← hid, find?_key_eq_some store.constraints.recordIds hr]
    rfl
  · have hrow : c ∈ store.db.chunksOf r.id :=
      (List.mem_insertionSort _).2 (List.mem_filter.2 ⟨hc, beq_iff_eq.2 hid.symm⟩)
    have hids : ((store.db.chunksOf r.id).map Chunk.id).Nodup := by
      have hperm := (List.perm_insertionSort (fun a b : Chunk => a.ord ≤ b.ord)
        (store.db.chunks.filter (fun c => c.recordId == r.id))).map Chunk.id
      exact hperm.nodup_iff.2 ((List.filter_sublist.map Chunk.id).nodup store.constraints.chunkIds)
    change ((store.db.chunksOf r.id).map ChunkEvidence.ofChunk).find? _ = _
    rw [List.find?_map]
    exact congrArg (Option.map ChunkEvidence.ofChunk) (find?_key_eq_some hids hrow)

/-- `ORDER BY captured_at_ms DESC, id DESC`. -/
def NewestRecordFirst (a b : MemoryRecord) : Prop :=
  b.capturedAtMs < a.capturedAtMs ∨ (b.capturedAtMs = a.capturedAtMs ∧ b.id ≤ a.id)

instance : DecidableRel NewestRecordFirst := fun _ _ => inferInstanceAs (Decidable (_ ∨ _))

/-- The id of the newest record. -/
def Db.latestRecordId (db : Db) : Option Str :=
  (db.memoryRecords.insertionSort NewestRecordFirst).head?.map MemoryRecord.id

/-- The id of the most recently captured record, if any. -/
def Store.latestRecordId (reads : ReadFaults) (store : Store) : Except StoreError (Option Str) := do
  reads.check .latestRecordId
  return store.db.latestRecordId

/-! ## Activity -/

/-- `((captured_at_ms + offset) / width) * width - offset`. A value outside the integer range is a
    float, which the row mapping refuses. -/
def bucketStart (width offset capturedAtMs : ℤ) : Option ℤ :=
  let start := ((capturedAtMs + offset).tdiv width) * width - offset
  let fits := fun n : ℤ => -2 ^ 63 ≤ n ∧ n < 2 ^ 63
  if fits (capturedAtMs + offset) ∧ fits start then some start else none

/-- `ORDER BY bucket_start, records DESC, app_name`. -/
def OldestBucketFirst (a b : ActivityBucket) : Prop :=
  a.bucketStartMs < b.bucketStartMs ∨ (a.bucketStartMs = b.bucketStartMs ∧
    (b.recordCount < a.recordCount ∨ (b.recordCount = a.recordCount ∧ a.appName ≤ b.appName)))

instance : DecidableRel OldestBucketFirst := fun _ _ => inferInstanceAs (Decidable (_ ∨ _))

/-- The records of a window, each with the start of its bucket. -/
def Db.bucketed (db : Db) (startMs endMs width offset : ℤ) :
    Option (List (ℤ × MemoryRecord)) :=
  (db.memoryRecords.filter (fun r =>
    decide (startMs ≤ r.capturedAtMs) && decide (r.capturedAtMs ≤ endMs))).mapM
      (fun r => (bucketStart width offset r.capturedAtMs).map (fun start => (start, r)))

/-- The rows of `activity_buckets`, when every bucket start is an integer. A start that leaves 64 bits
    is a `REAL`, which the code finds out on the rows within the limit only; here it is an error
    wherever it stands. -/
def Db.activity (db : Db) (startMs endMs : ℤ) (granularity : TimelineGranularity)
    (utcOffsetMinutes : ℤ) (limit : ℕ) : Option (List ActivityBucket) :=
  (db.bucketed startMs endMs granularity.widthMs (utcOffsetMinutes * 60 * 1000)).map (fun rows =>
    Rows.limit (asI64 limit) (((groupBy (fun row => (row.1, row.2.appName)) rows).map (fun group =>
      (⟨group.1.1, group.1.2, group.2.length⟩ : ActivityBucket))).insertionSort OldestBucketFirst))

/-- Per app and time bucket, how many records were captured in a window. -/
def Store.activityBuckets (reads : ReadFaults) (store : Store) (startMs endMs : ℤ)
    (granularity : TimelineGranularity) (utcOffsetMinutes : ℤ) (limit : ℕ) :
    Except StoreError (List ActivityBucket) := do
  reads.check .activityBuckets
  match store.db.activity startMs endMs granularity utcOffsetMinutes limit with
  | none =>
      .error (.sqlite ⟨"Invalid column type Real at index: 0, name: bucket_start".toList⟩)
  | some buckets => return buckets

/-! ## Changes -/

/-- One group of `changes_since`: the app, its records and the newest of their instants. -/
structure AppRecords where
  appName : Str
  records : ℤ
  newest : ℤ

/-- `ORDER BY records DESC, app_name`. -/
def BusiestFirst (a b : AppRecords) : Prop :=
  b.records < a.records ∨ (b.records = a.records ∧ a.appName ≤ b.appName)

instance : DecidableRel BusiestFirst := fun _ _ => inferInstanceAs (Decidable (_ ∨ _))

/-- The greatest of some instants, if there are any. -/
def newestOf : List ℤ → Option ℤ
  | [] => none
  | ms :: rest => some (rest.foldl max ms)

/-- The rows of `changes_since`. A group is never empty, so its `MAX` is never `NULL`. -/
def Db.changedApps (db : Db) (sinceMs : ℤ) : List AppRecords :=
  ((groupBy MemoryRecord.appName
    (db.memoryRecords.filter (fun r => decide (sinceMs ≤ r.capturedAtMs)))).map (fun group =>
      (⟨group.1, group.2.length,
        (newestOf (group.2.map MemoryRecord.capturedAtMs)).getD sinceMs⟩ : AppRecords))).insertionSort
    BusiestFirst

/-- The summary over all apps, and the first of these one by one. -/
def Db.changes (db : Db) (sinceMs : ℤ) (appLimit : ℕ) : ChangeSummary where
  recordCount := ((db.changedApps sinceMs).map AppRecords.records).sum
  newestCapturedAtMs := newestOf ((db.changedApps sinceMs).map AppRecords.newest)
  apps := ((db.changedApps sinceMs).take appLimit).map (fun row => ⟨row.appName, row.records⟩)

theorem newestOf_eq_max? (instants : List ℤ) : newestOf instants = instants.max? := by
  cases instants <;> rfl

/-- The captures at or after an instant. -/
def Db.capturedSince (db : Db) (sinceMs : ℤ) : List MemoryRecord :=
  db.memoryRecords.filter (fun r => decide (sinceMs ≤ r.capturedAtMs))

theorem Db.changes_recordCount (db : Db) (sinceMs : ℤ) (appLimit : ℕ) :
    (db.changes sinceMs appLimit).recordCount = (db.capturedSince sinceMs).length := by
  have hsorted : ((db.changedApps sinceMs).map AppRecords.records).sum = _ :=
    ((List.perm_insertionSort BusiestFirst _).map AppRecords.records).sum_eq
  rw [Db.changes, hsorted, List.map_map, ← sum_length_groupBy MemoryRecord.appName]
  rw [Nat.cast_list_sum, List.map_map]
  rfl

/-- The newest instant of an app is one of the records', and none of the app's is newer. -/
theorem newestOf_group {records : List MemoryRecord} {r : MemoryRecord} (hr : r ∈ records) :
    ∃ n, newestOf ((records.filter (fun r' => r'.appName = r.appName)).map
        MemoryRecord.capturedAtMs) = some n ∧
      n ∈ records.map MemoryRecord.capturedAtMs ∧ r.capturedAtMs ≤ n := by
  have hgroup : r ∈ records.filter (fun r' => r'.appName = r.appName) :=
    List.mem_filter.2 ⟨hr, decide_eq_true rfl⟩
  rw [newestOf_eq_max?]
  cases hmax : ((records.filter (fun r' => r'.appName = r.appName)).map
      MemoryRecord.capturedAtMs).max? with
  | none =>
      have hnone := List.map_eq_nil_iff.1 (List.max?_eq_none_iff.1 hmax)
      exact absurd hgroup (hnone ▸ List.not_mem_nil)
  | some n =>
      obtain ⟨hmem, hle⟩ := List.max?_eq_some_iff.1 hmax
      exact ⟨n, rfl, (List.filter_sublist.map _).subset hmem, hle _ (List.mem_map_of_mem hgroup)⟩

theorem Db.changes_newest (db : Db) (sinceMs : ℤ) (appLimit : ℕ) :
    (db.changes sinceMs appLimit).newestCapturedAtMs
      = ((db.capturedSince sinceMs).map MemoryRecord.capturedAtMs).max? := by
  -- a row of the summary is the group of one of the records, with its newest time
  have hrow : ∀ row, row ∈ db.changedApps sinceMs ↔ ∃ r ∈ db.capturedSince sinceMs, row =
      ⟨r.appName, ((db.capturedSince sinceMs).filter (fun r' => r'.appName = r.appName)).length,
        (newestOf (((db.capturedSince sinceMs).filter (fun r' => r'.appName = r.appName)).map
          MemoryRecord.capturedAtMs)).getD sinceMs⟩ := by
    intro row
    rw [Db.changedApps, List.mem_insertionSort, List.mem_map]
    constructor
    · rintro ⟨group, hgroup, rfl⟩
      obtain ⟨r, hr, rfl⟩ := mem_groupBy.1 hgroup
      exact ⟨r, hr, rfl⟩
    · rintro ⟨r, hr, rfl⟩
      exact ⟨_, mem_groupBy.2 ⟨r, hr, rfl⟩, rfl⟩
  rw [Db.changes, newestOf_eq_max?]
  cases hnewest : ((db.capturedSince sinceMs).map MemoryRecord.capturedAtMs).max? with
  | none =>
      have hnone := List.map_eq_nil_iff.1 (List.max?_eq_none_iff.1 hnewest)
      refine List.max?_eq_none_iff.2 (List.map_eq_nil_iff.2 (List.eq_nil_iff_forall_not_mem.2 ?_))
      intro row hmem
      obtain ⟨r, hr, -⟩ := (hrow row).1 hmem
      rw [hnone] at hr
      cases hr
  | some newest =>
      obtain ⟨hmem, hle⟩ := List.max?_eq_some_iff.1 hnewest
      refine List.max?_eq_some_iff.2 ⟨?_, fun n hn => ?_⟩
      · -- the group of the newest record has its time
        obtain ⟨r, hr, rfl⟩ := List.mem_map.1 hmem
        obtain ⟨n, hgroup, hn, hrn⟩ := newestOf_group hr
        refine List.mem_map.2 ⟨_, (hrow _).2 ⟨r, hr, rfl⟩, ?_⟩
        dsimp only
        rw [hgroup]
        exact le_antisymm (hle n hn) hrn
      · obtain ⟨row, hmem, rfl⟩ := List.mem_map.1 hn
        obtain ⟨r, hr, rfl⟩ := (hrow row).1 hmem
        obtain ⟨n, hgroup, hn, -⟩ := newestOf_group hr
        dsimp only
        rw [hgroup]
        exact hle n hn

/-- Summarize captures at or after an instant. -/
def Store.changesSince (reads : ReadFaults) (store : Store) (sinceMs : ℤ) (appLimit : ℕ) :
    Except StoreError ChangeSummary := do
  reads.check .changesSince
  return store.db.changes sinceMs appLimit

/-! ## When a query answers -/

theorem Store.recordEvidence_eq_some {reads : ReadFaults} {reader : Reader} {store : Store}
    {recordId : Str} {evidence : RecordEvidence} :
    store.recordEvidence reads reader recordId = .ok (some evidence) ↔
      reads (.evidenceRecord reader) = none ∧ store.db.evidence recordId = some evidence ∧
        reads (.evidenceChunks reader) = none := by
  refine Faults.check_bind_eq_ok.trans (and_congr_right' ?_)
  cases store.db.evidence recordId with
  | none => exact ⟨fun h => (nomatch h), fun h => (nomatch h.1)⟩
  | some found =>
      refine Faults.check_bind_pure.trans ⟨fun h => ⟨h.2.symm, h.1⟩, fun h => ⟨h.2, h.1.symm⟩⟩

theorem Store.recordEvidence_eq_none {reads : ReadFaults} {reader : Reader} {store : Store}
    {recordId : Str} : store.recordEvidence reads reader recordId = .ok none ↔
      reads (.evidenceRecord reader) = none ∧ store.db.evidence recordId = none := by
  refine Faults.check_bind_eq_ok.trans (and_congr_right' ?_)
  cases store.db.evidence recordId with
  | none => exact ⟨fun _ => rfl, fun _ => rfl⟩
  | some found =>
      refine ⟨fun h => ?_, fun h => (nomatch h)⟩
      exact nomatch (Faults.check_bind_pure.1 h).2

theorem Store.latestRecordId_eq_ok {reads : ReadFaults} {store : Store} {latest : Option Str} :
    store.latestRecordId reads = .ok latest ↔
      reads .latestRecordId = none ∧ latest = store.db.latestRecordId := Faults.check_bind_pure

theorem Store.activityBuckets_eq_ok {reads : ReadFaults} {store : Store} {startMs endMs : ℤ}
    {granularity : TimelineGranularity} {utcOffsetMinutes : ℤ} {limit : ℕ}
    {buckets : List ActivityBucket} :
    store.activityBuckets reads startMs endMs granularity utcOffsetMinutes limit = .ok buckets ↔
      reads .activityBuckets = none ∧
        store.db.activity startMs endMs granularity utcOffsetMinutes limit = some buckets := by
  refine Faults.check_bind_eq_ok.trans (and_congr_right' ?_)
  cases store.db.activity startMs endMs granularity utcOffsetMinutes limit with
  | none => exact ⟨fun h => (nomatch h), fun h => (nomatch h)⟩
  | some found => exact ⟨fun h => congrArg _ (Except.ok.inj h), fun h => congrArg _ (Option.some.inj h)⟩

theorem Store.changesSince_eq_ok {reads : ReadFaults} {store : Store} {sinceMs : ℤ} {appLimit : ℕ}
    {summary : ChangeSummary} : store.changesSince reads sinceMs appLimit = .ok summary ↔
      reads .changesSince = none ∧ summary = store.db.changes sinceMs appLimit :=
  Faults.check_bind_pure

end Fndr
