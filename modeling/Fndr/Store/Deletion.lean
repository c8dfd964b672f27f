import Fndr.Store.LanceWriter

set_option autoImplicit false

/-! # Owner deletion

`delete_everywhere` resolves the scope to record ids, removes their derived rows and only then the
records. A deletion that returns leaves nothing of the resolved records anywhere and everything else
as it was (`deleteEverywhere_removed`); where it stops, the index has at most lost rows that a
rebuild restores. -/

namespace Fndr

open RustStd Rows

/-- What a deletion removed. -/
structure DeletionReport where
  records : ℕ
  indexedChunks : ℕ
  deriving DecidableEq

variable [UnicodeTables] [UrlCrate]

/-- Delete a fully resolved scope from both stores, the index first. -/
def deleteEverywhere (scope : DeleteScope) : Durable Vault StoreError DeletionReport := do
  let vault ← Durable.get
  let recordIds ← Durable.lift (vault.store.db.recordIdsForDelete scope)
  let indexedChunks ← deleteRecordRows recordIds
  -- a stop here leaves records without rows, which a rebuild restores
  let vault ← Durable.get
  Durable.commit (Vault.onStore (fun store => (store.deleteRecords recordIds).2))
  return ⟨(vault.store.deleteRecords recordIds).1, indexedChunks⟩

omit [UnicodeTables] [UrlCrate] in
/-- Deleting rows of the index touches the rows only, whether or not there is a table. -/
theorem deleteRecordRows_cases {ε : Type} (recordIds : List Str) (v : Vault) :
    ∃ count effects removed, (deleteRecordRows recordIds : Durable Vault ε ℕ) v
        = (.ok count, effects) ∧
      effects.getLastD v = removed ∧ (∀ t ∈ effects, t = removed) ∧ removed.store = v.store ∧
      removed.rows = deleteWhere (fun row => decide (row.recordId ∈ recordIds)) v.rows := by
  by_cases h : recordIds = [] ∨ v.lance.isNone
  · have hrows : v.rows = deleteWhere (fun row => decide (row.recordId ∈ recordIds)) v.rows := by
      rcases h with rfl | h
      · simp [deleteWhere]
      · rw [Vault.rows, Option.isNone_iff_eq_none.1 h]
        rfl
    refine ⟨0, [], v, ?_, rfl, by simp, rfl, hrows⟩
    rw [deleteRecordRows, Durable.get_bind_run, if_pos h]
    rfl
  · refine ⟨v.rows.countP (fun row => decide (row.recordId ∈ recordIds)),
      [v.deleteRows recordIds], v.deleteRows recordIds, ?_, rfl, by simp, rfl,
      v.rows_deleteRows recordIds⟩
    rw [deleteRecordRows, Durable.get_bind_run, if_neg h]
    rfl

/-- **Everything a deletion can do.** -/
theorem deleteEverywhere_cases (scope : DeleteScope) (v : Vault) :
    (∃ error, v.store.db.recordIdsForDelete scope = .error error ∧
      deleteEverywhere scope v = (.error error, [])) ∨
    ∃ recordIds report effects removed, v.store.db.recordIdsForDelete scope = .ok recordIds ∧
      (∀ t ∈ effects, t = removed) ∧ removed.store = v.store ∧
      removed.rows = deleteWhere (fun row => decide (row.recordId ∈ recordIds)) v.rows ∧
      deleteEverywhere scope v = (.ok report,
        effects ++ [removed.onStore (fun store => (store.deleteRecords recordIds).2)]) := by
  cases hids : v.store.db.recordIdsForDelete scope with
  | error error =>
      refine Or.inl ⟨error, rfl, ?_⟩
      rw [deleteEverywhere, Durable.get_bind_run, hids]
      rfl
  | ok recordIds =>
      obtain ⟨count, effects, removed, hrun, hlast, heffects, hstore, hrows⟩ :=
        deleteRecordRows_cases (ε := StoreError) recordIds v
      refine Or.inr ⟨recordIds, ⟨(removed.store.deleteRecords recordIds).1, count⟩, effects,
        removed, rfl, heffects, hstore, hrows, ?_⟩
      rw [deleteEverywhere, Durable.get_bind_run, hids, Durable.bind_run_ok (a := recordIds) rfl,
        Durable.final_lift, Durable.bind_run_ok (a := count) (by rw [hrun]), Durable.final, hrun,
        hlast]
      rfl

/-! ## A completed deletion -/

/-- Nothing of the records is left anywhere, and everything else is as it was. -/
structure Removed (recordIds : List Str) (before after : Vault) : Prop where
  noRecord : ∀ r ∈ after.store.db.memoryRecords, r.id ∉ recordIds
  noChunk : ∀ c ∈ after.store.db.chunks, c.recordId ∉ recordIds
  noIndexEntry : ∀ c ∈ before.store.db.chunks, c.recordId ∈ recordIds →
    ∀ e ∈ after.store.db.chunksFts, e.rowid ≠ c.rowid
  noRow : ∀ row ∈ after.rows, row.recordId ∉ recordIds
  otherRecords : after.store.db.memoryRecords
    = before.store.db.memoryRecords.filter (fun r => !decide (r.id ∈ recordIds))
  otherChunks : after.store.db.chunks
    = before.store.db.chunks.filter (fun c => !decide (c.recordId ∈ recordIds))
  otherIndexEntries : ∀ c ∈ before.store.db.chunks, c.recordId ∉ recordIds →
    after.store.db.chunksFts.filter (fun e => e.rowid == c.rowid)
      = before.store.db.chunksFts.filter (fun e => e.rowid == c.rowid)
  otherRows : after.rows = before.rows.filter (fun row => !decide (row.recordId ∈ recordIds))

omit [UnicodeTables] [UrlCrate] in
theorem removed_of_effects {recordIds : List Str} {v removed : Vault}
    (hstore : removed.store = v.store)
    (hrows : removed.rows = deleteWhere (fun row => decide (row.recordId ∈ recordIds)) v.rows) :
    Removed recordIds v (removed.onStore (fun store => (store.deleteRecords recordIds).2)) := by
  let after := removed.onStore (fun store => (store.deleteRecords recordIds).2)
  have hafter : after.store = (v.store.deleteRecords recordIds).2 := by
    rw [← hstore]
    rfl
  have hrecords : after.store.db.memoryRecords
      = deleteWhere (fun r => decide (r.id ∈ recordIds)) v.store.db.memoryRecords := by
    rw [hafter]
    exact v.store.deleteRecords_records recordIds
  have hchunks : after.store.db.chunks
      = deleteWhere (fun c => decide (c.recordId ∈ recordIds)) v.store.db.chunks := by
    rw [hafter]
    exact v.store.deleteRecords_chunks recordIds
  refine ⟨?_, ?_, ?_, ?_, hrecords, hchunks, ?_, hrows⟩
  · intro r hr
    rw [hrecords] at hr
    exact of_decide_eq_false (mem_deleteWhere.1 hr).2
  · intro c hc
    rw [hchunks] at hc
    exact of_decide_eq_false (mem_deleteWhere.1 hc).2
  · intro c hc hid e he hrowid
    -- the entry is that of a kept chunk, whose rowid is its own
    obtain ⟨d, hd, rfl⟩ := List.mem_map.1 (after.store.ftsCurrent.subset he)
    rw [hchunks] at hd
    obtain ⟨hd, hkept⟩ := mem_deleteWhere.1 hd
    cases eq_of_key_eq v.store.constraints.rowids hd hc hrowid
    exact of_decide_eq_false hkept hid
  · intro row hrow
    rw [show after.rows = removed.rows from rfl, hrows] at hrow
    exact of_decide_eq_false (mem_deleteWhere.1 hrow).2
  · intro c hc hid
    rw [show (removed.onStore _).store = after.store from rfl, hafter]
    refine v.store.deleteRecords_fts recordIds (fun d hd hdeleted => ?_)
    rw [beq_eq_false_iff_ne]
    intro hrowid
    cases eq_of_key_eq v.store.constraints.rowids hd hc hrowid
    exact hid hdeleted

/-- **A deletion that returns is complete and local.** -/
theorem deleteEverywhere_removed {scope : DeleteScope} {v : Vault} {report : DeletionReport}
    (hok : (deleteEverywhere scope v).1 = .ok report) :
    ∃ recordIds, v.store.db.recordIdsForDelete scope = .ok recordIds ∧
      Removed recordIds v ((deleteEverywhere scope).final v) := by
  rcases deleteEverywhere_cases scope v with
    ⟨error, -, hrun⟩ | ⟨recordIds, report', effects, removed, hids, -, hstore, hrows, hrun⟩
  · rw [hrun] at hok
    cases hok
  · refine ⟨recordIds, hids, ?_⟩
    rw [Durable.final, hrun, Durable.getLastD_append]
    exact removed_of_effects hstore hrows

/-- What stays of the records are those that the scope does not cover. -/
theorem deleteEverywhere_records {scope : DeleteScope} {v : Vault} {report : DeletionReport}
    (hok : (deleteEverywhere scope v).1 = .ok report) (r : MemoryRecord) :
    r ∈ ((deleteEverywhere scope).final v).store.db.memoryRecords ↔
      r ∈ v.store.db.memoryRecords ∧ ¬ scope.Covers r := by
  obtain ⟨recordIds, hids, hremoved⟩ := deleteEverywhere_removed hok
  rw [hremoved.otherRecords, List.mem_filter, Bool.not_eq_true', decide_eq_false_iff_not,
    Db.mem_recordIdsForDelete hids]
  refine and_congr_right (fun hr => not_congr ⟨?_, fun hcovers => ⟨r, hr, hcovers, rfl⟩⟩)
  rintro ⟨other, hother, hcovers, hid⟩
  rwa [eq_of_key_eq v.store.constraints.recordIds hother hr hid] at hcovers

/-! ## What a deletion keeps -/

/-- A property of truth and index that survives losing a record's rows and then the record. -/
structure DeletionKeeps (I : Store → List PendingChunk → Prop) : Prop where
  rows : ∀ store indexed (recordIds : List Str), I store indexed →
    I store (deleteWhere (fun p => decide (p.recordId ∈ recordIds)) indexed)
  records : ∀ store indexed (recordIds : List Str), I store indexed →
    (∀ p ∈ indexed, p.recordId ∉ recordIds) → I (store.deleteRecords recordIds).2 indexed

end Fndr
