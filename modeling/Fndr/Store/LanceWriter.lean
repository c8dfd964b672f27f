import Fndr.Store.Store

set_option autoImplicit false

/-! # The Lance writer

`lance_writer.rs` over a `Vault`: the SQLite store and the Lance table of the one embedding contract
(the table's name carries model and dimension, so another contract is another table). The two are
never updated together. Each operation is a `Durable` program whose effects are the commits of the
source, in its order; a failure of SQLite or Lance itself, like a crash, is a stop before the effect
that did not happen.

`flushOnce_cases` says everything a flush can do, in terms of the store and of what the table's rows
say about chunks (`Vault.indexed`, where a missing and an empty table read the same). -/

namespace Fndr

open RustStd Rows

/-- An `f32`, as its bits: the writer moves vectors and computes nothing on them. -/
abbrev F32 := UInt32

/-- The model of an embedding, its dimension, and the table its vectors go to. -/
structure EmbeddingSpec where
  modelId : Str
  dim : ℕ
  lanceTable : Str

/-- Why there are no vectors. -/
inductive EmbedError
  | unavailable (message : Str)
  | failed (message : Str)

/-- The document side of an embedder. -/
structure Embedder where
  spec : EmbeddingSpec
  embedDocuments : List Str → Except EmbedError (List (List F32))

/-- One row of the index: a chunk, the metadata of its record, and its vector. -/
structure LanceRow where
  id : Str
  recordId : Str
  ord : ℤ
  text : Str
  source : Str
  capturedAtMs : ℤ
  vector : List F32
  deriving DecidableEq

/-- A scalar or a full-text index on a column. -/
inductive LanceIndex
  | btree (column : Str)
  | fts (column : Str)
  deriving DecidableEq

/-- The indices of a table and its rows, in the order they were added. -/
structure LanceTable where
  indices : List LanceIndex
  rows : List LanceRow
  deriving DecidableEq

/-- SQLite truth and the derived table, if it exists. -/
structure Vault where
  store : Store
  lance : Option LanceTable

/-- A vault before the first capture. -/
def Vault.empty : Vault := ⟨Store.empty, none⟩

/-- The rows of the table; none when there is no table. -/
def Vault.rows (v : Vault) : List LanceRow := (v.lance.map LanceTable.rows).getD []

/-- Why a flush failed. -/
inductive FlushError
  | store (error : StoreError)
  | embed (error : EmbedError)
  | wrongDimension (chunkId : Str) (got expected : ℕ)

/-- Why a writer program stopped by itself. -/
inductive Halt
  | error (error : FlushError)
  | panic
  | outOfFuel

/-- A computation on the vault whose effects are durable one by one. -/
abbrev Writer := Durable Vault Halt

/-- The chunks that one flush takes at most. -/
def FLUSH_BATCH_SIZE : ℕ := 256

/-- How many chunks a flush wrote, and whether there may be more. -/
structure FlushReport where
  written : ℕ
  batchWasFull : Bool
  deriving DecidableEq

/-! ## Effects -/

/-- `create_empty_table`. -/
def Vault.createEmptyTable (v : Vault) : Vault := { v with lance := some ⟨[], []⟩ }

/-- `create_index`. -/
def Vault.createIndex (index : LanceIndex) (v : Vault) : Vault :=
  { v with lance := v.lance.map (fun t => { t with indices := t.indices ++ [index] }) }

/-- The one commit that appends a batch. -/
def Vault.addRows (batch : List LanceRow) (v : Vault) : Vault :=
  { v with lance := v.lance.map (fun t => { t with rows := t.rows ++ batch }) }

/-- `drop_table`. -/
def Vault.dropTable (v : Vault) : Vault := { v with lance := none }

/-- `DELETE` with the predicate `record_id IN (..)`. -/
def Vault.deleteRows (recordIds : List Str) (v : Vault) : Vault :=
  { v with lance := v.lance.map (fun t =>
      { t with rows := deleteWhere (fun row => decide (row.recordId ∈ recordIds)) t.rows }) }

/-- A committed SQLite transaction. -/
def Vault.onStore (f : Store → Store) (v : Vault) : Vault := { v with store := f v.store }

/-! ## Flush -/

/-- One row of the record batch. -/
def LanceRow.ofChunk (chunk : PendingChunk) (vector : List F32) : LanceRow where
  id := chunk.chunkId
  recordId := chunk.recordId
  ord := chunk.ord
  text := chunk.text
  source := chunk.source
  capturedAtMs := chunk.capturedAtMs
  vector := vector

/-- Refuse the first vector that does not have the dimension of the contract. -/
def checkDimensions (dim : ℕ) : List PendingChunk → List (List F32) → Except FlushError Unit
  | chunk :: chunks, vector :: vectors =>
      if vector.length ≠ dim then .error (.wrongDimension chunk.chunkId vector.length dim)
      else checkDimensions dim chunks vectors
  | _, _ => .ok ()

/-- A new table gets its two cheap indexes in commits of their own. -/
def openOrCreateTable : Writer Unit := do
  let vault ← Durable.get
  if vault.lance.isSome then
    return ()
  else
    Durable.commit Vault.createEmptyTable
    Durable.commit (Vault.createIndex (.btree "captured_at_ms".toList))
    Durable.commit (Vault.createIndex (.fts "text".toList))

/-- Embed a batch and check its dimensions. -/
def embedPending (embedder : Embedder) (pending : List PendingChunk) :
    Except Halt (List (List F32)) := do
  let vectors ← (embedder.embedDocuments (pending.map PendingChunk.text)).mapError
    (Halt.error ∘ .embed)
  (checkDimensions embedder.spec.dim pending vectors).mapError Halt.error
  return vectors

/-- Commit one Lance batch, then stamp SQLite. Building the record batch panics when its columns
    differ in length. -/
def commitBatch (pending : List PendingChunk) (vectors : List (List F32)) (nowMs : ℤ) :
    Writer FlushReport :=
  if vectors.length ≠ pending.length then
    Durable.throw .panic
  else do
    Durable.commit (Vault.addRows (List.zipWith LanceRow.ofChunk pending vectors))
    -- a stop here leaves the batch in the table and pending
    Durable.commit (Vault.onStore
      (Store.markChunksFlushed (pending.map PendingChunk.chunkId) nowMs))
    return ⟨pending.length, pending.length == FLUSH_BATCH_SIZE⟩

/-- Flush up to `FLUSH_BATCH_SIZE` pending chunks. An empty pending set returns without touching
    Lance at all. -/
def flushOnce (embedder : Embedder) (nowMs : ℤ) (scan : Scan) : Writer FlushReport := do
  let vault ← Durable.get
  let pending := vault.store.db.pendingChunks scan FLUSH_BATCH_SIZE
  if pending = [] then
    return ⟨0, false⟩
  else
    let vectors ← Durable.lift (embedPending embedder pending)
    openOrCreateTable
    commitBatch pending vectors nowMs

/-! ## Rebuild -/

/-- The chunks written by a rebuild, and in how many batches. -/
structure RebuildReport where
  chunks : ℕ
  batches : ℕ
  deriving DecidableEq

/-- The loop of `rebuild`, which stops on the first flush that wrote nothing. -/
def flushAll (embedder : Embedder) (nowMs : ℤ) (scan : Scan) :
    ℕ → RebuildReport → Writer RebuildReport
  | 0, _ => Durable.throw .outOfFuel
  | fuel + 1, report => do
      let flush ← flushOnce embedder nowMs scan
      if flush.written = 0 then
        return report
      else
        flushAll embedder nowMs scan fuel ⟨report.chunks + flush.written, report.batches + 1⟩

theorem flushAll_succ (embedder : Embedder) (nowMs : ℤ) (scan : Scan) (fuel : ℕ)
    (report : RebuildReport) :
    flushAll embedder nowMs scan (fuel + 1) report = (flushOnce embedder nowMs scan >>= fun flush =>
      if flush.written = 0 then pure report
      else flushAll embedder nowMs scan fuel
        ⟨report.chunks + flush.written, report.batches + 1⟩) := rfl

/-- Drop the table if there is one. -/
def dropTableIfPresent : Writer Unit := do
  let vault ← Durable.get
  if vault.lance.isSome then Durable.commit Vault.dropTable else return ()

/-- Drop the derived table and re-flush everything from SQLite truth. -/
def rebuild (embedder : Embedder) (nowMs : ℤ) (scan : Scan) (fuel : ℕ) : Writer RebuildReport := do
  dropTableIfPresent
  -- a stop here leaves stamps for rows that are gone
  Durable.commit (Vault.onStore Store.resetFlushState)
  flushAll embedder nowMs scan fuel ⟨0, 0⟩

/-! ## Deletion of derived rows -/

/-- Remove the derived rows of records an owner is deleting. -/
def deleteRecordRows {ε : Type} (recordIds : List Str) : Durable Vault ε ℕ := do
  let vault ← Durable.get
  if recordIds = [] ∨ vault.lance.isNone then
    return 0
  else
    Durable.commit (Vault.deleteRows recordIds)
    return vault.rows.countP (fun row => decide (row.recordId ∈ recordIds))

/-! ## What the index says -/

/-- The columns of a row that were copied from SQLite. -/
def LanceRow.chunk (row : LanceRow) : PendingChunk where
  chunkId := row.id
  recordId := row.recordId
  ord := row.ord
  text := row.text
  source := row.source
  capturedAtMs := row.capturedAtMs

/-- The rows of the table, vectors apart. -/
def Vault.indexed (v : Vault) : List PendingChunk := v.rows.map LanceRow.chunk

theorem map_chunk_batch (pending : List PendingChunk) (vectors : List (List F32))
    (h : vectors.length = pending.length) :
    (List.zipWith LanceRow.ofChunk pending vectors).map LanceRow.chunk = pending := by
  induction pending generalizing vectors with
  | nil => rfl
  | cons p pending ih =>
      cases vectors with
      | nil => simp at h
      | cons vector vectors =>
          rw [List.zipWith_cons_cons, List.map_cons, ih vectors (by simpa using h)]
          rfl

theorem Vault.rows_addRows {v : Vault} (h : v.lance.isSome) (batch : List LanceRow) :
    (v.addRows batch).rows = v.rows ++ batch := by
  obtain ⟨table, htable⟩ := Option.isSome_iff_exists.1 h
  simp [Vault.rows, Vault.addRows, htable]

theorem Vault.indexed_addRows {v : Vault} (h : v.lance.isSome) (batch : List LanceRow) :
    (v.addRows batch).indexed = v.indexed ++ batch.map LanceRow.chunk := by
  rw [Vault.indexed, Vault.rows_addRows h, List.map_append, Vault.indexed]

theorem Vault.rows_deleteRows (v : Vault) (recordIds : List Str) :
    (v.deleteRows recordIds).rows
      = deleteWhere (fun row => decide (row.recordId ∈ recordIds)) v.rows := by
  obtain ⟨store, lance⟩ := v
  cases lance <;> rfl

/-- Truth and derived rows are those of `v`. -/
structure Vault.SameData (v w : Vault) : Prop where
  store : w.store = v.store
  rows : w.rows = v.rows

theorem Vault.SameData.refl (v : Vault) : v.SameData v := ⟨rfl, rfl⟩

theorem Vault.SameData.indexed {v w : Vault} (h : v.SameData w) : w.indexed = v.indexed := by
  rw [Vault.indexed, h.rows, Vault.indexed]

/-- Opening the table changes no data. -/
theorem openOrCreateTable_sameData (v : Vault) :
    (openOrCreateTable v).1 = .ok () ∧ (∀ t ∈ (openOrCreateTable v).2, v.SameData t) ∧
      v.SameData (openOrCreateTable.final v) ∧ (openOrCreateTable.final v).lance.isSome := by
  obtain ⟨store, lance⟩ := v
  cases lance with
  | some table => exact ⟨rfl, fun _ ht => absurd ht List.not_mem_nil, ⟨rfl, rfl⟩, rfl⟩
  | none =>
      refine ⟨rfl, fun t ht => ?_, ⟨rfl, rfl⟩, rfl⟩
      rcases ht with _ | ⟨_, _ | ⟨_, _ | ⟨_, ht⟩⟩⟩
      · exact ⟨rfl, rfl⟩
      · exact ⟨rfl, rfl⟩
      · exact ⟨rfl, rfl⟩
      · cases ht

/-- Opening leaves a table and changes neither truth nor rows. -/
theorem openOrCreateTable_cases (v : Vault) :
    ∃ opened, openOrCreateTable v = (.ok (), opened) ∧
      (∀ t ∈ opened, t.store = v.store ∧ t.indexed = v.indexed) ∧
      (openOrCreateTable.final v).store = v.store ∧
      (openOrCreateTable.final v).indexed = v.indexed ∧
      (openOrCreateTable.final v).lance.isSome := by
  obtain ⟨hok, hsame, hopened, hsome⟩ := openOrCreateTable_sameData v
  exact ⟨_, Prod.ext hok rfl, fun t ht => ⟨(hsame t ht).store, (hsame t ht).indexed⟩,
    hopened.store, hopened.indexed, hsome⟩

/-- What one flush of `pending` leaves behind after opening the table: nothing more, or the rows
    added and then the stamps set. -/
structure FlushCommitted (pending : List PendingChunk) (nowMs : ℤ) (v added stamped : Vault) :
    Prop where
  addedStore : added.store = v.store
  addedIndexed : added.indexed = v.indexed ++ pending
  stampedStore : stamped.store
    = v.store.markChunksFlushed (pending.map PendingChunk.chunkId) nowMs
  stampedIndexed : stamped.indexed = v.indexed ++ pending

theorem FlushCommitted.of_same {pending : List PendingChunk} {nowMs : ℤ} {v w added stamped : Vault}
    (h : FlushCommitted pending nowMs w added stamped) (hstore : w.store = v.store)
    (hindexed : w.indexed = v.indexed) : FlushCommitted pending nowMs v added stamped :=
  ⟨h.addedStore.trans hstore, h.addedIndexed.trans (by rw [hindexed]),
    h.stampedStore.trans (by rw [hstore]), h.stampedIndexed.trans (by rw [hindexed])⟩

/-- Committing a batch to an open table either panics or adds the rows and then stamps. -/
theorem commitBatch_cases (pending : List PendingChunk) (vectors : List (List F32)) (nowMs : ℤ)
    {v : Vault} (hopen : v.lance.isSome) :
    (vectors.length ≠ pending.length ∧ commitBatch pending vectors nowMs v = (.error .panic, [])) ∨
    (vectors.length = pending.length ∧ ∃ added stamped, FlushCommitted pending nowMs v added stamped ∧
      commitBatch pending vectors nowMs v =
        (.ok ⟨pending.length, pending.length == FLUSH_BATCH_SIZE⟩, [added, stamped])) := by
  by_cases h : vectors.length = pending.length
  · right
    let added := v.addRows (List.zipWith LanceRow.ofChunk pending vectors)
    have hadded : added.indexed = v.indexed ++ pending := by
      rw [Vault.indexed_addRows hopen, map_chunk_batch pending vectors h]
    refine ⟨h, added, added.onStore (Store.markChunksFlushed (pending.map PendingChunk.chunkId) nowMs),
      ⟨rfl, hadded, rfl, hadded⟩, ?_⟩
    rw [commitBatch, if_neg (not_not.2 h)]
    rfl
  · left
    refine ⟨h, ?_⟩
    rw [commitBatch, if_pos h]
    rfl

theorem flushOnce_run (embedder : Embedder) (nowMs : ℤ) (scan : Scan) (v : Vault)
    {pending : List PendingChunk} (hp : v.store.db.pendingChunks scan FLUSH_BATCH_SIZE = pending) :
    flushOnce embedder nowMs scan v = (if pending = [] then return ⟨0, false⟩
      else do
        let vectors ← Durable.lift (embedPending embedder pending)
        openOrCreateTable
        commitBatch pending vectors nowMs : Writer FlushReport) v := by
  rw [flushOnce, Durable.get_bind_run, hp]

/-- A flush whose batch was embedded opens the table and commits. -/
theorem flushOnce_embedded (embedder : Embedder) (nowMs : ℤ) (scan : Scan) (v : Vault)
    {pending : List PendingChunk} {vectors : List (List F32)}
    (hp : v.store.db.pendingChunks scan FLUSH_BATCH_SIZE = pending) (hne : pending ≠ [])
    (hembed : embedPending embedder pending = .ok vectors) :
    ∃ opened : List Vault, (∀ t ∈ opened, t.store = v.store ∧ t.indexed = v.indexed) ∧
      ((vectors.length ≠ pending.length ∧
          flushOnce embedder nowMs scan v = (.error .panic, opened)) ∨
        ∃ added stamped, FlushCommitted pending nowMs v added stamped ∧
          flushOnce embedder nowMs scan v =
            (.ok ⟨pending.length, pending.length == FLUSH_BATCH_SIZE⟩,
              opened ++ [added, stamped])) := by
  obtain ⟨opened, hopen, hsame, hstore, hindexed, hsome⟩ := openOrCreateTable_cases v
  refine ⟨opened, hsame, ?_⟩
  rw [flushOnce_run embedder nowMs scan v hp, if_neg hne, hembed,
    Durable.bind_run_ok (a := vectors) rfl, Durable.final_lift,
    Durable.bind_run_ok (a := ()) (by rw [hopen]), hopen]
  rcases commitBatch_cases pending vectors nowMs hsome with
    ⟨hlen, hc⟩ | ⟨-, added, stamped, hcommitted, hc⟩
  · left
    rw [hc]
    exact ⟨hlen, by simp⟩
  · right
    rw [hc]
    exact ⟨added, stamped, hcommitted.of_same hstore hindexed, rfl⟩

/-- **Everything a flush can do.** -/
theorem flushOnce_cases (embedder : Embedder) (nowMs : ℤ) (scan : Scan) (v : Vault)
    {pending : List PendingChunk} (hp : v.store.db.pendingChunks scan FLUSH_BATCH_SIZE = pending) :
    (pending = [] ∧ flushOnce embedder nowMs scan v = (.ok ⟨0, false⟩, [])) ∨
    (pending ≠ [] ∧ ∃ opened : List Vault,
      (∀ t ∈ opened, t.store = v.store ∧ t.indexed = v.indexed) ∧
      ((∃ halt, flushOnce embedder nowMs scan v = (.error halt, opened)) ∨
        ∃ added stamped, FlushCommitted pending nowMs v added stamped ∧
          flushOnce embedder nowMs scan v =
            (.ok ⟨pending.length, pending.length == FLUSH_BATCH_SIZE⟩,
              opened ++ [added, stamped]))) := by
  by_cases hpending : pending = []
  · left
    rw [flushOnce_run embedder nowMs scan v hp, if_pos hpending]
    exact ⟨hpending, rfl⟩
  · right
    refine ⟨hpending, ?_⟩
    cases hembed : embedPending embedder pending with
    | error halt =>
        refine ⟨[], by simp, Or.inl ⟨halt, ?_⟩⟩
        rw [flushOnce_run embedder nowMs scan v hp, if_neg hpending, hembed]
        rfl
    | ok vectors =>
        obtain ⟨opened, hsame, h⟩ := flushOnce_embedded embedder nowMs scan v hp hpending hembed
        exact ⟨opened, hsame, h.imp (fun h => ⟨.panic, h.2⟩) id⟩

/-! ## The effects of a rebuild -/

/-- The state once the table is dropped and the stamps are reset. -/
def Vault.reset (v : Vault) : Vault := ⟨v.store.resetFlushState, none⟩

/-- The effects of a rebuild up to the reset of the stamps. -/
def Vault.resetEffects (v : Vault) : ℕ := if v.lance.isSome then 2 else 1

theorem rebuild_run (embedder : Embedder) (nowMs : ℤ) (scan : Scan) (fuel : ℕ) (v : Vault) :
    rebuild embedder nowMs scan fuel v =
      ((flushAll embedder nowMs scan fuel ⟨0, 0⟩ v.reset).1,
        (if v.lance.isSome then [v.dropTable] else []) ++
          v.reset :: (flushAll embedder nowMs scan fuel ⟨0, 0⟩ v.reset).2) := by
  obtain ⟨store, lance⟩ := v
  cases lance <;> rfl

/-- Past the reset, a stop leaves the reset state or one of the flush loop. -/
theorem rebuild_stopAfter_mem (embedder : Embedder) (nowMs : ℤ) (scan : Scan) (fuel : ℕ)
    (v : Vault) {k : ℕ} (hk : v.resetEffects ≤ k) :
    (rebuild embedder nowMs scan fuel).stopAfter v k
      ∈ v.reset :: (flushAll embedder nowMs scan fuel ⟨0, 0⟩ v.reset).2 := by
  refine Durable.stopAfter_mem_suffix (congrArg Prod.snd (rebuild_run ..)) ?_
  unfold Vault.resetEffects at hk
  split at hk
  · next hsome => rw [if_pos hsome]; exact hk
  · next hnone => rw [if_neg hnone]; exact hk

/-- **Where a rebuild can stop**: before anything, after the drop of an existing table, or past the
    reset. -/
theorem rebuild_cut_cases (embedder : Embedder) (nowMs : ℤ) (scan : Scan) (fuel : ℕ) (v : Vault)
    (stop : Option ℕ) :
    (rebuild embedder nowMs scan fuel).cut v stop = v ∨
    (stop = some 1 ∧ v.lance.isSome ∧
      (rebuild embedder nowMs scan fuel).cut v stop = v.dropTable) ∨
    (rebuild embedder nowMs scan fuel).cut v stop
      ∈ v.reset :: (flushAll embedder nowMs scan fuel ⟨0, 0⟩ v.reset).2 := by
  by_cases hk : v.resetEffects ≤ stop.getD (rebuild embedder nowMs scan fuel v).2.length
  · exact Or.inr (Or.inr (rebuild_stopAfter_mem embedder nowMs scan fuel v hk))
  · cases stop with
    | none =>
        -- a complete run has at least the effects up to the reset
        refine absurd ?_ hk
        rw [Option.getD_none, rebuild_run, Vault.resetEffects]
        split <;> simp
    | some k =>
        rw [Option.getD_some, Vault.resetEffects] at hk
        split at hk
        · next hsome =>
          obtain rfl | rfl : k = 0 ∨ k = 1 := by omega
          · exact Or.inl rfl
          · refine Or.inr (Or.inl ⟨rfl, hsome, ?_⟩)
            rw [Durable.cut, Option.getD_some, Durable.stopAfter, rebuild_run, if_pos hsome]
            rfl
        · obtain rfl : k = 0 := by omega
          exact Or.inl rfl

/-! ## What flushing keeps -/

section Keeps

open Durable

variable {I : Store → List PendingChunk → Prop} {embedder : Embedder} {nowMs : ℤ} {scan : Scan}

/-- A property of truth and index kept by adding a batch and by stamping it. -/
structure FlushKeeps (I : Store → List PendingChunk → Prop) (nowMs : ℤ) (scan : Scan) : Prop where
  added : ∀ store indexed, I store indexed →
    I store (indexed ++ store.db.pendingChunks scan FLUSH_BATCH_SIZE)
  stamped : ∀ store indexed, I store indexed →
    let pending := store.db.pendingChunks scan FLUSH_BATCH_SIZE
    I (store.markChunksFlushed (pending.map PendingChunk.chunkId) nowMs) (indexed ++ pending)

theorem FlushKeeps.flushOnce (h : FlushKeeps I nowMs scan) :
    Crash (fun v => I v.store v.indexed) (flushOnce embedder nowMs scan)
      (fun _ v => I v.store v.indexed) (fun v => I v.store v.indexed) := by
  intro v hv
  have hsame : ∀ opened : List Vault,
      (∀ t ∈ opened, t.store = v.store ∧ t.indexed = v.indexed) →
      ∀ t ∈ opened, I t.store t.indexed := by
    intro opened hsame t ht
    rw [(hsame t ht).1, (hsame t ht).2]
    exact hv
  rcases flushOnce_cases embedder nowMs scan v rfl with
    ⟨-, hrun⟩ | ⟨-, opened, hopened, ⟨halt, hrun⟩ | ⟨added, stamped, hc, hrun⟩⟩
  · rw [Durable.final, hrun]
    exact ⟨fun t ht => absurd ht List.not_mem_nil, fun _ _ => hv⟩
  · rw [Durable.final, hrun]
    exact ⟨hsame opened hopened, fun _ hok => by cases hok⟩
  · have hadded : I added.store added.indexed := by
      rw [hc.addedStore, hc.addedIndexed]
      exact h.added v.store v.indexed hv
    have hstamped : I stamped.store stamped.indexed := by
      rw [hc.stampedStore, hc.stampedIndexed]
      exact h.stamped v.store v.indexed hv
    rw [Durable.final, hrun, getLastD_append]
    refine ⟨fun t ht => ?_, fun _ _ => hstamped⟩
    rcases List.mem_append.1 ht with ht | ht
    · exact hsame opened hopened t ht
    · rcases List.mem_pair.1 ht with rfl | rfl
      · exact hadded
      · exact hstamped

theorem FlushKeeps.flushAll (h : FlushKeeps I nowMs scan) (fuel : ℕ) (report : RebuildReport) :
    Crash (fun v => I v.store v.indexed) (flushAll embedder nowMs scan fuel report)
      (fun _ v => I v.store v.indexed) (fun v => I v.store v.indexed) := by
  induction fuel generalizing report with
  | zero => exact Crash.throw
  | succ fuel ih =>
      rw [flushAll_succ]
      refine Crash.bind h.flushOnce (fun flush => ?_)
      split
      · exact Crash.pure (fun _ hv => hv)
      · exact ih _

end Keeps

/-! ## A working embedder -/

/-- The embedder returns one vector of the contract's dimension per text. -/
def Embedder.Complete (embedder : Embedder) : Prop :=
  ∀ texts, ∃ vectors, embedder.embedDocuments texts = .ok vectors ∧
    vectors.length = texts.length ∧ ∀ vector ∈ vectors, vector.length = embedder.spec.dim

/-- An embedder of dimension one. -/
def constantEmbedder : Embedder where
  spec := ⟨"constant".toList, 1, "chunks_constant1".toList⟩
  embedDocuments := fun texts => .ok (texts.map (fun _ => [0]))

theorem checkDimensions_ok {dim : ℕ} (pending : List PendingChunk) {vectors : List (List F32)}
    (h : ∀ vector ∈ vectors, vector.length = dim) : checkDimensions dim pending vectors = .ok () := by
  induction pending generalizing vectors with
  | nil => cases vectors <;> rfl
  | cons p pending ih =>
      cases vectors with
      | nil => rfl
      | cons vector vectors =>
          rw [checkDimensions, if_neg (not_not.2 (h vector List.mem_cons_self))]
          exact ih (fun w hw => h w (List.mem_cons_of_mem vector hw))

theorem Embedder.Complete.embedPending {embedder : Embedder} (h : embedder.Complete)
    (pending : List PendingChunk) :
    ∃ vectors, embedPending embedder pending = .ok vectors ∧
      vectors.length = pending.length := by
  obtain ⟨vectors, hembed, hlen, hdim⟩ := h (pending.map PendingChunk.text)
  refine ⟨vectors, ?_, by rw [hlen, List.length_map]⟩
  rw [Fndr.embedPending, hembed]
  simp only [Except.mapError, bind, Except.bind, checkDimensions_ok pending hdim]
  rfl

/-- A flush with a working embedder succeeds. -/
theorem Embedder.Complete.flushOnce {embedder : Embedder} (h : embedder.Complete) (nowMs : ℤ)
    (scan : Scan) (v : Vault) {pending : List PendingChunk}
    (hp : v.store.db.pendingChunks scan FLUSH_BATCH_SIZE = pending) (hne : pending ≠ []) :
    ∃ opened added stamped, FlushCommitted pending nowMs v added stamped ∧
      flushOnce embedder nowMs scan v =
        (.ok ⟨pending.length, pending.length == FLUSH_BATCH_SIZE⟩,
          opened ++ [added, stamped]) := by
  obtain ⟨vectors, hembed, hlen⟩ := h.embedPending pending
  obtain ⟨opened, -, hpanic | ⟨added, stamped, hcommitted, hrun⟩⟩ :=
    flushOnce_embedded embedder nowMs scan v hp hne hembed
  · exact absurd hlen hpanic.1
  · exact ⟨opened, added, stamped, hcommitted, hrun⟩

end Fndr
