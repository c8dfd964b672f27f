import Fndr.Store.Store
import Mathlib.Algebra.Order.Ring.Rat

set_option autoImplicit false

/-! # Searching the chunks

`search_chunks` and `explain_chunk_search` read one index in two ways: the search joins the matching
entries to the chunks and their records, the explanation counts them. What FTS5 itself decides
(which texts an expression matches, the rank of a match, the marked snippet) is the class `Fts5`. In
a store the index holds one entry per chunk, so the join drops and repeats nothing
(`searchRows_length`) and the two agree (`hits_length`). -/

namespace Fndr

open RustStd Rows

/-- FTS5's tokenizer, ranking and snippets over an external-content index. -/
class Fts5 where
  isMatch : (expression text : Str) → Bool
  bm25 : (expression : Str) → (index : List FtsEntry) → FtsEntry → ℚ
  snippet : (expression text : Str) → Str

export Fts5 (isMatch bm25 snippet)

/-- A keyword-route hit from SQLite truth. -/
structure ChunkSearchHit where
  chunkId : Str
  recordId : Str
  source : Str
  capturedAtMs : ℤ
  snippet : Str
  deriving DecidableEq

/-- Why a keyword search returned what it did. -/
structure SearchExplanation where
  terms : List Str
  ftsExpression : Option Str
  totalMatches : ℤ
  storeLimitCap : ℤ
  deriving DecidableEq

/-- The hits that a search returns at most. -/
def SEARCH_LIMIT_CAP : ℕ := 50

/-! ## Who reads what -/

/-- What a read of a record's evidence is for. -/
inductive Reader
  | call
  | packItem (chunkId : Str)
  | snippet (chunkId : Str)
  | appName (recordId : Str)

/-- The queries of one call. -/
inductive Read
  | searchChunks
  | explainChunkSearch
  | evidenceRecord (reader : Reader)
  | evidenceChunks (reader : Reader)
  | activityBuckets
  | latestRecordId
  | changesSince
  | recentDecisions

/-- The reads that fail, and how. -/
abbrev ReadFaults := Faults Read

/-- No read fails. -/
def noReadFaults : ReadFaults := fun _ => none

/-! ## The expression -/

section Expression

variable [UnicodeTables]

/-- The words of the query, each reduced to the characters that a term may have. -/
def ftsTerms (query : Str) : List Str :=
  ((splitWhitespace query).map fun term =>
    term.filter (fun c => isAlphanumeric c || c == '_' || c == '-')).filter (· ≠ [])

/-- `format!("\"{term}\"")`. -/
def quoted (term : Str) : Str := "\"".toList ++ term ++ "\"".toList

/-- The conjunction of the query's quoted terms, when any is left. -/
def ftsQuery (query : Str) : Option Str :=
  if ftsTerms query = [] then none else some (join " AND ".toList ((ftsTerms query).map quoted))

end Expression

/-! ## The search and its explanation -/

section Search

variable [UnicodeTables] [Fts5]

/-- `chunks_fts MATCH expression`. -/
def Db.matching (db : Db) (expression : Str) : List FtsEntry :=
  db.chunksFts.filter (fun entry => isMatch expression entry.text)

/-- One row of the search: an index entry with the chunk of its rowid and that chunk's record. -/
abbrev SearchRow := FtsEntry × Chunk × MemoryRecord

/-- `chunks_fts JOIN chunks ON rowid JOIN memory_records WHERE .. MATCH`. -/
def Db.searchRows (db : Db) (expression : Str) : List SearchRow :=
  (db.matching expression).flatMap (fun entry =>
    (db.joined.filter (fun row => row.1.rowid == entry.rowid)).map (fun row => (entry, row)))

/-- `ORDER BY bm25(chunks_fts), r.captured_at_ms DESC, c.ord`. -/
def BestFirst (expression : Str) (index : List FtsEntry) (a b : SearchRow) : Prop :=
  bm25 expression index a.1 < bm25 expression index b.1 ∨
    (bm25 expression index a.1 = bm25 expression index b.1 ∧
      (b.2.2.capturedAtMs < a.2.2.capturedAtMs ∨
        (b.2.2.capturedAtMs = a.2.2.capturedAtMs ∧ a.2.1.ord ≤ b.2.1.ord)))

instance (expression : Str) (index : List FtsEntry) : DecidableRel (BestFirst expression index) :=
  fun _ _ => inferInstanceAs (Decidable (_ ∨ _))

/-- The text of a snippet comes from the content table. -/
def ChunkSearchHit.ofRow (expression : Str) (row : SearchRow) : ChunkSearchHit where
  chunkId := row.2.1.id
  recordId := row.2.1.recordId
  source := row.2.2.source
  capturedAtMs := row.2.2.capturedAtMs
  snippet := Fts5.snippet expression row.2.1.text

/-- The rows a query returns, best first. -/
def Db.hits (db : Db) (scan : ScanOrder SearchRow) (query : Str) (limit : ℕ) :
    List ChunkSearchHit :=
  match ftsQuery query with
  | none => []
  | some expression =>
      (orderLimit (BestFirst expression db.chunksFts) scan (asI64 (min limit SEARCH_LIMIT_CAP))
        (db.searchRows expression)).map (ChunkSearchHit.ofRow expression)

/-- Search durable capture chunks. A query without terms is not run. -/
def Store.searchChunks (reads : ReadFaults) (scan : ScanOrder SearchRow) (store : Store)
    (query : Str) (limit : ℕ) : Except StoreError (List ChunkSearchHit) :=
  match ftsQuery query with
  | none => .ok []
  | some _ => do
      reads.check .searchChunks
      return store.db.hits scan query limit

/-- `SELECT COUNT(*) FROM chunks_fts WHERE chunks_fts MATCH ..`. -/
def Db.totalMatches (db : Db) (query : Str) : ℕ :=
  match ftsQuery query with
  | none => 0
  | some expression => (db.matching expression).length

/-- Explain a keyword search without running it. -/
def Store.explainChunkSearch (reads : ReadFaults) (store : Store) (query : Str) :
    Except StoreError SearchExplanation := do
  if (ftsQuery query).isSome then reads.check .explainChunkSearch else .ok ()
  return {
    terms := ftsTerms query
    ftsExpression := ftsQuery query
    totalMatches := store.db.totalMatches query
    storeLimitCap := SEARCH_LIMIT_CAP }

/-! ## One row per match -/

omit [UnicodeTables] [Fts5] in
theorem Store.joined_rowids (store : Store) :
    (store.db.joined.map (fun row => row.1.rowid)).Nodup := by
  have hrowids : store.db.joined.map (fun row => row.1.rowid)
      = (store.db.joined.map Prod.fst).map Chunk.rowid := by
    rw [List.map_map]
    rfl
  rw [hrowids, store.joined_fst]
  exact store.constraints.rowids

omit [UnicodeTables] [Fts5] in
/-- An index entry joins to exactly one chunk and its record. -/
theorem Store.joined_of_entry (store : Store) {entry : FtsEntry} (h : entry ∈ store.db.chunksFts) :
    ∃ row ∈ store.db.joined, row.1.ftsEntry = entry ∧
      store.db.joined.filter (fun r => r.1.rowid == entry.rowid) = [row] := by
  obtain ⟨c, hc, rfl⟩ := List.mem_map.1 (store.ftsCurrent.subset h)
  obtain ⟨row, hrow, rfl⟩ := List.mem_map.1 (store.joined_fst ▸ hc)
  refine ⟨row, hrow, rfl, ?_⟩
  exact filter_key_eq_singleton store.joined_rowids hrow

omit [UnicodeTables] in
/-- The join neither drops a match nor repeats one. -/
theorem Store.searchRows_length (store : Store) (expression : Str) :
    (store.db.searchRows expression).length = (store.db.matching expression).length := by
  have hone : ∀ entry ∈ store.db.matching expression,
      ((store.db.joined.filter (fun row => row.1.rowid == entry.rowid)).map
        (fun row => (entry, row))).length = 1 := by
    intro entry hentry
    obtain ⟨row, -, -, hfilter⟩ := store.joined_of_entry (List.mem_filter.1 hentry).1
    rw [hfilter]
    rfl
  rw [Db.searchRows, List.length_flatMap, List.map_congr_left hone, List.map_const',
    List.sum_replicate_nat, Nat.mul_one]

omit [UnicodeTables] in
theorem Db.mem_searchRows {db : Db} {expression : Str} {row : SearchRow}
    (h : row ∈ db.searchRows expression) : row.1 ∈ db.matching expression ∧
      row.2 ∈ db.joined ∧ row.2.1.rowid = row.1.rowid := by
  obtain ⟨entry, hentry, hrow⟩ := List.mem_flatMap.1 h
  obtain ⟨pair, hpair, rfl⟩ := List.mem_map.1 hrow
  obtain ⟨hjoined, hrowid⟩ := List.mem_filter.1 hpair
  exact ⟨hentry, hjoined, beq_iff_eq.1 hrowid⟩

omit [UnicodeTables] [Fts5] in
theorem asI64_of_lt {n : ℕ} (h : n < 2 ^ 63) : asI64 n = n := by
  unfold asI64
  rw [Int.bmod_eq_of_le]
  · omega
  · omega

/-- A search returns as many hits as the limits leave of the matches. -/
theorem Store.hits_length (store : Store) (scan : ScanOrder SearchRow) (query : Str) (limit : ℕ) :
    (store.db.hits scan query limit).length
      = min (store.db.totalMatches query) (min limit SEARCH_LIMIT_CAP) := by
  unfold Db.hits Db.totalMatches
  cases ftsQuery query with
  | none => rfl
  | some expression =>
      dsimp only
      have hcap : min limit SEARCH_LIMIT_CAP < 2 ^ 63 :=
        Nat.lt_of_le_of_lt (Nat.min_le_right _ _) (by decide)
      rw [List.length_map, asI64_of_lt hcap, length_orderLimit, store.searchRows_length]
      exact Nat.min_comm _ _

/-- Every hit is a chunk of the store, under its record. -/
theorem Store.mem_hits (store : Store) {scan : ScanOrder SearchRow} {query : Str} {limit : ℕ}
    {hit : ChunkSearchHit} (h : hit ∈ store.db.hits scan query limit) :
    ∃ c ∈ store.db.chunks, ∃ r ∈ store.db.memoryRecords, r.id = c.recordId ∧
      hit.chunkId = c.id ∧ hit.recordId = r.id := by
  unfold Db.hits at h
  cases hquery : ftsQuery query with
  | none =>
      rw [hquery] at h
      cases h
  | some expression =>
      rw [hquery] at h
      obtain ⟨row, hrow, rfl⟩ := List.mem_map.1 h
      obtain ⟨-, hjoined, -⟩ := Db.mem_searchRows (mem_of_mem_orderLimit scan hrow)
      obtain ⟨hc, hr, hid⟩ := Db.mem_joined.1 hjoined
      exact ⟨row.2.1, hc, row.2.2, hr, hid, rfl, hid.symm⟩

omit [UnicodeTables] in
/-- A match joins to a chunk of its own, so no chunk is hit twice. -/
theorem Store.searchRows_chunkIds_nodup (store : Store) (expression : Str) :
    ((store.db.searchRows expression).map (fun row => row.2.1.id)).Nodup := by
  have hentries : (store.db.searchRows expression).map (fun row => row.1.rowid)
      = (store.db.matching expression).map FtsEntry.rowid := by
    have hone : ∀ entry ∈ store.db.matching expression,
        ((store.db.joined.filter (fun row => row.1.rowid == entry.rowid)).map
          (fun row => (entry, row))).map (fun row : SearchRow => row.1.rowid) = [entry.rowid] := by
      intro entry hentry
      obtain ⟨row, -, -, hfilter⟩ := store.joined_of_entry (List.mem_filter.1 hentry).1
      rw [hfilter]
      rfl
    rw [Db.searchRows, List.map_flatMap, List.flatMap_congr hone]
    exact List.flatMap_pure_eq_map FtsEntry.rowid _
  have hrowids : (store.db.chunksFts.map FtsEntry.rowid).Nodup := by
    have hindex := (store.ftsCurrent.map FtsEntry.rowid).nodup_iff.2
    rw [List.map_map] at hindex
    exact hindex store.constraints.rowids
  have hmatching : ((store.db.searchRows expression).map (fun row => row.1.rowid)).Nodup := by
    rw [hentries]
    exact (List.filter_sublist.map _).nodup hrowids
  -- rows of one chunk id have one chunk, and with it one index entry
  refine List.Nodup.map_on (fun a ha b hb hid => ?_) hmatching.of_map
  obtain ⟨-, hajoined, harow⟩ := Db.mem_searchRows ha
  obtain ⟨-, hbjoined, hbrow⟩ := Db.mem_searchRows hb
  have hchunk : a.2.1 = b.2.1 := eq_of_key_eq store.constraints.chunkIds
    (Db.mem_joined.1 hajoined).1 (Db.mem_joined.1 hbjoined).1 hid
  exact eq_of_key_eq hmatching ha hb (by rw [← harow, ← hbrow, hchunk])

theorem Store.hits_chunkIds_nodup (store : Store) (scan : ScanOrder SearchRow) (query : Str)
    (limit : ℕ) : ((store.db.hits scan query limit).map ChunkSearchHit.chunkId).Nodup := by
  unfold Db.hits
  cases ftsQuery query with
  | none => exact List.nodup_nil
  | some expression =>
      have hsubperm : (orderLimit (BestFirst expression store.db.chunksFts) scan
          (asI64 (min limit SEARCH_LIMIT_CAP)) (store.db.searchRows expression)).Subperm
            (store.db.searchRows expression) := orderLimit_subperm scan _ _
      obtain ⟨rows, hperm, hsub⟩ := hsubperm
      have hrows := (hsub.map _).nodup (store.searchRows_chunkIds_nodup expression)
      dsimp only
      rw [List.map_map]
      exact (hperm.map _).nodup_iff.1 hrows

/-! ## When a query answers -/

theorem Store.searchChunks_eq_ok {reads : ReadFaults} {scan : ScanOrder SearchRow} {store : Store}
    {query : Str} {limit : ℕ} {hits : List ChunkSearchHit} :
    store.searchChunks reads scan query limit = .ok hits ↔
      ((ftsQuery query).isSome → reads .searchChunks = none) ∧
        hits = store.db.hits scan query limit := by
  unfold Store.searchChunks
  cases hquery : ftsQuery query with
  | none =>
      have hnone : store.db.hits scan query limit = [] := by
        rw [Db.hits, hquery]
      rw [hnone]
      exact ⟨fun h => ⟨fun h => (nomatch h), (Except.ok.inj h).symm⟩, fun h => congrArg _ h.2.symm⟩
  | some expression =>
      refine Faults.check_bind_eq_ok.trans (and_congr ?_ ?_)
      · exact ⟨fun h _ => h, fun h => h rfl⟩
      · exact ⟨fun h => (Except.ok.inj h).symm, fun h => congrArg _ h.symm⟩

theorem Store.explainChunkSearch_eq_ok {reads : ReadFaults} {store : Store} {query : Str}
    {explanation : SearchExplanation} :
    store.explainChunkSearch reads query = .ok explanation ↔
      ((ftsQuery query).isSome → reads .explainChunkSearch = none) ∧
        explanation = ⟨ftsTerms query, ftsQuery query, store.db.totalMatches query,
          SEARCH_LIMIT_CAP⟩ := by
  unfold Store.explainChunkSearch
  cases hsome : (ftsQuery query).isSome with
  | false =>
      exact ⟨fun h => ⟨fun h => (nomatch h), (Except.ok.inj h).symm⟩, fun h => congrArg _ h.2.symm⟩
  | true =>
      refine Faults.check_bind_eq_ok.trans (and_congr ?_ ?_)
      · exact ⟨fun h _ => h, fun h => h rfl⟩
      · exact ⟨fun h => (Except.ok.inj h).symm, fun h => congrArg _ h.symm⟩

end Search

/-! ## FTS5 on short plain texts -/

/-- The terms of a conjunction of quoted terms. -/
def expressionTerms (expression : Str) : List Str :=
  (split (· == '"') expression).filter (fun piece => piece ≠ [] ∧ piece ≠ " AND ".toList)

/-- FTS5 on texts of a few lower-case words without stems, where a match is marked whole. -/
@[reducible] def wordFts : Fts5 where
  isMatch expression text :=
    (expressionTerms expression).all (fun term => (splitWhitespace text).contains term)
  bm25 _ _ _ := 0
  snippet expression text :=
    join " ".toList ((splitWhitespace text).map (fun word =>
      if (expressionTerms expression).contains word then "[".toList ++ word ++ "]".toList else word))

end Fndr
