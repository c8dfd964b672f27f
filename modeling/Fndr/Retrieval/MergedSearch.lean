import Fndr.Library.FirstByKey
import Fndr.Store.Evidence
import Fndr.Store.LanceWriter

set_option autoImplicit false

/-! # The two retrieval routes

`merged_search.rs` and `VectorRetriever::search`. The keyword route asks SQLite; the vector route
embeds the query and asks LanceDB, which is a parameter: whether the index directory is there, which
tables open, and what a nearest-neighbour query over an open table returns. Both surfaces call the
helpers below, one after the other, with the set of chunk ids seen so far between them. -/

namespace Fndr

open RustStd Rows

/-! ## The vector index -/

/-- What LanceDB reports. -/
structure LanceError where
  message : Str
  deriving DecidableEq

/-- One result of the vector route. -/
structure VectorHit where
  recordId : Str
  chunkId : Str
  source : Str
  capturedAtMs : ℤ
  distance : F32
  deriving DecidableEq

/-- A record batch: the columns it has with the type asked for, and its rows. -/
structure RecordBatch where
  columns : List Str
  rows : List VectorHit

/-- A nearest-neighbour query over an open table, by limit and vector. -/
abbrev LanceQuery := ℕ → List F32 → Except LanceError (List RecordBatch)

/-- An index directory as LanceDB finds it. In one that is not there no table opens. -/
structure IndexDir where
  isDir : Bool
  openTable : Str → Except LanceError LanceQuery
  missing : isDir = false → ∀ table, ∃ error, openTable table = .error error

/-- The query side of an embedder. -/
structure QueryEmbedder where
  spec : EmbeddingSpec
  embedQuery : Str → Except EmbedError (List F32)

/-- Why the vector route has no answer. -/
inductive VectorSearchError
  | embed (error : EmbedError)
  | wrongDimension (got expected : ℕ)
  | lance (error : LanceError)
  | invalidRow

/-- The text of the error. -/
def EmbedError.display : EmbedError → Str
  | .unavailable message => "embedding model unavailable: ".toList ++ message
  | .failed message => "embedding failed: ".toList ++ message

/-- The text of the error. -/
def VectorSearchError.display : VectorSearchError → Str
  | .embed error => "embedding: ".toList ++ error.display
  | .wrongDimension got expected =>
      "query vector has ".toList ++ (toString got).toList ++
        " dimensions; index contract requires ".toList ++ (toString expected).toList
  | .lance error => "vector index is unavailable: ".toList ++ error.message
  | .invalidRow => "vector index returned an invalid result row".toList

/-- The columns a result row is read from, in the order they are looked up. -/
def HIT_COLUMNS : List Str :=
  ["id".toList, "record_id".toList, "source".toList, "captured_at_ms".toList, "_distance".toList]

/-- The rows of the batches, when every batch has every column. -/
def readBatches : List RecordBatch → Except VectorSearchError (List VectorHit)
  | [] => .ok []
  | batch :: batches =>
      if HIT_COLUMNS.all batch.columns.contains then do
        let hits ← readBatches batches
        return batch.rows ++ hits
      else .error .invalidRow

/-- `VectorRetriever::search`. -/
def vectorSearch (index : IndexDir) (query : Str) (limit : ℕ) (embedder : QueryEmbedder) :
    Except VectorSearchError (List VectorHit) :=
  -- nothing is asked, so the model is not loaded
  if trim query = [] ∨ limit = 0 then .ok []
  else
    match embedder.embedQuery query with
    | .error error => .error (.embed error)
    | .ok vector =>
        if vector.length ≠ embedder.spec.dim then
          .error (.wrongDimension vector.length embedder.spec.dim)
        else
          match index.openTable embedder.spec.lanceTable with
          | .error error => .error (.lance error)
          | .ok table =>
              match table limit vector with
              | .error error => .error (.lance error)
              | .ok batches => readBatches batches

/-! ## The shared helpers -/

/-- One search result, tagged with the route that found it. -/
structure TaggedHit where
  recordId : Str
  chunkId : Str
  source : Str
  capturedAtMs : ℤ
  snippet : Str
  route : Str
  deriving DecidableEq

/-- A keyword hit with its route. -/
def TaggedHit.ofKeyword (hit : ChunkSearchHit) : TaggedHit :=
  ⟨hit.recordId, hit.chunkId, hit.source, hit.capturedAtMs, hit.snippet, "keyword".toList⟩

/-- Keyword-route hits, and the seen chunk ids with theirs among them. -/
def keywordHits [UnicodeTables] [Fts5] (reads : ReadFaults) (scan : ScanOrder SearchRow)
    (store : Store) (query : Str) (limit : ℕ) (seen : List Str) :
    Except StoreError (List TaggedHit × List Str) := do
  let hits ← store.searchChunks reads scan query limit
  return (hits.map TaggedHit.ofKeyword, hits.map ChunkSearchHit.chunkId ++ seen)

theorem keywordHits_ok [UnicodeTables] [Fts5] {reads : ReadFaults} {scan : ScanOrder SearchRow}
    {store : Store} {query : Str} {limit : ℕ} {seen after : List Str} {hits : List TaggedHit}
    (h : keywordHits reads scan store query limit seen = .ok (hits, after)) :
    hits = (store.db.hits scan query limit).map TaggedHit.ofKeyword ∧
      after = (store.db.hits scan query limit).map ChunkSearchHit.chunkId ++ seen := by
  obtain ⟨found, hfound, hdone⟩ := Except.bind_eq_ok.1 h
  cases hdone
  rw [(Store.searchChunks_eq_ok.1 hfound).2]
  exact ⟨rfl, rfl⟩

/-- The hits whose chunk id is seen for the first time. -/
def freshHits : List Str → List VectorHit → List VectorHit
  | _, [] => []
  | seen, hit :: hits =>
      if hit.chunkId ∈ seen then freshHits seen hits
      else hit :: freshHits (hit.chunkId :: seen) hits

/-- `fresh` are the rows of `found` whose chunk is not in `seen`, of each chunk the first row. -/
structure FirstRows (seen : List Str) (found fresh : List VectorHit) : Prop where
  inOrder : fresh.Sublist found
  nodup : (fresh.map VectorHit.chunkId).Nodup
  unseen : ∀ hit ∈ fresh, hit.chunkId ∉ seen
  covers : ∀ hit ∈ found, hit.chunkId ∈ seen ∨ hit.chunkId ∈ fresh.map VectorHit.chunkId
  first : ∀ hit ∈ fresh, found.find? (fun h => h.chunkId == hit.chunkId) = some hit

/-- Fresh hits are the first hits of their chunks. -/
theorem freshHits_eq (seen : List Str) (found : List VectorHit) :
    freshHits seen found = FirstByKey.firsts VectorHit.chunkId seen found := by
  induction found generalizing seen with
  | nil => rfl
  | cons hit hits ih =>
      rw [FirstByKey.firsts, ← ih, ← ih]
      show (if hit.chunkId ∈ seen then _ else _) = _
      split
      · rfl
      · rfl

theorem firstRows_freshHits (seen : List Str) (found : List VectorHit) :
    FirstRows seen found (freshHits seen found) := by
  rw [freshHits_eq]
  constructor
  · exact FirstByKey.firsts_sublist seen found
  · exact FirstByKey.nodup_map_firsts seen found
  · exact fun hit hhit => FirstByKey.key_notMem_of_mem_firsts hhit
  · intro hit hhit
    refine (FirstByKey.exists_mem_firsts seen hhit).imp_right (fun hkept => ?_)
    exact List.mem_map.2 hkept
  · intro hit hhit
    rw [← FirstByKey.find?_of_mem_firsts hhit]
    exact congrArg (List.find? · found) (funext fun other => beq_eq_decide _ _)

/-- Vector-route hits not already seen. -/
def vectorHits (embedder : QueryEmbedder) (index : IndexDir) (query : Str) (limit : ℕ)
    (seen : List Str) : Except VectorSearchError (List VectorHit) := do
  let hits ← vectorSearch index query limit embedder
  return freshHits seen hits

/-- The characters that the snippet of a vector hit has at most. -/
def SNIPPET_CHARS : ℕ := 200

/-- The stored text of a chunk, cut after its first 200 characters. -/
def excerpt (text : Str) : Str :=
  if text.length ≤ SNIPPET_CHARS then text else text.take SNIPPET_CHARS ++ "…".toList

/-- A plain excerpt of the durable text behind a vector hit, when it can be read. -/
def vectorHitSnippet (reads : ReadFaults) (store : Store) (hit : VectorHit) : Option Str :=
  match store.recordEvidence reads (.snippet hit.chunkId) hit.recordId with
  | .ok (some evidence) =>
      (evidence.chunks.find? (fun chunk => chunk.chunkId == hit.chunkId)).map
        (fun chunk => excerpt chunk.text)
  | _ => none

/-- A row of the index with its route, and with the start of its chunk if that can be read. -/
def TaggedHit.ofVector (reads : ReadFaults) (store : Store) (hit : VectorHit) : TaggedHit :=
  ⟨hit.recordId, hit.chunkId, hit.source, hit.capturedAtMs,
    (vectorHitSnippet reads store hit).getD [], "vector".toList⟩

/-- The rows of the index, each with its snippet. -/
def tagVectorHitsWithSnippets (reads : ReadFaults) (store : Store) (hits : List VectorHit) :
    List TaggedHit :=
  hits.map (TaggedHit.ofVector reads store)

/-! ## When the vector route answers -/

/-- The embedder and the index as the vector route meets them for a query: either there is nothing
    to ask, or the query embeds to a vector of the contract, the contract's table opens, and the
    query over it returns batches with every column. -/
def VectorRouteAnswers (embedder : QueryEmbedder) (index : IndexDir) (query : Str) (limit : ℕ) :
    Prop :=
  trim query = [] ∨ limit = 0 ∨
    ∃ vector table batches, embedder.embedQuery query = .ok vector ∧
      vector.length = embedder.spec.dim ∧ index.openTable embedder.spec.lanceTable = .ok table ∧
      table limit vector = .ok batches ∧
      ∀ batch ∈ batches, ∀ column ∈ HIT_COLUMNS, column ∈ batch.columns

theorem readBatches_ok_iff (batches : List RecordBatch) :
    (∃ hits, readBatches batches = .ok hits) ↔
      ∀ batch ∈ batches, ∀ column ∈ HIT_COLUMNS, column ∈ batch.columns := by
  induction batches with
  | nil => simp [readBatches]
  | cons batch batches ih =>
      rw [readBatches, List.forall_mem_cons, ← ih]
      by_cases hcolumns : HIT_COLUMNS.all batch.columns.contains = true
      · rw [if_pos hcolumns]
        have hall : ∀ column ∈ HIT_COLUMNS, column ∈ batch.columns := by
          simpa using hcolumns
        constructor
        · rintro ⟨hits, hread⟩
          obtain ⟨rest, hrest, -⟩ := Except.bind_eq_ok.1 hread
          exact ⟨hall, rest, hrest⟩
        · rintro ⟨-, rest, hrest⟩
          exact ⟨batch.rows ++ rest, Except.bind_eq_ok.2 ⟨rest, hrest, rfl⟩⟩
      · rw [if_neg hcolumns]
        constructor
        · rintro ⟨hits, hread⟩
          cases hread
        · rintro ⟨hall, -⟩
          exact absurd (by simpa using hall) hcolumns

theorem vectorSearch_ok_iff (embedder : QueryEmbedder) (index : IndexDir) (query : Str)
    (limit : ℕ) : (∃ hits, vectorSearch index query limit embedder = .ok hits) ↔
      VectorRouteAnswers embedder index query limit := by
  unfold vectorSearch VectorRouteAnswers
  by_cases hnothing : trim query = [] ∨ limit = 0
  · rw [if_pos hnothing]
    exact ⟨fun _ => or_assoc.1 (Or.inl hnothing), fun _ => ⟨[], rfl⟩⟩
  -- the embedder, the dimension, the table, the query and the batches, in this order
  rw [if_neg hnothing, ← or_assoc, or_iff_right hnothing]
  cases hembed : embedder.embedQuery query with
  | error error => exact ⟨fun ⟨_, h⟩ => (nomatch h), fun ⟨_, _, _, h, _⟩ => (nomatch h)⟩
  | ok vector =>
      dsimp only
      by_cases hdim : vector.length = embedder.spec.dim
      · rw [if_neg (not_not.2 hdim)]
        cases hopen : index.openTable embedder.spec.lanceTable with
        | error error => exact ⟨fun ⟨_, h⟩ => (nomatch h), fun ⟨_, _, _, _, _, h, _⟩ => (nomatch h)⟩
        | ok table =>
            dsimp only
            cases hquery : table limit vector with
            | error error =>
                constructor
                · rintro ⟨_, h⟩
                  cases h
                · rintro ⟨_, _, _, hvector, -, htable, hbatches, -⟩
                  cases hvector
                  cases htable
                  rw [hquery] at hbatches
                  cases hbatches
            | ok batches =>
                dsimp only
                rw [readBatches_ok_iff]
                constructor
                · exact fun h => ⟨vector, table, batches, rfl, hdim, rfl, hquery, h⟩
                · rintro ⟨_, _, _, hvector, -, htable, hbatches, h⟩
                  cases hvector
                  cases htable
                  rw [hquery] at hbatches
                  cases hbatches
                  exact h
      · rw [if_pos hdim]
        constructor
        · rintro ⟨_, h⟩
          cases h
        · rintro ⟨_, _, _, hvector, hlength, -⟩
          cases hvector
          exact absurd hlength hdim

/-! ## Vaults with one note and with two -/

/-- A store with one record and one chunk. -/
def noteStore (text : Str) : Store :=
  (Store.empty.insertCapture noFaults ⟨"r".toList, "s".toList, "screen".toList, "Notes".toList, none,
    none, "Draft".toList, 1000, 1000⟩ [⟨"c".toList, 0, text⟩]).2

/-- An index with one table, over which every query finds the note. -/
def noteIndex : IndexDir where
  isDir := true
  openTable table :=
    if table = "notes".toList then
      .ok (fun _ _ => .ok [⟨HIT_COLUMNS, [⟨"r".toList, "c".toList, "screen".toList, 1000, 0⟩]⟩])
    else .error ⟨"Table was not found".toList⟩
  missing h := nomatch h

/-- Vectors of one number, in one table. -/
def noteSpec : EmbeddingSpec := ⟨"notes".toList, 1, "notes".toList⟩

/-- Every query has the same vector. -/
def noteEmbedder : QueryEmbedder := ⟨noteSpec, fun _ => .ok [1]⟩

/-- The model file is gone. -/
def goneEmbedder : QueryEmbedder := ⟨noteSpec, fun _ => .error (.unavailable "no model".toList)⟩

/-- The note and a later one. -/
def twoNoteStore (first second : Str) : Store :=
  ((noteStore first).insertCapture noFaults ⟨"q".toList, "s".toList, "screen".toList, "Notes".toList,
    none, none, "Draft".toList, 2000, 2000⟩ [⟨"d".toList, 0, second⟩]).2

/-- An index that answers every query with the first of its rows. -/
def hitsIndex (rows : List VectorHit) : IndexDir where
  isDir := true
  openTable _ := .ok (fun limit _ => .ok [⟨HIT_COLUMNS, rows.take limit⟩])
  missing h := nomatch h

/-- The rows of an index over two notes that has the second one twice. -/
def twoNoteHits : List VectorHit :=
  [("r", "c", 1000), ("q", "d", 2000), ("q", "d", 2000)].map (fun (recordId, chunkId, ms) =>
    ⟨recordId.toList, chunkId.toList, "screen".toList, ms, 0⟩)

end Fndr
