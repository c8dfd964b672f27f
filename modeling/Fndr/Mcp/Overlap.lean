import Fndr.Vault.Shared

set_option autoImplicit false

/-! # Tool calls while the host writes

No transaction holds the statements of a tool call together. `record_evidence` reads a record and
then its chunks, a search reads its hits, asks the index with no lock held and then reads the texts
behind the vector hits, a context pack reads evidence once a hit; between any two of them the host
may commit. A `View` says what each statement of a call finds. The tools over a view are those of
the server whenever all statements find the same (`innerAt_const`).

Whatever a call finds, as long as each statement finds a state of some run, what it cites was there
in one of the states it saw (`cited_of_view`), what was deleted before it began is not cited
(`forgotten_of_view`), and what it cites is answered for until a deletion (`cited_followed`). -/

namespace Fndr

open RustStd Rows Runs References

/-- The vault each statement of a call finds, and the state of the index its vector query reads. -/
structure View where
  read : Read → SharedVault
  insert : LedgerWrite → SharedVault
  index : SharedVault

/-- All statements find the same. -/
def View.const (shared : SharedVault) : View := ⟨fun _ => shared, fun _ => shared, shared⟩

/-- The state is one that the call sees. -/
inductive View.Sees (view : View) : SharedVault → Prop
  | read (r : Read) : view.Sees (view.read r)
  | insert (w : LedgerWrite) : view.Sees (view.insert w)
  | index : view.Sees view.index

/-- The truth a statement reads. -/
def View.db (view : View) (r : Read) : Db := (view.read r).mcp.store.db

/-- The server with this state in front of it. -/
def FndrMcpServer.over (server : FndrMcpServer) (shared : SharedVault) : FndrMcpServer :=
  { server with vault := shared.mcp }

/-! ## The tools, statement by statement -/

/-- `record_evidence`. -/
def View.recordEvidence (reads : ReadFaults) (view : View) (reader : Reader) (recordId : Str) :
    Except StoreError (Option RecordEvidence) := do
  reads.check (.evidenceRecord reader)
  match (view.db (.evidenceRecord reader)).memoryRecords.find? (fun r => r.id == recordId) with
  | none => return none
  | some r => do
      reads.check (.evidenceChunks reader)
      return some (.ofRecord (view.db (.evidenceChunks reader)) r)

/-- `vector_hit_snippet`, by what its two reads find. -/
def View.vectorHitSnippet (reads : ReadFaults) (view : View) (hit : VectorHit) : Option Str :=
  match view.recordEvidence reads (.snippet hit.chunkId) hit.recordId with
  | .ok (some evidence) =>
      (evidence.chunks.find? (fun chunk => chunk.chunkId == hit.chunkId)).map
        (fun chunk => excerpt chunk.text)
  | _ => none

/-- A row of the index as a hit, with the snippet found for it. -/
def View.tagVectorHit (reads : ReadFaults) (view : View) (hit : VectorHit) : TaggedHit :=
  ⟨hit.recordId, hit.chunkId, hit.source, hit.capturedAtMs,
    (view.vectorHitSnippet reads hit).getD [], "vector".toList⟩

/-- The vector phase: the index is asked with no lock held, the snippets are read under one. -/
def FndrMcpServer.vectorPhaseAt (env : CallEnv) (server : FndrMcpServer) (view : View) (query : Str)
    (limit : ℕ) (seen : List Str) : Except ErrorData (List TaggedHit) :=
  match server.vectorRoute with
  | none => .ok []
  | some (embedder, index) => do
      let rawHits ← (vectorHits embedder index query limit seen).mapError
        (fun error => internalError error.display)
      env.lock .snippets
      return rawHits.map (view.tagVectorHit env.reads)

/-- The evidence of a record that the agent names, by what the two reads find. -/
def FndrMcpServer.namedEvidenceAt (env : CallEnv) (view : View) (recordId : Str) :
    Except ErrorData RecordEvidence := do
  env.lock .tool
  match ← storeAnswer (view.recordEvidence env.reads .call recordId) with
  | none => .error (invalidParams "unknown record_id".toList)
  | some evidence => return evidence

/-- The packing loop. -/
def View.packHits (env : CallEnv) (view : View) (budgetChars : ℕ) :
    List ChunkSearchHit → Pack → Except ErrorData Pack
  | [], pack => .ok pack
  | hit :: hits, pack => do
      match ← storeAnswer (view.recordEvidence env.reads (.packItem hit.chunkId) hit.recordId) with
      | none => view.packHits env budgetChars hits pack
      | some evidence =>
          match evidence.chunks.find? (fun chunk => chunk.chunkId == hit.chunkId) with
          | none => view.packHits env budgetChars hits pack
          | some chunk =>
              if pack.usedChars + byteLen chunk.text > budgetChars then
                view.packHits env budgetChars hits
                  { pack with droppedForBudget := pack.droppedForBudget + 1 }
              else
                view.packHits env budgetChars hits { pack with
                  items := pack.items ++ [.ofChunk evidence chunk]
                  usedChars := pack.usedChars + byteLen chunk.text }

/-- The evidence of the newest record, if its id was found. -/
def View.focusEvidence (env : CallEnv) (view : View) :
    Option Str → Except ErrorData (Option RecordEvidence)
  | some recordId => storeAnswer (view.recordEvidence env.reads .call recordId)
  | none => .ok none

/-- `active_focus_inner`: the newest id is read first, then its evidence. -/
def FndrMcpServer.activeFocusInnerAt (env : CallEnv) (view : View) (params : ActiveFocusParams) :
    Except ErrorData ActiveFocusOutput := do
  let staleAfterMs := params.staleAfterMs.getD DEFAULT_STALE_AFTER_MS
  if staleAfterMs < 0 then
    .error (invalidParams "stale_after_ms must not be negative".toList)
  env.lock .tool
  let latest ← storeAnswer ((view.read .latestRecordId).mcp.store.latestRecordId env.reads)
  match ← view.focusEvidence env latest with
  | none => return .none staleAfterMs
  | some evidence => return .ofEvidence (env.nowMs .tool) staleAfterMs evidence

section Tools

variable [UnicodeTables] [Fts5]

/-- `search_inner`: the keyword hits, then the vector phase. -/
def FndrMcpServer.searchInnerAt (env : CallEnv) (server : FndrMcpServer) (view : View)
    (params : SearchParams) : Except ErrorData SearchOutput := do
  let limit := min (params.limit.getD 10) 50
  env.lock .tool
  let (keyword, seen) ← storeAnswer
    (keywordHits env.reads env.scan (view.read .searchChunks).mcp.store params.query limit [])
  let vector ← server.vectorPhaseAt env view params.query limit seen
  return {
    hits := ((keyword ++ vector).map taggedHitToSearchHit).take limit
    vectorRouteAvailable := server.vectorRoute.isSome }

/-- `context_pack_inner`: the hits, then the evidence of one after the other. -/
def FndrMcpServer.contextPackInnerAt (env : CallEnv) (view : View) (params : ContextPackParams) :
    Except ErrorData ContextPackOutput := do
  if trim params.goal = [] then
    .error (invalidParams "goal must not be empty".toList)
  let tokenBudget := min (params.tokenBudget.getD 2000) 8000
  let maxRecords := min (params.maxRecords.getD 20) 100
  env.lock .tool
  let hits ← storeAnswer
    ((view.read .searchChunks).mcp.store.searchChunks env.reads env.scan params.goal maxRecords)
  let pack ← view.packHits env (tokenBudget * CHARS_PER_ESTIMATED_TOKEN) hits ⟨[], 0, 0⟩
  return {
    goal := params.goal
    retrievalRoute := "keyword".toList
    tokenBudget := tokenBudget
    estimatedTokensUsed := asU32 (estimatedTokens pack.usedChars)
    items := pack.items
    droppedForBudget := pack.droppedForBudget }

/-- The function behind a tool. A tool that runs one statement runs on what that statement finds. -/
def FndrMcpServer.innerAt (env : CallEnv) (server : FndrMcpServer) (view : View) :
    ToolCall → Except ErrorData Response
  | .search params => (server.searchInnerAt env view params).map .search
  | .privacyStatus => server.privacyStatusInner.map .privacyStatus
  -- a tool with one statement is the server's over what that statement finds
  | .timeline params =>
      ((server.over (view.read .activityBuckets)).timelineInner env params).map .timeline
  | .sourceEvidence params =>
      (FndrMcpServer.namedEvidenceAt env view params.recordId).map (fun evidence =>
        .sourceEvidence (.ofEvidence (params.includeRaw.getD false) evidence))
  | .explainRetrieval params =>
      ((server.over (view.read .explainChunkSearch)).explainRetrievalInner env params).map
        .explainRetrieval
  | .feedback params =>
      ((server.over (view.insert .recordFeedback)).feedbackInner env params).map
        (fun done => .feedback done.1)
  | .contextPack params => (FndrMcpServer.contextPackInnerAt env view params).map .contextPack
  | .activeFocus params => (FndrMcpServer.activeFocusInnerAt env view params).map .activeFocus
  | .delta params => ((server.over (view.read .changesSince)).deltaInner env params).map .delta
  | .openTarget params =>
      (FndrMcpServer.namedEvidenceAt env view params.recordId).map (fun evidence =>
        .openTarget (.ofEvidence evidence))
  | .recall params =>
      ((server.over (view.read .recentDecisions)).recallInner env params).map .recall
  | .rememberDecision params =>
      ((server.over (view.insert .rememberDecision)).rememberDecisionInner env params).map
        (fun done => .rememberDecision done.1)

end Tools

/-! ## The same vault throughout -/

theorem View.recordEvidence_const (reads : ReadFaults) (shared : SharedVault) (reader : Reader)
    (recordId : Str) : (View.const shared).recordEvidence reads reader recordId
      = shared.mcp.store.recordEvidence reads reader recordId := by
  unfold View.recordEvidence Store.recordEvidence Db.evidence
  cases hfind : shared.mcp.store.db.memoryRecords.find? (fun r => r.id == recordId) with
  | none => simp only [View.db, View.const, hfind, Option.map_none]
  | some r => simp only [View.db, View.const, hfind, Option.map_some]

theorem View.tagVectorHit_const (reads : ReadFaults) (shared : SharedVault) (hit : VectorHit) :
    (View.const shared).tagVectorHit reads hit = .ofVector reads shared.mcp.store hit := by
  rw [View.tagVectorHit, View.vectorHitSnippet, View.recordEvidence_const]
  rfl

theorem View.packHits_const (env : CallEnv) (shared : SharedVault) (budgetChars : ℕ)
    (hits : List ChunkSearchHit) (pack : Pack) :
    (View.const shared).packHits env budgetChars hits pack
      = Fndr.packHits env shared.mcp.store budgetChars hits pack := by
  induction hits generalizing pack with
  | nil => rfl
  | cons hit hits ih =>
      have hrest : (View.const shared).packHits env budgetChars hits
          = Fndr.packHits env shared.mcp.store budgetChars hits := funext ih
      rw [View.packHits, View.recordEvidence_const, hrest]
      rfl

theorem FndrMcpServer.namedEvidenceAt_const (env : CallEnv) (server : FndrMcpServer)
    (shared : SharedVault) (recordId : Str) :
    FndrMcpServer.namedEvidenceAt env (.const shared) recordId
      = (server.over shared).namedEvidence env recordId := by
  rw [FndrMcpServer.namedEvidenceAt, View.recordEvidence_const]
  rfl

theorem FndrMcpServer.activeFocusInnerAt_const (env : CallEnv) (server : FndrMcpServer)
    (shared : SharedVault) (params : ActiveFocusParams) :
    FndrMcpServer.activeFocusInnerAt env (.const shared) params
      = (server.over shared).activeFocusInner env params := by
  have hfocus : View.focusEvidence env (.const shared)
      = (server.over shared).focusEvidence env := by
    funext latest
    cases latest with
    | none => rfl
    | some recordId =>
        rw [View.focusEvidence, View.recordEvidence_const]
        rfl
  rw [FndrMcpServer.activeFocusInnerAt, hfocus]
  rfl

theorem FndrMcpServer.vectorPhaseAt_const (env : CallEnv) (server : FndrMcpServer)
    (shared : SharedVault) (query : Str) (limit : ℕ) (seen : List Str) :
    server.vectorPhaseAt env (.const shared) query limit seen
      = (server.over shared).vectorPhase env query limit seen := by
  have htag : View.tagVectorHit env.reads (.const shared)
      = TaggedHit.ofVector env.reads shared.mcp.store :=
    funext (View.tagVectorHit_const env.reads shared)
  unfold FndrMcpServer.vectorPhaseAt FndrMcpServer.vectorPhase
  rw [htag]
  rfl

section Tools

variable [UnicodeTables] [Fts5]

theorem FndrMcpServer.searchInnerAt_const (env : CallEnv) (server : FndrMcpServer)
    (shared : SharedVault) (params : SearchParams) :
    server.searchInnerAt env (.const shared) params
      = (server.over shared).searchInner env params := by
  have hvector : server.vectorPhaseAt env (.const shared)
      = (server.over shared).vectorPhase env := by
    funext query limit seen
    exact server.vectorPhaseAt_const env shared query limit seen
  rw [FndrMcpServer.searchInnerAt, hvector]
  rfl

theorem FndrMcpServer.contextPackInnerAt_const (env : CallEnv) (server : FndrMcpServer)
    (shared : SharedVault) (params : ContextPackParams) :
    FndrMcpServer.contextPackInnerAt env (.const shared) params
      = (server.over shared).contextPackInner env params := by
  have hpack : View.packHits env (.const shared) = Fndr.packHits env shared.mcp.store := by
    funext budgetChars hits pack
    exact View.packHits_const env shared budgetChars hits pack
  rw [FndrMcpServer.contextPackInnerAt, hpack]
  rfl

/-- **Over one vault the statements are the tools.** -/
theorem FndrMcpServer.innerAt_const (env : CallEnv) (server : FndrMcpServer) (shared : SharedVault)
    (call : ToolCall) : server.innerAt env (.const shared) call
      = ((server.over shared).inner env call).map Prod.fst := by
  have hmap : ∀ {α β : Type} (result : Except ErrorData α) (f : α → β × McpStore),
      (result.map f).map Prod.fst = result.map (fun a => (f a).1) := by
    intro α β result f
    cases result <;> rfl
  cases call with
  | search params => rw [innerAt, searchInnerAt_const, inner, hmap]
  | sourceEvidence params =>
      rw [innerAt, namedEvidenceAt_const env server, inner, hmap, sourceEvidenceInner]
      cases (server.over shared).namedEvidence env params.recordId <;> rfl
  | openTarget params =>
      rw [innerAt, namedEvidenceAt_const env server, inner, hmap, openTargetInner]
      cases (server.over shared).namedEvidence env params.recordId <;> rfl
  | contextPack params => rw [innerAt, contextPackInnerAt_const env server, inner, hmap]
  | activeFocus params => rw [innerAt, activeFocusInnerAt_const env server, inner, hmap]
  | _ =>
      rw [innerAt, inner, hmap]
      rfl

end Tools

/-! ## What an answer cites -/

/-- The records an answer names. -/
def Response.records : Response → List Str
  | .search out => out.hits.map SearchHitOut.recordId
  | .sourceEvidence out => [out.recordId]
  | .contextPack out => out.items.map PackedEvidence.recordId
  | .activeFocus out => out.recordId.toList
  | .openTarget out => [out.recordId]
  | .recall out => out.decisions.filterMap RecalledDecision.recordId
  | _ => []

/-- The chunks an answer names, each under its record. -/
def Response.chunks : Response → List (Str × Str)
  | .search out => out.hits.map (fun hit => (hit.recordId, hit.chunkId))
  | .sourceEvidence out => out.chunks.map (fun chunk => (out.recordId, chunk.chunkId))
  | .contextPack out => out.items.map (fun item => (item.recordId, item.chunkId))
  | _ => []

/-- What names a chunk names its record. -/
theorem Response.mem_records_of_chunk {response : Response} {chunk : Str × Str}
    (h : chunk ∈ response.chunks) : chunk.1 ∈ response.records := by
  cases response with
  | search out =>
      obtain ⟨hit, hhit, rfl⟩ := List.mem_map.1 h
      exact List.mem_map_of_mem hhit
  | sourceEvidence out =>
      obtain ⟨evidence, -, rfl⟩ := List.mem_map.1 h
      exact List.mem_singleton_self _
  | contextPack out =>
      obtain ⟨item, hitem, rfl⟩ := List.mem_map.1 h
      exact List.mem_map_of_mem hitem
  | _ => cases h

/-- The chunks whose text an answer carries, with that text. -/
def Response.texts : Response → List ((Str × Str) × Str)
  | .sourceEvidence out =>
      out.chunks.flatMap (fun chunk => chunk.text.toList.map (((out.recordId, chunk.chunkId), ·)))
  | .contextPack out => out.items.map (fun item => ((item.recordId, item.chunkId), item.text))
  | _ => []

/-- The chunks an answer shows a snippet of, with that snippet. -/
def Response.snippets : Response → List ((Str × Str) × Str)
  | .search out => out.hits.map (fun hit => ((hit.recordId, hit.chunkId), hit.snippet))
  | _ => []

/-- `chunks` has this row, stamps and numbers apart. -/
def Db.HasText (db : Db) (chunk : Str × Str) (text : Str) : Prop :=
  ∃ c ∈ db.chunks, c.id = chunk.2 ∧ c.recordId = chunk.1 ∧ c.text = text

theorem Db.HasText.hasChunk {db : Db} {chunk : Str × Str} {text : Str} (h : db.HasText chunk text) :
    db.HasChunk chunk.1 chunk.2 := by
  obtain ⟨c, hc, hid, hrecord, -⟩ := h
  exact ⟨c, hc, hid, hrecord⟩

/-- It was so in a state that the call saw. -/
def View.Saw (view : View) (P : Db → Prop) : Prop :=
  ∃ shared, view.Sees shared ∧ P shared.mcp.store.db

theorem View.Saw.mono {view : View} {P Q : Db → Prop}
    (hPQ : ∀ shared : SharedVault, P shared.mcp.store.db → Q shared.mcp.store.db)
    (h : view.Saw P) : view.Saw Q := by
  obtain ⟨shared, hsees, hP⟩ := h
  exact ⟨shared, hsees, hPQ shared hP⟩

theorem View.saw_read {view : View} {P : Db → Prop} (r : Read) (h : P (view.db r)) : view.Saw P :=
  ⟨view.read r, .read r, h⟩

/-- A snippet that FTS5 makes of a text, or the start of the text. -/
def SnippetOf [Fts5] (snippet text : Str) : Prop :=
  snippet = excerpt text ∨ ∃ expression, snippet = Fts5.snippet expression text

/-- Everything the answer cites was there when the call saw it, with the text it carries. -/
structure Response.Cited [Fts5] (view : View) (response : Response) : Prop where
  records : ∀ id ∈ response.records, view.Saw (Db.HasRecord · id)
  chunks : ∀ chunk ∈ response.chunks, view.Saw (Db.HasChunk · chunk.1 chunk.2)
  texts : ∀ cited ∈ response.texts, view.Saw (Db.HasText · cited.1 cited.2)
  snippets : ∀ cited ∈ response.snippets, cited.2 = [] ∨
    view.Saw (fun db => ∃ text, db.HasText cited.1 text ∧ SnippetOf cited.2 text)

/-- A query over an open table finds rows of the table. -/
def IndexDir.Over (index : IndexDir) (rows : List LanceRow) : Prop :=
  ∀ table query limit vector batches, index.openTable table = .ok query →
    query limit vector = .ok batches → ∀ batch ∈ batches, ∀ hit ∈ batch.rows,
      ∃ row ∈ rows, hit.chunkId = row.id ∧ hit.recordId = row.recordId ∧
        hit.source = row.source ∧ hit.capturedAtMs = row.capturedAtMs

/-! ## Statement by statement -/

theorem View.recordEvidence_eq_some {reads : ReadFaults} {view : View} {reader : Reader}
    {recordId : Str} {evidence : RecordEvidence}
    (h : view.recordEvidence reads reader recordId = .ok (some evidence)) :
    evidence.recordId = recordId ∧ (view.db (.evidenceRecord reader)).HasRecord recordId ∧
      ∀ chunk ∈ evidence.chunks,
        (view.db (.evidenceChunks reader)).HasText (recordId, chunk.chunkId) chunk.text := by
  obtain ⟨-, h⟩ := Faults.check_bind_eq_ok.1 h
  cases hfind : (view.db (.evidenceRecord reader)).memoryRecords.find?
      (fun r => r.id == recordId) with
  | none =>
      rw [hfind] at h
      cases h
  | some r =>
      rw [hfind] at h
      have hid : r.id = recordId := by simpa using List.find?_some hfind
      obtain ⟨-, hevidence⟩ := Faults.check_bind_pure.1 h
      cases hevidence
      refine ⟨hid, ⟨r, List.mem_of_find?_eq_some hfind, hid⟩, fun chunk hchunk => ?_⟩
      obtain ⟨c, hc, rfl⟩ := List.mem_map.1 hchunk
      obtain ⟨hc, howned⟩ := List.mem_filter.1 ((List.mem_insertionSort _).1 hc)
      exact ⟨c, hc, rfl, (beq_iff_eq.1 howned).trans hid, rfl⟩

/-- The snippet of a vector hit is the start of its chunk's text, if anything. -/
theorem View.vectorHitSnippet_eq_some {reads : ReadFaults} {view : View} {hit : VectorHit}
    {snippet : Str} (h : view.vectorHitSnippet reads hit = some snippet) :
    ∃ text, (view.db (.evidenceChunks (.snippet hit.chunkId))).HasText
      (hit.recordId, hit.chunkId) text ∧ snippet = excerpt text := by
  unfold View.vectorHitSnippet at h
  split at h
  · next evidence hevidence =>
      obtain ⟨chunk, hfind, rfl⟩ := Option.map_eq_some_iff.1 h
      have hid : chunk.chunkId = hit.chunkId := by simpa using List.find?_some hfind
      obtain ⟨-, -, hchunks⟩ := View.recordEvidence_eq_some hevidence
      exact ⟨chunk.text, hid ▸ hchunks chunk (List.mem_of_find?_eq_some hfind), rfl⟩
  · cases h

theorem readBatches_mem {batches : List RecordBatch} {hits : List VectorHit}
    (h : readBatches batches = .ok hits) {hit : VectorHit} (hhit : hit ∈ hits) :
    ∃ batch ∈ batches, hit ∈ batch.rows := by
  induction batches generalizing hits with
  | nil =>
      cases h
      cases hhit
  | cons batch batches ih =>
      rw [readBatches] at h
      split at h
      · obtain ⟨rest, hrest, hanswer⟩ := Except.bind_eq_ok.1 h
        cases hanswer
        rcases List.mem_append.1 hhit with hhit | hhit
        · exact ⟨batch, List.mem_cons_self, hhit⟩
        · obtain ⟨other, hother, hrow⟩ := ih hrest hhit
          exact ⟨other, List.mem_cons_of_mem batch hother, hrow⟩
      · cases h

theorem IndexDir.Over.vectorSearch {index : IndexDir} {rows : List LanceRow} (h : index.Over rows)
    {query : Str} {limit : ℕ} {embedder : QueryEmbedder} {found : List VectorHit}
    (hfound : Fndr.vectorSearch index query limit embedder = .ok found) {hit : VectorHit}
    (hhit : hit ∈ found) : ∃ row ∈ rows, hit.chunkId = row.id ∧ hit.recordId = row.recordId := by
  unfold Fndr.vectorSearch at hfound
  split at hfound
  · cases hfound
    cases hhit
  · split at hfound
    · cases hfound
    · next vector _ =>
        split at hfound
        · cases hfound
        · split at hfound
          · cases hfound
          · next table hopen =>
              split at hfound
              · cases hfound
              · next batches hquery =>
                  obtain ⟨batch, hbatch, hrow⟩ := readBatches_mem hfound hhit
                  obtain ⟨row, hmem, hid, hrecord, -⟩ :=
                    h _ table limit vector batches hopen hquery batch hbatch hit hrow
                  exact ⟨row, hmem, hid, hrecord⟩

/-- The items of a pack carry the text of their chunks. -/
theorem View.packHits_items {env : CallEnv} {view : View} {budgetChars : ℕ}
    {hits : List ChunkSearchHit} {pack pack' : Pack}
    (h : view.packHits env budgetChars hits pack = .ok pack') :
    ∀ item ∈ pack'.items, item ∈ pack.items ∨
      view.Saw (Db.HasText · (item.recordId, item.chunkId) item.text) := by
  induction hits generalizing pack with
  | nil =>
      cases h
      exact fun item hitem => Or.inl hitem
  | cons hit hits ih =>
      obtain ⟨found, hfound, hrest⟩ := storeAnswer_bind_eq_ok.1 h
      cases found with
      | none => exact ih hrest
      | some evidence =>
          obtain ⟨hid, -, hchunks⟩ := View.recordEvidence_eq_some hfound
          dsimp only at hrest
          split at hrest
          · exact ih hrest
          · next chunk hfind =>
              split at hrest
              · -- an item that does not fit is counted only
                have hkept := ih hrest
                exact hkept
              · intro item hitem
                rcases ih hrest item hitem with hitem | hsaw
                · rcases List.mem_append.1 hitem with hitem | hitem
                  · exact Or.inl hitem
                  · -- the new item is the chunk the evidence holds
                    rw [List.mem_singleton.1 hitem]
                    refine Or.inr (View.saw_read (.evidenceChunks (.packItem hit.chunkId)) ?_)
                    have htext := hchunks chunk (List.mem_of_find?_eq_some hfind)
                    rw [← hid] at htext
                    exact htext
                · exact Or.inr hsaw

theorem FndrMcpServer.namedEvidenceAt_eq_ok {env : CallEnv} {view : View} {recordId : Str}
    {evidence : RecordEvidence} (h : FndrMcpServer.namedEvidenceAt env view recordId = .ok evidence) :
    (view.db (.evidenceRecord .call)).HasRecord evidence.recordId ∧ ∀ chunk ∈ evidence.chunks,
      (view.db (.evidenceChunks .call)).HasText (evidence.recordId, chunk.chunkId) chunk.text := by
  obtain ⟨-, h⟩ := CallEnv.lock_bind_eq_ok.1 h
  obtain ⟨found, hfound, hanswer⟩ := storeAnswer_bind_eq_ok.1 h
  cases found with
  | none => cases hanswer
  | some evidence' =>
      cases hanswer
      obtain ⟨hid, hrecord, hchunks⟩ := View.recordEvidence_eq_some hfound
      rw [hid]
      exact ⟨hrecord, hchunks⟩

theorem FndrMcpServer.activeFocusInnerAt_recordId {env : CallEnv} {view : View}
    {params : ActiveFocusParams} {out : ActiveFocusOutput} {id : Str}
    (h : FndrMcpServer.activeFocusInnerAt env view params = .ok out) (hid : id ∈ out.recordId) :
    (view.db (.evidenceRecord .call)).HasRecord id := by
  unfold FndrMcpServer.activeFocusInnerAt at h
  dsimp only at h
  split at h
  · cases h
  · obtain ⟨-, h⟩ := CallEnv.lock_bind_eq_ok.1 h
    obtain ⟨latest, -, h⟩ := storeAnswer_bind_eq_ok.1 h
    obtain ⟨found, hfound, hanswer⟩ := Except.bind_eq_ok.1 h
    cases found with
    | none =>
        cases hanswer
        cases hid
    | some evidence =>
        cases hanswer
        cases Option.mem_some_iff.1 hid
        cases latest with
        | none => cases hfound
        | some recordId =>
            obtain ⟨hsame, hrecord, -⟩ := View.recordEvidence_eq_some (storeAnswer_eq_ok.1 hfound)
            rw [hsame]
            exact hrecord

theorem FndrMcpServer.recallInner_records {env : CallEnv} {server : FndrMcpServer}
    {params : RecallParams} {out : RecallOutput} (h : server.recallInner env params = .ok out)
    (hsound : server.vault.LedgersSound) :
    ∀ id ∈ out.decisions.filterMap RecalledDecision.recordId,
      server.vault.store.db.HasRecord id := by
  obtain ⟨-, -, -, rfl⟩ := FndrMcpServer.recallInner_eq_ok.1 h
  intro id hid
  simp only [List.mem_filterMap, List.mem_map] at hid
  obtain ⟨_, ⟨decision, hdecision, rfl⟩, hid⟩ := hid
  rw [McpStore.decisions] at hdecision
  have hmem := (limit_sublist _ _).subset hdecision
  rw [List.mem_insertionSort, List.mem_filter] at hmem
  exact hsound.decisionRecords decision hmem.1 id hid

section Search

variable [UnicodeTables] [Fts5]

/-- A keyword hit is a chunk, with the snippet FTS5 makes of its text. -/
theorem Db.mem_hits_text {db : Db} {scan : ScanOrder SearchRow} {query : Str} {limit : ℕ}
    {hit : ChunkSearchHit} (h : hit ∈ db.hits scan query limit) :
    ∃ text, db.HasText (hit.recordId, hit.chunkId) text ∧ SnippetOf hit.snippet text := by
  unfold Db.hits at h
  split at h
  · cases h
  · next expression _ =>
      obtain ⟨row, hrow, rfl⟩ := List.mem_map.1 h
      obtain ⟨-, hjoined, -⟩ := Db.mem_searchRows (mem_of_mem_orderLimit scan hrow)
      exact ⟨row.2.1.text, ⟨row.2.1, (Db.mem_joined.1 hjoined).1, rfl, rfl, rfl⟩,
        Or.inr ⟨expression, rfl⟩⟩

/-- A hit of the keyword route, or one of the vector route with its snippet. -/
theorem FndrMcpServer.searchInnerAt_hits {env : CallEnv} {server : FndrMcpServer} {view : View}
    {params : SearchParams} {out : SearchOutput}
    (h : server.searchInnerAt env view params = .ok out) : ∀ hit ∈ out.hits,
      (∃ found ∈ (view.db .searchChunks).hits env.scan params.query params.cap,
        hit = taggedHitToSearchHit (.ofKeyword found)) ∨
      ∃ route found, server.vectorRoute = some route ∧
        vectorSearch route.2 params.query params.cap route.1 = .ok found ∧
        ∃ row ∈ found, hit = taggedHitToSearchHit (view.tagVectorHit env.reads row) := by
  obtain ⟨-, h⟩ := CallEnv.lock_bind_eq_ok.1 h
  obtain ⟨⟨keyword, seen⟩, hkeyword, h⟩ := storeAnswer_bind_eq_ok.1 h
  obtain ⟨vector, hvector, hanswer⟩ := Except.bind_eq_ok.1 h
  obtain ⟨hfound, -⟩ := keywordHits_ok hkeyword
  cases hanswer
  intro hit hhit
  obtain ⟨tagged, htagged, rfl⟩ := List.mem_map.1 (List.mem_of_mem_take hhit)
  -- a hit of the keyword statement, or a row of the index
  rcases List.mem_append.1 htagged with htagged | htagged
  · rw [hfound] at htagged
    obtain ⟨found, hmem, rfl⟩ := List.mem_map.1 htagged
    exact Or.inl ⟨found, hmem, rfl⟩
  · unfold FndrMcpServer.vectorPhaseAt at hvector
    cases hroute : server.vectorRoute with
    | none =>
        rw [hroute] at hvector
        cases hvector
        cases htagged
    | some route =>
        rw [hroute] at hvector
        dsimp only at hvector
        obtain ⟨raw, hraw, hvector⟩ := Except.bind_eq_ok.1 hvector
        obtain ⟨-, hvector⟩ := CallEnv.lock_bind_eq_ok.1 hvector
        cases hvector
        obtain ⟨row, hrow, rfl⟩ := List.mem_map.1 htagged
        unfold vectorHits at hraw
        cases hsearch : vectorSearch route.2 params.query params.cap route.1 with
        | error error =>
            rw [show min (params.limit.getD 10) 50 = params.cap from rfl, hsearch] at hraw
            cases hraw
        | ok found =>
            rw [show min (params.limit.getD 10) 50 = params.cap from rfl, hsearch] at hraw
            cases hraw
            exact Or.inr ⟨route, found, rfl, hsearch, row,
              (firstRows_freshHits seen found).inOrder.subset hrow, rfl⟩

/-! ## Citations -/

/-- What the index says is there, and its route finds rows of it. -/
structure View.IndexSound (view : View) (server : FndrMcpServer) : Prop where
  rows : RowsHaveChunks view.index.vault.store view.index.vault.indexed
  route : ∀ route ∈ server.vectorRoute, route.2.Over view.index.vault.rows

omit [UnicodeTables] in
/-- What holds of an answer whose records are those of its chunks. -/
theorem Response.Cited.of_chunks {view : View} {response : Response}
    (hrecords : ∀ id ∈ response.records, ∃ chunk ∈ response.chunks, chunk.1 = id)
    (hchunks : ∀ chunk ∈ response.chunks, view.Saw (Db.HasChunk · chunk.1 chunk.2))
    (htexts : ∀ cited ∈ response.texts, view.Saw (Db.HasText · cited.1 cited.2))
    (hsnippets : ∀ cited ∈ response.snippets, cited.2 = [] ∨
      view.Saw (fun db => ∃ text, db.HasText cited.1 text ∧ SnippetOf cited.2 text)) :
    response.Cited view := by
  refine ⟨fun id hid => ?_, hchunks, htexts, hsnippets⟩
  obtain ⟨chunk, hchunk, rfl⟩ := hrecords id hid
  exact (hchunks chunk hchunk).mono (fun shared => Store.hasRecord_of_hasChunk)

theorem searchInnerAt_cited {env : CallEnv} {server : FndrMcpServer} {view : View}
    {params : SearchParams} {out : SearchOutput} (hindex : view.IndexSound server)
    (h : server.searchInnerAt env view params = .ok out) : (Response.search out).Cited view := by
  refine .of_chunks ?_ ?_ (fun _ hcited => nomatch hcited) ?_
  · intro id hid
    obtain ⟨hit, hhit, rfl⟩ := List.mem_map.1 hid
    exact ⟨_, List.mem_map.2 ⟨hit, hhit, rfl⟩, rfl⟩
  · intro chunk hchunk
    obtain ⟨hit, hhit, rfl⟩ := List.mem_map.1 hchunk
    rcases FndrMcpServer.searchInnerAt_hits h hit hhit with
      ⟨found, hfound, rfl⟩ | ⟨route, found, hroute, hsearch, row, hrow, rfl⟩
    · obtain ⟨text, htext, -⟩ := Db.mem_hits_text hfound
      exact View.saw_read .searchChunks htext.hasChunk
    · -- the row is one of the index, whose chunks are there
      obtain ⟨lance, hlance, hid, hrecord⟩ :=
        (hindex.route route hroute).vectorSearch hsearch hrow
      refine ⟨view.index, .index, ?_⟩
      have hchunk := hindex.rows lance.chunk (List.mem_map.2 ⟨lance, hlance, rfl⟩)
      show Db.HasChunk _ row.recordId row.chunkId
      rw [hrecord, hid]
      exact hchunk
  · intro cited hcited
    obtain ⟨hit, hhit, rfl⟩ := List.mem_map.1 hcited
    rcases FndrMcpServer.searchInnerAt_hits h hit hhit with
      ⟨found, hfound, rfl⟩ | ⟨route, found, hroute, hsearch, row, hrow, rfl⟩
    · obtain ⟨text, htext, hsnippet⟩ := Db.mem_hits_text hfound
      exact Or.inr (View.saw_read .searchChunks ⟨text, htext, hsnippet⟩)
    · show (view.vectorHitSnippet env.reads row).getD [] = [] ∨ _
      cases hsnippet : view.vectorHitSnippet env.reads row with
      | none => exact Or.inl rfl
      | some snippet =>
          obtain ⟨text, htext, hexcerpt⟩ := View.vectorHitSnippet_eq_some hsnippet
          refine Or.inr (View.saw_read (.evidenceChunks (.snippet row.chunkId)) ⟨text, htext, ?_⟩)
          refine Or.inl ?_
          show (view.vectorHitSnippet env.reads row).getD [] = _
          rw [hsnippet]
          exact hexcerpt

omit [UnicodeTables] in
theorem sourceEvidence_cited {env : CallEnv} {view : View} {recordId : Str}
    {evidence : RecordEvidence} {includeRaw : Bool}
    (h : FndrMcpServer.namedEvidenceAt env view recordId = .ok evidence) :
    (Response.sourceEvidence (.ofEvidence includeRaw evidence)).Cited view := by
  obtain ⟨hrecord, hchunks⟩ := FndrMcpServer.namedEvidenceAt_eq_ok h
  have hsaw : ∀ chunk ∈ evidence.chunks,
      view.Saw (Db.HasText · (evidence.recordId, chunk.chunkId) chunk.text) :=
    fun chunk hchunk => View.saw_read (.evidenceChunks .call) (hchunks chunk hchunk)
  refine ⟨fun id hid => ?_, fun cited hcited => ?_, fun cited hcited => ?_,
    fun _ hcited => nomatch hcited⟩
  · rw [List.mem_singleton.1 hid]
    exact View.saw_read (.evidenceRecord .call) hrecord
  · simp only [Response.chunks, SourceEvidenceOutput.ofEvidence, List.map_map, List.mem_map] at hcited
    obtain ⟨chunk, hchunk, rfl⟩ := hcited
    exact (hsaw chunk hchunk).mono (fun _ htext => htext.hasChunk)
  · simp only [Response.texts, SourceEvidenceOutput.ofEvidence, List.flatMap_map,
      List.mem_flatMap] at hcited
    obtain ⟨chunk, hchunk, hcited⟩ := hcited
    cases includeRaw with
    | false => cases hcited
    | true =>
        rw [List.mem_singleton.1 hcited]
        exact hsaw chunk hchunk

theorem contextPackInnerAt_cited {env : CallEnv} {view : View} {params : ContextPackParams}
    {out : ContextPackOutput} (h : FndrMcpServer.contextPackInnerAt env view params = .ok out) :
    (Response.contextPack out).Cited view := by
  unfold FndrMcpServer.contextPackInnerAt at h
  split at h
  · cases h
  · obtain ⟨-, h⟩ := CallEnv.lock_bind_eq_ok.1 h
    obtain ⟨hits, -, h⟩ := storeAnswer_bind_eq_ok.1 h
    obtain ⟨pack, hpack, hanswer⟩ := Except.bind_eq_ok.1 h
    cases hanswer
    have hsaw : ∀ item ∈ pack.items,
        view.Saw (Db.HasText · (item.recordId, item.chunkId) item.text) := by
      intro item hitem
      rcases View.packHits_items hpack item hitem with hnone | hsaw
      · cases hnone
      · exact hsaw
    refine .of_chunks ?_ ?_ ?_ (fun _ hcited => nomatch hcited)
    · intro id hid
      obtain ⟨item, hitem, rfl⟩ := List.mem_map.1 hid
      exact ⟨_, List.mem_map.2 ⟨item, hitem, rfl⟩, rfl⟩
    · intro chunk hchunk
      obtain ⟨item, hitem, rfl⟩ := List.mem_map.1 hchunk
      exact (hsaw item hitem).mono (fun _ htext => htext.hasChunk)
    · intro cited hcited
      obtain ⟨item, hitem, rfl⟩ := List.mem_map.1 hcited
      exact hsaw item hitem

omit [UnicodeTables] in
/-- An answer that names records only. -/
theorem Response.Cited.of_records {view : View} {response : Response}
    (hchunks : response.chunks = []) (htexts : response.texts = [])
    (hsnippets : response.snippets = [])
    (hrecords : ∀ id ∈ response.records, view.Saw (Db.HasRecord · id)) : response.Cited view := by
  refine ⟨hrecords, ?_, ?_, ?_⟩
  · rw [hchunks]
    exact fun _ hcited => nomatch hcited
  · rw [htexts]
    exact fun _ hcited => nomatch hcited
  · rw [hsnippets]
    exact fun _ hcited => nomatch hcited

/-- **What a call cites, it saw**, whatever its statements find. -/
theorem cited_of_innerAt {env : CallEnv} {server : FndrMcpServer} {view : View} {call : ToolCall}
    {response : Response} (hindex : view.IndexSound server)
    (hledger : (view.read .recentDecisions).mcp.LedgersSound)
    (h : server.innerAt env view call = .ok response) : response.Cited view := by
  cases call with
  | search params =>
      obtain ⟨out, hout, rfl⟩ := Except.map_eq_ok.1 h
      exact searchInnerAt_cited hindex hout
  | sourceEvidence params =>
      obtain ⟨evidence, hevidence, rfl⟩ := Except.map_eq_ok.1 h
      exact sourceEvidence_cited hevidence
  | contextPack params =>
      obtain ⟨out, hout, rfl⟩ := Except.map_eq_ok.1 h
      exact contextPackInnerAt_cited hout
  | activeFocus params =>
      obtain ⟨out, hout, rfl⟩ := Except.map_eq_ok.1 h
      refine .of_records rfl rfl rfl (fun id hid => View.saw_read (.evidenceRecord .call) ?_)
      exact FndrMcpServer.activeFocusInnerAt_recordId hout (Option.mem_toList.1 hid)
  | openTarget params =>
      obtain ⟨evidence, hevidence, rfl⟩ := Except.map_eq_ok.1 h
      refine .of_records rfl rfl rfl (fun id hid => View.saw_read (.evidenceRecord .call) ?_)
      obtain ⟨hrecord, -⟩ := FndrMcpServer.namedEvidenceAt_eq_ok hevidence
      rw [List.mem_singleton.1 hid]
      exact hrecord
  | «recall» params =>
      obtain ⟨out, hout, rfl⟩ := Except.map_eq_ok.1 h
      refine .of_records rfl rfl rfl (fun id hid => View.saw_read .recentDecisions ?_)
      exact FndrMcpServer.recallInner_records hout hledger id hid
  | privacyStatus =>
      cases h
      exact .of_records rfl rfl rfl (fun _ hid => nomatch hid)
  -- the other tools cite nothing
  | _ =>
      obtain ⟨out, -, rfl⟩ := Except.map_eq_ok.1 h
      exact .of_records rfl rfl rfl (fun _ hid => nomatch hid)

end Search

/-! ## Over runs -/

section Runs

variable [UnicodeTables] [UrlCrate] (F : Type) [ScoreArith F]

/-- A run leads from one state to the other. -/
def SharedVault.Reaches (shared after : SharedVault) : Prop :=
  ∃ steps, after = final (SharedVault.exec F) shared steps

variable {F}

theorem SharedVault.Reaches.invariant {I : SharedVault → Prop}
    (hstep : ∀ shared step, I shared → I (shared.exec F step)) {shared after : SharedVault}
    (hI : I shared) (h : shared.Reaches F after) : I after := by
  obtain ⟨steps, rfl⟩ := h
  exact (AllStates.of_step hstep hI).final

/-- What host operations keep of the captures, every step keeps. -/
theorem SharedVault.exec_keeps {I : Vault → Prop}
    (hcall : ∀ (v : Vault) (call : VaultCall), I v → I (call.exec F v))
    (shared : SharedVault) (step : SharedStep) (h : I shared.vault) : I (shared.exec F step).vault := by
  rw [SharedVault.exec_vault]
  cases step.hostCall with
  | none => exact h
  | some call => exact hcall shared.vault call h

theorem SharedVault.Reaches.rowsHaveChunks {shared : SharedVault}
    (h : SharedVault.empty.Reaches F shared) :
    RowsHaveChunks shared.vault.store shared.vault.indexed := by
  refine SharedVault.Reaches.invariant
    (I := fun shared => RowsHaveChunks shared.vault.store shared.vault.indexed) ?_ ?_ h
  · exact SharedVault.exec_keeps (I := fun v => RowsHaveChunks v.store v.indexed)
      rowsHaveChunks_exec
  · exact fun _ hp => nomatch hp

theorem SharedVault.Reaches.ledgersSound {shared : SharedVault}
    (h : SharedVault.empty.Reaches F shared) : shared.mcp.LedgersSound :=
  h.invariant ledgersSound_exec ledgersSound_empty

variable [Fts5]

/-- **What a call cites, it saw.** Let every statement of a call, and its query of the index, find
    some state the vault can be in. Every record and every chunk the answer names was there in a
    state that the call saw, under that record, and the text or snippet shown is that of the chunk in
    such a state. -/
theorem cited_of_view {env : CallEnv} {server : FndrMcpServer} {view : View} {call : ToolCall}
    {response : Response} (hview : ∀ shared, view.Sees shared → SharedVault.empty.Reaches F shared)
    (hroute : ∀ route ∈ server.vectorRoute, route.2.Over view.index.vault.rows)
    (h : server.innerAt env view call = .ok response) : response.Cited view :=
  cited_of_innerAt ⟨(hview _ .index).rowsHaveChunks, hroute⟩
    (hview _ (.read .recentDecisions)).ledgersSound h

/-! ## Forgetting -/

/-- No step captures under the id. -/
def QuietFor (id : Str) (steps : List SharedStep) : Prop :=
  ∀ step ∈ steps, ∀ call ∈ step.hostCall, ¬ call.Captures id

omit [Fts5] in
theorem noRecord_of_quiet {id : Str} {steps : List SharedStep} (hquiet : QuietFor id steps)
    {shared : SharedVault} (h : ¬ shared.mcp.store.db.HasRecord id) :
    ¬ (final (SharedVault.exec F) shared steps).mcp.store.db.HasRecord id := by
  induction steps generalizing shared with
  | nil => exact h
  | cons step steps ih =>
      have hstep : ¬ (shared.exec F step).vault.store.db.HasRecord id := by
        rw [SharedVault.exec_vault]
        cases hcall : step.hostCall with
        | none => exact h
        | some call => exact call.noRecord h (hquiet step List.mem_cons_self call hcall)
      exact ih (fun other hother => hquiet other (List.mem_cons_of_mem step hother)) hstep

/-- **What was deleted before a call began is not cited.** A deletion that returned has resolved to
    some ids; a call whose statements all find states from there on, in which nothing has been
    captured under one of these ids, names none of them and no chunk under them. -/
theorem forgotten_of_view {shared : SharedVault} (hreach : SharedVault.empty.Reaches F shared)
    {scope : DeleteScope} {report : DeletionReport} {recordIds : List Str}
    (hok : (deleteEverywhere scope shared.vault).1 = .ok report)
    (hids : shared.mcp.store.db.recordIdsForDelete scope = .ok recordIds)
    {env : CallEnv} {server : FndrMcpServer} {view : View} {call : ToolCall} {response : Response}
    (hview : ∀ after, view.Sees after → ∃ steps, (∀ id ∈ recordIds, QuietFor id steps) ∧
      after = final (SharedVault.exec F) shared (.host (.deleteEverywhere scope none) :: steps))
    (hroute : ∀ route ∈ server.vectorRoute, route.2.Over view.index.vault.rows)
    (h : server.innerAt env view call = .ok response) :
    ∀ id ∈ recordIds, id ∉ response.records ∧ ∀ chunk ∈ response.chunks, chunk.1 ≠ id := by
  have hreach' : ∀ after, view.Sees after → SharedVault.empty.Reaches F after := by
    intro after hafter
    obtain ⟨before, rfl⟩ := hreach
    obtain ⟨steps, -, rfl⟩ := hview after hafter
    exact ⟨before ++ .host (.deleteEverywhere scope none) :: steps, (final_append _ _ _).symm⟩
  have hcited : response.Cited view :=
    cited_of_innerAt ⟨(hreach' _ .index).rowsHaveChunks, hroute⟩
      (hreach' _ (.read .recentDecisions)).ledgersSound h
  intro id hid
  have hgone : ¬ view.Saw (Db.HasRecord · id) := by
    rintro ⟨after, hafter, hrecord⟩
    obtain ⟨steps, hquiet, rfl⟩ := hview after hafter
    refine noRecord_of_quiet (hquiet id hid) ?_ hrecord
    -- the deletion has removed the record
    obtain ⟨recordIds', hids', hremoved⟩ := deleteEverywhere_removed hok
    cases hids.symm.trans hids'
    rintro ⟨r, hr, rfl⟩
    refine hremoved.noRecord r ?_ hid
    rw [← Durable.cut_none]
    exact hr
  refine ⟨fun hmem => hgone (hcited.records id hmem), fun chunk hchunk hsame => hgone ?_⟩
  rw [← hsame]
  exact (hcited.chunks chunk hchunk).mono (fun _ => Store.hasRecord_of_hasChunk)

/-! ## Following a citation -/

/-- Nothing fails in the call. -/
structure CallEnv.Sound (env : CallEnv) : Prop where
  poisoned : ∀ site, env.poisoned site = false
  reads : ∀ r, env.reads r = none
  writes : ∀ w, env.writes w = none

/-- No step deletes. -/
def NoDeletion (steps : List SharedStep) : Prop :=
  ∀ step ∈ steps, ∀ call ∈ step.hostCall, ¬ call.Deletes

variable (F) in
/-- A run without a deletion leads from one state to the other. -/
def SharedVault.GrowsTo (shared now : SharedVault) : Prop :=
  ∃ later, NoDeletion later ∧ now = final (SharedVault.exec F) shared later

omit [Fts5] in
/-- What a host operation that deletes nothing keeps of the captures lasts. -/
theorem SharedVault.GrowsTo.keeps {I : Vault → Prop}
    (hcall : ∀ (v : Vault) (call : VaultCall), ¬ call.Deletes → I v → I (call.exec F v))
    {shared now : SharedVault} (hgrows : shared.GrowsTo F now) (h : I shared.vault) :
    I now.vault := by
  obtain ⟨later, hkept, rfl⟩ := hgrows
  induction later generalizing shared with
  | nil => exact h
  | cons step later ih =>
      have hstep : I (shared.exec F step).vault := by
        rw [SharedVault.exec_vault]
        cases hhost : step.hostCall with
        | none => exact h
        | some call => exact hcall shared.vault call (hkept step List.mem_cons_self call hhost) h
      exact ih hstep (fun other hother => hkept other (List.mem_cons_of_mem step hother))

omit [Fts5] in
theorem SharedVault.GrowsTo.hasRecord {shared now : SharedVault} (hgrows : shared.GrowsTo F now)
    {id : Str} (h : shared.mcp.store.db.HasRecord id) : now.mcp.store.db.HasRecord id :=
  hgrows.keeps (I := fun v => v.store.db.HasRecord id) (fun _ call hcall h => call.hasRecord h hcall) h

omit [Fts5] in
theorem SharedVault.GrowsTo.hasChunk {shared now : SharedVault} (hgrows : shared.GrowsTo F now)
    {recordId chunkId : Str} (h : shared.mcp.store.db.HasChunk recordId chunkId) :
    now.mcp.store.db.HasChunk recordId chunkId := by
  refine hgrows.keeps (I := fun v => v.store.db.HasChunk recordId chunkId) ?_ h
  intro v call hcall hchunk
  exact call.hasChunk hchunk (call.hasRecord (Store.hasRecord_of_hasChunk hchunk) hcall)

/-- The server answers a call that names the record: its evidence lists the chunks, its target
    opens, and feedback on it is accepted. -/
structure FndrMcpServer.Follows (env : CallEnv) (server : FndrMcpServer) (recordId : Str)
    (chunkIds : Set Str) : Prop where
  sourceEvidence : ∀ includeRaw, ∃ out,
    server.sourceEvidenceInner env ⟨recordId, includeRaw⟩ = .ok out ∧ out.recordId = recordId ∧
      ∀ chunkId ∈ chunkIds, chunkId ∈ out.chunks.map ChunkEvidenceOut.chunkId
  openTarget : ∃ out, server.openTargetInner env ⟨recordId⟩ = .ok out ∧ out.recordId = recordId
  feedback : ∀ rating query chunkId note, trim query ≠ [] →
    ∃ done, server.feedbackInner env ⟨rating, query, some recordId, chunkId, note⟩ = .ok done

omit [UnicodeTables] [Fts5] [UrlCrate] in
theorem FndrMcpServer.Follows.mono {env : CallEnv} {server : FndrMcpServer} {recordId : Str}
    {chunkIds fewer : Set Str} (h : server.Follows env recordId chunkIds) (hfewer : fewer ⊆ chunkIds) :
    server.Follows env recordId fewer := by
  refine { h with sourceEvidence := fun includeRaw => ?_ }
  obtain ⟨out, hout, hsame, hlists⟩ := h.sourceEvidence includeRaw
  exact ⟨out, hout, hsame, fun chunkId hchunk => hlists chunkId (hfewer hchunk)⟩

omit [UnicodeTables] [Fts5] [UrlCrate] in
/-- A record that is there is answered for, with all its chunks. -/
theorem FndrMcpServer.follows {env : CallEnv} (hsound : env.Sound) {server : FndrMcpServer}
    {recordId : Str} (h : server.vault.store.db.HasRecord recordId) :
    server.Follows env recordId {chunkId | server.vault.store.db.HasChunk recordId chunkId} := by
  obtain ⟨r, hr, rfl⟩ := h
  have hevidence : server.vault.store.db.evidence r.id
      = some (.ofRecord server.vault.store.db r) := by
    rw [Db.evidence, find?_key_eq_some server.vault.store.constraints.recordIds hr, Option.map_some]
  have hread : env.CanRead server.vault.store r.id (.ofRecord server.vault.store.db r) :=
    ⟨hsound.reads _, hevidence, hsound.reads _⟩
  refine ⟨fun includeRaw => ⟨_, FndrMcpServer.sourceEvidenceInner_eq_ok.2
    ⟨hsound.poisoned .tool, _, hread, rfl⟩, rfl, ?_⟩, ?_, ?_⟩
  · rintro chunkId ⟨c, hc, rfl, howned⟩
    have hrow : c ∈ server.vault.store.db.chunksOf r.id :=
      (List.mem_insertionSort _).2 (List.mem_filter.2 ⟨hc, beq_iff_eq.2 howned⟩)
    rw [SourceEvidenceOutput.ofEvidence, List.map_map]
    exact List.mem_map.2 ⟨.ofChunk c, List.mem_map_of_mem hrow, rfl⟩
  · exact ⟨_, FndrMcpServer.openTargetInner_eq_ok.2 ⟨hsound.poisoned .tool, _, hread, rfl⟩, rfl⟩
  · intro rating query chunkId note hquery
    have hcites : server.vault.Cites (some r.id) := by
      intro id hid
      cases Option.mem_some_iff.1 hid
      exact ⟨r, hr, rfl⟩
    exact ⟨(_, _), FndrMcpServer.feedbackInner_eq_ok.2 ⟨hquery, hsound.poisoned .tool, _,
      McpStore.recordFeedback_eq_ok.2 ⟨hsound.writes .recordFeedback, hcites, rfl⟩, rfl⟩⟩

/-- **A citation can be followed.** Let every statement of a call find some state that the vault can
    be in, from which a run without a deletion leads to the present one. Every record the answer
    names is answered for now, and its evidence lists every chunk the answer named under it. -/
theorem cited_followed {env : CallEnv} {server : FndrMcpServer} {view : View} {call : ToolCall}
    {response : Response} {now : SharedVault}
    (hview : ∀ shared, view.Sees shared → SharedVault.empty.Reaches F shared ∧ shared.GrowsTo F now)
    (hroute : ∀ route ∈ server.vectorRoute, route.2.Over view.index.vault.rows)
    (h : server.innerAt env view call = .ok response)
    {env' : CallEnv} (hsound : env'.Sound) {server' : FndrMcpServer} (hnow : server'.vault = now.mcp) :
    ∀ id ∈ response.records, server'.Follows env' id {chunkId | (id, chunkId) ∈ response.chunks} := by
  have hcited : response.Cited view :=
    cited_of_innerAt ⟨(hview _ .index).1.rowsHaveChunks, hroute⟩
      (hview _ (.read .recentDecisions)).1.ledgersSound h
  intro id hid
  have hrecord : server'.vault.store.db.HasRecord id := by
    obtain ⟨shared, hsees, hpresent⟩ := hcited.records id hid
    rw [hnow]
    exact (hview shared hsees).2.hasRecord hpresent
  have hchunks : ∀ chunkId, (id, chunkId) ∈ response.chunks →
      server'.vault.store.db.HasChunk id chunkId := by
    intro chunkId hchunk
    obtain ⟨shared, hsees, hpresent⟩ := hcited.chunks (id, chunkId) hchunk
    rw [hnow]
    exact (hview shared hsees).2.hasChunk hpresent
  exact (FndrMcpServer.follows hsound hrecord).mono hchunks

end Runs

/-! ## Two notes -/

section Example

attribute [local instance] asciiTables noUrls wordFts

/-- An index that answers with the first rows of its table. -/
def rowsIndex (rows : List LanceRow) : IndexDir :=
  hitsIndex (rows.map (fun row => ⟨row.recordId, row.id, row.source, row.capturedAtMs, 0⟩))

theorem rowsIndex_over (rows : List LanceRow) : (rowsIndex rows).Over rows := by
  rintro table query limit vector batches hopen hquery batch hbatch hit hhit
  cases hopen
  cases hquery
  rw [List.mem_singleton.1 hbatch] at hhit
  obtain ⟨row, hrow, rfl⟩ := List.mem_map.1 (List.mem_of_mem_take hhit)
  exact ⟨row, hrow, rfl, rfl, rfl, rfl⟩

/-- A note, and its flush. -/
def noteAndFlush (name : Str) (capturedAtMs : ℤ) : List SharedStep :=
  [.host (.persistCapture (noteCall name capturedAtMs)),
    .host (.flushOnce constantEmbedder (capturedAtMs + 1) (tableOrder _) none)]

/-- The note of one second after the epoch. -/
def firstNote : List SharedStep := noteAndFlush "1".toList 1000

/-- A note of eleven days later. -/
def secondNote : List SharedStep := noteAndFlush "2".toList 1000000000

/-- The first note is stored and indexed. -/
def afterFirstNote : SharedVault := final (SharedVault.exec ℚ) SharedVault.empty firstNote

/-- So is the second. -/
def afterTwoNotes : SharedVault := final (SharedVault.exec ℚ) afterFirstNote secondNote

/-- The keyword search and the record of a named evidence find the first state, all else finds the
    second. -/
def View.twoStates (first second : SharedVault) : View where
  read
    | .searchChunks => first
    | .evidenceRecord .call => first
    | _ => second
  insert _ := second
  index := second

theorem View.sees_twoStates {first second shared : SharedVault}
    (h : (View.twoStates first second).Sees shared) : shared = first ∨ shared = second := by
  cases h with
  | read r =>
      cases r with
      | searchChunks => exact Or.inl rfl
      | evidenceRecord reader =>
          cases reader with
          | call => exact Or.inl rfl
          | _ => exact Or.inr rfl
      | _ => exact Or.inr rfl
  | insert w => exact Or.inr rfl
  | index => exact Or.inr rfl

/-- The server over a state, with the vector route. -/
def routedServer (shared : SharedVault) : FndrMcpServer :=
  ⟨shared.mcp, ⟨[], []⟩, some (noteEmbedder, rowsIndex shared.vault.rows)⟩

theorem routedServer_over (first second : SharedVault) :
    ∀ route ∈ (routedServer second).vectorRoute,
      route.2.Over (View.twoStates first second).index.vault.rows := by
  intro route hroute
  cases Option.mem_some_iff.1 hroute
  exact rowsIndex_over _

theorem afterFirstNote_reached : SharedVault.empty.Reaches ℚ afterFirstNote := ⟨firstNote, rfl⟩

theorem afterTwoNotes_reached : SharedVault.empty.Reaches ℚ afterTwoNotes :=
  ⟨firstNote ++ secondNote, (final_append _ _ _).symm⟩

/-- The keyword route has found the first note, and the vector route the second, which came in
    between. -/
theorem twoNotes_chunks : ((routedServer afterTwoNotes).innerAt quietEnv
    (.twoStates afterFirstNote afterTwoNotes) (.search ⟨"plan".toList, none⟩)).toOption.map
      Response.chunks = some [("1".toList, "c1".toList), ("2".toList, "c2".toList)] := by
  decide +kernel

theorem cited_of_view_twoNotes : ∃ response, (routedServer afterTwoNotes).innerAt quietEnv
      (.twoStates afterFirstNote afterTwoNotes) (.search ⟨"plan".toList, none⟩) = .ok response ∧
    response.Cited (.twoStates afterFirstNote afterTwoNotes) ∧
    response.chunks = [("1".toList, "c1".toList), ("2".toList, "c2".toList)] := by
  obtain ⟨response, hresponse, hchunks⟩ := Option.map_eq_some_iff.1 twoNotes_chunks
  have hanswer := Except.eq_ok_of_toOption hresponse
  have hview : ∀ shared, (View.twoStates afterFirstNote afterTwoNotes).Sees shared →
      SharedVault.empty.Reaches ℚ shared := by
    intro shared hsees
    rcases View.sees_twoStates hsees with rfl | rfl
    · exact afterFirstNote_reached
    · exact afterTwoNotes_reached
  exact ⟨response, hanswer, cited_of_view hview (routedServer_over _ _) hanswer, hchunks⟩

theorem quietEnv_sound : quietEnv.Sound := ⟨fun _ => rfl, fun _ => rfl, fun _ => rfl⟩

/-- A decision that cites the first note, and a rebuild. -/
def decisionAndRebuild : List SharedStep :=
  [.insert noLedgerFaults (.rememberDecision 5 "quarter planned".toList (some "1".toList)),
    .host (.rebuild constantEmbedder 6 (tableOrder _) 3 none)]

theorem noDeletion_noteAndFlush (name : Str) (capturedAtMs : ℤ) :
    NoDeletion (noteAndFlush name capturedAtMs) := by
  intro step hstep call hcall
  simp only [noteAndFlush, List.mem_cons, List.not_mem_nil, or_false] at hstep
  rcases hstep with rfl | rfl <;> cases hcall <;> exact id

theorem noDeletion_decisionAndRebuild : NoDeletion decisionAndRebuild := by
  intro step hstep call hcall
  simp only [decisionAndRebuild, List.mem_cons, List.not_mem_nil, or_false] at hstep
  rcases hstep with rfl | rfl <;> cases hcall
  exact id

/-- The vault with the decision, its index rebuilt. -/
def afterRebuild : SharedVault := final (SharedVault.exec ℚ) afterTwoNotes decisionAndRebuild

theorem twoNotes_grow : ∀ shared, (View.twoStates afterFirstNote afterTwoNotes).Sees shared →
    SharedVault.empty.Reaches ℚ shared ∧ shared.GrowsTo ℚ afterRebuild := by
  intro shared hsees
  rcases View.sees_twoStates hsees with rfl | rfl
  · refine ⟨afterFirstNote_reached, secondNote ++ decisionAndRebuild, ?_, (final_append _ _ _).symm⟩
    intro step hstep
    rcases List.mem_append.1 hstep with hstep | hstep
    · exact noDeletion_noteAndFlush _ _ step hstep
    · exact noDeletion_decisionAndRebuild step hstep
  · exact ⟨afterTwoNotes_reached, decisionAndRebuild, noDeletion_decisionAndRebuild, rfl⟩

/-- Both notes are answered for after the decision and the rebuild. -/
theorem cited_followed_twoNotes :
    (routedServer afterRebuild).Follows quietEnv "1".toList {"c1".toList} ∧
      (routedServer afterRebuild).Follows quietEnv "2".toList {"c2".toList} := by
  obtain ⟨response, hresponse, hchunks⟩ := Option.map_eq_some_iff.1 twoNotes_chunks
  have hfollows : ∀ id ∈ response.records, (routedServer afterRebuild).Follows quietEnv id
      {chunkId | (id, chunkId) ∈ response.chunks} :=
    cited_followed twoNotes_grow (routedServer_over _ _) (Except.eq_ok_of_toOption hresponse)
      quietEnv_sound rfl
  have hfirst : ("1".toList, "c1".toList) ∈ response.chunks := by
    rw [hchunks]
    exact List.mem_cons_self
  have hsecond : ("2".toList, "c2".toList) ∈ response.chunks := by
    rw [hchunks]
    exact List.mem_cons_of_mem _ List.mem_cons_self
  exact ⟨(hfollows _ (Response.mem_records_of_chunk hfirst)).mono
      (Set.singleton_subset_iff.2 hfirst),
    (hfollows _ (Response.mem_records_of_chunk hsecond)).mono (Set.singleton_subset_iff.2 hsecond)⟩

/-- The first note is deleted. -/
def deleteFirstNote : SharedStep := .host (.deleteEverywhere (.recordIds ["1".toList]) none)

/-- The first note is gone. -/
def afterDeletion : SharedVault := final (SharedVault.exec ℚ) afterTwoNotes [deleteFirstNote]

/-- And a third one has come. -/
def afterThirdNote : SharedVault :=
  final (SharedVault.exec ℚ) afterTwoNotes
    (deleteFirstNote :: noteAndFlush "3".toList 2000000000)

theorem thirdNote_chunks : ((routedServer afterThirdNote).innerAt quietEnv
    (.twoStates afterDeletion afterThirdNote) (.search ⟨"plan".toList, none⟩)).toOption.map
      Response.chunks = some [("2".toList, "c2".toList), ("3".toList, "c3".toList)] := by
  decide +kernel

theorem firstNote_deleted : ∃ report,
    (deleteEverywhere (.recordIds ["1".toList]) afterTwoNotes.vault).1 = .ok report := by
  have hreport : (deleteEverywhere (.recordIds ["1".toList]) afterTwoNotes.vault).1.toOption.isSome
      = true := by decide +kernel
  obtain ⟨report, h⟩ := Option.isSome_iff_exists.1 hreport
  exact ⟨report, Except.eq_ok_of_toOption h⟩

theorem firstNote_ids : afterTwoNotes.mcp.store.db.recordIdsForDelete (.recordIds ["1".toList])
    = .ok ["1".toList] := by
  refine Except.eq_ok_of_toOption ?_
  decide +kernel

theorem quietFor_thirdNote :
    ∀ id ∈ ["1".toList], QuietFor id (noteAndFlush "3".toList 2000000000) := by
  intro id hid step hstep call hcall
  cases List.mem_singleton.1 hid
  simp only [noteAndFlush, List.mem_cons, List.not_mem_nil, or_false] at hstep
  rcases hstep with rfl | rfl <;> cases hcall
  · exact fun hsame => absurd (show "3".toList = "1".toList from hsame) (by decide)
  · exact id

/-- A search that runs into a third note does not name the first, deleted one. -/
theorem forgotten_of_view_thirdNote : ∃ response, (routedServer afterThirdNote).innerAt quietEnv
      (.twoStates afterDeletion afterThirdNote) (.search ⟨"plan".toList, none⟩) = .ok response ∧
    response.chunks = [("2".toList, "c2".toList), ("3".toList, "c3".toList)] ∧
      "1".toList ∉ response.records := by
  obtain ⟨response, hresponse, hchunks⟩ := Option.map_eq_some_iff.1 thirdNote_chunks
  have hanswer := Except.eq_ok_of_toOption hresponse
  obtain ⟨report, hreport⟩ := firstNote_deleted
  have hview : ∀ after, (View.twoStates afterDeletion afterThirdNote).Sees after → ∃ steps,
      (∀ id ∈ ["1".toList], QuietFor id steps) ∧
        after = final (SharedVault.exec ℚ) afterTwoNotes (deleteFirstNote :: steps) := by
    intro after hsees
    rcases View.sees_twoStates hsees with rfl | rfl
    · exact ⟨[], fun _ _ _ hstep => absurd hstep List.not_mem_nil, rfl⟩
    · exact ⟨noteAndFlush "3".toList 2000000000, quietFor_thirdNote, rfl⟩
  exact ⟨response, hanswer, hchunks, (forgotten_of_view afterTwoNotes_reached hreport firstNote_ids
    hview (routedServer_over _ _) hanswer "1".toList (List.mem_singleton_self _)).1⟩

end Example

end Fndr
