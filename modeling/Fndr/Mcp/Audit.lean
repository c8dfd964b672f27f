import Fndr.Mcp.Tools

set_option autoImplicit false

/-! # The audit log

Every tool routes its result through `audit`, which appends one row and fails the call when it
cannot. The row's `raw_released` is a constant of the tool, or the caller's `include_raw`. What an
answer carries is decided elsewhere, by the vault, the index and the parameters: the metadata a
served call shows is `ToolCall.ShowsField`, and a search also shows snippets, of the matches of the
keyword route and of the chunks behind the rows of the vector route. So there are four ways in which
the log understates a call (`ToolCall.Releases`), and no others (`auditSound_iff`). -/

namespace Fndr

open RustStd Rows Binary64

/-! ## Calls and answers -/

/-- A tool of the server with its parameters. -/
inductive ToolCall
  | search (params : SearchParams)
  | privacyStatus
  | timeline (params : TimelineParams)
  | sourceEvidence (params : SourceEvidenceParams)
  | explainRetrieval (params : ExplainRetrievalParams)
  | feedback (params : FeedbackParams)
  | contextPack (params : ContextPackParams)
  | activeFocus (params : ActiveFocusParams)
  | delta (params : DeltaParams)
  | openTarget (params : OpenTargetParams)
  | recall (params : RecallParams)
  | rememberDecision (params : RememberDecisionParams)

/-- The name under which the server audits the tool. -/
def ToolCall.name : ToolCall → Str
  | .search _ => "fndr.search".toList
  | .privacyStatus => "fndr.privacy_status".toList
  | .timeline _ => "fndr.timeline".toList
  | .sourceEvidence _ => "fndr.source_evidence".toList
  | .explainRetrieval _ => "fndr.explain_retrieval".toList
  | .feedback _ => "fndr.feedback".toList
  | .contextPack _ => "fndr.context_pack".toList
  | .activeFocus _ => "fndr.active_focus".toList
  | .delta _ => "fndr.delta".toList
  | .openTarget _ => "fndr.open_target".toList
  | .recall _ => "fndr.recall".toList
  | .rememberDecision _ => "fndr.remember_decision".toList

/-- What the tool's wrapper passes to `audit` as `raw_released`. -/
def ToolCall.rawReleased : ToolCall → Bool
  | .sourceEvidence params => params.includeRaw.getD false
  | .contextPack _ => true
  | _ => false

/-- What a tool answers with. -/
inductive Response
  | search (out : SearchOutput)
  | privacyStatus (out : PrivacyStatusOutput)
  | timeline (out : TimelineOutput)
  | sourceEvidence (out : SourceEvidenceOutput)
  | explainRetrieval (out : ExplainRetrievalOutput)
  | feedback (out : FeedbackOutput)
  | contextPack (out : ContextPackOutput)
  | activeFocus (out : ActiveFocusOutput)
  | delta (out : DeltaOutput)
  | openTarget (out : OpenTargetOutput)
  | recall (out : RecallOutput)
  | rememberDecision (out : RememberDecisionOutput)

/-- The text fields of an answer. -/
def Response.strings : Response → List Str
  | .search out => out.hits.flatMap (fun hit =>
      [hit.recordId, hit.chunkId, hit.source, hit.snippet, hit.route])
  -- counters and flags only
  | .privacyStatus _ => []
  | .timeline out => out.granularity :: out.buckets.map ActivityBucketOut.appName
  | .sourceEvidence out =>
      [out.recordId, out.sessionId, out.source, out.appName, out.windowTitle] ++
        out.bundleId.toList ++ out.url.toList ++
        out.chunks.flatMap (fun chunk => chunk.chunkId :: chunk.text.toList)
  | .explainRetrieval out =>
      [out.query, out.route, out.matchMode] ++ out.terms ++ out.ftsExpression.toList ++ out.notes
  | .feedback out => [out.rating]
  | .contextPack out => [out.goal, out.retrievalRoute] ++ out.items.flatMap (fun item =>
      [item.recordId, item.chunkId, item.appName, item.windowTitle, item.text] ++ item.url.toList)
  | .activeFocus out =>
      out.status :: (out.appName.toList ++ out.windowTitle.toList ++ out.url.toList ++
        out.bundleId.toList ++ out.recordId.toList)
  | .delta out => out.apps.map AppChangeOut.appName
  | .openTarget out =>
      [out.recordId, out.kind, out.appName, out.windowTitle] ++ out.url.toList ++
        out.bundleId.toList ++ out.reason.toList
  | .recall out => out.kind :: out.decisions.flatMap (fun decision =>
      decision.statement :: decision.recordId.toList)
  | .rememberDecision _ => []

section Server

variable [UnicodeTables] [Fts5]

/-- The function behind a tool, with the vault it leaves. -/
def FndrMcpServer.inner (env : CallEnv) (server : FndrMcpServer) :
    ToolCall → Except ErrorData (Response × McpStore)
  | .search params => (server.searchInner env params).map (fun out => (.search out, server.vault))
  | .privacyStatus =>
      server.privacyStatusInner.map (fun out => (.privacyStatus out, server.vault))
  | .timeline params =>
      (server.timelineInner env params).map (fun out => (.timeline out, server.vault))
  | .sourceEvidence params =>
      (server.sourceEvidenceInner env params).map (fun out => (.sourceEvidence out, server.vault))
  | .explainRetrieval params =>
      (server.explainRetrievalInner env params).map (fun out => (.explainRetrieval out, server.vault))
  -- the two tools that write
  | .feedback params =>
      (server.feedbackInner env params).map (fun (out, vault) => (.feedback out, vault))
  | .contextPack params =>
      (server.contextPackInner env params).map (fun out => (.contextPack out, server.vault))
  | .activeFocus params =>
      (server.activeFocusInner env params).map (fun out => (.activeFocus out, server.vault))
  | .delta params => (server.deltaInner env params).map (fun out => (.delta out, server.vault))
  | .openTarget params =>
      (server.openTargetInner env params).map (fun out => (.openTarget out, server.vault))
  | .recall params => (server.recallInner env params).map (fun out => (.recall out, server.vault))
  | .rememberDecision params =>
      (server.rememberDecisionInner env params).map (fun (out, vault) => (.rememberDecision out, vault))

/-- The vault once a tool has run. -/
def FndrMcpServer.vaultAfter (server : FndrMcpServer) :
    Except ErrorData (Response × McpStore) → McpStore
  | .ok (_, vault) => vault
  | .error _ => server.vault

/-- Record one tool call's outcome. A failed audit write fails the call. -/
def FndrMcpServer.audit (env : CallEnv) (server : FndrMcpServer) (tool : Str) (rawReleased : Bool)
    (result : Except ErrorData (Response × McpStore)) : Except ErrorData Response × FndrMcpServer :=
  -- a refused call has released nothing
  let rawReleased := rawReleased && result.isOk
  let outcome := if result.isOk then "ok".toList else "refused".toList
  let vault := server.vaultAfter result
  match env.lock .audit with
  -- the tool has run by now: what it wrote stays, the answer does not go out
  | .error error => (.error error, { server with vault := vault })
  | .ok () =>
      match vault.recordToolCall env.writes (env.nowMs .audit) tool outcome rawReleased with
      | .error error =>
          (.error (internalError ("audit write failed: ".toList ++ error.display)),
            { server with vault := vault })
      | .ok vault => (result.map Prod.fst, { server with vault := vault })

/-- One tool call. -/
def FndrMcpServer.callTool (env : CallEnv) (server : FndrMcpServer) (call : ToolCall) :
    Except ErrorData Response × FndrMcpServer :=
  server.audit env call.name call.rawReleased (server.inner env call)

end Server

/-! ## What the log owes its reader -/

/-- Some chunk's complete stored text stands in a text field of the answer. -/
def Response.HandsOut (response : Response) (store : Store) : Prop :=
  ∃ c ∈ store.db.chunks, ∃ field ∈ response.strings, c.text <:+: field

/-- An answer has one row, which says when it hands out a chunk's text; an error has at most one,
    which is refused. -/
structure FndrMcpServer.AuditSound [UnicodeTables] [Fts5] (env : CallEnv) (server : FndrMcpServer)
    (call : ToolCall) : Prop where
  answered : ∀ response, (server.callTool env call).1 = .ok response →
    ∃ id rawReleased, (server.callTool env call).2.vault.mcpAudit
        = server.vault.mcpAudit ++ [⟨id, env.nowMs .audit, call.name, "ok".toList, rawReleased⟩] ∧
      (response.HandsOut server.vault.store → rawReleased = true)
  refused : ∀ error, (server.callTool env call).1 = .error error →
    (server.callTool env call).2.vault.mcpAudit = server.vault.mcpAudit ∨
    ∃ id, (server.callTool env call).2.vault.mcpAudit
      = server.vault.mcpAudit ++ [⟨id, env.nowMs .audit, call.name, "refused".toList, false⟩]

/-! ## What a served call shows -/

section Condition

variable [UnicodeTables] [Fts5]

/-- The metadata of a record. -/
def RecordEvidence.metadata (evidence : RecordEvidence) : List Str :=
  [evidence.recordId, evidence.sessionId, evidence.source, evidence.appName, evidence.windowTitle] ++
    evidence.bundleId.toList ++ evidence.url.toList

/-- What the keyword route finds for a search. -/
def FndrMcpServer.matches (env : CallEnv) (server : FndrMcpServer) (params : SearchParams) :
    List ChunkSearchHit :=
  server.vault.store.db.hits env.scan params.query params.cap

/-- A search is served: its locks are sound, its statement runs and the vector route answers. -/
def FndrMcpServer.ServesSearch (env : CallEnv) (server : FndrMcpServer) (params : SearchParams) :
    Prop :=
  env.poisoned .tool = false ∧ ((ftsQuery params.query).isSome → env.reads .searchChunks = none) ∧
    ∀ route ∈ server.vectorRoute,
      VectorRouteAnswers route.1 route.2 params.query params.cap ∧ env.poisoned .snippets = false

/-- A row of the index that a search shows: its chunk is no match of the keyword route and comes with
    this row first, and the matches leave room for it. -/
def FndrMcpServer.ShowsRow (env : CallEnv) (server : FndrMcpServer) (params : SearchParams)
    (row : VectorHit) : Prop :=
  ∃ route ∈ server.vectorRoute, ∃ found,
    vectorSearch route.2 params.query params.cap route.1 = .ok found ∧
    row ∈ (freshHits ((server.matches env params).map ChunkSearchHit.chunkId) found).take
      (params.cap - (server.matches env params).length)

/-- The stored chunk behind a row of the index, which can be read. -/
def CallEnv.ReadsChunk (env : CallEnv) (store : Store) (row : VectorHit) (c : Chunk) : Prop :=
  c ∈ store.db.chunks ∧ row.chunkId = c.id ∧ row.recordId = c.recordId ∧
    env.reads (.evidenceRecord (.snippet c.id)) = none ∧
    env.reads (.evidenceChunks (.snippet c.id)) = none

/-- The parameters pass the tool's checks, the lock is sound, no statement fails, and this is a piece
    of metadata that the tool shows, or a word of its own or of the caller's. The context pack is for
    callers who have opted in to stored text. -/
def ToolCall.ShowsField (env : CallEnv) (server : FndrMcpServer) (field : Str) : ToolCall → Prop
  | .search params => server.ServesSearch env params ∧
      ((∃ hit ∈ (server.matches env params).take params.cap,
          field ∈ [hit.recordId, hit.chunkId, hit.source, "keyword".toList]) ∨
        ∃ row, server.ShowsRow env params row ∧
          field ∈ [row.recordId, row.chunkId, row.source, "vector".toList])
  | .privacyStatus => False
  | .timeline params => params.Accepted ∧ env.poisoned .tool = false ∧
      env.reads .activityBuckets = none ∧
      ∃ buckets, params.activity server.vault.store.db = some buckets ∧
        (field = (params.granularity.getD .day).word ∨
          ∃ bucket ∈ buckets, bucket.appName = field)
  | .sourceEvidence params => env.poisoned .tool = false ∧
      ∃ evidence, env.CanRead server.vault.store params.recordId evidence ∧
        (field ∈ evidence.metadata ∨ ∃ chunk ∈ evidence.chunks, chunk.chunkId = field)
  | .explainRetrieval params => env.poisoned .tool = false ∧
      ((ftsQuery params.query).isSome → env.reads .explainChunkSearch = none) ∧
      field ∈ [params.query, "keyword".toList, "all_terms".toList] ++ ftsTerms params.query ++
        (ftsQuery params.query).toList ++ explainNotes (params.limit.getD 10 : ℕ)
          ⟨ftsTerms params.query, ftsQuery params.query,
            server.vault.store.db.totalMatches params.query, SEARCH_LIMIT_CAP⟩
  | .feedback params => trim params.query ≠ [] ∧ env.poisoned .tool = false ∧
      env.writes .recordFeedback = none ∧ server.vault.Cites params.recordId ∧
      field = params.rating.asStr
  -- its texts are released with the mark
  | .contextPack _ => False
  | .activeFocus params => 0 ≤ params.staleAfterMs.getD DEFAULT_STALE_AFTER_MS ∧
      env.poisoned .tool = false ∧ env.reads .latestRecordId = none ∧
      ∃ focus, env.Focus server.vault.store focus ∧ field ∈ match focus with
        | none => ["none".toList]
        | some evidence =>
            (if captureAgeMs (env.nowMs .tool) evidence.capturedAtMs
                > params.staleAfterMs.getD DEFAULT_STALE_AFTER_MS then "stale".toList
              else "active".toList) ::
            ([evidence.appName, evidence.windowTitle] ++ evidence.url.toList ++
              evidence.bundleId.toList ++ [evidence.recordId])
  | .delta params => env.poisoned .tool = false ∧ env.reads .changesSince = none ∧
      ∃ app ∈ (server.vault.store.db.changes params.sinceMs (min (params.appLimit.getD 10) 100)).apps,
        app.appName = field
  | .openTarget params => env.poisoned .tool = false ∧
      ∃ evidence, env.CanRead server.vault.store params.recordId evidence ∧
        field ∈ evidence.recordId :: match evidence.url, evidence.bundleId with
          | some url, bundleId => ["url".toList, evidence.appName, evidence.windowTitle, url] ++
              bundleId.toList
          | none, some bundleId => ["app".toList, evidence.appName, evidence.windowTitle, bundleId]
          | none, none => ["unavailable".toList, evidence.appName, evidence.windowTitle,
              "this memory retained no URL and no bundle identifier".toList]
  | .recall params => params.kind = .decision ∧ env.poisoned .tool = false ∧
      env.reads .recentDecisions = none ∧
      (field = "decision".toList ∨
        ∃ decision ∈ server.vault.decisions params.sinceMs (min (params.limit.getD 20) 200),
          field = decision.statement ∨ field ∈ decision.recordId)
  | .rememberDecision _ => False

/-- The ways in which a call hands out the whole text of a stored chunk without the mark. -/
inductive ToolCall.Releases (env : CallEnv) (server : FndrMcpServer) : ToolCall → Prop
  /-- A search shows a row of the index whose chunk has at most `SNIPPET_CHARS` characters. -/
  | shortChunk (params : SearchParams) (row : VectorHit) (c : Chunk)
      (hserves : server.ServesSearch env params) (hrow : server.ShowsRow env params row)
      (hc : env.ReadsChunk server.vault.store row c) (hshort : c.text.length ≤ SNIPPET_CHARS) :
      Releases env server (.search params)
  /-- Or a longer chunk, with a shorter one's text among its first `SNIPPET_CHARS` characters. -/
  | longChunk (params : SearchParams) (row : VectorHit) (c other : Chunk)
      (hserves : server.ServesSearch env params) (hrow : server.ShowsRow env params row)
      (hc : env.ReadsChunk server.vault.store row c) (hlong : SNIPPET_CHARS < c.text.length)
      (hother : other ∈ server.vault.store.db.chunks)
      (hin : other.text <:+: c.text.take SNIPPET_CHARS ++ "…".toList) :
      Releases env server (.search params)
  /-- A search shows a match whose highlighted extract holds a chunk's whole text. -/
  | extract (params : SearchParams) (hit : ChunkSearchHit) (c : Chunk)
      (hserves : server.ServesSearch env params)
      (hhit : hit ∈ (server.matches env params).take params.cap)
      (hc : c ∈ server.vault.store.db.chunks) (hin : c.text <:+: hit.snippet) :
      Releases env server (.search params)
  /-- A chunk's whole text stands in metadata that the tool shows. -/
  | metadata (call : ToolCall) (field : Str) (c : Chunk) (hfield : call.ShowsField env server field)
      (hc : c ∈ server.vault.store.db.chunks) (hin : c.text <:+: field) : Releases env server call

/-- The call is not marked as a release and gets recorded, and yet it releases a chunk. -/
def ToolCall.ReleasesQuietly (env : CallEnv) (server : FndrMcpServer) (call : ToolCall) : Prop :=
  call.rawReleased = false ∧ env.poisoned .audit = false ∧ env.writes .recordToolCall = none ∧
    call.Releases env server

/-! ## Tool by tool -/

/-- The tool answers, and this is a text field of its answer. -/
def FndrMcpServer.Answers (env : CallEnv) (server : FndrMcpServer) (call : ToolCall)
    (field : Str) : Prop :=
  ∃ response vault, server.inner env call = .ok (response, vault) ∧ field ∈ response.strings

omit [UnicodeTables] [Fts5] in
theorem answers_map {α : Type} {result : Except ErrorData α} {f : α → Response × McpStore}
    {field : Str} :
    (∃ response vault, result.map f = .ok (response, vault) ∧ field ∈ response.strings) ↔
      ∃ out, result = .ok out ∧ field ∈ (f out).1.strings := by
  constructor
  · rintro ⟨response, vault, h, hfield⟩
    obtain ⟨out, hout, hanswer⟩ := Except.map_eq_ok.1 h
    exact ⟨out, hout, hanswer ▸ hfield⟩
  · rintro ⟨out, hout, hfield⟩
    exact ⟨_, _, Except.map_eq_ok.2 ⟨out, hout, rfl⟩, hfield⟩

section Tools

variable {env : CallEnv} {server : FndrMcpServer} {field : Str}

theorem answers_timeline_iff {params : TimelineParams} :
    server.Answers env (.timeline params) field
      ↔ (ToolCall.timeline params).ShowsField env server field := by
  have hstrings : ∀ buckets, field ∈ (Response.timeline (.ofBuckets params.fromMs params.toMs
      (params.granularity.getD .day) (min (params.limit.getD 200) 1000) buckets)).strings ↔
        field = (params.granularity.getD .day).word ∨
          ∃ bucket ∈ buckets, bucket.appName = field := by
    intro buckets
    simp only [Response.strings, TimelineOutput.ofBuckets, List.map_map, List.mem_cons,
      List.mem_map]
    rfl
  refine answers_map.trans ?_
  constructor
  · rintro ⟨out, hout, hfield⟩
    obtain ⟨haccepted, hlock, hread, buckets, hbuckets, rfl⟩ :=
      FndrMcpServer.timelineInner_eq_ok.1 hout
    exact ⟨haccepted, hlock, hread, buckets, hbuckets, (hstrings buckets).1 hfield⟩
  · rintro ⟨haccepted, hlock, hread, buckets, hbuckets, hfield⟩
    exact ⟨_, FndrMcpServer.timelineInner_eq_ok.2 ⟨haccepted, hlock, hread, buckets, hbuckets, rfl⟩,
      (hstrings buckets).2 hfield⟩

/-- Without the opt-in the chunks of an answer carry their ids only. -/
theorem answers_sourceEvidence_iff {params : SourceEvidenceParams}
    (hraw : params.includeRaw.getD false = false) :
    server.Answers env (.sourceEvidence params) field
      ↔ (ToolCall.sourceEvidence params).ShowsField env server field := by
  have hstrings : ∀ evidence, field ∈ (Response.sourceEvidence (.ofEvidence
      (params.includeRaw.getD false) evidence)).strings ↔
        field ∈ evidence.metadata ∨ ∃ chunk ∈ evidence.chunks, chunk.chunkId = field := by
    intro evidence
    have hchunks : evidence.chunks.flatMap (fun chunk =>
        (ChunkEvidenceOut.ofChunk false chunk).chunkId ::
          (ChunkEvidenceOut.ofChunk false chunk).text.toList)
        = evidence.chunks.map ChunkEvidence.chunkId := List.flatMap_pure_eq_map _ _
    rw [hraw]
    simp only [Response.strings, SourceEvidenceOutput.ofEvidence, List.flatMap_map, hchunks]
    rw [List.mem_append, List.mem_map]
    rfl
  refine answers_map.trans ?_
  constructor
  · rintro ⟨out, hout, hfield⟩
    obtain ⟨hlock, evidence, hevidence, rfl⟩ := FndrMcpServer.sourceEvidenceInner_eq_ok.1 hout
    exact ⟨hlock, evidence, hevidence, (hstrings evidence).1 hfield⟩
  · rintro ⟨hlock, evidence, hevidence, hfield⟩
    exact ⟨_, FndrMcpServer.sourceEvidenceInner_eq_ok.2 ⟨hlock, evidence, hevidence, rfl⟩,
      (hstrings evidence).2 hfield⟩

theorem answers_explainRetrieval_iff {params : ExplainRetrievalParams} :
    server.Answers env (.explainRetrieval params) field
      ↔ (ToolCall.explainRetrieval params).ShowsField env server field := by
  refine answers_map.trans ?_
  constructor
  · rintro ⟨out, hout, hfield⟩
    obtain ⟨hlock, hread, rfl⟩ := FndrMcpServer.explainRetrievalInner_eq_ok.1 hout
    exact ⟨hlock, hread, hfield⟩
  · rintro ⟨hlock, hread, hfield⟩
    exact ⟨_, FndrMcpServer.explainRetrievalInner_eq_ok.2 ⟨hlock, hread, rfl⟩, hfield⟩

theorem answers_feedback_iff {params : FeedbackParams} :
    server.Answers env (.feedback params) field
      ↔ (ToolCall.feedback params).ShowsField env server field := by
  refine answers_map.trans ?_
  constructor
  · rintro ⟨⟨out, vault⟩, hout, hfield⟩
    obtain ⟨hquery, hlock, id, hwrite, rfl⟩ := FndrMcpServer.feedbackInner_eq_ok.1 hout
    obtain ⟨hfault, hcites, -⟩ := McpStore.recordFeedback_eq_ok.1 hwrite
    exact ⟨hquery, hlock, hfault, hcites, List.mem_singleton.1 hfield⟩
  · rintro ⟨hquery, hlock, hfault, hcites, hfield⟩
    exact ⟨(_, _), FndrMcpServer.feedbackInner_eq_ok.2 ⟨hquery, hlock, _,
      McpStore.recordFeedback_eq_ok.2 ⟨hfault, hcites, rfl⟩, rfl⟩, List.mem_singleton.2 hfield⟩

theorem answers_activeFocus_iff {params : ActiveFocusParams} :
    server.Answers env (.activeFocus params) field
      ↔ (ToolCall.activeFocus params).ShowsField env server field := by
  refine answers_map.trans ?_
  constructor
  · rintro ⟨out, hout, hfield⟩
    obtain ⟨hstale, hlock, hread, focus, hfocus, rfl⟩ := FndrMcpServer.activeFocusInner_eq_ok.1 hout
    refine ⟨hstale, hlock, hread, focus, hfocus, ?_⟩
    cases focus <;> exact hfield
  · rintro ⟨hstale, hlock, hread, focus, hfocus, hfield⟩
    refine ⟨_, FndrMcpServer.activeFocusInner_eq_ok.2
      ⟨hstale, hlock, hread, focus, hfocus, rfl⟩, ?_⟩
    cases focus <;> exact hfield

theorem answers_delta_iff {params : DeltaParams} :
    server.Answers env (.delta params) field
      ↔ (ToolCall.delta params).ShowsField env server field := by
  have hstrings : ∀ summary : ChangeSummary, field ∈ (Response.delta
      (.ofSummary params.sinceMs summary)).strings ↔ ∃ app ∈ summary.apps, app.appName = field := by
    intro summary
    simp only [Response.strings, DeltaOutput.ofSummary, List.map_map, List.mem_map]
    rfl
  refine answers_map.trans ?_
  constructor
  · rintro ⟨out, hout, hfield⟩
    obtain ⟨hlock, hread, rfl⟩ := FndrMcpServer.deltaInner_eq_ok.1 hout
    exact ⟨hlock, hread, (hstrings _).1 hfield⟩
  · rintro ⟨hlock, hread, hfield⟩
    exact ⟨_, FndrMcpServer.deltaInner_eq_ok.2 ⟨hlock, hread, rfl⟩, (hstrings _).2 hfield⟩

theorem answers_openTarget_iff {params : OpenTargetParams} :
    server.Answers env (.openTarget params) field
      ↔ (ToolCall.openTarget params).ShowsField env server field := by
  have hstrings : ∀ evidence : RecordEvidence,
      (Response.openTarget (.ofEvidence evidence)).strings
        = evidence.recordId :: match evidence.url, evidence.bundleId with
          | some url, bundleId => ["url".toList, evidence.appName, evidence.windowTitle, url] ++
              bundleId.toList
          | none, some bundleId => ["app".toList, evidence.appName, evidence.windowTitle, bundleId]
          | none, none => ["unavailable".toList, evidence.appName, evidence.windowTitle,
              "this memory retained no URL and no bundle identifier".toList] := by
    intro evidence
    unfold Response.strings OpenTargetOutput.ofEvidence
    cases evidence.url <;> cases evidence.bundleId <;> rfl
  refine answers_map.trans ?_
  constructor
  · rintro ⟨out, hout, hfield⟩
    obtain ⟨hlock, evidence, hevidence, rfl⟩ := FndrMcpServer.openTargetInner_eq_ok.1 hout
    exact ⟨hlock, evidence, hevidence, hstrings evidence ▸ hfield⟩
  · rintro ⟨hlock, evidence, hevidence, hfield⟩
    exact ⟨_, FndrMcpServer.openTargetInner_eq_ok.2 ⟨hlock, evidence, hevidence, rfl⟩,
      (hstrings evidence).symm ▸ hfield⟩

theorem answers_recall_iff {params : RecallParams} :
    server.Answers env (.recall params) field
      ↔ (ToolCall.recall params).ShowsField env server field := by
  have hstrings : ∀ decisions : List LedgerDecision, field ∈ (Response.recall
      ⟨"decision".toList, decisions.map RecalledDecision.ofDecision⟩).strings ↔
        field = "decision".toList ∨
          ∃ decision ∈ decisions, field = decision.statement ∨ field ∈ decision.recordId := by
    intro decisions
    simp only [Response.strings, List.flatMap_map, List.mem_cons, List.mem_flatMap,
      Option.mem_toList]
    rfl
  refine answers_map.trans ?_
  constructor
  · rintro ⟨out, hout, hfield⟩
    obtain ⟨hkind, hlock, hread, rfl⟩ := FndrMcpServer.recallInner_eq_ok.1 hout
    exact ⟨hkind, hlock, hread, (hstrings _).1 hfield⟩
  · rintro ⟨hkind, hlock, hread, hfield⟩
    exact ⟨_, FndrMcpServer.recallInner_eq_ok.2 ⟨hkind, hlock, hread, rfl⟩, (hstrings _).2 hfield⟩

theorem not_answers_rememberDecision {params : RememberDecisionParams} :
    ¬ server.Answers env (.rememberDecision params) field := by
  rintro ⟨response, vault, hinner, hfield⟩
  obtain ⟨⟨out, after⟩, -, hanswer⟩ := Except.map_eq_ok.1 hinner
  cases hanswer
  exact List.not_mem_nil hfield

/-! ## Searches -/

omit [UnicodeTables] [Fts5] in
/-- The snippet of a row, when there is one, is cut from the chunk behind it. -/
theorem vectorHitSnippet_eq_some_iff {store : Store} {row : VectorHit} {snippet : Str} :
    vectorHitSnippet env.reads store row = some snippet ↔
      ∃ c, env.ReadsChunk store row c ∧ snippet = excerpt c.text := by
  constructor
  · intro h
    unfold vectorHitSnippet at h
    split at h
    · next evidence hread =>
      obtain ⟨hrecord, hevidence, hchunks⟩ := Store.recordEvidence_eq_some.1 hread
      obtain ⟨chunk, hchunk, rfl⟩ := Option.map_eq_some_iff.1 h
      obtain ⟨r, hr, rfl⟩ := Option.map_eq_some_iff.1 hevidence
      have hid : chunk.chunkId = row.chunkId := by simpa using List.find?_some hchunk
      obtain ⟨c, hc, rfl⟩ := List.mem_map.1 (List.mem_of_find?_eq_some hchunk)
      obtain ⟨hc, hcr⟩ := List.mem_filter.1 ((List.mem_insertionSort _).1 hc)
      have hrow : r.id = row.recordId := by simpa using List.find?_some hr
      have hcid : c.id = row.chunkId := hid
      rw [← hcid] at hrecord hchunks
      exact ⟨c, ⟨hc, hid.symm, hrow.symm.trans (beq_iff_eq.1 hcr).symm, hrecord, hchunks⟩, rfl⟩
    · cases h
  · rintro ⟨c, ⟨hc, hid, hrecord, hread, hchunks⟩, rfl⟩
    obtain ⟨evidence, hevidence, hfind⟩ := store.evidence_of_chunk hc
    unfold vectorHitSnippet
    rw [hid, hrecord, Store.recordEvidence_eq_some.2 ⟨hread, hevidence, hchunks⟩]
    dsimp only
    rw [hfind]
    rfl

theorem servesSearch_iff {params : SearchParams} : server.ServesSearch env params ↔
    env.poisoned .tool = false ∧ ((ftsQuery params.query).isSome → env.reads .searchChunks = none) ∧
      ∃ vector, server.AddsVectorHits env params.query params.cap
        ((server.matches env params).map ChunkSearchHit.chunkId) vector := by
  unfold FndrMcpServer.ServesSearch FndrMcpServer.AddsVectorHits
  refine and_congr_right' (and_congr_right' ?_)
  cases server.vectorRoute with
  | none => exact ⟨fun _ => ⟨[], rfl⟩, fun _ => nofun⟩
  | some route =>
      constructor
      · intro h
        obtain ⟨hanswers, hlock⟩ := h route rfl
        obtain ⟨found, hfound⟩ := (vectorSearch_ok_iff _ _ _ _).2 hanswers
        exact ⟨_, found, hfound, hlock, rfl⟩
      · rintro ⟨vector, found, hfound, hlock, -⟩ other hother
        cases hother
        exact ⟨(vectorSearch_ok_iff _ _ _ _).1 ⟨found, hfound⟩, hlock⟩

/-- The rows a search adds to its matches. -/
theorem mem_addsVectorHits {params : SearchParams} {vector : List TaggedHit}
    (h : server.AddsVectorHits env params.query params.cap
      ((server.matches env params).map ChunkSearchHit.chunkId) vector) {tagged : TaggedHit} :
    tagged ∈ vector.take (params.cap - (server.matches env params).length) ↔
      ∃ row, server.ShowsRow env params row ∧
        tagged = .ofVector env.reads server.vault.store row := by
  unfold FndrMcpServer.AddsVectorHits at h
  unfold FndrMcpServer.ShowsRow
  cases hroute : server.vectorRoute with
  | none =>
      rw [hroute] at h
      rw [h, List.take_nil]
      constructor
      · intro hmem
        cases hmem
      · rintro ⟨row, ⟨route, hmem, -⟩, -⟩
        -- a server without a vector route shows no row
        cases hmem
  | some route =>
      rw [hroute] at h
      obtain ⟨found, hfound, -, rfl⟩ := h
      rw [tagVectorHitsWithSnippets, ← List.map_take, List.mem_map]
      constructor
      · rintro ⟨row, hrow, rfl⟩
        exact ⟨row, ⟨route, rfl, found, hfound, hrow⟩, rfl⟩
      · rintro ⟨row, ⟨other, hother, found', hfound', hrow⟩, rfl⟩
        cases hother
        cases hfound.symm.trans hfound'
        exact ⟨row, hrow, rfl⟩

omit [UnicodeTables] [Fts5] in
theorem mem_strings_search {hits : List TaggedHit} {limit : ℕ} {available : Bool} :
    field ∈ (Response.search ⟨(hits.map taggedHitToSearchHit).take limit, available⟩).strings ↔
      ∃ hit ∈ hits.take limit,
        field ∈ [hit.recordId, hit.chunkId, hit.source, hit.route] ∨ field = hit.snippet := by
  simp only [Response.strings, ← List.map_take, List.mem_flatMap, List.mem_map]
  constructor
  · rintro ⟨_, ⟨hit, hhit, rfl⟩, hfield⟩
    refine ⟨hit, hhit, ?_⟩
    simp only [taggedHitToSearchHit, List.mem_cons, List.not_mem_nil, or_false] at hfield ⊢
    tauto
  · rintro ⟨hit, hhit, hfield⟩
    refine ⟨_, ⟨hit, hhit, rfl⟩, ?_⟩
    simp only [taggedHitToSearchHit, List.mem_cons, List.not_mem_nil, or_false] at hfield ⊢
    tauto

/-- A search shows metadata, extracts of its matches and excerpts of the chunks behind its rows. -/
theorem answers_search_iff {params : SearchParams} :
    server.Answers env (.search params) field ↔
      (ToolCall.search params).ShowsField env server field ∨
      (server.ServesSearch env params ∧ ∃ hit ∈ (server.matches env params).take params.cap,
        field = hit.snippet) ∨
      (server.ServesSearch env params ∧ ∃ row, server.ShowsRow env params row ∧
        field = (vectorHitSnippet env.reads server.vault.store row).getD []) := by
  -- the limit cuts the matches first and then what the rows add
  have hhits : ∀ vector, server.AddsVectorHits env params.query params.cap
      ((server.matches env params).map ChunkSearchHit.chunkId) vector →
      ∀ tagged, tagged ∈ (((server.matches env params).map TaggedHit.ofKeyword) ++ vector).take
          params.cap ↔
        (∃ hit ∈ (server.matches env params).take params.cap, tagged = .ofKeyword hit) ∨
          ∃ row, server.ShowsRow env params row ∧
            tagged = .ofVector env.reads server.vault.store row := by
    intro vector hvector tagged
    rw [List.take_append, List.mem_append, List.length_map, mem_addsVectorHits hvector,
      ← List.map_take, List.mem_map]
    exact or_congr_left (exists_congr fun hit => and_congr_right' eq_comm)
  refine answers_map.trans ?_
  constructor
  · rintro ⟨out, hout, hfield⟩
    obtain ⟨hlock, hread, vector, hvector, rfl⟩ := FndrMcpServer.searchInner_eq_ok.1 hout
    have hserves := servesSearch_iff.2 ⟨hlock, hread, vector, hvector⟩
    obtain ⟨tagged, htagged, hfield⟩ := mem_strings_search.1 hfield
    rcases (hhits vector hvector tagged).1 htagged with ⟨hit, hhit, rfl⟩ | ⟨row, hrow, rfl⟩
    · rcases hfield with hfield | hsnippet
      · exact Or.inl ⟨hserves, Or.inl ⟨hit, hhit, hfield⟩⟩
      · exact Or.inr (Or.inl ⟨hserves, hit, hhit, hsnippet⟩)
    · rcases hfield with hfield | hsnippet
      · exact Or.inl ⟨hserves, Or.inr ⟨row, hrow, hfield⟩⟩
      · exact Or.inr (Or.inr ⟨hserves, row, hrow, hsnippet⟩)
  · intro h
    have hserves : server.ServesSearch env params := by
      rcases h with ⟨h, -⟩ | ⟨h, -⟩ | ⟨h, -⟩ <;> exact h
    obtain ⟨hlock, hread, vector, hvector⟩ := servesSearch_iff.1 hserves
    refine ⟨_, FndrMcpServer.searchInner_eq_ok.2 ⟨hlock, hread, vector, hvector, rfl⟩,
      mem_strings_search.2 ?_⟩
    rcases h with ⟨-, hmetadata⟩ | ⟨-, hit, hhit, hsnippet⟩ | ⟨-, row, hrow, hsnippet⟩
    · rcases hmetadata with ⟨hit, hhit, hfield⟩ | ⟨row, hrow, hfield⟩
      · exact ⟨_, (hhits vector hvector _).2 (Or.inl ⟨hit, hhit, rfl⟩), Or.inl hfield⟩
      · exact ⟨_, (hhits vector hvector _).2 (Or.inr ⟨row, hrow, rfl⟩), Or.inl hfield⟩
    · exact ⟨_, (hhits vector hvector _).2 (Or.inl ⟨hit, hhit, rfl⟩), Or.inr hsnippet⟩
    · exact ⟨_, (hhits vector hvector _).2 (Or.inr ⟨row, hrow, rfl⟩), Or.inr hsnippet⟩

/-! ## The ways of a release -/

/-- A tool without snippets releases what its metadata holds. -/
theorem releases_iff_of_fields {call : ToolCall} (hsearch : ∀ params, call ≠ .search params)
    (hfields : ∀ field, server.Answers env call field ↔ call.ShowsField env server field) :
    call.Releases env server ↔ ∃ c ∈ server.vault.store.db.chunks, ∃ field,
      server.Answers env call field ∧ c.text <:+: field := by
  constructor
  · intro h
    cases h with
    | metadata _ field c hfield hc hin => exact ⟨c, hc, field, (hfields field).2 hfield, hin⟩
    | shortChunk params row c => exact absurd rfl (hsearch params)
    | longChunk params row c other => exact absurd rfl (hsearch params)
    | extract params hit c => exact absurd rfl (hsearch params)
  · rintro ⟨c, hc, field, hanswers, hin⟩
    exact .metadata call field c ((hfields field).1 hanswers) hc hin

theorem search_releases_iff {params : SearchParams} :
    (ToolCall.search params).Releases env server ↔ ∃ c ∈ server.vault.store.db.chunks, ∃ field,
      server.Answers env (.search params) field ∧ c.text <:+: field := by
  constructor
  · intro h
    cases h with
    | metadata _ field c hfield hc hin =>
        exact ⟨c, hc, field, answers_search_iff.2 (Or.inl hfield), hin⟩
    | extract _ hit c hserves hhit hc hin =>
        exact ⟨c, hc, _, answers_search_iff.2 (Or.inr (Or.inl ⟨hserves, hit, hhit, rfl⟩)), hin⟩
    | shortChunk _ row c hserves hrow hc hshort =>
        refine ⟨c, hc.1, _, answers_search_iff.2 (Or.inr (Or.inr ⟨hserves, row, hrow, rfl⟩)), ?_⟩
        rw [vectorHitSnippet_eq_some_iff.2 ⟨c, hc, rfl⟩, Option.getD_some, excerpt, if_pos hshort]
    | longChunk _ row c other hserves hrow hc hlong hother hin =>
        refine ⟨other, hother, _,
          answers_search_iff.2 (Or.inr (Or.inr ⟨hserves, row, hrow, rfl⟩)), ?_⟩
        rw [vectorHitSnippet_eq_some_iff.2 ⟨c, hc, rfl⟩, Option.getD_some, excerpt,
          if_neg (not_le.2 hlong)]
        exact hin
  · rintro ⟨c, hc, field, hanswers, hin⟩
    rcases answers_search_iff.1 hanswers with
      hfield | ⟨hserves, hit, hhit, rfl⟩ | ⟨hserves, row, hrow, rfl⟩
    · exact .metadata _ field c hfield hc hin
    · exact .extract params hit c hserves hhit hc hin
    · cases hsnippet : vectorHitSnippet env.reads server.vault.store row with
      | none =>
          -- the snippet is empty, and so is the text; it stands in any field
          rw [hsnippet, Option.getD_none, List.infix_nil] at hin
          refine .metadata _ row.recordId c ⟨hserves, Or.inr ⟨row, hrow, List.mem_cons_self⟩⟩ hc ?_
          rw [hin]
          exact List.nil_infix
      | some snippet =>
          obtain ⟨read, hread, rfl⟩ := vectorHitSnippet_eq_some_iff.1 hsnippet
          rw [hsnippet, Option.getD_some, excerpt] at hin
          split at hin
          · next hshort => exact .shortChunk params row read hserves hrow hread hshort
          · next hlong =>
            exact .longChunk params row read c hserves hrow hread (not_le.1 hlong) hc hin

/-- **What a tool that is not marked hands out** it hands out in one of these ways. -/
theorem releases_iff {call : ToolCall} (hmarked : call.rawReleased = false) :
    call.Releases env server ↔ ∃ c ∈ server.vault.store.db.chunks, ∃ field,
      server.Answers env call field ∧ c.text <:+: field := by
  cases call with
  | search params => exact search_releases_iff
  | privacyStatus =>
      refine releases_iff_of_fields nofun (fun field => ⟨?_, False.elim⟩)
      rintro ⟨response, vault, hinner, hfield⟩
      cases hinner
      exact List.not_mem_nil hfield
  | timeline params => exact releases_iff_of_fields nofun (fun _ => answers_timeline_iff)
  | sourceEvidence params =>
      exact releases_iff_of_fields nofun (fun _ => answers_sourceEvidence_iff hmarked)
  | explainRetrieval params =>
      exact releases_iff_of_fields nofun (fun _ => answers_explainRetrieval_iff)
  | feedback params => exact releases_iff_of_fields nofun (fun _ => answers_feedback_iff)
  | contextPack params => cases hmarked
  | activeFocus params => exact releases_iff_of_fields nofun (fun _ => answers_activeFocus_iff)
  | delta params => exact releases_iff_of_fields nofun (fun _ => answers_delta_iff)
  | openTarget params => exact releases_iff_of_fields nofun (fun _ => answers_openTarget_iff)
  | «recall» params => exact releases_iff_of_fields nofun (fun _ => answers_recall_iff)
  | rememberDecision params =>
      exact releases_iff_of_fields nofun
        (fun _ => ⟨fun h => not_answers_rememberDecision h, False.elim⟩)

end Tools

/-! ## The row of a call -/

omit [UnicodeTables] [Fts5] in
theorem vault_of_map {α : Type} {result : Except ErrorData α} {f : α → Response} {before : McpStore}
    {response : Response} {vault : McpStore}
    (h : result.map (fun out => (f out, before)) = .ok (response, vault)) : vault = before := by
  obtain ⟨out, -, hanswer⟩ := Except.map_eq_ok.1 h
  exact (congrArg Prod.snd hanswer).symm

/-- A tool leaves the captures and the log alone. -/
theorem FndrMcpServer.inner_vault {env : CallEnv} {server : FndrMcpServer} {call : ToolCall}
    {response : Response} {vault : McpStore}
    (h : server.inner env call = .ok (response, vault)) :
    vault.mcpAudit = server.vault.mcpAudit := by
  cases call with
  | feedback params =>
      obtain ⟨done, hout, hanswer⟩ := Except.map_eq_ok.1 h
      cases hanswer
      obtain ⟨-, -, id, hwrite, -⟩ := FndrMcpServer.feedbackInner_eq_ok.1 hout
      obtain ⟨-, -, hvault⟩ := McpStore.recordFeedback_eq_ok.1 hwrite
      exact congrArg (fun left => left.2.mcpAudit) hvault
  | rememberDecision params =>
      obtain ⟨done, hout, hanswer⟩ := Except.map_eq_ok.1 h
      cases hanswer
      obtain ⟨-, -, id, hwrite, -⟩ := FndrMcpServer.rememberDecisionInner_eq_ok.1 hout
      obtain ⟨-, -, hvault⟩ := McpStore.rememberDecision_eq_ok.1 hwrite
      exact congrArg (fun left => left.2.mcpAudit) hvault
  | privacyStatus =>
      cases h
      rfl
  | _ => exact congrArg McpStore.mcpAudit (vault_of_map h)

theorem FndrMcpServer.vaultAfter_mcpAudit (env : CallEnv) (server : FndrMcpServer)
    (call : ToolCall) :
    (server.vaultAfter (server.inner env call)).mcpAudit = server.vault.mcpAudit := by
  cases hinner : server.inner env call with
  | error error => rfl
  | ok done => exact FndrMcpServer.inner_vault hinner

/-- A call that cannot be recorded errs and leaves no row; one that can has one row. -/
theorem FndrMcpServer.callTool_cases (env : CallEnv) (server : FndrMcpServer) (call : ToolCall) :
    (¬ (env.poisoned .audit = false ∧ env.writes .recordToolCall = none) ∧
      (∃ error, (server.callTool env call).1 = .error error) ∧
      (server.callTool env call).2.vault.mcpAudit = server.vault.mcpAudit) ∨
    ((env.poisoned .audit = false ∧ env.writes .recordToolCall = none) ∧
      (server.callTool env call).1 = (server.inner env call).map Prod.fst ∧
      ∃ id, (server.callTool env call).2.vault.mcpAudit = server.vault.mcpAudit ++
        [⟨id, env.nowMs .audit, call.name,
          if (server.inner env call).isOk then "ok".toList else "refused".toList,
          call.rawReleased && (server.inner env call).isOk⟩]) := by
  rw [← server.vaultAfter_mcpAudit env call]
  unfold FndrMcpServer.callTool FndrMcpServer.audit CallEnv.lock
  generalize server.inner env call = result
  cases env.poisoned .audit with
  | true =>
      refine Or.inl ⟨?_, ⟨_, rfl⟩, rfl⟩
      rintro ⟨h, -⟩
      cases h
  | false =>
      unfold McpStore.recordToolCall Faults.check
      cases env.writes .recordToolCall with
      | some error =>
          refine Or.inl ⟨?_, ⟨_, rfl⟩, rfl⟩
          rintro ⟨-, h⟩
          cases h
      | none => exact Or.inr ⟨⟨rfl, rfl⟩, rfl, _, rfl⟩

theorem FndrMcpServer.callTool_eq_ok {env : CallEnv} {server : FndrMcpServer} {call : ToolCall}
    {response : Response} : (server.callTool env call).1 = .ok response ↔
      (env.poisoned .audit = false ∧ env.writes .recordToolCall = none) ∧
        ∃ vault, server.inner env call = .ok (response, vault) := by
  rcases server.callTool_cases env call with ⟨hunrecorded, ⟨error, herror⟩, -⟩ | ⟨hrecorded, hanswer, -⟩
  · rw [herror]
    exact ⟨fun h => (nomatch h), fun h => absurd h.1 hunrecorded⟩
  · rw [hanswer, and_iff_right hrecorded]
    cases server.inner env call with
    | error error =>
        exact ⟨fun h => (nomatch h), fun ⟨_, h⟩ => (nomatch h)⟩
    | ok done =>
        constructor
        · intro h
          cases h
          exact ⟨done.2, rfl⟩
        · rintro ⟨vault, h⟩
          cases h
          rfl

/-- The row of a call that answers. -/
theorem FndrMcpServer.callTool_row {env : CallEnv} {server : FndrMcpServer} {call : ToolCall}
    {response : Response} (h : (server.callTool env call).1 = .ok response) :
    ∃ id, (server.callTool env call).2.vault.mcpAudit = server.vault.mcpAudit ++
      [⟨id, env.nowMs .audit, call.name, "ok".toList, call.rawReleased⟩] := by
  obtain ⟨-, vault, hinner⟩ := FndrMcpServer.callTool_eq_ok.1 h
  rcases server.callTool_cases env call with ⟨-, ⟨error, herror⟩, -⟩ | ⟨-, -, id, hrow⟩
  · rw [herror] at h
    cases h
  · rw [hinner] at hrow
    exact ⟨id, by rw [hrow]; simp [Except.isOk, Except.toBool]⟩

/-- What a call that errs leaves in the log. -/
theorem FndrMcpServer.callTool_refused {env : CallEnv} {server : FndrMcpServer} {call : ToolCall}
    {error : ErrorData} (h : (server.callTool env call).1 = .error error) :
    (server.callTool env call).2.vault.mcpAudit = server.vault.mcpAudit ∨
      ∃ id, (server.callTool env call).2.vault.mcpAudit = server.vault.mcpAudit ++
        [⟨id, env.nowMs .audit, call.name, "refused".toList, false⟩] := by
  rcases server.callTool_cases env call with ⟨-, -, hrow⟩ | ⟨-, hanswer, id, hrow⟩
  · exact Or.inl hrow
  · refine Or.inr ⟨id, ?_⟩
    rw [hanswer] at h
    cases hinner : server.inner env call with
    | error error =>
        rw [hinner] at hrow
        rw [hrow]
        simp [Except.isOk, Except.toBool]
    | ok done =>
        rw [hinner] at h
        cases h

/-- **The log is sound for a call unless it releases a chunk quietly.** One row for an answer and at
    most one for an error, whatever happens; what can fail is the flag of a tool that is not
    marked. -/
theorem auditSound_iff (env : CallEnv) (server : FndrMcpServer) (call : ToolCall) :
    server.AuditSound env call ↔ ¬ call.ReleasesQuietly env server := by
  constructor
  · rintro hsound ⟨hmarked, hlock, hwrite, hreleases⟩
    obtain ⟨c, hc, field, ⟨response, vault, hinner, hfield⟩, hinfix⟩ :=
      (releases_iff hmarked).1 hreleases
    have hanswer := FndrMcpServer.callTool_eq_ok.2 ⟨⟨hlock, hwrite⟩, vault, hinner⟩
    obtain ⟨id, rawReleased, hrow, hraw⟩ := hsound.answered response hanswer
    obtain ⟨id', hrow'⟩ := FndrMcpServer.callTool_row hanswer
    -- the row says what the tool passed, and the answer hands the chunk out
    have hflag : rawReleased = call.rawReleased := by
      rw [hrow', List.append_cancel_left_eq] at hrow
      exact (congrArg AuditEntry.rawReleased (List.singleton_inj.1 hrow)).symm
    have htrue := hraw ⟨c, hc, field, hfield, hinfix⟩
    rw [hflag, hmarked] at htrue
    cases htrue
  · intro hquiet
    refine ⟨fun response hanswer => ?_, fun error herror => FndrMcpServer.callTool_refused herror⟩
    obtain ⟨id, hrow⟩ := FndrMcpServer.callTool_row hanswer
    obtain ⟨⟨hlock, hwrite⟩, vault, hinner⟩ := FndrMcpServer.callTool_eq_ok.1 hanswer
    refine ⟨id, call.rawReleased, hrow, ?_⟩
    rintro ⟨c, hc, field, hfield, hinfix⟩
    by_contra hunmarked
    have hmarked : call.rawReleased = false := eq_false_of_ne_true hunmarked
    exact hquiet ⟨hmarked, hlock, hwrite,
      (releases_iff hmarked).2 ⟨c, hc, field, ⟨response, vault, hinner, hfield⟩, hinfix⟩⟩

end Condition

section Example

attribute [local instance] asciiTables wordFts

/-- The vector route finds a note by its meaning and shows all of it, in a call logged as no
    release. -/
theorem not_auditSound_note :
    ¬ (noteServer "buy milk".toList noteEmbedder).AuditSound quietEnv
      (.search ⟨"groceries".toList, none⟩) := by
  intro hsound
  obtain ⟨id, rawReleased, hrow, hraw⟩ := hsound.answered (.search ⟨[⟨"r".toList, "c".toList,
    "screen".toList, 1000, "buy milk".toList, "vector".toList⟩], true⟩) rfl
  have hunmarked : rawReleased = false := by
    have hrows : _ = ([] ++ [⟨id, 2000, _, _, rawReleased⟩] : List AuditEntry) := hrow
    exact (congrArg AuditEntry.rawReleased (List.singleton_inj.1 hrows)).symm
  have htrue := hraw ⟨⟨1, "c".toList, "r".toList, 0, "buy milk".toList, 0⟩, ?_, "buy milk".toList,
    ?_, List.infix_refl _⟩
  · rw [hunmarked] at htrue
    cases htrue
  · decide +kernel
  · decide +kernel

end Example

end Fndr
