import Fndr.Library.Float64
import Fndr.Privacy.Blocklist
import Fndr.Retrieval.MergedSearch
import Fndr.Store.Ledger

set_option autoImplicit false

/-! # The tools of the MCP server

The twelve tools of `server.rs`, each as the function behind its wrapper: what it refuses, what it
reads and what it answers. A call meets its surroundings in `CallEnv`: which queries and inserts
fail, which acquisitions of the store's lock find it poisoned, and what the clock says. Timestamps
leave as doubles, so an answer holds `asF64` of them. -/

namespace Fndr

open RustStd Rows Binary64

/-! ## Calls and their surroundings -/

/-- The two JSON-RPC codes that the tools answer with. -/
inductive ErrorCode
  | invalidParams
  | internalError
  deriving DecidableEq

/-- A refused call: the code and the text that goes to the agent. -/
structure ErrorData where
  code : ErrorCode
  message : Str
  deriving DecidableEq

/-- `McpError::invalid_params`. -/
def invalidParams (message : Str) : ErrorData := ⟨.invalidParams, message⟩

/-- `McpError::internal_error`. -/
def internalError (message : Str) : ErrorData := ⟨.internalError, message⟩

/-- Where a call takes the store's lock. -/
inductive LockSite
  | tool
  | snippets
  | audit

/-- Where a call reads the clock. -/
inductive ClockSite
  | tool
  | audit

/-- What one call meets: the failures of its reads and writes, the order of the search scan, the
    locks that a panic has poisoned, and the clock. -/
structure CallEnv where
  reads : ReadFaults
  writes : LedgerFaults
  scan : ScanOrder SearchRow
  poisoned : LockSite → Bool
  nowMs : ClockSite → ℤ

/-- `self.store.lock()`, which fails once a panic has poisoned the lock. -/
def CallEnv.lock (env : CallEnv) (site : LockSite) : Except ErrorData Unit :=
  if env.poisoned site then .error (internalError "store lock poisoned".toList) else .ok ()

/-- `.map_err(|e| ErrorData::internal_error(e.to_string(), None))`. -/
def storeAnswer {α : Type} (result : Except StoreError α) : Except ErrorData α :=
  result.mapError (fun error => internalError error.display)

theorem storeAnswer_eq_ok {α : Type} {result : Except StoreError α} {a : α} :
    storeAnswer result = .ok a ↔ result = .ok a := by
  cases result with
  | error error => exact ⟨fun h => (nomatch h), fun h => (nomatch h)⟩
  | ok b => exact ⟨fun h => congrArg _ (Except.ok.inj h), fun h => congrArg _ (Except.ok.inj h)⟩

/-- What a tool does with the answer of the store. -/
theorem storeAnswer_bind_eq_ok {α β : Type} {result : Except StoreError α}
    {k : α → Except ErrorData β} {b : β} :
    (storeAnswer result >>= k) = .ok b ↔ ∃ a, result = .ok a ∧ k a = .ok b :=
  Except.bind_eq_ok.trans (exists_congr (fun _ => and_congr_left' storeAnswer_eq_ok))

theorem CallEnv.lock_bind_eq_ok {α : Type} {env : CallEnv} {site : LockSite}
    {k : Unit → Except ErrorData α} {a : α} :
    (env.lock site >>= k) = .ok a ↔ env.poisoned site = false ∧ k () = .ok a := by
  unfold CallEnv.lock
  cases env.poisoned site with
  | true =>
      constructor
      · intro h
        cases h
      · rintro ⟨h, -⟩
        cases h
  | false => exact ⟨fun h => ⟨rfl, h⟩, fun h => h.2⟩

/-- The server: the vault it reads, the owner's blocklist, and the vector route if there is one. -/
structure FndrMcpServer where
  vault : McpStore
  blocklist : Blocklist
  vectorRoute : Option (QueryEmbedder × IndexDir)

/-- `n as u32`. -/
def asU32 (n : ℕ) : ℕ := n % 2 ^ 32

/-! ## `fndr.search` -/

/-- What `fndr.search` is asked. -/
structure SearchParams where
  query : Str
  limit : Option ℕ

/-- One hit as the agent sees it. -/
structure SearchHitOut where
  recordId : Str
  chunkId : Str
  source : Str
  capturedAtMs : ℤ
  snippet : Str
  route : Str
  deriving DecidableEq

/-- What `fndr.search` answers. -/
structure SearchOutput where
  hits : List SearchHitOut
  vectorRouteAvailable : Bool
  deriving DecidableEq

/-- The hit on the wire, with its time as an `f64`. -/
def taggedHitToSearchHit (hit : TaggedHit) : SearchHitOut where
  recordId := hit.recordId
  chunkId := hit.chunkId
  source := hit.source
  capturedAtMs := asF64 hit.capturedAtMs
  snippet := hit.snippet
  route := hit.route

/-- The vector route with no lock held, then its snippets under one. -/
def FndrMcpServer.vectorPhase (env : CallEnv) (server : FndrMcpServer) (query : Str) (limit : ℕ)
    (seen : List Str) : Except ErrorData (List TaggedHit) :=
  match server.vectorRoute with
  | none => .ok []
  | some (embedder, index) => do
      let rawHits ← (vectorHits embedder index query limit seen).mapError
        (fun error => internalError error.display)
      env.lock .snippets
      return tagVectorHitsWithSnippets env.reads server.vault.store rawHits

section Search

variable [UnicodeTables] [Fts5]

/-- The keyword route under one lock, then the vector route. -/
def FndrMcpServer.searchInner (env : CallEnv) (server : FndrMcpServer) (params : SearchParams) :
    Except ErrorData SearchOutput := do
  let limit := min (params.limit.getD 10) 50
  env.lock .tool
  let (keyword, seen) ← storeAnswer
    (keywordHits env.reads env.scan server.vault.store params.query limit [])
  let vector ← server.vectorPhase env params.query limit seen
  return {
    hits := ((keyword ++ vector).map taggedHitToSearchHit).take limit
    vectorRouteAvailable := server.vectorRoute.isSome }

end Search

/-- The hits the vector route adds: none without a route, else what it finds, with the lock sound
    when their snippets are read. -/
def FndrMcpServer.AddsVectorHits (env : CallEnv) (server : FndrMcpServer) (query : Str) (limit : ℕ)
    (seen : List Str) (tagged : List TaggedHit) : Prop :=
  match server.vectorRoute with
  | none => tagged = []
  | some (embedder, index) => ∃ found, vectorSearch index query limit embedder = .ok found ∧
      env.poisoned .snippets = false ∧
      tagged = tagVectorHitsWithSnippets env.reads server.vault.store (freshHits seen found)

theorem FndrMcpServer.vectorPhase_eq_ok {env : CallEnv} {server : FndrMcpServer} {query : Str}
    {limit : ℕ} {seen : List Str} {tagged : List TaggedHit} :
    server.vectorPhase env query limit seen = .ok tagged ↔
      server.AddsVectorHits env query limit seen tagged := by
  unfold FndrMcpServer.vectorPhase FndrMcpServer.AddsVectorHits
  cases server.vectorRoute with
  | none => exact ⟨fun h => (Except.ok.inj h).symm, fun h => congrArg _ h.symm⟩
  | some route =>
      dsimp only
      unfold vectorHits
      cases vectorSearch route.2 query limit route.1 with
      | error error =>
          constructor
          · intro h
            cases h
          · rintro ⟨found, hfound, -⟩
            cases hfound
      | ok found =>
          refine CallEnv.lock_bind_eq_ok.trans ?_
          constructor
          · rintro ⟨hlock, hout⟩
            exact ⟨found, rfl, hlock, (Except.ok.inj hout).symm⟩
          · rintro ⟨_, hfound, hlock, rfl⟩
            cases hfound
            exact ⟨hlock, rfl⟩

/-- The limit a search runs with. -/
def SearchParams.cap (params : SearchParams) : ℕ := min (params.limit.getD 10) 50

theorem FndrMcpServer.searchInner_eq_ok [UnicodeTables] [Fts5] {env : CallEnv} {server : FndrMcpServer}
    {params : SearchParams} {out : SearchOutput} :
    server.searchInner env params = .ok out ↔ env.poisoned .tool = false ∧
      ((ftsQuery params.query).isSome → env.reads .searchChunks = none) ∧
      ∃ vector, server.AddsVectorHits env params.query params.cap
          ((server.vault.store.db.hits env.scan params.query params.cap).map ChunkSearchHit.chunkId)
          vector ∧
        out = ⟨((((server.vault.store.db.hits env.scan params.query params.cap).map
          TaggedHit.ofKeyword) ++ vector).map taggedHitToSearchHit).take params.cap,
          server.vectorRoute.isSome⟩ := by
  refine CallEnv.lock_bind_eq_ok.trans (and_congr_right' (storeAnswer_bind_eq_ok.trans ?_))
  constructor
  · rintro ⟨⟨keyword, seen⟩, hkeyword, hout⟩
    obtain ⟨hfound, hseen⟩ := keywordHits_ok hkeyword
    obtain ⟨found, hsearch, -⟩ := Except.bind_eq_ok.1 hkeyword
    obtain ⟨vector, hvector, hanswer⟩ := Except.bind_eq_ok.1 hout
    rw [List.append_nil] at hseen
    rw [hseen] at hvector
    refine ⟨(Store.searchChunks_eq_ok.1 hsearch).1, vector,
      FndrMcpServer.vectorPhase_eq_ok.1 hvector, ?_⟩
    rw [← Except.ok.inj hanswer, hfound]
    rfl
  · rintro ⟨hread, vector, hvector, hout⟩
    refine ⟨_, Except.bind_eq_ok.2 ⟨_, Store.searchChunks_eq_ok.2 ⟨hread, rfl⟩, rfl⟩,
      Except.bind_eq_ok.2 ⟨vector, FndrMcpServer.vectorPhase_eq_ok.2 ?_, ?_⟩⟩
    · rw [List.append_nil]
      exact hvector
    · rw [hout]
      rfl

/-! ## `fndr.privacy_status` -/

/-- What `fndr.privacy_status` answers. -/
structure PrivacyStatusOutput where
  localDefault : Bool
  plannerEnabled : Bool
  configuredBlockedApps : ℕ
  configuredBlockedDomains : ℕ
  rawPixelsPersisted : Bool
  deriving DecidableEq

/-- Three facts of the design, and the sizes of the owner's blocklist. -/
def FndrMcpServer.privacyStatusInner (server : FndrMcpServer) :
    Except ErrorData PrivacyStatusOutput :=
  .ok {
    localDefault := true
    plannerEnabled := false
    configuredBlockedApps := asU32 server.blocklist.apps.length
    configuredBlockedDomains := asU32 server.blocklist.domains.length
    rawPixelsPersisted := false }

/-! ## `fndr.timeline` -/

/-- The width of a bucket as the agent asks for it. -/
inductive TimelineGrain
  | hour
  | day
  deriving DecidableEq

/-- What `fndr.timeline` is asked. -/
structure TimelineParams where
  fromMs : ℤ
  toMs : ℤ
  granularity : Option TimelineGrain
  utcOffsetMinutes : Option ℤ
  limit : Option ℕ

/-- One bucket of activity as the agent sees it. -/
structure ActivityBucketOut where
  bucketStartMs : ℤ
  appName : Str
  recordCount : ℤ
  deriving DecidableEq

/-- What `fndr.timeline` answers. -/
structure TimelineOutput where
  fromMs : ℤ
  toMs : ℤ
  granularity : Str
  buckets : List ActivityBucketOut
  truncated : Bool
  deriving DecidableEq

/-- The width of a bucket as the store takes it. -/
def TimelineGrain.granularity : TimelineGrain → TimelineGranularity
  | .hour => .hour
  | .day => .day

/-- The width of a bucket as the answer names it. -/
def TimelineGrain.word : TimelineGrain → Str
  | .hour => "hour".toList
  | .day => "day".toList

/-- The bucket on the wire, with its start as an `f64`. -/
def ActivityBucketOut.ofBucket (bucket : ActivityBucket) : ActivityBucketOut :=
  ⟨asF64 bucket.bucketStartMs, bucket.appName, bucket.recordCount⟩

/-- The answer made of the store's buckets; a full page counts as truncated. -/
def TimelineOutput.ofBuckets (fromMs toMs : ℤ) (grain : TimelineGrain) (limit : ℕ)
    (buckets : List ActivityBucket) : TimelineOutput where
  fromMs := asF64 fromMs
  toMs := asF64 toMs
  granularity := grain.word
  truncated := buckets.length == limit
  buckets := buckets.map ActivityBucketOut.ofBucket

/-- Check the window and the offset, then read the buckets. -/
def FndrMcpServer.timelineInner (env : CallEnv) (server : FndrMcpServer) (params : TimelineParams) :
    Except ErrorData TimelineOutput := do
  if params.toMs < params.fromMs then
    .error (invalidParams "to_ms must not precede from_ms".toList)
  let utcOffsetMinutes := params.utcOffsetMinutes.getD 0
  if ¬ (-(12 * 60) ≤ utcOffsetMinutes ∧ utcOffsetMinutes ≤ 14 * 60) then
    .error (invalidParams "utc_offset_minutes must be within -720..=840".toList)
  let grain := params.granularity.getD .day
  let limit := min (params.limit.getD 200) 1000
  -- the parameters are checked before the lock is taken
  env.lock .tool
  let buckets ← storeAnswer (server.vault.store.activityBuckets env.reads params.fromMs params.toMs
    grain.granularity utcOffsetMinutes limit)
  return .ofBuckets params.fromMs params.toMs grain limit buckets

/-- The window and the offset that the tool accepts. -/
def TimelineParams.Accepted (params : TimelineParams) : Prop :=
  params.fromMs ≤ params.toMs ∧
    (-(12 * 60) ≤ params.utcOffsetMinutes.getD 0 ∧ params.utcOffsetMinutes.getD 0 ≤ 14 * 60)

/-- The buckets of the window that the tool asks the store for. -/
def TimelineParams.activity (params : TimelineParams) (db : Db) : Option (List ActivityBucket) :=
  db.activity params.fromMs params.toMs (params.granularity.getD .day).granularity
    (params.utcOffsetMinutes.getD 0) (min (params.limit.getD 200) 1000)

theorem FndrMcpServer.timelineInner_eq_ok {env : CallEnv} {server : FndrMcpServer}
    {params : TimelineParams} {out : TimelineOutput} :
    server.timelineInner env params = .ok out ↔ params.Accepted ∧ env.poisoned .tool = false ∧
      env.reads .activityBuckets = none ∧
      ∃ buckets, params.activity server.vault.store.db = some buckets ∧
        out = .ofBuckets params.fromMs params.toMs (params.granularity.getD .day)
          (min (params.limit.getD 200) 1000) buckets := by
  unfold FndrMcpServer.timelineInner TimelineParams.Accepted
  by_cases hwindow : params.toMs < params.fromMs
  · rw [if_pos hwindow]
    exact ⟨fun h => (nomatch h), fun h => absurd h.1.1 (not_le.2 hwindow)⟩
  rw [if_neg hwindow]
  by_cases hoffset : -(12 * 60) ≤ params.utcOffsetMinutes.getD 0 ∧
      params.utcOffsetMinutes.getD 0 ≤ 14 * 60
  · dsimp only
    rw [if_neg (not_not.2 hoffset)]
    refine CallEnv.lock_bind_eq_ok.trans ?_
    rw [storeAnswer_bind_eq_ok]
    constructor
    · rintro ⟨hlock, buckets, hbuckets, hout⟩
      obtain ⟨hread, hactivity⟩ := Store.activityBuckets_eq_ok.1 hbuckets
      exact ⟨⟨not_lt.1 hwindow, hoffset⟩, hlock, hread, buckets, hactivity,
        (Except.ok.inj hout).symm⟩
    · rintro ⟨-, hlock, hread, buckets, hactivity, rfl⟩
      exact ⟨hlock, buckets, Store.activityBuckets_eq_ok.2 ⟨hread, hactivity⟩, rfl⟩
  · dsimp only
    rw [if_pos hoffset]
    exact ⟨fun h => (nomatch h), fun h => absurd h.1.2 hoffset⟩

/-! ## `fndr.source_evidence` -/

/-- What `fndr.source_evidence` is asked. -/
structure SourceEvidenceParams where
  recordId : Str
  includeRaw : Option Bool

/-- One chunk of the evidence; its text only where raw text was asked for. -/
structure ChunkEvidenceOut where
  chunkId : Str
  ord : ℤ
  textLen : ℕ
  text : Option Str
  deriving DecidableEq

/-- What `fndr.source_evidence` answers. -/
structure SourceEvidenceOutput where
  recordId : Str
  sessionId : Str
  source : Str
  appName : Str
  bundleId : Option Str
  url : Option Str
  windowTitle : Str
  capturedAtMs : ℤ
  chunks : List ChunkEvidenceOut
  rawIncluded : Bool
  deriving DecidableEq

/-- The evidence of a record the caller names. -/
def FndrMcpServer.namedEvidence (env : CallEnv) (server : FndrMcpServer) (recordId : Str) :
    Except ErrorData RecordEvidence := do
  env.lock .tool
  match ← storeAnswer (server.vault.store.recordEvidence env.reads .call recordId) with
  | none => .error (invalidParams "unknown record_id".toList)
  | some evidence => return evidence

/-- The record is there with this evidence, and both queries behind it run. -/
def CallEnv.CanRead (env : CallEnv) (store : Store) (recordId : Str) (evidence : RecordEvidence) :
    Prop :=
  env.reads (.evidenceRecord .call) = none ∧ store.db.evidence recordId = some evidence ∧
    env.reads (.evidenceChunks .call) = none

theorem FndrMcpServer.namedEvidence_eq_ok {env : CallEnv} {server : FndrMcpServer} {recordId : Str}
    {evidence : RecordEvidence} :
    server.namedEvidence env recordId = .ok evidence ↔
      env.poisoned .tool = false ∧ env.CanRead server.vault.store recordId evidence := by
  refine CallEnv.lock_bind_eq_ok.trans (and_congr_right' (storeAnswer_bind_eq_ok.trans ?_))
  constructor
  · rintro ⟨found, hfound, hanswer⟩
    cases found with
    | none => cases hanswer
    | some found =>
        cases hanswer
        exact Store.recordEvidence_eq_some.1 hfound
  · intro h
    exact ⟨some evidence, Store.recordEvidence_eq_some.2 h, rfl⟩

/-- A tool that answers from the evidence of one record. -/
theorem FndrMcpServer.namedEvidence_bind_eq_ok {α : Type} {env : CallEnv} {server : FndrMcpServer}
    {recordId : Str} {answer : RecordEvidence → α} {out : α} :
    (server.namedEvidence env recordId >>= fun evidence => pure (answer evidence)) = .ok out ↔
      env.poisoned .tool = false ∧
        ∃ evidence, env.CanRead server.vault.store recordId evidence ∧ out = answer evidence := by
  refine Except.bind_eq_ok.trans ?_
  constructor
  · rintro ⟨evidence, hevidence, hout⟩
    obtain ⟨hlock, hread⟩ := FndrMcpServer.namedEvidence_eq_ok.1 hevidence
    exact ⟨hlock, evidence, hread, (Except.ok.inj hout).symm⟩
  · rintro ⟨hlock, evidence, hread, rfl⟩
    exact ⟨evidence, FndrMcpServer.namedEvidence_eq_ok.2 ⟨hlock, hread⟩, rfl⟩

/-- A chunk of the answer, with its text when the caller opted in. -/
def ChunkEvidenceOut.ofChunk (includeRaw : Bool) (chunk : ChunkEvidence) : ChunkEvidenceOut where
  chunkId := chunk.chunkId
  ord := chunk.ord
  textLen := asU32 (byteLen chunk.text)
  text := if includeRaw then some chunk.text else none

/-- The answer made of a record's evidence, with the texts of its chunks if `includeRaw`. -/
def SourceEvidenceOutput.ofEvidence (includeRaw : Bool) (evidence : RecordEvidence) :
    SourceEvidenceOutput where
  recordId := evidence.recordId
  sessionId := evidence.sessionId
  source := evidence.source
  appName := evidence.appName
  bundleId := evidence.bundleId
  url := evidence.url
  windowTitle := evidence.windowTitle
  capturedAtMs := asF64 evidence.capturedAtMs
  chunks := evidence.chunks.map (ChunkEvidenceOut.ofChunk includeRaw)
  rawIncluded := includeRaw

/-- The evidence of the named record; raw text is released on request only. -/
def FndrMcpServer.sourceEvidenceInner (env : CallEnv) (server : FndrMcpServer)
    (params : SourceEvidenceParams) : Except ErrorData SourceEvidenceOutput := do
  let includeRaw := params.includeRaw.getD false
  let evidence ← server.namedEvidence env params.recordId
  return .ofEvidence includeRaw evidence

theorem FndrMcpServer.sourceEvidenceInner_eq_ok {env : CallEnv} {server : FndrMcpServer}
    {params : SourceEvidenceParams} {out : SourceEvidenceOutput} :
    server.sourceEvidenceInner env params = .ok out ↔ env.poisoned .tool = false ∧
      ∃ evidence, env.CanRead server.vault.store params.recordId evidence ∧
        out = .ofEvidence (params.includeRaw.getD false) evidence :=
  FndrMcpServer.namedEvidence_bind_eq_ok

/-! ## `fndr.explain_retrieval` -/

/-- What `fndr.explain_retrieval` is asked. -/
structure ExplainRetrievalParams where
  query : Str
  limit : Option ℕ

/-- What `fndr.explain_retrieval` answers. -/
structure ExplainRetrievalOutput where
  query : Str
  route : Str
  terms : List Str
  ftsExpression : Option Str
  matchMode : Str
  totalMatches : ℤ
  wouldReturn : ℤ
  droppedByLimit : ℤ
  storeLimitCap : ℤ
  notes : List Str
  deriving DecidableEq

/-- The remarks on a query: no term left of it, several terms that no chunk has together, a limit
    beyond the ceiling; and two that always stand. -/
def explainNotes (requested : ℤ) (explanation : SearchExplanation) : List Str :=
  (if explanation.ftsExpression.isNone then
    ["No usable terms survived normalization, so this query matches nothing. ".toList ++
      "That is an empty result, not an error.".toList]
  else if explanation.totalMatches = 0 ∧ 1 < explanation.terms.length then
    ["Every term must match. One word absent from a chunk excludes it, ".toList ++
      "which is the usual reason a multi-word query finds nothing.".toList]
  else []) ++
  -- the cap is told even when nothing was found
  (if requested > explanation.storeLimitCap then
    ["The requested limit exceeds the store's ceiling of ".toList ++
      (toString explanation.storeLimitCap).toList ++ ", which applies regardless.".toList]
  else []) ++
  ["Privacy exclusion happens at capture, not retrieval: blocked or redacted content was ".toList ++
      "never stored, so it cannot appear here as dropped.".toList,
    "Only the keyword route exists. Nothing was ranked semantically, so a miss here does not ".toList ++
      "mean a semantic search would also miss.".toList]

/-- The answer made of the store's explanation. -/
def ExplainRetrievalOutput.ofExplanation (query : Str) (requested : ℤ)
    (explanation : SearchExplanation) : ExplainRetrievalOutput :=
  let effectiveLimit := min requested explanation.storeLimitCap
  let wouldReturn := min explanation.totalMatches effectiveLimit
  { query := query
    route := "keyword".toList
    terms := explanation.terms
    ftsExpression := explanation.ftsExpression
    matchMode := "all_terms".toList
    totalMatches := explanation.totalMatches
    wouldReturn := wouldReturn
    droppedByLimit := explanation.totalMatches - wouldReturn
    storeLimitCap := explanation.storeLimitCap
    notes := explainNotes requested explanation }

section Explain

variable [UnicodeTables] [Fts5]

/-- Explain the keyword route's search without running it. -/
def FndrMcpServer.explainRetrievalInner (env : CallEnv) (server : FndrMcpServer)
    (params : ExplainRetrievalParams) : Except ErrorData ExplainRetrievalOutput := do
  let requested : ℤ := (params.limit.getD 10 : ℕ)
  env.lock .tool
  let explanation ← storeAnswer (server.vault.store.explainChunkSearch env.reads params.query)
  return .ofExplanation params.query requested explanation

theorem FndrMcpServer.explainRetrievalInner_eq_ok {env : CallEnv} {server : FndrMcpServer}
    {params : ExplainRetrievalParams} {out : ExplainRetrievalOutput} :
    server.explainRetrievalInner env params = .ok out ↔ env.poisoned .tool = false ∧
      ((ftsQuery params.query).isSome → env.reads .explainChunkSearch = none) ∧
        out = .ofExplanation params.query (params.limit.getD 10 : ℕ) ⟨ftsTerms params.query,
          ftsQuery params.query, server.vault.store.db.totalMatches params.query,
          SEARCH_LIMIT_CAP⟩ := by
  refine CallEnv.lock_bind_eq_ok.trans (and_congr_right' (storeAnswer_bind_eq_ok.trans ?_))
  constructor
  · rintro ⟨explanation, hexplain, hout⟩
    obtain ⟨hread, rfl⟩ := Store.explainChunkSearch_eq_ok.1 hexplain
    exact ⟨hread, (Except.ok.inj hout).symm⟩
  · rintro ⟨hread, rfl⟩
    exact ⟨_, Store.explainChunkSearch_eq_ok.2 ⟨hread, rfl⟩, rfl⟩

end Explain

/-! ## `fndr.feedback` -/

/-- The ratings that feedback knows. -/
inductive Rating
  | helpful
  | unhelpful
  | irrelevant
  deriving DecidableEq

/-- The rating as its row stores it. -/
def Rating.asStr : Rating → Str
  | .helpful => "helpful".toList
  | .unhelpful => "unhelpful".toList
  | .irrelevant => "irrelevant".toList

/-- What `fndr.feedback` is given. -/
structure FeedbackParams where
  rating : Rating
  query : Str
  recordId : Option Str
  chunkId : Option Str
  note : Option Str

/-- What `fndr.feedback` answers. -/
structure FeedbackOutput where
  id : ℕ
  rating : Str
  rankingChanged : Bool
  deriving DecidableEq

/-- Store feedback on a result; it needs the query the result was given for. -/
def FndrMcpServer.feedbackInner (env : CallEnv) (server : FndrMcpServer) (params : FeedbackParams) :
    Except ErrorData (FeedbackOutput × McpStore) := do
  if trim params.query = [] then
    .error (invalidParams ("query must not be empty: feedback without the query ".toList ++
      "it was given for cannot be replayed".toList))
  env.lock .tool
  let (id, vault) ← storeAnswer (server.vault.recordFeedback env.writes (env.nowMs .tool)
    params.recordId params.chunkId params.query params.rating.asStr (params.note.getD []))
  return (⟨id, params.rating.asStr, false⟩, vault)

/-- A tool that answers with the id of what it wrote. -/
theorem CallEnv.lock_write_eq_ok {α : Type} {env : CallEnv} {write : Except StoreError (ℕ × McpStore)}
    (answer : ℕ → α) {out : α} {vault : McpStore} :
    (env.lock .tool >>= fun _ => storeAnswer write >>= fun done =>
        pure (answer done.1, done.2)) = .ok (out, vault) ↔
      env.poisoned .tool = false ∧ ∃ id, write = .ok (id, vault) ∧ out = answer id := by
  refine CallEnv.lock_bind_eq_ok.trans (and_congr_right' (storeAnswer_bind_eq_ok.trans ?_))
  constructor
  · rintro ⟨⟨id, after⟩, hwrite, hout⟩
    cases hout
    exact ⟨id, hwrite, rfl⟩
  · rintro ⟨id, hwrite, rfl⟩
    exact ⟨(id, vault), hwrite, rfl⟩

theorem FndrMcpServer.feedbackInner_eq_ok {env : CallEnv} {server : FndrMcpServer}
    {params : FeedbackParams} {out : FeedbackOutput} {vault : McpStore} :
    server.feedbackInner env params = .ok (out, vault) ↔ trim params.query ≠ [] ∧
      env.poisoned .tool = false ∧ ∃ id, server.vault.recordFeedback env.writes (env.nowMs .tool)
        params.recordId params.chunkId params.query params.rating.asStr (params.note.getD [])
          = .ok (id, vault) ∧ out = ⟨id, params.rating.asStr, false⟩ := by
  unfold FndrMcpServer.feedbackInner
  by_cases hquery : trim params.query = []
  · rw [if_pos hquery]
    exact ⟨fun h => (nomatch h), fun h => absurd hquery h.1⟩
  rw [if_neg hquery]
  refine Iff.trans ?_ (and_iff_right hquery).symm
  exact CallEnv.lock_write_eq_ok (fun id => FeedbackOutput.mk id params.rating.asStr false)

/-! ## `fndr.context_pack` -/

/-- Bytes of text to a token, as the budget estimates it. -/
def CHARS_PER_ESTIMATED_TOKEN : ℕ := 4

/-- What `fndr.context_pack` is asked. -/
structure ContextPackParams where
  goal : Str
  tokenBudget : Option ℕ
  maxRecords : Option ℕ

/-- One packed chunk, with the record it is from. -/
structure PackedEvidence where
  recordId : Str
  chunkId : Str
  appName : Str
  windowTitle : Str
  url : Option Str
  capturedAtMs : ℤ
  text : Str
  estimatedTokens : ℕ
  deriving DecidableEq

/-- What `fndr.context_pack` answers. -/
structure ContextPackOutput where
  goal : Str
  retrievalRoute : Str
  tokenBudget : ℕ
  estimatedTokensUsed : ℕ
  items : List PackedEvidence
  droppedForBudget : ℕ
  deriving DecidableEq

/-- `n.div_ceil(CHARS_PER_ESTIMATED_TOKEN)`. -/
def estimatedTokens (chars : ℕ) : ℕ :=
  (chars + CHARS_PER_ESTIMATED_TOKEN - 1) / CHARS_PER_ESTIMATED_TOKEN

/-- The item made of a chunk and the evidence of its record. -/
def PackedEvidence.ofChunk (evidence : RecordEvidence) (chunk : ChunkEvidence) :
    PackedEvidence where
  recordId := evidence.recordId
  chunkId := chunk.chunkId
  appName := evidence.appName
  windowTitle := evidence.windowTitle
  url := evidence.url
  capturedAtMs := asF64 evidence.capturedAtMs
  text := chunk.text
  estimatedTokens := asU32 (Fndr.estimatedTokens (byteLen chunk.text))

/-- The pack so far: its items, the characters they use, and the hits that did not fit. -/
structure Pack where
  items : List PackedEvidence
  usedChars : ℕ
  droppedForBudget : ℕ

/-- The packing loop. A hit whose record or chunk is gone is passed over. -/
def packHits (env : CallEnv) (store : Store) (budgetChars : ℕ) :
    List ChunkSearchHit → Pack → Except ErrorData Pack
  | [], pack => .ok pack
  | hit :: hits, pack => do
      match ← storeAnswer (store.recordEvidence env.reads (.packItem hit.chunkId) hit.recordId) with
      | none => packHits env store budgetChars hits pack
      | some evidence =>
          match evidence.chunks.find? (fun chunk => chunk.chunkId == hit.chunkId) with
          | none => packHits env store budgetChars hits pack
          | some chunk =>
              -- a later and shorter hit may still fit
              if pack.usedChars + byteLen chunk.text > budgetChars then
                packHits env store budgetChars hits
                  { pack with droppedForBudget := pack.droppedForBudget + 1 }
              else
                packHits env store budgetChars hits { pack with
                  items := pack.items ++ [.ofChunk evidence chunk]
                  usedChars := pack.usedChars + byteLen chunk.text }

section ContextPack

variable [UnicodeTables] [Fts5]

/-- Search for the goal and pack the hits' whole texts, in order, into the budget. -/
def FndrMcpServer.contextPackInner (env : CallEnv) (server : FndrMcpServer)
    (params : ContextPackParams) : Except ErrorData ContextPackOutput := do
  if trim params.goal = [] then
    .error (invalidParams "goal must not be empty".toList)
  -- the caller's bounds are cut, not refused
  let tokenBudget := min (params.tokenBudget.getD 2000) 8000
  let maxRecords := min (params.maxRecords.getD 20) 100
  env.lock .tool
  let hits ← storeAnswer
    (server.vault.store.searchChunks env.reads env.scan params.goal maxRecords)
  let pack ← packHits env server.vault.store (tokenBudget * CHARS_PER_ESTIMATED_TOKEN) hits ⟨[], 0, 0⟩
  return {
    goal := params.goal
    retrievalRoute := "keyword".toList
    tokenBudget := tokenBudget
    estimatedTokensUsed := asU32 (estimatedTokens pack.usedChars)
    items := pack.items
    droppedForBudget := pack.droppedForBudget }

end ContextPack

/-! ## `fndr.active_focus` -/

/-- The age from which the last capture counts as stale, unless the agent says otherwise. -/
def DEFAULT_STALE_AFTER_MS : ℤ := 5 * 60 * 1000

/-- What `fndr.active_focus` is asked. -/
structure ActiveFocusParams where
  staleAfterMs : Option ℤ

/-- What `fndr.active_focus` answers. -/
structure ActiveFocusOutput where
  status : Str
  appName : Option Str
  windowTitle : Option Str
  url : Option Str
  bundleId : Option Str
  recordId : Option Str
  capturedAtMs : Option ℤ
  ageMs : Option ℤ
  staleAfterMs : ℤ
  deriving DecidableEq

/-- `i64::saturating_sub`, then not below zero. -/
def captureAgeMs (nowMs capturedAtMs : ℤ) : ℤ :=
  max (max (-2 ^ 63) (min (2 ^ 63 - 1) (nowMs - capturedAtMs))) 0

/-- The answer made of the newest record, stale or active by its age. -/
def ActiveFocusOutput.ofEvidence (nowMs staleAfterMs : ℤ) (evidence : RecordEvidence) :
    ActiveFocusOutput where
  status := if captureAgeMs nowMs evidence.capturedAtMs > staleAfterMs then "stale".toList
    else "active".toList
  appName := some evidence.appName
  windowTitle := some evidence.windowTitle
  url := evidence.url
  bundleId := evidence.bundleId
  recordId := some evidence.recordId
  capturedAtMs := some (asF64 evidence.capturedAtMs)
  ageMs := some (asF64 (captureAgeMs nowMs evidence.capturedAtMs))
  staleAfterMs := asF64 staleAfterMs

/-- The answer when nothing has been captured. -/
def ActiveFocusOutput.none (staleAfterMs : ℤ) : ActiveFocusOutput where
  status := "none".toList
  appName := Option.none
  windowTitle := Option.none
  url := Option.none
  bundleId := Option.none
  recordId := Option.none
  capturedAtMs := Option.none
  ageMs := Option.none
  staleAfterMs := asF64 staleAfterMs

/-- The evidence of the newest record. -/
def FndrMcpServer.focusEvidence (env : CallEnv) (server : FndrMcpServer) :
    Option Str → Except ErrorData (Option RecordEvidence)
  | some recordId => storeAnswer (server.vault.store.recordEvidence env.reads .call recordId)
  | none => .ok none

/-- The newest record and how old it is. -/
def FndrMcpServer.activeFocusInner (env : CallEnv) (server : FndrMcpServer)
    (params : ActiveFocusParams) : Except ErrorData ActiveFocusOutput := do
  let staleAfterMs := params.staleAfterMs.getD DEFAULT_STALE_AFTER_MS
  if staleAfterMs < 0 then
    .error (invalidParams "stale_after_ms must not be negative".toList)
  env.lock .tool
  let latest ← storeAnswer (server.vault.store.latestRecordId env.reads)
  match ← server.focusEvidence env latest with
  | none => return .none staleAfterMs
  | some evidence => return .ofEvidence (env.nowMs .tool) staleAfterMs evidence

/-- The newest record can be read, if there is one. -/
def CallEnv.Focus (env : CallEnv) (store : Store) : Option RecordEvidence → Prop
  | some evidence => ∃ recordId, store.db.latestRecordId = some recordId ∧
      env.CanRead store recordId evidence
  | none => store.db.latestRecordId = none

/-- The answer made of the newest record, if there is one. -/
def ActiveFocusOutput.ofFocus (nowMs staleAfterMs : ℤ) : Option RecordEvidence → ActiveFocusOutput
  | some evidence => .ofEvidence nowMs staleAfterMs evidence
  | Option.none => .none staleAfterMs

/-- `latest_record_id` names a record of the store. -/
theorem Db.evidence_of_latest {db : Db} {recordId : Str} (h : db.latestRecordId = some recordId) :
    (db.evidence recordId).isSome := by
  unfold Db.latestRecordId at h
  obtain ⟨r, hr, rfl⟩ := Option.map_eq_some_iff.1 h
  have hmem : r ∈ db.memoryRecords :=
    (List.mem_insertionSort NewestRecordFirst).1 (List.mem_of_head? hr)
  rw [Db.evidence, Option.isSome_map, List.find?_isSome]
  exact ⟨r, hmem, beq_self_eq_true r.id⟩

theorem FndrMcpServer.focusEvidence_eq_ok {env : CallEnv} {server : FndrMcpServer}
    {focus : Option RecordEvidence} :
    server.focusEvidence env server.vault.store.db.latestRecordId = .ok focus ↔
      env.Focus server.vault.store focus := by
  cases hlatest : server.vault.store.db.latestRecordId with
  | none => cases focus <;> simp [FndrMcpServer.focusEvidence, CallEnv.Focus, hlatest]
  | some recordId =>
      rw [FndrMcpServer.focusEvidence, storeAnswer_eq_ok]
      cases focus with
      | none =>
          rw [Store.recordEvidence_eq_none]
          have hsome := Db.evidence_of_latest hlatest
          simp [CallEnv.Focus, hlatest, Option.isSome_iff_ne_none.1 hsome]
      | some evidence =>
          rw [Store.recordEvidence_eq_some]
          simp [CallEnv.Focus, hlatest, CallEnv.CanRead]

theorem FndrMcpServer.activeFocusInner_eq_ok {env : CallEnv} {server : FndrMcpServer}
    {params : ActiveFocusParams} {out : ActiveFocusOutput} :
    server.activeFocusInner env params = .ok out ↔
      0 ≤ params.staleAfterMs.getD DEFAULT_STALE_AFTER_MS ∧ env.poisoned .tool = false ∧
      env.reads .latestRecordId = none ∧ ∃ focus, env.Focus server.vault.store focus ∧
        out = .ofFocus (env.nowMs .tool) (params.staleAfterMs.getD DEFAULT_STALE_AFTER_MS) focus := by
  unfold FndrMcpServer.activeFocusInner
  dsimp only
  by_cases hstale : params.staleAfterMs.getD DEFAULT_STALE_AFTER_MS < 0
  · rw [if_pos hstale]
    exact ⟨fun h => (nomatch h), fun h => absurd h.1 (not_le.2 hstale)⟩
  rw [if_neg hstale]
  refine CallEnv.lock_bind_eq_ok.trans ?_
  rw [storeAnswer_bind_eq_ok]
  constructor
  · rintro ⟨hlock, latest, hlatest, hanswer⟩
    obtain ⟨hread, rfl⟩ := Store.latestRecordId_eq_ok.1 hlatest
    obtain ⟨focus, hfocus, hout⟩ := Except.bind_eq_ok.1 hanswer
    refine ⟨not_lt.1 hstale, hlock, hread, focus, FndrMcpServer.focusEvidence_eq_ok.1 hfocus, ?_⟩
    cases focus <;> exact (Except.ok.inj hout).symm
  · rintro ⟨-, hlock, hread, focus, hfocus, rfl⟩
    refine ⟨hlock, _, Store.latestRecordId_eq_ok.2 ⟨hread, rfl⟩,
      Except.bind_eq_ok.2 ⟨focus, FndrMcpServer.focusEvidence_eq_ok.2 hfocus, ?_⟩⟩
    cases focus <;> rfl

/-! ## `fndr.delta` -/

/-- What `fndr.delta` is asked. -/
structure DeltaParams where
  sinceMs : ℤ
  appLimit : Option ℕ

/-- The number of new records of one app. -/
structure AppChangeOut where
  appName : Str
  recordCount : ℤ
  deriving DecidableEq

/-- What `fndr.delta` answers. -/
structure DeltaOutput where
  sinceMs : ℤ
  recordCount : ℤ
  newestCapturedAtMs : Option ℤ
  apps : List AppChangeOut
  deriving DecidableEq

/-- The answer made of the store's summary, with the times as `f64`. -/
def DeltaOutput.ofSummary (sinceMs : ℤ) (summary : ChangeSummary) : DeltaOutput where
  sinceMs := asF64 sinceMs
  recordCount := summary.recordCount
  newestCapturedAtMs := summary.newestCapturedAtMs.map asF64
  apps := summary.apps.map (fun app => ⟨app.appName, app.recordCount⟩)

/-- What was captured since the agent's cursor, by app. -/
def FndrMcpServer.deltaInner (env : CallEnv) (server : FndrMcpServer) (params : DeltaParams) :
    Except ErrorData DeltaOutput := do
  let appLimit := min (params.appLimit.getD 10) 100
  env.lock .tool
  let summary ← storeAnswer (server.vault.store.changesSince env.reads params.sinceMs appLimit)
  return .ofSummary params.sinceMs summary

theorem FndrMcpServer.deltaInner_eq_ok {env : CallEnv} {server : FndrMcpServer}
    {params : DeltaParams} {out : DeltaOutput} :
    server.deltaInner env params = .ok out ↔
      env.poisoned .tool = false ∧ env.reads .changesSince = none ∧
        out = .ofSummary params.sinceMs (server.vault.store.db.changes params.sinceMs
          (min (params.appLimit.getD 10) 100)) := by
  refine CallEnv.lock_bind_eq_ok.trans (and_congr_right' (storeAnswer_bind_eq_ok.trans ?_))
  constructor
  · rintro ⟨summary, hsummary, hout⟩
    obtain ⟨hread, rfl⟩ := Store.changesSince_eq_ok.1 hsummary
    exact ⟨hread, (Except.ok.inj hout).symm⟩
  · rintro ⟨hread, rfl⟩
    exact ⟨_, Store.changesSince_eq_ok.2 ⟨hread, rfl⟩, rfl⟩

/-! ## `fndr.open_target` -/

/-- What `fndr.open_target` is asked. -/
structure OpenTargetParams where
  recordId : Str

/-- What `fndr.open_target` answers. -/
structure OpenTargetOutput where
  recordId : Str
  kind : Str
  url : Option Str
  bundleId : Option Str
  appName : Str
  windowTitle : Str
  reason : Option Str
  deriving DecidableEq

/-- The URL of a record if it has one, else its app, else the reason why nothing can be opened. -/
def OpenTargetOutput.ofEvidence (evidence : RecordEvidence) : OpenTargetOutput :=
  let (kind, url, bundleId, reason) := match evidence.url, evidence.bundleId with
    | some url, bundleId => ("url".toList, some url, bundleId, none)
    | none, some bundleId => ("app".toList, none, some bundleId, none)
    | none, none => ("unavailable".toList, none, none,
        some "this memory retained no URL and no bundle identifier".toList)
  ⟨evidence.recordId, kind, url, bundleId, evidence.appName, evidence.windowTitle, reason⟩

/-- Where the named record can be opened; nothing is opened. -/
def FndrMcpServer.openTargetInner (env : CallEnv) (server : FndrMcpServer)
    (params : OpenTargetParams) : Except ErrorData OpenTargetOutput := do
  let evidence ← server.namedEvidence env params.recordId
  return .ofEvidence evidence

theorem FndrMcpServer.openTargetInner_eq_ok {env : CallEnv} {server : FndrMcpServer}
    {params : OpenTargetParams} {out : OpenTargetOutput} :
    server.openTargetInner env params = .ok out ↔ env.poisoned .tool = false ∧
      ∃ evidence, env.CanRead server.vault.store params.recordId evidence ∧
        out = .ofEvidence evidence :=
  FndrMcpServer.namedEvidence_bind_eq_ok

/-! ## `fndr.recall` -/

/-- The kinds of facts that an agent may ask for. -/
inductive RecallKind
  | decision
  | error
  | blocker
  | todo
  deriving DecidableEq

/-- What `fndr.recall` is asked. -/
structure RecallParams where
  kind : RecallKind
  sinceMs : Option ℤ
  limit : Option ℕ

/-- One decision as the agent sees it. -/
structure RecalledDecision where
  id : ℕ
  decidedAtMs : ℤ
  statement : Str
  recordId : Option Str
  deriving DecidableEq

/-- What `fndr.recall` answers. -/
structure RecallOutput where
  kind : Str
  decisions : List RecalledDecision
  deriving DecidableEq

/-- The name of a kind that no data backs. -/
def RecallKind.unbacked : RecallKind → Option Str
  | .decision => none
  | .error => some "error".toList
  | .blocker => some "blocker".toList
  | .todo => some "todo".toList

theorem RecallKind.unbacked_eq_none {kind : RecallKind} :
    kind.unbacked = none ↔ kind = .decision := by
  cases kind <;> simp [RecallKind.unbacked]

/-- The decision on the wire, with its time as an `f64`. -/
def RecalledDecision.ofDecision (decision : LedgerDecision) : RecalledDecision :=
  ⟨decision.id, asF64 decision.decidedAtMs, decision.statement, decision.recordId⟩

/-- The recorded decisions, newest first; the other kinds are refused. -/
def FndrMcpServer.recallInner (env : CallEnv) (server : FndrMcpServer) (params : RecallParams) :
    Except ErrorData RecallOutput := do
  match params.kind.unbacked with
  | some kind =>
      .error (invalidParams ("recall kind '".toList ++ kind ++
        "' has no data model yet; only 'decision' is recorded".toList))
  | none =>
      let limit := min (params.limit.getD 20) 200
      env.lock .tool
      let decisions ← storeAnswer (server.vault.recentDecisions env.reads params.sinceMs limit)
      return ⟨"decision".toList, decisions.map RecalledDecision.ofDecision⟩

theorem FndrMcpServer.recallInner_eq_ok {env : CallEnv} {server : FndrMcpServer}
    {params : RecallParams} {out : RecallOutput} :
    server.recallInner env params = .ok out ↔ params.kind = .decision ∧ env.poisoned .tool = false ∧
      env.reads .recentDecisions = none ∧
      out = ⟨"decision".toList, (server.vault.decisions params.sinceMs
        (min (params.limit.getD 20) 200)).map RecalledDecision.ofDecision⟩ := by
  unfold FndrMcpServer.recallInner
  rw [← RecallKind.unbacked_eq_none]
  cases params.kind.unbacked with
  | some kind =>
      constructor
      · intro h
        simp only [reduceCtorEq] at h
      · rintro ⟨h, -⟩
        cases h
  | none =>
      refine (CallEnv.lock_bind_eq_ok.trans (and_congr_right' ?_)).trans (and_iff_right rfl).symm
      rw [storeAnswer_bind_eq_ok]
      constructor
      · rintro ⟨decisions, hdecisions, hout⟩
        obtain ⟨hread, hdecided⟩ := McpStore.recentDecisions_eq_ok.1 hdecisions
        rw [← hdecided]
        exact ⟨hread, (Except.ok.inj hout).symm⟩
      · rintro ⟨hread, hout⟩
        rw [hout]
        exact ⟨_, McpStore.recentDecisions_eq_ok.2 ⟨hread, rfl⟩, rfl⟩

/-! ## `fndr.remember_decision` -/

/-- What `fndr.remember_decision` is given. -/
structure RememberDecisionParams where
  statement : Str
  recordId : Option Str
  decidedAtMs : Option ℤ

/-- What `fndr.remember_decision` answers. -/
structure RememberDecisionOutput where
  id : ℕ
  decidedAtMs : ℤ
  deriving DecidableEq

/-- Store a decision, with the current time unless one is given. -/
def FndrMcpServer.rememberDecisionInner (env : CallEnv) (server : FndrMcpServer)
    (params : RememberDecisionParams) : Except ErrorData (RememberDecisionOutput × McpStore) := do
  if trim params.statement = [] then
    .error (invalidParams "statement must not be empty".toList)
  let decidedAtMs := params.decidedAtMs.getD (env.nowMs .tool)
  env.lock .tool
  let (id, vault) ← storeAnswer
    (server.vault.rememberDecision env.writes decidedAtMs params.statement params.recordId)
  return (⟨id, decidedAtMs⟩, vault)

theorem FndrMcpServer.rememberDecisionInner_eq_ok {env : CallEnv} {server : FndrMcpServer}
    {params : RememberDecisionParams} {out : RememberDecisionOutput} {vault : McpStore} :
    server.rememberDecisionInner env params = .ok (out, vault) ↔ trim params.statement ≠ [] ∧
      env.poisoned .tool = false ∧ ∃ id, server.vault.rememberDecision env.writes
        (params.decidedAtMs.getD (env.nowMs .tool)) params.statement params.recordId
          = .ok (id, vault) ∧ out = ⟨id, params.decidedAtMs.getD (env.nowMs .tool)⟩ := by
  unfold FndrMcpServer.rememberDecisionInner
  by_cases hstatement : trim params.statement = []
  · rw [if_pos hstatement]
    exact ⟨fun h => (nomatch h), fun h => absurd hstatement h.1⟩
  rw [if_neg hstatement]
  refine Iff.trans ?_ (and_iff_right hstatement).symm
  exact CallEnv.lock_write_eq_ok
    (fun id => RememberDecisionOutput.mk id (params.decidedAtMs.getD (env.nowMs .tool)))

/-! ## Servers over one note and over two -/

/-- Nothing fails. -/
def quietEnv : CallEnv := ⟨noReadFaults, noLedgerFaults, tableOrder _, fun _ => false, fun _ => 2000⟩

/-- A server over one note, whose vector route finds it for every query. -/
def noteServer (text : Str) (embedder : QueryEmbedder) : FndrMcpServer :=
  ⟨⟨noteStore text, [], [], []⟩, ⟨[], []⟩, some (embedder, noteIndex)⟩

/-- A server over two notes and an index that has the second one twice. -/
def twoNoteServer (first second : Str) : FndrMcpServer :=
  ⟨⟨twoNoteStore first second, [], [], []⟩, ⟨[], []⟩, some (noteEmbedder, hitsIndex twoNoteHits)⟩

end Fndr
