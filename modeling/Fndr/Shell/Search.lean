import Fndr.Mcp.Tools

set_option autoImplicit false

/-! # Owner-facing search

`search_memories` of the shell, over the same helpers as the server's `fndr.search`. It opens the
vault read-only for each phase and turns what goes wrong with the vector route into a state, where
the server turns it into an error. So the two surfaces show the same hits exactly when the vector
route answers (`surfacesAgree_iff`). -/

namespace Fndr

open RustStd Rows Binary64

/-- The route that found a hit. -/
inductive SearchRoute
  | keyword
  | vector
  deriving DecidableEq

/-- The name a route is serialized under. -/
def SearchRoute.tag : SearchRoute → Str
  | .keyword => "keyword".toList
  | .vector => "vector".toList

/-- Whether the semantic route ran for a query, and if not, why. -/
inductive VectorRouteState
  | available
  | modelMissing
  | indexMissing
  | failed
  deriving DecidableEq

/-- Whether there is a vault to search. -/
inductive MemoryVaultState
  | ready
  | notCreated
  deriving DecidableEq

/-- One hit as the owner sees it. -/
structure MemorySearchHit where
  recordId : Str
  chunkId : Str
  appName : Option Str
  capturedAtMs : ℤ
  snippet : Str
  route : SearchRoute
  deriving DecidableEq

/-- What the owner's search shows. -/
structure MemorySearchResults where
  query : Str
  hits : List MemorySearchHit
  vault : MemoryVaultState
  vectorRoute : VectorRouteState
  deriving DecidableEq

/-- The local files one search reads: the vault, if it exists, as opening it read-only gives it, and
    the index directory. -/
structure MemorySearchPaths where
  database : Option (Except StoreError Store)
  index : IndexDir

/-- The one text for a vault that cannot be read. -/
def SEARCH_UNAVAILABLE : Str := "memory_search_unavailable".toList

/-- The store error stays in the log. -/
def unavailable {α : Type} (result : Except StoreError α) : Except Str α :=
  result.mapError (fun _ => SEARCH_UNAVAILABLE)

/-- The reasons the semantic route cannot run, known before any query work. -/
def unavailableVectorRoute (paths : MemorySearchPaths) (embedder : Option QueryEmbedder) :
    Option VectorRouteState :=
  if embedder.isNone then some .modelMissing
  else if !paths.index.isDir then some .indexMissing
  else none

/-! ## Application names -/

/-- Per-search memo of record id to application name. -/
abbrev AppNameCache := List (Str × Option Str)

/-- The app of a record, looked up once. -/
def AppNameCache.appName (reads : ReadFaults) (store : Store) (cache : AppNameCache)
    (recordId : Str) : Option Str × AppNameCache :=
  match cache.lookup recordId with
  | some cached => (cached, cache)
  | none =>
      let appName := match store.recordEvidence reads (.appName recordId) recordId with
        | .ok evidence => evidence.map RecordEvidence.appName
        | .error _ => none
      (appName, (recordId, appName) :: cache)

/-- The hit of a route with the app of its record. -/
def MemorySearchHit.ofTagged (appName : Option Str) (hit : TaggedHit) : MemorySearchHit where
  recordId := hit.recordId
  chunkId := hit.chunkId
  appName := appName
  capturedAtMs := asF64 hit.capturedAtMs
  snippet := hit.snippet
  route := if hit.route = "vector".toList then .vector else .keyword

/-- The hits in order, with one lookup a record. -/
def AppNameCache.hitsFrom (reads : ReadFaults) (store : Store) :
    AppNameCache → List TaggedHit → List MemorySearchHit × AppNameCache
  | cache, [] => ([], cache)
  | cache, hit :: hits =>
      let (appName, cache) := cache.appName reads store hit.recordId
      let (rest, cache) := AppNameCache.hitsFrom reads store cache hits
      (MemorySearchHit.ofTagged appName hit :: rest, cache)

/-! ## The search -/

/-- The semantic route of one owner search: its hits, under the names the keyword phase left, and
    its state. -/
def semanticPhase (reads : ReadFaults) (paths : MemorySearchPaths)
    (database : Except StoreError Store) (embedder : Option QueryEmbedder) (query : Str)
    (limit : ℕ) (appNames : AppNameCache) (seen : List Str) :
    Except Str (List MemorySearchHit × VectorRouteState) :=
  match unavailableVectorRoute paths embedder, embedder with
  | some state, _ => .ok ([], state)
  | none, none => .ok ([], .modelMissing)
  | none, some embedder =>
      match vectorHits embedder paths.index query limit seen with
      | .error _ => .ok ([], .failed)
      | .ok rawHits =>
          -- the vault is opened again only when there is something to read
          if rawHits = [] then .ok ([], .available)
          else do
            let store ← unavailable database
            let tagged := tagVectorHitsWithSnippets reads store rawHits
            return ((appNames.hitsFrom reads store tagged).1, .available)

section Search

variable [UnicodeTables] [Fts5]

/-- Run one owner search: the keyword route first, then the semantic route for anything keyword did
    not already find. -/
def searchMemories (reads : ReadFaults) (scan : ScanOrder SearchRow) (paths : MemorySearchPaths)
    (embedder : Option QueryEmbedder) (query : Str) (limit : ℕ) : Except Str MemorySearchResults :=
  match paths.database with
  -- no vault yet: a state of its own, not an empty result
  | none =>
      .ok {
        query := query
        hits := []
        vault := .notCreated
        vectorRoute := (unavailableVectorRoute paths embedder).getD .indexMissing }
  | some database => do
      let store ← unavailable database
      let (tagged, seen) ← unavailable (keywordHits reads scan store query limit [])
      let (hits, appNames) := AppNameCache.hitsFrom reads store [] tagged
      let (vector, state) ← semanticPhase reads paths database embedder query limit appNames seen
      return {
        query := query
        hits := (hits ++ vector).take limit
        vault := .ready
        vectorRoute := state }

end Search

/-! ## The two surfaces -/

/-- Both surfaces answer, with the same chunks in the same order under the same routes. -/
def SurfacesAgree (mcp : Except ErrorData SearchOutput) (shell : Except Str MemorySearchResults) :
    Prop :=
  ∃ out results, mcp = .ok out ∧ shell = .ok results ∧
    out.hits.map (fun hit => (hit.chunkId, hit.route))
      = results.hits.map (fun hit => (hit.chunkId, hit.route.tag))

/-- No thread has panicked while it held the store's lock. -/
def CallEnv.unpoisoned (env : CallEnv) : CallEnv := { env with poisoned := fun _ => false }

/-- The route the shell reads off a tag is serialized as that tag. -/
theorem MemorySearchHit.ofTagged_tag (appName : Option Str) {hit : TaggedHit}
    (h : hit.route = "keyword".toList ∨ hit.route = "vector".toList) :
    (MemorySearchHit.ofTagged appName hit).route.tag = hit.route := by
  unfold MemorySearchHit.ofTagged
  rcases h with h | h
  · rw [h, if_neg (by decide)]
    rfl
  · rw [h, if_pos rfl]
    rfl

/-- The shell shows the tagged hits it was given, in their order. -/
theorem AppNameCache.map_hitsFrom (reads : ReadFaults) (store : Store) (cache : AppNameCache)
    (tagged : List TaggedHit)
    (hroutes : ∀ hit ∈ tagged, hit.route = "keyword".toList ∨ hit.route = "vector".toList) :
    (cache.hitsFrom reads store tagged).1.map (fun hit => (hit.chunkId, hit.route.tag))
      = tagged.map (fun hit => (hit.chunkId, hit.route)) := by
  induction tagged generalizing cache with
  | nil => rfl
  | cons hit tagged ih =>
      have hrest := ih (cache.appName reads store hit.recordId).2
        (fun h hh => hroutes h (List.mem_cons_of_mem hit hh))
      have htag := MemorySearchHit.ofTagged_tag (cache.appName reads store hit.recordId).1
        (hroutes hit List.mem_cons_self)
      simp only [AppNameCache.hitsFrom, List.map_cons, hrest, htag]
      rfl

theorem route_of_mem_keyword {found : List ChunkSearchHit} {hit : TaggedHit}
    (h : hit ∈ found.map TaggedHit.ofKeyword) : hit.route = "keyword".toList := by
  obtain ⟨source, -, rfl⟩ := List.mem_map.1 h
  rfl

theorem route_of_mem_vector {reads : ReadFaults} {store : Store} {raw : List VectorHit}
    {hit : TaggedHit} (h : hit ∈ tagVectorHitsWithSnippets reads store raw) :
    hit.route = "vector".toList := by
  obtain ⟨source, -, rfl⟩ := List.mem_map.1 h
  rfl

/-- What a vector hit shows does not depend on the reads behind its snippet. -/
theorem map_tagVectorHits (reads : ReadFaults) (store : Store) (raw : List VectorHit) :
    (tagVectorHitsWithSnippets reads store raw).map (fun hit => (hit.chunkId, hit.route))
      = raw.map (fun hit => (hit.chunkId, "vector".toList)) := by
  rw [tagVectorHitsWithSnippets, List.map_map]
  rfl

/-- Where the vector route finds something its directory is there. -/
theorem vectorSearch_of_not_isDir {index : IndexDir} {query : Str} {limit : ℕ}
    {embedder : QueryEmbedder} {hits : List VectorHit} (hdir : index.isDir = false)
    (h : vectorSearch index query limit embedder = .ok hits) : hits = [] := by
  unfold vectorSearch at h
  split at h
  · exact (Except.ok.inj h).symm
  · cases hembed : embedder.embedQuery query with
    | error error =>
        rw [hembed] at h
        cases h
    | ok vector =>
        rw [hembed] at h
        dsimp only at h
        split at h
        · cases h
        · obtain ⟨error, herror⟩ := index.missing hdir embedder.spec.lanceTable
          rw [herror] at h
          cases h

/-- What the shell shows of a vector route that answered. -/
theorem semanticPhase_ok {reads : ReadFaults} {index : IndexDir} {query : Str} {limit : ℕ}
    {embedder : QueryEmbedder} {hits : List VectorHit} {seen : List Str} (store : Store)
    (appNames : AppNameCache) (h : vectorSearch index query limit embedder = .ok hits) :
    ∃ state, semanticPhase reads ⟨some (.ok store), index⟩ (.ok store) (some embedder) query limit
      appNames seen = .ok ((appNames.hitsFrom reads store
        (tagVectorHitsWithSnippets reads store (freshHits seen hits))).1, state) := by
  have hraw : vectorHits embedder index query limit seen = .ok (freshHits seen hits) := by
    rw [vectorHits, h]
    rfl
  -- a missing directory is told before the search, and the search would have found nothing
  cases hdir : index.isDir with
  | false =>
      have hunavailable : unavailableVectorRoute ⟨some (.ok store), index⟩ (some embedder)
          = some .indexMissing := by
        unfold unavailableVectorRoute
        rw [hdir]
        rfl
      rw [vectorSearch_of_not_isDir hdir h]
      refine ⟨.indexMissing, ?_⟩
      unfold semanticPhase
      rw [hunavailable]
      rfl
  | true =>
      have havailable : unavailableVectorRoute ⟨some (.ok store), index⟩ (some embedder) = none := by
        unfold unavailableVectorRoute
        rw [hdir]
        rfl
      refine ⟨.available, ?_⟩
      unfold semanticPhase
      rw [havailable]
      dsimp only
      rw [hraw]
      dsimp only
      split
      · next hnone =>
        rw [hnone]
        rfl
      · rfl

section Agreement

variable [UnicodeTables] [Fts5]

/-- The server's search once its keyword phase is done. -/
theorem FndrMcpServer.searchInner_run {env : CallEnv} {server : FndrMcpServer}
    {embedder : QueryEmbedder} {index : IndexDir} {query : Str} {limit : ℕ} {keyword : List TaggedHit}
    {seen : List Str} (hroute : server.vectorRoute = some (embedder, index)) (hlimit : limit ≤ 50)
    (hkeyword : keywordHits env.reads env.scan server.vault.store query limit []
      = .ok (keyword, seen)) :
    server.searchInner env.unpoisoned ⟨query, some limit⟩
      = match vectorHits embedder index query limit seen with
        | .error error => .error (internalError error.display)
        | .ok raw => .ok {
            hits := ((keyword ++ tagVectorHitsWithSnippets env.reads server.vault.store raw).map
              taggedHitToSearchHit).take limit
            vectorRouteAvailable := true } := by
  have hmin : min ((some limit).getD 10) 50 = limit := Nat.min_eq_left hlimit
  have hreads : keywordHits env.unpoisoned.reads env.unpoisoned.scan server.vault.store query limit []
      = .ok (keyword, seen) := hkeyword
  unfold FndrMcpServer.searchInner
  dsimp only
  rw [hmin]
  change (storeAnswer (keywordHits env.unpoisoned.reads env.unpoisoned.scan server.vault.store query
    limit []) >>= _) = _
  rw [hreads]
  change (server.vectorPhase env.unpoisoned query limit seen >>= _) = _
  unfold FndrMcpServer.vectorPhase
  rw [hroute]
  dsimp only
  cases vectorHits embedder index query limit seen <;> rfl

/-- The shell's search once its keyword phase is done. -/
theorem searchMemories_run {scan : ScanOrder SearchRow} {reads : ReadFaults} {store : Store}
    {embedder : QueryEmbedder} {index : IndexDir} {query : Str} {limit : ℕ} {keyword : List TaggedHit}
    {seen : List Str}
    (hkeyword : keywordHits reads scan store query limit [] = .ok (keyword, seen)) :
    searchMemories reads scan ⟨some (.ok store), index⟩ (some embedder) query limit
      = match semanticPhase reads ⟨some (.ok store), index⟩ (.ok store) (some embedder) query limit
          (AppNameCache.hitsFrom reads store [] keyword).2 seen with
        | .error error => .error error
        | .ok (vector, state) => .ok {
            query := query
            hits := ((AppNameCache.hitsFrom reads store [] keyword).1 ++ vector).take limit
            vault := .ready
            vectorRoute := state } := by
  change (unavailable (keywordHits reads scan store query limit []) >>= _) = _
  rw [hkeyword]
  change (semanticPhase reads ⟨some (.ok store), index⟩ (.ok store) (some embedder) query limit
    (AppNameCache.hitsFrom reads store [] keyword).2 seen >>= _) = _
  generalize semanticPhase reads ⟨some (.ok store), index⟩ (.ok store) (some embedder) query limit
    (AppNameCache.hitsFrom reads store [] keyword).2 seen = phase
  cases phase <;> rfl

/-- **The two surfaces agree exactly when the vector route answers.** The keyword route succeeds on
    both sides; what the reads behind snippets and names meet may differ. -/
theorem surfacesAgree_iff {env : CallEnv} {reads : ReadFaults} {server : FndrMcpServer}
    {embedder : QueryEmbedder} {index : IndexDir} {query : Str} {limit : ℕ}
    (hroute : server.vectorRoute = some (embedder, index)) (hlimit : limit ≤ 50)
    (hmcp : ∃ found, keywordHits env.reads env.scan server.vault.store query limit [] = .ok found)
    (hshell : ∃ found, keywordHits reads env.scan server.vault.store query limit [] = .ok found) :
    SurfacesAgree (server.searchInner env.unpoisoned ⟨query, some limit⟩)
        (searchMemories reads env.scan ⟨some (.ok server.vault.store), index⟩ (some embedder) query
          limit) ↔
      VectorRouteAnswers embedder index query limit := by
  obtain ⟨⟨keyword, seen⟩, hmcp⟩ := hmcp
  obtain ⟨⟨shellKeyword, shellSeen⟩, hshell⟩ := hshell
  obtain ⟨hkeyword, hseen⟩ := keywordHits_ok hmcp
  -- the keyword phases of the two surfaces are one
  obtain ⟨rfl, rfl⟩ : shellKeyword = keyword ∧ shellSeen = seen := by
    rw [hkeyword, hseen]
    exact keywordHits_ok hshell
  rw [FndrMcpServer.searchInner_run hroute hlimit hmcp, searchMemories_run hshell,
    ← vectorSearch_ok_iff]
  constructor
  · rintro ⟨out, results, hout, -⟩
    unfold vectorHits at hout
    cases hvector : vectorSearch index query limit embedder with
    | error error =>
        rw [hvector] at hout
        cases hout
    | ok hits => exact ⟨hits, rfl⟩
  · rintro ⟨hits, hvector⟩
    have hraw : vectorHits embedder index query limit shellSeen = .ok (freshHits shellSeen hits) := by
      rw [vectorHits, hvector]
      rfl
    let appNames := (AppNameCache.hitsFrom reads server.vault.store [] shellKeyword).2
    obtain ⟨state, hphase⟩ : ∃ state, semanticPhase reads ⟨some (.ok server.vault.store), index⟩
        (.ok server.vault.store) (some embedder) query limit appNames shellSeen = _ :=
      semanticPhase_ok server.vault.store appNames hvector
    rw [hraw, hphase]
    refine ⟨_, _, rfl, rfl, ?_⟩
    have hkeywordRoutes : ∀ hit ∈ shellKeyword,
        hit.route = "keyword".toList ∨ hit.route = "vector".toList :=
      fun hit h => Or.inl (route_of_mem_keyword (hkeyword ▸ h))
    have hvectorRoutes : ∀ hit ∈ tagVectorHitsWithSnippets reads server.vault.store
        (freshHits shellSeen hits), hit.route = "keyword".toList ∨ hit.route = "vector".toList :=
      fun hit h => Or.inr (route_of_mem_vector h)
    rw [List.map_take, List.map_take, List.map_map, List.map_append, List.map_append,
      AppNameCache.map_hitsFrom _ _ _ _ hkeywordRoutes,
      AppNameCache.map_hitsFrom _ _ _ _ hvectorRoutes, map_tagVectorHits]
    congr 2
    exact map_tagVectorHits env.reads server.vault.store (freshHits shellSeen hits)

end Agreement

section Example

attribute [local instance] asciiTables wordFts

theorem surfacesAgree_note :
    SurfacesAgree
      ((noteServer "buy milk".toList noteEmbedder).searchInner quietEnv.unpoisoned
        ⟨"milk".toList, some 10⟩)
      (searchMemories noReadFaults (tableOrder _)
        ⟨some (.ok (noteStore "buy milk".toList)), noteIndex⟩ (some noteEmbedder) "milk".toList 10) :=
  (surfacesAgree_iff rfl (by decide) ⟨_, rfl⟩ ⟨_, rfl⟩).2
    (Or.inr (Or.inr ⟨[1], _, _, rfl, rfl, rfl, rfl, by decide⟩))

/-- Without a model the shell shows the note that the keyword route found, and the server fails. -/
theorem not_surfacesAgree_gone :
    (∃ found, keywordHits noReadFaults (tableOrder _) (noteStore "buy milk".toList) "milk".toList 10 []
      = .ok found) ∧
    ¬ SurfacesAgree
      ((noteServer "buy milk".toList goneEmbedder).searchInner quietEnv ⟨"milk".toList, some 10⟩)
      (searchMemories noReadFaults (tableOrder _)
        ⟨some (.ok (noteStore "buy milk".toList)), noteIndex⟩ (some goneEmbedder) "milk".toList 10) := by
  refine ⟨⟨_, rfl⟩, ?_⟩
  rintro ⟨out, results, hout, -⟩
  cases hout

end Example

end Fndr
