import Fndr.Mcp.Tools

set_option autoImplicit false

/-! # The merged answer of `fndr.search`

The keyword route puts its chunk ids into the set `seen`, the vector route drops what is in it and
every later row of a chunk, and the limit cuts the two lists after one another. The keyword route
keeps to the limit by itself and finds no chunk twice, so its hits survive the cut, and what follows
them are the rows of the remaining chunks in the order of the index (`searchInner_merged`). -/

namespace Fndr

open RustStd Rows

/-- The rows the index returns for a search. Without a vector route there are none. -/
def FndrMcpServer.LanceRows (server : FndrMcpServer) (params : SearchParams)
    (found : List VectorHit) : Prop :=
  match server.vectorRoute with
  | none => found = []
  | some (embedder, index) => vectorSearch index params.query params.cap embedder = .ok found

/-- A row of the index as the search shows it. -/
def FndrMcpServer.vectorHitOut (env : CallEnv) (server : FndrMcpServer) (hit : VectorHit) :
    SearchHitOut :=
  taggedHitToSearchHit (.ofVector env.reads server.vault.store hit)

/-- How the merged hits lie to the hits of the keyword route alone and the rows of the index. -/
structure MergedResults (cap : ℕ) (shown : VectorHit → SearchHitOut) (keyword : List SearchHitOut)
    (found : List VectorHit) (hits : List SearchHitOut) : Prop where
  atMost : hits.length ≤ cap
  nodup : (hits.map SearchHitOut.chunkId).Nodup
  keywordFirst : keyword <+: hits
  keywordTag : ∀ hit ∈ hits, hit.chunkId ∈ keyword.map SearchHitOut.chunkId →
    hit.route = "keyword".toList
  vectorTag : ∀ hit ∈ hits, hit.chunkId ∉ keyword.map SearchHitOut.chunkId →
    hit.route = "vector".toList
  /-- the rest are the first rows of the other chunks, in the order of the index -/
  rest : ∃ fresh, FirstRows (keyword.map SearchHitOut.chunkId) found fresh ∧
    hits.drop keyword.length = (fresh.take (cap - keyword.length)).map shown

/-- Two lists put one after the other and cut. -/
theorem mergedResults_of_append {cap : ℕ} {shown : VectorHit → SearchHitOut}
    {keyword : List SearchHitOut} {found fresh : List VectorHit} (hcap : keyword.length ≤ cap)
    (hnodup : (keyword.map SearchHitOut.chunkId).Nodup)
    (hkeyword : ∀ hit ∈ keyword, hit.route = "keyword".toList)
    (hshown : ∀ hit, (shown hit).chunkId = hit.chunkId ∧ (shown hit).route = "vector".toList)
    (hfresh : FirstRows (keyword.map SearchHitOut.chunkId) found fresh) :
    MergedResults cap shown keyword found ((keyword ++ fresh.map shown).take cap) := by
  -- the keyword hits fit the limit, so the cut falls into the vector hits
  have hcut : (keyword ++ fresh.map shown).take cap
      = keyword ++ (fresh.take (cap - keyword.length)).map shown := by
    rw [List.take_append, List.take_of_length_le hcap, List.map_take]
  have hids : ((fresh.take (cap - keyword.length)).map shown).map SearchHitOut.chunkId
      = (fresh.take (cap - keyword.length)).map VectorHit.chunkId := by
    rw [List.map_map]
    exact List.map_congr_left (fun hit _ => (hshown hit).1)
  rw [hcut]
  refine ⟨?_, ?_, List.prefix_append _ _, ?_, ?_, fresh, hfresh, ?_⟩
  · simp only [List.length_append, List.length_map, List.length_take]
    omega
  · rw [List.map_append, hids]
    refine hnodup.append ((List.take_sublist _ _).map _ |>.nodup hfresh.nodup) ?_
    intro id hid hmem
    obtain ⟨hit, hhit, rfl⟩ := List.mem_map.1 hmem
    exact hfresh.unseen hit (List.mem_of_mem_take hhit) hid
  · intro hit hhit hid
    rcases List.mem_append.1 hhit with hhit | hhit
    · exact hkeyword hit hhit
    · obtain ⟨row, hrow, rfl⟩ := List.mem_map.1 hhit
      rw [(hshown row).1] at hid
      exact absurd hid (hfresh.unseen row (List.mem_of_mem_take hrow))
  · intro hit hhit hid
    rcases List.mem_append.1 hhit with hhit | hhit
    · exact absurd (List.mem_map_of_mem hhit) hid
    · obtain ⟨row, -, rfl⟩ := List.mem_map.1 hhit
      exact (hshown row).2
  · rw [List.drop_left]

section Search

variable [UnicodeTables] [Fts5]

/-- The hits the keyword route shows. -/
def FndrMcpServer.keywordOut (env : CallEnv) (server : FndrMcpServer) (params : SearchParams) :
    List SearchHitOut :=
  ((server.vault.store.db.hits env.scan params.query params.cap).map TaggedHit.ofKeyword).map
    taggedHitToSearchHit

theorem FndrMcpServer.length_keywordOut (env : CallEnv) (server : FndrMcpServer)
    (params : SearchParams) : (server.keywordOut env params).length ≤ params.cap := by
  rw [FndrMcpServer.keywordOut, List.length_map, List.length_map, Store.hits_length]
  omega

theorem FndrMcpServer.chunkIds_keywordOut (env : CallEnv) (server : FndrMcpServer)
    (params : SearchParams) : (server.keywordOut env params).map SearchHitOut.chunkId
      = (server.vault.store.db.hits env.scan params.query params.cap).map
          ChunkSearchHit.chunkId := by
  rw [FndrMcpServer.keywordOut, List.map_map, List.map_map]
  rfl

/-- Without a vector route the answer is the keyword route's. -/
theorem FndrMcpServer.searchInner_without_route {env : CallEnv} {server : FndrMcpServer}
    {params : SearchParams} (hlock : env.poisoned .tool = false)
    (hread : (ftsQuery params.query).isSome → env.reads .searchChunks = none) :
    ({ server with vectorRoute := none } : FndrMcpServer).searchInner env params
      = .ok ⟨server.keywordOut env params, false⟩ := by
  refine FndrMcpServer.searchInner_eq_ok.2 ⟨hlock, hread, [], rfl, ?_⟩
  rw [List.append_nil]
  exact congrArg (fun hits => SearchOutput.mk hits false)
    (List.take_of_length_le (server.length_keywordOut env params)).symm

theorem FndrMcpServer.route_of_mem_keywordOut {env : CallEnv} {server : FndrMcpServer}
    {params : SearchParams} {hit : SearchHitOut} (h : hit ∈ server.keywordOut env params) :
    hit.route = "keyword".toList := by
  obtain ⟨tagged, htagged, rfl⟩ := List.mem_map.1 h
  obtain ⟨found, -, rfl⟩ := List.mem_map.1 htagged
  rfl

omit [UnicodeTables] [Fts5] in
/-- What the vector phase adds shows the rows of the index that the keyword route has not. -/
theorem FndrMcpServer.AddsVectorHits.lanceRows {env : CallEnv} {server : FndrMcpServer}
    {params : SearchParams} {seen : List Str} {vector : List TaggedHit}
    (h : server.AddsVectorHits env params.query params.cap seen vector) :
    ∃ found, server.LanceRows params found ∧
      vector.map taggedHitToSearchHit = (freshHits seen found).map (server.vectorHitOut env) := by
  unfold FndrMcpServer.AddsVectorHits at h
  unfold FndrMcpServer.LanceRows
  cases hroute : server.vectorRoute with
  | none =>
      rw [hroute] at h
      subst h
      exact ⟨[], rfl, rfl⟩
  | some route =>
      rw [hroute] at h
      obtain ⟨found, hfound, -, rfl⟩ := h
      exact ⟨found, hfound, List.map_map⟩

/-- **What `fndr.search` answers is the keyword answer and, after it, the rest of the index rows.** -/
theorem searchInner_merged {env : CallEnv} {server : FndrMcpServer} {params : SearchParams}
    {out : SearchOutput} (h : server.searchInner env params = .ok out) :
    ∃ keywordOnly found,
      ({ server with vectorRoute := none } : FndrMcpServer).searchInner env params
        = .ok keywordOnly ∧
      server.LanceRows params found ∧
      MergedResults params.cap (server.vectorHitOut env) keywordOnly.hits found out.hits := by
  obtain ⟨hlock, hread, vector, hvector, rfl⟩ := FndrMcpServer.searchInner_eq_ok.1 h
  obtain ⟨found, hfound, hvectors⟩ := hvector.lanceRows
  refine ⟨⟨server.keywordOut env params, false⟩, found,
    FndrMcpServer.searchInner_without_route hlock hread, hfound, ?_⟩
  have hids := server.chunkIds_keywordOut env params
  have hnodup : ((server.keywordOut env params).map SearchHitOut.chunkId).Nodup := by
    rw [hids]
    exact server.vault.store.hits_chunkIds_nodup _ _ _
  have hfresh := firstRows_freshHits ((server.keywordOut env params).map SearchHitOut.chunkId) found
  have hmerged := mergedResults_of_append (server.length_keywordOut env params) hnodup
    (fun _ hhit => FndrMcpServer.route_of_mem_keywordOut hhit)
    (fun hit => ⟨rfl, rfl⟩ : ∀ hit, (server.vectorHitOut env hit).chunkId = hit.chunkId ∧ _) hfresh
  rw [← hids] at hvectors
  rw [List.map_append, hvectors]
  exact hmerged

end Search

section Example

attribute [local instance] asciiTables wordFts

/-- The keyword route finds the first note, the vector route the second, which the index has twice. -/
theorem searchInner_merged_twoNotes : ∃ (out keywordOnly : SearchOutput) (found : List VectorHit),
    let server := twoNoteServer "buy milk".toList "oat drink".toList
    server.searchInner quietEnv ⟨"milk".toList, some 10⟩ = .ok out ∧
    out.hits.map (fun hit => (hit.chunkId, hit.route))
      = [("c".toList, "keyword".toList), ("d".toList, "vector".toList)] ∧
    ({ server with vectorRoute := none } : FndrMcpServer).searchInner quietEnv
      ⟨"milk".toList, some 10⟩ = .ok keywordOnly ∧
    server.LanceRows ⟨"milk".toList, some 10⟩ found ∧
    MergedResults 10 (server.vectorHitOut quietEnv) keywordOnly.hits found out.hits := by
  have hout : ((twoNoteServer "buy milk".toList "oat drink".toList).searchInner quietEnv
      ⟨"milk".toList, some 10⟩).toOption.map
        (fun out => out.hits.map (fun hit => (hit.chunkId, hit.route)))
      = some [("c".toList, "keyword".toList), ("d".toList, "vector".toList)] := by decide +kernel
  obtain ⟨out, hout, hhits⟩ := Option.map_eq_some_iff.1 hout
  have hanswer := Except.eq_ok_of_toOption hout
  obtain ⟨keywordOnly, found, hkeyword, hfound, hmerged⟩ := searchInner_merged hanswer
  exact ⟨out, keywordOnly, found, hanswer, hhits, hkeyword, hfound, hmerged⟩

end Example

end Fndr
