import Fndr.Mcp.MergedResults
import Fndr.Shell.Search

set_option autoImplicit false

/-! # Asking for more results

A search with a larger limit is a search of its own: SQLite ranks again, the index is asked for more
neighbours, and a chunk may change its route. Still the smaller answer stands at the front of the
larger one, hit by hit, for the server (`search_extends`) and for the owner
(`owner_search_extends`). If the keyword route fills the smaller limit the larger answer begins with
the same ranking; if it does not, it has found everything, and both searches drop the same chunks
from the rows of the index. Of the index this needs that the nearest rows come first
(`IndexDir.NearestFirst`). -/

namespace Fndr

open RustStd Rows

/-! ## The index -/

/-- The rows of all batches, in order. -/
def RecordBatch.allRows (batches : List RecordBatch) : List VectorHit :=
  batches.flatMap RecordBatch.rows

/-- What an open table returns for a limit stands in front of what it returns for a larger one. -/
def IndexDir.NearestFirst (index : IndexDir) : Prop :=
  ∀ name table, index.openTable name = .ok table → ∀ vector limit larger batches more,
    limit ≤ larger → table limit vector = .ok batches → table larger vector = .ok more →
      RecordBatch.allRows batches <+: RecordBatch.allRows more

theorem readBatches_eq {batches : List RecordBatch} {hits : List VectorHit}
    (h : readBatches batches = .ok hits) : hits = RecordBatch.allRows batches := by
  induction batches generalizing hits with
  | nil => exact (Except.ok.inj h).symm
  | cons batch batches ih =>
      rw [readBatches] at h
      split at h
      · obtain ⟨rest, hrest, hdone⟩ := Except.bind_eq_ok.1 h
        cases hdone
        rw [ih hrest]
        rfl
      · cases h

theorem vectorSearch_prefix {index : IndexDir} (hindex : index.NearestFirst)
    {embedder : QueryEmbedder} {query : Str} {limit larger : ℕ} {found more : List VectorHit}
    (hle : limit ≤ larger) (h : vectorSearch index query limit embedder = .ok found)
    (h' : vectorSearch index query larger embedder = .ok more) : found <+: more := by
  unfold vectorSearch at h h'
  split at h
  · cases h
    exact List.nil_prefix
  · next hasks =>
    rw [not_or] at hasks
    rw [if_neg (by rintro (hblank | hzero); exacts [hasks.1 hblank, hasks.2 (by omega)])] at h'
    -- both searches come through the same embedder and table; only the limit differs
    cases hembed : embedder.embedQuery query with
    | error error =>
        rw [hembed] at h
        cases h
    | ok vector =>
        rw [hembed] at h h'
        dsimp only at h h'
        split at h
        · cases h
        · next hdim =>
          rw [if_neg hdim] at h'
          cases hopen : index.openTable embedder.spec.lanceTable with
          | error error =>
              rw [hopen] at h
              cases h
          | ok table =>
              rw [hopen] at h h'
              dsimp only at h h'
              cases hfound : table limit vector with
              | error error =>
                  rw [hfound] at h
                  cases h
              | ok batches =>
                  cases hmore : table larger vector with
                  | error error =>
                      rw [hmore] at h'
                      cases h'
                  | ok batches' =>
                      rw [hfound] at h
                      rw [hmore] at h'
                      rw [readBatches_eq h, readBatches_eq h']
                      exact hindex _ table hopen vector limit larger _ _ hle hfound hmore

/-! ## Two routes, one after the other -/

/-- A ranking and what follows it, cut twice. If the smaller limit cuts the ranking nothing that
    follows is seen. -/
theorem take_append_prefix {α : Type} {ranked rest more : List α} {limit larger : ℕ}
    (hle : limit ≤ larger) (hrest : ranked.length ≤ limit → rest <+: more) :
    (ranked.take limit ++ rest).take limit <+: (ranked.take larger ++ more).take larger := by
  by_cases hshort : ranked.length ≤ limit
  · rw [List.take_of_length_le hshort, List.take_of_length_le (hshort.trans hle)]
    have hall : ranked ++ rest <+: ranked ++ more :=
      (List.prefix_append_right_inj ranked).2 (hrest hshort)
    exact (hall.take limit).trans (List.take_prefix_take_left hle)
  · have hlong : limit ≤ ranked.length := by omega
    have hfirst : (ranked.take limit ++ rest).take limit = (ranked.take larger ++ more).take limit := by
      rw [List.take_append_of_le_length (by simp [hlong]), List.take_take, Nat.min_self,
        List.take_append_of_le_length (by rw [List.length_take]; omega), List.take_take,
        Nat.min_eq_left hle]
    rw [hfirst]
    exact List.take_prefix_take_left hle

theorem FndrMcpServer.lanceRows_prefix (server : FndrMcpServer) {params params' : SearchParams}
    (hquery : params'.query = params.query) (hle : params.cap ≤ params'.cap)
    (hindex : ∀ route, server.vectorRoute = some route → route.2.NearestFirst)
    {found more : List VectorHit} (h : server.LanceRows params found)
    (h' : server.LanceRows params' more) : found <+: more := by
  unfold FndrMcpServer.LanceRows at h h'
  cases hroute : server.vectorRoute with
  | none =>
      rw [hroute] at h
      rw [show found = [] from h]
      exact List.nil_prefix
  | some route =>
      rw [hroute] at h h'
      dsimp only at h h'
      rw [hquery] at h'
      exact vectorSearch_prefix (hindex route hroute) hle h h'

/-! ## The memo of names -/

/-- The name of a record, as a search without a memo would read it. -/
def MemorySearchHit.named (reads : ReadFaults) (store : Store) (hit : TaggedHit) : MemorySearchHit :=
  .ofTagged (AppNameCache.appName reads store [] hit.recordId).1 hit

/-- The memo holds names as they are read. -/
def AppNameCache.Remembers (reads : ReadFaults) (store : Store) (cache : AppNameCache) : Prop :=
  ∀ recordId name, cache.lookup recordId = some name →
    name = (AppNameCache.appName reads store [] recordId).1

theorem AppNameCache.Remembers.appName {reads : ReadFaults} {store : Store} {cache : AppNameCache}
    (h : cache.Remembers reads store) (recordId : Str) :
    (cache.appName reads store recordId).1 = (AppNameCache.appName reads store [] recordId).1 ∧
      (cache.appName reads store recordId).2.Remembers reads store := by
  unfold AppNameCache.appName
  cases hlookup : cache.lookup recordId with
  | some name => exact ⟨h recordId name hlookup, h⟩
  | none =>
      refine ⟨rfl, fun other name hother => ?_⟩
      rw [List.lookup_cons] at hother
      split at hother
      · next hsame =>
        cases hother
        rw [eq_of_beq hsame]
        rfl
      · exact h other name hother

/-- The memo changes nothing of what is shown. -/
theorem AppNameCache.Remembers.hitsFrom {reads : ReadFaults} {store : Store} {cache : AppNameCache}
    (h : cache.Remembers reads store) (tagged : List TaggedHit) :
    (cache.hitsFrom reads store tagged).1 = tagged.map (MemorySearchHit.named reads store) ∧
      (cache.hitsFrom reads store tagged).2.Remembers reads store := by
  induction tagged generalizing cache with
  | nil => exact ⟨rfl, h⟩
  | cons hit tagged ih =>
      obtain ⟨hname, hafter⟩ := h.appName hit.recordId
      obtain ⟨hrest, hlast⟩ := ih hafter
      simp only [AppNameCache.hitsFrom, List.map_cons]
      refine ⟨?_, hlast⟩
      rw [hname, hrest]
      rfl

/-- The semantic route shows the new rows of the index, or nothing and says why. -/
theorem semanticPhase_eq_ok {reads : ReadFaults} {paths : MemorySearchPaths} {store : Store}
    {embedder : Option QueryEmbedder} {query : Str} {limit : ℕ} {appNames : AppNameCache}
    {seen : List Str} {vector : List MemorySearchHit} {state : VectorRouteState}
    (hnames : appNames.Remembers reads store)
    (h : semanticPhase reads paths (.ok store) embedder query limit appNames seen
      = .ok (vector, state)) :
    (∃ model found, embedder = some model ∧ vectorSearch paths.index query limit model = .ok found ∧
      state = .available ∧ vector = (tagVectorHitsWithSnippets reads store
        (freshHits seen found)).map (MemorySearchHit.named reads store)) ∨
    (state ≠ .available ∧ vector = []) := by
  unfold semanticPhase at h
  split at h
  · next unavailableState _ hstate =>
    cases h
    refine Or.inr ⟨?_, rfl⟩
    rintro rfl
    unfold unavailableVectorRoute at hstate
    split_ifs at hstate <;> cases hstate
  · cases h
    exact Or.inr ⟨nofun, rfl⟩
  · next model _ =>
    unfold vectorHits at h
    cases hsearch : vectorSearch paths.index query limit model with
    | error error =>
        rw [hsearch] at h
        cases h
        exact Or.inr ⟨nofun, rfl⟩
    | ok found =>
        rw [hsearch] at h
        refine Or.inl ⟨model, found, rfl, hsearch, ?_⟩
        -- without a new row the code does not open the vault again
        change (if freshHits seen found = [] then _ else _) = _ at h
        split at h
        · next hnone =>
          cases h
          rw [hnone]
          exact ⟨rfl, rfl⟩
        · cases h
          exact ⟨rfl, (hnames.hitsFrom _).1⟩

theorem unavailable_eq_ok {α : Type} {result : Except StoreError α} {a : α}
    (h : unavailable result = .ok a) : result = .ok a := by
  cases result with
  | error error => cases h
  | ok b =>
      cases h
      rfl

section Search

variable [UnicodeTables] [Fts5]

theorem Db.hits_eq_take (db : Db) (scan : ScanOrder SearchRow) (query : Str) {limit larger : ℕ}
    (hle : limit ≤ larger) :
    db.hits scan query limit = (db.hits scan query larger).take limit := by
  have hcap : ∀ n, min n SEARCH_LIMIT_CAP < 2 ^ 63 :=
    fun n => Nat.lt_of_le_of_lt (Nat.min_le_right _ _) (by decide)
  unfold Db.hits
  cases ftsQuery query with
  | none => exact (List.take_nil).symm
  | some expression =>
      have hmin : min limit SEARCH_LIMIT_CAP ≤ min larger SEARCH_LIMIT_CAP := by omega
      dsimp only
      rw [asI64_of_lt (hcap limit), asI64_of_lt (hcap larger), ← List.map_take,
        orderLimit_eq_take _ hmin]
      -- there are no more than the cap to take from
      refine congrArg _ (List.take_eq_take_iff.2 ?_)
      rw [length_orderLimit]
      omega

/-- The hits of the keyword route, then what the vector route adds: the page of the smaller limit
    stands in front of the page of the larger one. -/
theorem page_prefix {α : Type} (shownKeyword : ChunkSearchHit → α) (shownVector : VectorHit → α)
    (db : Db) (scan : ScanOrder SearchRow) (query : Str) {limit larger : ℕ} (hle : limit ≤ larger)
    {found more : List VectorHit} (hrows : found <+: more) :
    (((db.hits scan query limit).map shownKeyword ++
        (freshHits ((db.hits scan query limit).map ChunkSearchHit.chunkId) found).map
          shownVector).take limit)
      <+: (((db.hits scan query larger).map shownKeyword ++
        (freshHits ((db.hits scan query larger).map ChunkSearchHit.chunkId) more).map
          shownVector).take larger) := by
  have hwhole := db.hits_eq_take scan query (le_refl larger)
  rw [db.hits_eq_take scan query hle]
  generalize db.hits scan query larger = ranked at hwhole ⊢
  have hrest : (ranked.map shownKeyword).length ≤ limit →
      (freshHits ((ranked.take limit).map ChunkSearchHit.chunkId) found).map shownVector
        <+: (freshHits (ranked.map ChunkSearchHit.chunkId) more).map shownVector := by
    intro hshort
    -- both searches have seen all the ranked chunks
    rw [List.take_of_length_le (by simpa using hshort), freshHits_eq, freshHits_eq]
    exact (FirstByKey.firsts_prefix _ hrows).map _
  have hpages := take_append_prefix hle hrest
  rw [← List.map_take, ← List.map_take, ← hwhole] at hpages
  exact hpages

/-- **A larger limit only adds results.** Two searches with one query over one vault: what the one
    with the smaller limit answers stands in front of what the other answers, with the same snippets
    and routes. -/
theorem search_extends {env : CallEnv} {server : FndrMcpServer} {params params' : SearchParams}
    {out out' : SearchOutput} (hquery : params'.query = params.query)
    (hle : params.cap ≤ params'.cap)
    (hindex : ∀ route, server.vectorRoute = some route → route.2.NearestFirst)
    (h : server.searchInner env params = .ok out)
    (h' : server.searchInner env params' = .ok out') : out.hits <+: out'.hits := by
  obtain ⟨-, -, vector, hvector, rfl⟩ := FndrMcpServer.searchInner_eq_ok.1 h
  obtain ⟨-, -, vector', hvector', rfl⟩ := FndrMcpServer.searchInner_eq_ok.1 h'
  obtain ⟨found, hfound, hshown⟩ := hvector.lanceRows
  obtain ⟨more, hmore, hshown'⟩ := hvector'.lanceRows
  have hrows : found <+: more := server.lanceRows_prefix hquery hle hindex hfound hmore
  dsimp only
  rw [List.map_append, List.map_append, hshown, hshown', List.map_map, List.map_map, hquery]
  exact page_prefix _ _ server.vault.store.db env.scan params.query hle hrows

/-! ## The owner's search -/

/-- What an owner's search shows: the keyword hits, then the new rows of the index if the semantic
    route answered. -/
theorem searchMemories_eq_ok {reads : ReadFaults} {scan : ScanOrder SearchRow}
    {paths : MemorySearchPaths} {embedder : Option QueryEmbedder} {query : Str} {limit : ℕ}
    {results : MemorySearchResults}
    (h : searchMemories reads scan paths embedder query limit = .ok results) :
    (paths.database = none ∧ results.hits = []) ∨
    ∃ store found, paths.database = some (.ok store) ∧
      (if results.vectorRoute = .available then
        ∃ model, embedder = some model ∧ vectorSearch paths.index query limit model = .ok found
      else found = []) ∧
      results.hits = ((store.db.hits scan query limit).map
          (fun hit => MemorySearchHit.named reads store (.ofKeyword hit)) ++
        (freshHits ((store.db.hits scan query limit).map ChunkSearchHit.chunkId) found).map
          (fun hit => MemorySearchHit.named reads store (.ofVector reads store hit))).take limit := by
  unfold searchMemories at h
  cases hdatabase : paths.database with
  | none =>
      rw [hdatabase] at h
      cases h
      exact Or.inl ⟨rfl, rfl⟩
  | some database =>
      rw [hdatabase] at h
      cases database with
      | error error => cases h
      | ok store =>
          -- the keyword phase, the semantic phase, and then the cut to the limit
          change (unavailable (keywordHits reads scan store query limit []) >>= _) = _ at h
          obtain ⟨⟨tagged, seen⟩, hkeyword, hrun⟩ := Except.bind_eq_ok.1 h
          obtain ⟨⟨vector, state⟩, hvector, hdone⟩ := Except.bind_eq_ok.1 hrun
          cases hdone
          have hnone : AppNameCache.Remembers reads store [] := fun _ _ hname => nomatch hname
          obtain ⟨hnamed, hnames⟩ := hnone.hitsFrom tagged
          obtain ⟨rfl, rfl⟩ := keywordHits_ok (unavailable_eq_ok hkeyword)
          rw [List.append_nil] at hvector
          rw [List.map_map] at hnamed
          dsimp only
          rw [hnamed]
          rcases semanticPhase_eq_ok hnames hvector with
            ⟨model, found, hmodel, hfound, rfl, rfl⟩ | ⟨hstate, rfl⟩
          · refine Or.inr ⟨store, found, rfl, ?_, ?_⟩
            · rw [if_pos rfl]
              exact ⟨model, hmodel, hfound⟩
            · rw [tagVectorHitsWithSnippets, List.map_map]
              rfl
          · refine Or.inr ⟨store, [], rfl, ?_, rfl⟩
            rw [if_neg hstate]

/-- **For the owner, too, a larger limit only adds results**, unless the semantic route answered the
    smaller search only. -/
theorem owner_search_extends {reads : ReadFaults} {scan : ScanOrder SearchRow}
    {paths : MemorySearchPaths} {embedder : Option QueryEmbedder} {query : Str} {limit larger : ℕ}
    {results results' : MemorySearchResults} (hle : limit ≤ larger)
    (hindex : paths.index.NearestFirst)
    (h : searchMemories reads scan paths embedder query limit = .ok results)
    (h' : searchMemories reads scan paths embedder query larger = .ok results')
    (hstate : results.vectorRoute = .available → results'.vectorRoute = .available) :
    results.hits <+: results'.hits := by
  rcases searchMemories_eq_ok h with ⟨-, hnone⟩ | ⟨store, found, hstore, hfound, hhits⟩
  · rw [hnone]
    exact List.nil_prefix
  rcases searchMemories_eq_ok h' with ⟨hgone, -⟩ | ⟨store', more, hstore', hmore, hhits'⟩
  · rw [hstore] at hgone
    cases hgone
  rw [hstore] at hstore'
  cases hstore'
  have hrows : found <+: more := by
    by_cases havailable : results.vectorRoute = .available
    · rw [if_pos havailable] at hfound
      rw [if_pos (hstate havailable)] at hmore
      obtain ⟨model, hmodel, hsearch⟩ := hfound
      obtain ⟨model', hmodel', hsearch'⟩ := hmore
      cases hmodel.symm.trans hmodel'
      exact vectorSearch_prefix hindex hle hsearch hsearch'
    · rw [if_neg havailable] at hfound
      rw [hfound]
      exact List.nil_prefix
  rw [hhits, hhits']
  exact page_prefix _ _ store.db scan query hle hrows

end Search

/-! ## Two notes -/

section Example

attribute [local instance] asciiTables wordFts

theorem hitsIndex_nearestFirst (rows : List VectorHit) : (hitsIndex rows).NearestFirst := by
  intro name table hopen vector limit larger batches more hle h h'
  cases hopen
  cases h
  cases h'
  simp only [RecordBatch.allRows, List.flatMap_cons, List.flatMap_nil, List.append_nil]
  exact List.take_prefix_take_left hle

theorem search_ok_of_chunkIds {params : SearchParams} {server : FndrMcpServer} {chunkIds : List Str}
    (h : (server.searchInner quietEnv params).toOption.map
      (fun out => out.hits.map SearchHitOut.chunkId) = some chunkIds) :
    ∃ out, server.searchInner quietEnv params = .ok out ∧
      out.hits.map SearchHitOut.chunkId = chunkIds := by
  obtain ⟨out, hout, hids⟩ := Option.map_eq_some_iff.1 h
  exact ⟨out, Except.eq_ok_of_toOption hout, hids⟩

/-- With one result asked for, and with ten; the second note comes from the index. -/
theorem search_extends_twoNotes : ∃ out out' : SearchOutput,
    let server := twoNoteServer "buy milk".toList "oat drink".toList
    server.searchInner quietEnv ⟨"milk".toList, some 1⟩ = .ok out ∧
    server.searchInner quietEnv ⟨"milk".toList, some 10⟩ = .ok out' ∧ out.hits <+: out'.hits ∧
    out.hits.map SearchHitOut.chunkId = ["c".toList] ∧
    out'.hits.map SearchHitOut.chunkId = ["c".toList, "d".toList] := by
  obtain ⟨out, hout, hids⟩ := search_ok_of_chunkIds (show
    ((twoNoteServer "buy milk".toList "oat drink".toList).searchInner quietEnv
      ⟨"milk".toList, some 1⟩).toOption.map (fun out => out.hits.map SearchHitOut.chunkId)
        = some ["c".toList] by decide +kernel)
  obtain ⟨out', hout', hids'⟩ := search_ok_of_chunkIds (show
    ((twoNoteServer "buy milk".toList "oat drink".toList).searchInner quietEnv
      ⟨"milk".toList, some 10⟩).toOption.map (fun out => out.hits.map SearchHitOut.chunkId)
        = some ["c".toList, "d".toList] by decide +kernel)
  have hprefix : out.hits <+: out'.hits := by
    refine search_extends ?_ ?_ ?_ hout hout'
    · rfl
    · decide
    · intro route hroute
      cases hroute
      exact hitsIndex_nearestFirst twoNoteHits
  exact ⟨out, out', hout, hout', hprefix, hids, hids'⟩

/-- The two notes as the owner's search finds them. -/
def twoNotePaths : MemorySearchPaths :=
  ⟨some (.ok (twoNoteStore "buy milk".toList "oat drink".toList)), hitsIndex twoNoteHits⟩

theorem searchMemories_ok_of_answer {limit : ℕ} {chunkIds : List Str}
    (h : (searchMemories noReadFaults (tableOrder _) twoNotePaths (some noteEmbedder) "milk".toList
      limit).toOption.map (fun results =>
        (results.hits.map MemorySearchHit.chunkId, results.vectorRoute)) = some (chunkIds, .available)) :
    ∃ results, searchMemories noReadFaults (tableOrder _) twoNotePaths (some noteEmbedder)
        "milk".toList limit = .ok results ∧
      results.hits.map MemorySearchHit.chunkId = chunkIds ∧ results.vectorRoute = .available := by
  obtain ⟨results, hresults, hanswer⟩ := Option.map_eq_some_iff.1 h
  obtain ⟨hids, hroute⟩ := Prod.mk.inj hanswer
  exact ⟨results, Except.eq_ok_of_toOption hresults, hids, hroute⟩

theorem owner_search_extends_twoNotes : ∃ results results' : MemorySearchResults,
    searchMemories noReadFaults (tableOrder _) twoNotePaths (some noteEmbedder) "milk".toList 1
      = .ok results ∧
    searchMemories noReadFaults (tableOrder _) twoNotePaths (some noteEmbedder) "milk".toList 10
      = .ok results' ∧
    results.hits <+: results'.hits ∧
    results.hits.map MemorySearchHit.chunkId = ["c".toList] ∧
    results'.hits.map MemorySearchHit.chunkId = ["c".toList, "d".toList] := by
  have hone : (searchMemories noReadFaults (tableOrder _) twoNotePaths (some noteEmbedder)
      "milk".toList 1).toOption.map (fun results =>
        (results.hits.map MemorySearchHit.chunkId, results.vectorRoute))
      = some (["c".toList], .available) := by decide +kernel
  have hten : (searchMemories noReadFaults (tableOrder _) twoNotePaths (some noteEmbedder)
      "milk".toList 10).toOption.map (fun results =>
        (results.hits.map MemorySearchHit.chunkId, results.vectorRoute))
      = some (["c".toList, "d".toList], .available) := by decide +kernel
  obtain ⟨results, hresults, hids, -⟩ := searchMemories_ok_of_answer hone
  obtain ⟨results', hresults', hids', havailable⟩ := searchMemories_ok_of_answer hten
  have hprefix : results.hits <+: results'.hits :=
    owner_search_extends (by decide) (hitsIndex_nearestFirst twoNoteHits) hresults hresults'
      (fun _ => havailable)
  exact ⟨results, results', hresults, hresults', hprefix, hids, hids'⟩

end Example

end Fndr
