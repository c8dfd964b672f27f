import Fndr.Library.Runs
import Fndr.Mcp.Tools
import Fndr.Store.Migrations

set_option autoImplicit false

/-! # A search and its explanation

`fndr.explain_retrieval` counts what the keyword route would return without running it. Over the
whole life of a vault, from a fresh file or an older schema, the count is right: the index holds
every chunk once, whatever was inserted, merged, stamped or deleted before
(`searchAgrees_throughout`). -/

namespace Fndr

open RustStd Rows Runs

section Search

variable [UnicodeTables] [Fts5]

/-- The index is the truth, and a search and its explanation describe it alike. -/
structure Store.SearchAgrees (store : Store) : Prop where
  /-- One entry per chunk, with the chunk's current text. -/
  index : store.db.chunksFts.Perm (store.db.chunks.map Chunk.ftsEntry)
  /-- Without a fault of SQLite both answer. -/
  answers : ∀ scan query limit, (∃ hits, store.searchChunks noReadFaults scan query limit = .ok hits) ∧
    ∃ explanation, store.explainChunkSearch noReadFaults query = .ok explanation
  /-- A search returns the matches that are explained, as far as the limits go. -/
  count : ∀ reads scan query limit hits explanation,
    store.searchChunks reads scan query limit = .ok hits →
    store.explainChunkSearch reads query = .ok explanation →
    (hits.length : ℤ) = min explanation.totalMatches (min (limit : ℤ) 50)
  /-- Every hit is a chunk of a record. -/
  exist : ∀ reads scan query limit hits, store.searchChunks reads scan query limit = .ok hits →
    ∀ hit ∈ hits, ∃ c ∈ store.db.chunks, ∃ r ∈ store.db.memoryRecords,
      r.id = c.recordId ∧ hit.chunkId = c.id ∧ hit.recordId = r.id
  /-- The tool foretells the keyword route of `fndr.search` under the same parameters. -/
  foretold : ∀ (env : CallEnv) (server : FndrMcpServer) (query : Str) (limit : Option ℕ) out hits seen,
    server.vault.store = store →
    server.explainRetrievalInner env ⟨query, limit⟩ = .ok out →
    keywordHits env.reads env.scan store query (min (limit.getD 10) 50) [] = .ok (hits, seen) →
    out.wouldReturn = hits.length

/-! ## One store -/

theorem Store.searchAgrees (store : Store) : store.SearchAgrees where
  index := store.ftsCurrent
  answers scan query limit := by
    exact ⟨⟨_, Store.searchChunks_eq_ok.2 ⟨fun _ => rfl, rfl⟩⟩,
      _, Store.explainChunkSearch_eq_ok.2 ⟨fun _ => rfl, rfl⟩⟩
  count reads scan query limit hits explanation hsearch hexplain := by
    have hcap : SEARCH_LIMIT_CAP = 50 := rfl
    rw [(Store.searchChunks_eq_ok.1 hsearch).2, (Store.explainChunkSearch_eq_ok.1 hexplain).2,
      store.hits_length]
    dsimp only
    omega
  exist reads scan query limit hits hsearch hit hhit := by
    rw [(Store.searchChunks_eq_ok.1 hsearch).2] at hhit
    exact store.mem_hits hhit
  foretold env server query limit out hits seen hserver hexplain hkeyword := by
    obtain ⟨-, -, rfl⟩ := FndrMcpServer.explainRetrievalInner_eq_ok.1 hexplain
    rw [hserver, (keywordHits_ok hkeyword).1, List.length_map, store.hits_length]
    have hcap : SEARCH_LIMIT_CAP = 50 := rfl
    dsimp only [ExplainRetrievalOutput.ofExplanation]
    omega

/-- **The index is the truth.** From a fresh file or one of an older schema, and whatever is written
    to it, in every state of the vault the index is current, and a search and its explanation
    agree. -/
theorem searchAgrees_throughout {file : VaultFile} {faults : MigrationFaults}
    (hopen : (storeInit faults file.disk).1 = .ok ()) (ops : List StoreOp) :
    ∃ store, file.openStore faults = .ok store ∧
      store.db = ((storeInit faults).final file.disk).db ∧
      AllStates StoreOp.exec Store.SearchAgrees store ops := by
  obtain ⟨store, hstore, hdb⟩ := VaultFile.openStore_db hopen
  exact ⟨store, hstore, hdb,
    AllStates.of_step (fun store op _ => (StoreOp.exec store op).searchAgrees) store.searchAgrees⟩

end Search

section Example

attribute [local instance] asciiTables wordFts

theorem searchAgrees_throughout_fresh :
    ∃ store, VaultFile.fresh.openStore noMigrationFaults = .ok store ∧
      store.db = ((storeInit noMigrationFaults).final Disk.fresh).db ∧
      AllStates StoreOp.exec Store.SearchAgrees store
        [.insertCapture noFaults ⟨"r".toList, "s".toList, "screen".toList, "Notes".toList, none, none,
          "Draft".toList, 1000, 1000⟩ [⟨"c".toList, 0, "milk and eggs".toList⟩],
          .deleteRecords true ["r".toList]] :=
  searchAgrees_throughout (storeInit_noFaults VaultFile.fresh) _

end Example

end Fndr
