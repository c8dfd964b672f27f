import Fndr.Library.Greedy
import Fndr.Mcp.Tools

set_option autoImplicit false

/-! # Packing evidence into a token budget

`packHits` reads the evidence of each hit, and under one lock it is there: a hit cites a chunk of
the store under its record. So the loop is a greedy filling of the budget with the texts of the hits
(`packHits_eq_ok`), and what holds of any greedy filling holds of a context pack
(`contextPackInner_packs`). -/

namespace Fndr

open RustStd Rows

/-- The evidence a hit would be packed as. -/
def Store.packedItem (store : Store) (hit : ChunkSearchHit) : Option PackedEvidence :=
  (store.db.evidence hit.recordId).bind (fun evidence =>
    (evidence.chunks.find? (fun chunk => chunk.chunkId == hit.chunkId)).map (.ofChunk evidence))

/-- What the item takes of the budget. -/
def PackedEvidence.bytes (item : PackedEvidence) : ℕ := byteLen item.text

/-! ## The loop is a greedy filling -/

/-- What the loop leaves when every read answers. -/
def Pack.fill (budgetChars : ℕ) (pack : Pack) (items : List PackedEvidence) : Pack where
  items := pack.items ++ Greedy.taken PackedEvidence.bytes budgetChars pack.usedChars items
  usedChars := Greedy.total PackedEvidence.bytes budgetChars pack.usedChars items
  droppedForBudget := pack.droppedForBudget +
    (Greedy.skipped PackedEvidence.bytes budgetChars pack.usedChars items).length

theorem Pack.fill_nil (budgetChars : ℕ) (pack : Pack) : pack.fill budgetChars [] = pack := by
  rw [Pack.fill, Greedy.taken, Greedy.total, Greedy.taken, Greedy.skipped, List.append_nil]
  rfl

theorem Pack.fill_cons_of_fits {budgetChars : ℕ} {pack : Pack} {item : PackedEvidence}
    (h : ¬ pack.usedChars + item.bytes > budgetChars) (items : List PackedEvidence) :
    pack.fill budgetChars (item :: items) = Pack.fill budgetChars { pack with
      items := pack.items ++ [item], usedChars := pack.usedChars + item.bytes } items := by
  rw [Pack.fill, Pack.fill, Greedy.taken, if_neg h, Greedy.total_cons_of_fits h, Greedy.skipped,
    if_neg h, List.append_cons]

theorem Pack.fill_cons_of_not_fits {budgetChars : ℕ} {pack : Pack} {item : PackedEvidence}
    (h : pack.usedChars + item.bytes > budgetChars) (items : List PackedEvidence) :
    pack.fill budgetChars (item :: items) = Pack.fill budgetChars { pack with
      droppedForBudget := pack.droppedForBudget + 1 } items := by
  rw [Pack.fill, Pack.fill, Greedy.taken, if_pos h, Greedy.total_cons_of_not_fits h, Greedy.skipped,
    if_pos h, List.length_cons, Nat.add_assoc, Nat.add_comm 1]

theorem packHits_eq_ok {env : CallEnv} {store : Store} {budgetChars : ℕ}
    {hits : List ChunkSearchHit} {pack result : Pack}
    (h : packHits env store budgetChars hits pack = .ok result) :
    result = pack.fill budgetChars (hits.filterMap store.packedItem) := by
  -- on the hits, for any pack so far
  induction hits generalizing pack with
  | nil => rw [List.filterMap_nil, Pack.fill_nil]; exact (Except.ok.inj h).symm
  | cons hit hits ih =>
      rw [packHits] at h
      obtain ⟨found, hfound, hrest⟩ := storeAnswer_bind_eq_ok.1 h
      cases found with
      | none =>
          have hitem : store.packedItem hit = none := by
            rw [Store.packedItem, (Store.recordEvidence_eq_none.1 hfound).2]
            rfl
          rw [List.filterMap_cons_none hitem]
          exact ih hrest
      | some evidence =>
          have hevidence := (Store.recordEvidence_eq_some.1 hfound).2.1
          dsimp only at hrest
          cases hchunk : evidence.chunks.find? (fun chunk => chunk.chunkId == hit.chunkId) with
          | none =>
              have hitem : store.packedItem hit = none := by
                rw [Store.packedItem, hevidence, Option.bind_some, hchunk]
                rfl
              rw [hchunk] at hrest
              rw [List.filterMap_cons_none hitem]
              exact ih hrest
          | some chunk =>
              have hitem : store.packedItem hit = some (.ofChunk evidence chunk) := by
                rw [Store.packedItem, hevidence, Option.bind_some, hchunk]
                rfl
              rw [hchunk] at hrest
              rw [List.filterMap_cons_some hitem]
              dsimp only at hrest
              split at hrest
              · next hfull =>
                rw [Pack.fill_cons_of_not_fits hfull]
                exact ih hrest
              · next hfits =>
                rw [Pack.fill_cons_of_fits hfits]
                exact ih hrest

theorem exists_storeAnswer_bind {α β : Type} {result : Except StoreError α} {a : α}
    {k : α → Except ErrorData β} (hresult : result = .ok a) (hk : ∃ b, k a = .ok b) :
    ∃ b, (storeAnswer result >>= k) = .ok b := by
  obtain ⟨b, hb⟩ := hk
  exact ⟨b, storeAnswer_bind_eq_ok.2 ⟨a, hresult, hb⟩⟩

/-- When no query fails, the loop comes to its end. -/
theorem exists_packHits {env : CallEnv} (hreads : ∀ read, env.reads read = none) (store : Store)
    (budgetChars : ℕ) (hits : List ChunkSearchHit) (pack : Pack) :
    ∃ result, packHits env store budgetChars hits pack = .ok result := by
  induction hits generalizing pack with
  | nil => exact ⟨pack, rfl⟩
  | cons hit hits ih =>
      rw [packHits]
      cases hevidence : store.db.evidence hit.recordId with
      | none =>
          exact exists_storeAnswer_bind
            (Store.recordEvidence_eq_none.2 ⟨hreads _, hevidence⟩) (ih pack)
      | some evidence =>
          refine exists_storeAnswer_bind
            (Store.recordEvidence_eq_some.2 ⟨hreads _, hevidence, hreads _⟩) ?_
          dsimp only
          split
          · exact ih _
          · split
            · exact ih _
            · exact ih _

/-! ## What a pack holds -/

/-- A context pack of hits, each a chunk of the store. -/
structure PackedWithinBudget (store : Store) (hits : List ChunkSearchHit) (out : ContextPackOutput) :
    Prop where
  inOrder : (out.items.map (fun item => (item.recordId, item.chunkId))).Sublist
    (hits.map (fun hit => (hit.recordId, hit.chunkId)))
  distinct : (out.items.map PackedEvidence.chunkId).Nodup
  cites : ∀ item ∈ out.items, ∃ r ∈ store.db.memoryRecords, ∃ c ∈ store.db.chunks,
    c.recordId = r.id ∧ item.recordId = r.id ∧ item.chunkId = c.id ∧ item.text = c.text
  budget : (out.items.map PackedEvidence.bytes).sum ≤ 4 * out.tokenBudget
  tokens : out.estimatedTokensUsed ≤ out.tokenBudget
  conserved : out.items.length + out.droppedForBudget = hits.length
  maximal : ∀ hit ∈ hits, hit.chunkId ∉ out.items.map PackedEvidence.chunkId →
    ∃ c ∈ store.db.chunks, c.id = hit.chunkId ∧
      4 * out.tokenBudget < (out.items.map PackedEvidence.bytes).sum + byteLen c.text

/-- The item is the chunk that the hit names, under its record. -/
structure Store.PacksAs (store : Store) (hit : ChunkSearchHit) (item : PackedEvidence) : Prop where
  packedItem : store.packedItem hit = some item
  recordId : item.recordId = hit.recordId
  chunkId : item.chunkId = hit.chunkId
  cites : ∃ r ∈ store.db.memoryRecords, ∃ c ∈ store.db.chunks,
    c.recordId = r.id ∧ item.recordId = r.id ∧ item.chunkId = c.id ∧ item.text = c.text

/-- A hit of a search is packed as the chunk it names. -/
theorem Store.exists_packsAs [UnicodeTables] [Fts5] {store : Store} {scan : ScanOrder SearchRow}
    {query : Str} {limit : ℕ} : ∀ hit ∈ store.db.hits scan query limit,
      ∃ item, store.PacksAs hit item := by
  intro hit h
  obtain ⟨c, hc, r, hr, hrecord, hchunk, hid⟩ := store.mem_hits h
  obtain ⟨evidence, hevidence, hfind⟩ := store.evidence_of_chunk hc
  have hitem : store.packedItem hit = some (.ofChunk evidence (.ofChunk c)) := by
    rw [Store.packedItem, hid, hrecord, hevidence, Option.bind_some, hchunk, hfind]
    rfl
  have hsame : evidence.recordId = r.id := by
    rw [Db.evidence, ← hrecord, find?_key_eq_some store.constraints.recordIds hr] at hevidence
    rw [← Option.some.inj hevidence]
    rfl
  exact ⟨_, hitem, hsame.trans hid.symm, hchunk.symm, r, hr, c, hc, hrecord.symm, hsame, rfl, rfl⟩

section Fill

variable {store : Store} {hits : List ChunkSearchHit}

theorem map_filterMap_packedItem {κ : Type} {key : PackedEvidence → κ} {hitKey : ChunkSearchHit → κ}
    (hpacks : ∀ hit ∈ hits, ∃ item, store.PacksAs hit item)
    (hkey : ∀ hit item, store.PacksAs hit item → key item = hitKey hit) :
    (hits.filterMap store.packedItem).map key = hits.map hitKey := by
  rw [List.map_filterMap, ← List.filterMap_eq_map]
  refine List.filterMap_congr (fun hit hhit => ?_)
  obtain ⟨item, hitem⟩ := hpacks hit hhit
  rw [hitem.packedItem, Option.map_some, hkey hit item hitem]
  rfl

theorem asU32_of_lt {n : ℕ} (h : n < 2 ^ 32) : asU32 n = n := Nat.mod_eq_of_lt h

theorem estimatedTokens_le {chars tokens : ℕ} (h : chars ≤ 4 * tokens) :
    estimatedTokens chars ≤ tokens := by
  rw [estimatedTokens, CHARS_PER_ESTIMATED_TOKEN]
  omega

/-- Every hit becomes an item with the hit's chunk. -/
theorem chunkIds_filterMap_packedItem (hpacks : ∀ hit ∈ hits, ∃ item, store.PacksAs hit item) :
    (hits.filterMap store.packedItem).map PackedEvidence.chunkId =
      hits.map ChunkSearchHit.chunkId :=
  map_filterMap_packedItem hpacks (fun _ _ h => h.chunkId)

theorem length_filterMap_packedItem (hpacks : ∀ hit ∈ hits, ∃ item, store.PacksAs hit item) :
    (hits.filterMap store.packedItem).length = hits.length := by
  rw [← List.length_map (f := PackedEvidence.chunkId), chunkIds_filterMap_packedItem hpacks,
    List.length_map]

theorem exists_packsAs_of_mem (hpacks : ∀ hit ∈ hits, ∃ item, store.PacksAs hit item)
    {item : PackedEvidence} (h : item ∈ hits.filterMap store.packedItem) :
    ∃ hit ∈ hits, store.PacksAs hit item := by
  obtain ⟨hit, hhit, hsome⟩ := List.mem_filterMap.1 h
  obtain ⟨packed, hpacked⟩ := hpacks hit hhit
  rw [hpacked.packedItem] at hsome
  exact ⟨hit, hhit, Option.some.inj hsome ▸ hpacked⟩

/-- **What a greedy filling of the budget with the texts of hits holds.** -/
theorem packedWithinBudget_of_fill (hpacks : ∀ hit ∈ hits, ∃ item, store.PacksAs hit item)
    (hdistinct : (hits.map ChunkSearchHit.chunkId).Nodup) {budget : ℕ} (hbudget : budget ≤ 8000)
    {pack : Pack} (hpack : pack = Pack.fill (budget * CHARS_PER_ESTIMATED_TOKEN) ⟨[], 0, 0⟩
      (hits.filterMap store.packedItem)) (goal route : Str) :
    PackedWithinBudget store hits ⟨goal, route, budget, asU32 (estimatedTokens pack.usedChars),
      pack.items, pack.droppedForBudget⟩ := by
  -- the loop of the code is the greedy filling, item by item
  rw [CHARS_PER_ESTIMATED_TOKEN, Nat.mul_comm] at hpack
  have hitems : pack.items = Greedy.taken PackedEvidence.bytes (4 * budget) 0
      (hits.filterMap store.packedItem) := by rw [hpack]; rfl
  have hused : pack.usedChars = (pack.items.map PackedEvidence.bytes).sum := by
    rw [hitems, hpack]
    exact Nat.zero_add _
  have hdropped : pack.droppedForBudget = (Greedy.skipped PackedEvidence.bytes (4 * budget) 0
      (hits.filterMap store.packedItem)).length := by
    rw [hpack]
    exact Nat.zero_add _
  have hfits : (pack.items.map PackedEvidence.bytes).sum ≤ 4 * budget := by
    rw [hitems]
    exact Greedy.cost_taken_le _
  have hsub : pack.items.Sublist (hits.filterMap store.packedItem) := by
    rw [hitems]
    exact Greedy.taken_sublist 0 _
  refine ⟨?_, ?_, fun item hitem => ?_, hfits, ?_, ?_, fun hit hhit hout => ?_⟩
  · have hkeys : (hits.filterMap store.packedItem).map (fun item => (item.recordId, item.chunkId))
        = hits.map (fun hit => (hit.recordId, hit.chunkId)) :=
      map_filterMap_packedItem hpacks (fun _ _ h => by rw [h.recordId, h.chunkId])
    rw [← hkeys]
    exact hsub.map _
  · refine (hsub.map PackedEvidence.chunkId).nodup ?_
    rwa [chunkIds_filterMap_packedItem hpacks]
  · obtain ⟨hit, -, hpacked⟩ := exists_packsAs_of_mem hpacks (hsub.subset hitem)
    exact hpacked.cites
  · have htokens := estimatedTokens_le (hused ▸ hfits)
    rwa [asU32_of_lt (by omega)]
  · calc pack.items.length + pack.droppedForBudget
        = (hits.filterMap store.packedItem).length := by
          rw [hitems, hdropped, Greedy.length_taken_add_length_skipped]
      _ = hits.length := length_filterMap_packedItem hpacks
  · -- a hit that is not in the pack was one that no longer fitted
    obtain ⟨item, hitem⟩ := hpacks hit hhit
    obtain ⟨r, -, c, hc, -, -, hchunk, htext⟩ := hitem.cites
    refine ⟨c, hc, hchunk.symm.trans hitem.chunkId, ?_⟩
    have hmem := List.mem_filterMap.2 ⟨hit, hhit, hitem.packedItem⟩
    rcases (Greedy.mem_taken_or_skipped 0 hmem : item ∈ Greedy.taken PackedEvidence.bytes
      (4 * budget) 0 _ ∨ _) with htaken | hskipped
    · rw [← hitems] at htaken
      exact absurd (hitem.chunkId ▸ List.mem_map_of_mem htaken) hout
    · have hfull := Greedy.not_fits_of_mem_skipped hskipped
      rw [Greedy.total, ← hitems, Nat.zero_add] at hfull
      rwa [← htext]

end Fill

section ContextPack

variable [UnicodeTables] [Fts5]

/-- The records a pack is asked to hold. -/
def ContextPackParams.cap (params : ContextPackParams) : ℕ := min (params.maxRecords.getD 20) 100

/-- The tokens a pack may use. -/
def ContextPackParams.budget (params : ContextPackParams) : ℕ :=
  min (params.tokenBudget.getD 2000) 8000

theorem FndrMcpServer.contextPackInner_eq_ok {env : CallEnv} {server : FndrMcpServer}
    {params : ContextPackParams} {out : ContextPackOutput} :
    server.contextPackInner env params = .ok out ↔ trim params.goal ≠ [] ∧
      env.poisoned .tool = false ∧
      ((ftsQuery params.goal).isSome → env.reads .searchChunks = none) ∧
      ∃ pack, packHits env server.vault.store (params.budget * CHARS_PER_ESTIMATED_TOKEN)
          (server.vault.store.db.hits env.scan params.goal params.cap) ⟨[], 0, 0⟩ = .ok pack ∧
        out = ⟨params.goal, "keyword".toList, params.budget, asU32 (estimatedTokens pack.usedChars),
          pack.items, pack.droppedForBudget⟩ := by
  unfold FndrMcpServer.contextPackInner
  by_cases hgoal : trim params.goal = []
  · rw [if_pos hgoal]
    constructor
    · intro h
      cases h
    · rintro ⟨hne, -⟩
      exact absurd hgoal hne
  rw [if_neg hgoal]
  refine CallEnv.lock_bind_eq_ok.trans ?_
  rw [storeAnswer_bind_eq_ok]
  constructor
  · rintro ⟨hlock, hits, hhits, hout⟩
    obtain ⟨hread, rfl⟩ := Store.searchChunks_eq_ok.1 hhits
    obtain ⟨pack, hpack, hanswer⟩ := Except.bind_eq_ok.1 hout
    exact ⟨hgoal, hlock, hread, pack, hpack, (Except.ok.inj hanswer).symm⟩
  · rintro ⟨-, hlock, hread, pack, hpack, rfl⟩
    exact ⟨hlock, _, Store.searchChunks_eq_ok.2 ⟨hread, rfl⟩,
      Except.bind_eq_ok.2 ⟨pack, hpack, rfl⟩⟩

/-- **A context pack is a greedy filling of its budget with the hits of the keyword route**, and a
    call for a goal with text comes to one when nothing fails. -/
theorem contextPackInner_packs (env : CallEnv) (server : FndrMcpServer)
    (params : ContextPackParams) :
    (∀ out, server.contextPackInner env params = .ok out → out.tokenBudget = params.budget ∧
      PackedWithinBudget server.vault.store
        (server.vault.store.db.hits env.scan params.goal params.cap) out) ∧
    (trim params.goal ≠ [] → env.poisoned .tool = false → (∀ read, env.reads read = none) →
      ∃ out, server.contextPackInner env params = .ok out) := by
  constructor
  · intro out hout
    obtain ⟨-, -, -, pack, hpack, rfl⟩ := FndrMcpServer.contextPackInner_eq_ok.1 hout
    exact ⟨rfl, packedWithinBudget_of_fill Store.exists_packsAs
      (server.vault.store.hits_chunkIds_nodup _ _ _) (Nat.min_le_right _ _)
      (packHits_eq_ok hpack) _ _⟩
  · intro hgoal hlock hreads
    obtain ⟨pack, hpack⟩ := exists_packHits hreads server.vault.store
      (params.budget * CHARS_PER_ESTIMATED_TOKEN)
      (server.vault.store.db.hits env.scan params.goal params.cap) ⟨[], 0, 0⟩
    exact ⟨_, FndrMcpServer.contextPackInner_eq_ok.2
      ⟨hgoal, hlock, fun _ => hreads _, pack, hpack, rfl⟩⟩

end ContextPack

section Example

attribute [local instance] asciiTables wordFts

/-- A budget of two tokens holds the eight bytes of the first note, and not the second. -/
theorem contextPackInner_packs_twoNotes : ∃ out,
    let server := twoNoteServer "buy milk".toList "milk the cow".toList
    server.contextPackInner quietEnv ⟨"milk".toList, some 2, none⟩ = .ok out ∧
    out.items.map PackedEvidence.chunkId = ["c".toList] ∧ out.droppedForBudget = 1 ∧
    PackedWithinBudget server.vault.store
      (server.vault.store.db.hits (tableOrder _) "milk".toList 20) out := by
  have hout : ((twoNoteServer "buy milk".toList "milk the cow".toList).contextPackInner quietEnv
      ⟨"milk".toList, some 2, none⟩).toOption.map
        (fun out => (out.items.map PackedEvidence.chunkId, out.droppedForBudget))
      = some (["c".toList], 1) := by decide +kernel
  obtain ⟨out, hout, hpacked⟩ := Option.map_eq_some_iff.1 hout
  obtain ⟨hitems, hdropped⟩ := Prod.mk.inj hpacked
  have hanswer := Except.eq_ok_of_toOption hout
  obtain ⟨hpacks, -⟩ := contextPackInner_packs quietEnv
    (twoNoteServer "buy milk".toList "milk the cow".toList) ⟨"milk".toList, some 2, none⟩
  exact ⟨out, hanswer, hitems, hdropped, (hpacks out hanswer).2⟩

end Example

end Fndr
