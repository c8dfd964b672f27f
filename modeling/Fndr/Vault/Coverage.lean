import Fndr.Vault.Calls

set_option autoImplicit false

/-! # Is every chunk in the index or on its way there?

A chunk that is neither pending nor in the Lance table is lost to the index: no later flush picks it
up. Flushes never lose one, because the rows are committed before the stamps are set. A rebuild does
it the other way round, dropping the table before it resets the stamps, so a stop between these two
effects loses every stamped chunk. `everyChunkIndexed_iff` shows that this is the only way. -/

namespace Fndr

open RustStd Rows Runs

/-- Every chunk is pending or has a row in the table. -/
def Vault.EveryChunkIndexed (v : Vault) : Prop :=
  ∀ c ∈ v.store.db.chunks, c.flushedAtMs = 0 ∨ ∃ row ∈ v.rows, row.id = c.id

instance (v : Vault) : Decidable v.EveryChunkIndexed :=
  inferInstanceAs (Decidable (∀ c ∈ v.store.db.chunks, _))

/-- The invariant behind it: a stamped chunk has a row of its own record. -/
def Covered (store : Store) (indexed : List PendingChunk) : Prop :=
  ∀ c ∈ store.db.chunks, c.flushedAtMs ≠ 0 →
    ∃ p ∈ indexed, p.chunkId = c.id ∧ p.recordId = c.recordId

theorem Covered.everyChunkIndexed {v : Vault} (h : Covered v.store v.indexed) :
    v.EveryChunkIndexed := by
  intro c hc
  by_cases hflushed : c.flushedAtMs = 0
  · exact Or.inl hflushed
  · obtain ⟨p, hp, hid, -⟩ := h c hc hflushed
    obtain ⟨row, hrow, rfl⟩ := List.mem_map.1 hp
    exact Or.inr ⟨row, hrow, hid⟩

/-- With nothing stamped the index may be empty. -/
theorem covered_of_pending {store : Store} (h : ∀ c ∈ store.db.chunks, c.flushedAtMs = 0)
    (indexed : List PendingChunk) : Covered store indexed :=
  fun c hc hflushed => absurd (h c hc) hflushed

/-! ## What each operation does to the invariant -/

theorem covered_flush (nowMs : ℤ) (scan : Scan) : FlushKeeps Covered nowMs scan := by
  constructor
  · intro store indexed h c hc hflushed
    obtain ⟨p, hp, hid⟩ := h c hc hflushed
    exact ⟨p, List.mem_append_left _ hp, hid⟩
  · intro store indexed h pending c hc hflushed
    rw [Store.markChunksFlushed_db] at hc
    obtain ⟨d, hd, rfl⟩ := mem_updateWhere.1 hc
    by_cases hmem : d.id ∈ pending.map PendingChunk.chunkId
    · -- the stamped chunk is one of the batch, whose rows were added first
      obtain ⟨p, hp, hid⟩ := List.mem_map.1 hmem
      obtain ⟨row, hrow, rfl⟩ := Db.mem_pendingChunks hp
      have hrow' := (Db.mem_pendingRows.1 hrow).1.1
      have heq : row.1 = d := eq_of_key_eq store.constraints.chunkIds hrow' hd hid
      refine ⟨_, List.mem_append_right _ hp, ?_⟩
      simp [hmem, Chunk.stamped, PendingChunk.ofRow, heq]
    · simp only [decide_eq_true_eq, if_neg hmem] at hflushed ⊢
      obtain ⟨p, hp, hid⟩ := h d hd hflushed
      exact ⟨p, List.mem_append_left _ hp, hid⟩

theorem Store.pending_of_reset (store : Store) :
    ∀ c ∈ store.resetFlushState.db.chunks, c.flushedAtMs = 0 := by
  intro c hc
  obtain ⟨d, -, rfl⟩ := mem_updateWhere.1 hc
  rfl

section Calls

variable [UnicodeTables] [UrlCrate] {F : Type} [ScoreArith F]

theorem covered_persist : PersistKeeps F Covered := by
  intro store indexed call h c hc hflushed
  have heffect := call.effect F store
  generalize PersistCall.exec F store call = store' at heffect hc
  generalize call.result F store = result at heffect
  cases heffect with
  | failed error => exact h c hc hflushed
  | skipped reason _ => exact h c hc hflushed
  | stored text count store' _ _ _ _ hdb =>
      rw [hdb] at hc
      rcases List.mem_append.1 hc with hc | hc
      · exact h c hc hflushed
      · cases List.mem_singleton.1 hc
        exact absurd rfl hflushed
  | merged text count candidate store' _ _ _ hdb =>
      rw [hdb] at hc
      obtain ⟨d, hd, rfl⟩ := mem_updateWhere.1 hc
      by_cases hmatch : (d.id == candidate.chunkId && d.flushedAtMs == 0) = true
      · rw [if_pos hmatch] at hflushed ⊢
        exact h d hd hflushed
      · rw [if_neg hmatch] at hflushed ⊢
        exact h d hd hflushed

/-- A completed deletion takes chunks and rows of the same records. -/
theorem covered_delete {scope : DeleteScope} {v : Vault} {report : DeletionReport}
    (h : Covered v.store v.indexed) (hok : (deleteEverywhere scope v).1 = .ok report) :
    let w := (deleteEverywhere scope).final v
    Covered w.store w.indexed := by
  obtain ⟨recordIds, -, hremoved⟩ := deleteEverywhere_removed hok
  intro w c hc hflushed
  have hkept := hremoved.noChunk c hc
  rw [hremoved.otherChunks] at hc
  obtain ⟨p, hp, hid, hrecord⟩ := h c (List.mem_filter.1 hc).1 hflushed
  obtain ⟨row, hrow, rfl⟩ := List.mem_map.1 hp
  refine ⟨row.chunk, List.mem_map.2 ⟨row, ?_, rfl⟩, hid, hrecord⟩
  rw [hremoved.otherRows]
  refine List.mem_filter.2 ⟨hrow, ?_⟩
  have : row.recordId ∉ recordIds := by
    rw [show row.recordId = c.recordId from hrecord]
    exact hkept
  simpa using this

/-! ## Runs -/

variable (F) in
/-- Captures and deletions return `Ok`; flushes and rebuilds get a positive time and may stop. -/
def VaultCall.Admissible (v : Vault) : VaultCall → Prop
  | .persistCapture call => ∃ outcome, call.result F v.store = .ok outcome
  | .flushOnce _ nowMs _ _ => 0 < nowMs
  | .rebuild _ nowMs _ _ _ => 0 < nowMs
  | .deleteEverywhere scope stop =>
      stop = none ∧ ∃ report, (Fndr.deleteEverywhere scope v).1 = .ok report

/-- No rebuild stops between dropping a table and resetting the stamps, unless every chunk is
    pending already. -/
def VaultCall.NotBetweenDropAndReset (v : Vault) : VaultCall → Prop
  | .rebuild _ _ _ _ stop =>
      stop = some 1 → v.lance.isSome → ∀ c ∈ v.store.db.chunks, c.flushedAtMs = 0
  | _ => True

theorem covered_exec (v : Vault) (call : VaultCall) (h : Covered v.store v.indexed)
    (hadm : call.Admissible F v) (hcond : call.NotBetweenDropAndReset v) :
    Covered (call.exec F v).store (call.exec F v).indexed := by
  cases call with
  | persistCapture call => exact covered_persist v.store v.indexed call h
  | flushOnce embedder nowMs scan stop =>
      exact (covered_flush nowMs scan).flushOnce.cut (s := v) h h stop
  | rebuild embedder nowMs scan fuel stop =>
      have hreset := v.store.pending_of_reset
      have hcases := rebuild_cut_cases embedder nowMs scan fuel v stop
      rw [VaultCall.exec]
      generalize (rebuild embedder nowMs scan fuel).cut v stop = w at hcases
      rcases hcases with rfl | ⟨rfl, hsome, rfl⟩ | hmem
      · exact h
      · -- dropped and not reset: the condition says that nothing is stamped
        exact covered_of_pending (hcond rfl hsome) _
      · rcases List.mem_cons.1 hmem with rfl | hmem
        · exact covered_of_pending hreset _
        · exact ((covered_flush nowMs scan).flushAll fuel ⟨0, 0⟩ v.reset
            (covered_of_pending hreset _)).1 w hmem
  | deleteEverywhere scope stop =>
      obtain ⟨rfl, report, hok⟩ := hadm
      rw [VaultCall.exec, Durable.cut_none]
      exact covered_delete h hok

/-- A stop between the drop and the reset loses every stamped chunk. -/
theorem not_everyChunkIndexed_of_drop (v : Vault) (call : VaultCall)
    (hcond : ¬ call.NotBetweenDropAndReset v) : ¬ (call.exec F v).EveryChunkIndexed := by
  cases call with
  | rebuild embedder nowMs scan fuel stop =>
      simp only [VaultCall.NotBetweenDropAndReset, not_forall] at hcond
      obtain ⟨rfl, hsome, c, hc, hflushed⟩ := hcond
      have hexec : (VaultCall.rebuild embedder nowMs scan fuel (some 1)).exec F v
          = v.dropTable := by
        rw [VaultCall.exec, Durable.cut, Option.getD_some, Durable.stopAfter, rebuild_run,
          if_pos hsome]
        rfl
      rw [hexec]
      intro hindexed
      rcases hindexed c hc with hpending | ⟨row, hrow, -⟩
      · exact hflushed hpending
      · cases hrow
  | _ => exact absurd trivial hcond

/-- **Exactly when no chunk is lost to the index.** -/
theorem everyChunkIndexed_iff (calls : List VaultCall)
    (hadm : StepsMeet (VaultCall.exec F) (VaultCall.Admissible F) Vault.empty calls) :
    AllStates (VaultCall.exec F) Vault.EveryChunkIndexed Vault.empty calls ↔
      StepsMeet (VaultCall.exec F) VaultCall.NotBetweenDropAndReset Vault.empty calls :=
  allStates_iff_stepsMeet (S := fun v => Covered v.store v.indexed)
    (fun _ h => h.everyChunkIndexed) covered_exec
    (fun v call _ _ hcond => not_everyChunkIndexed_of_drop v call hcond)
    (fun _ hc => nomatch hc) hadm

end Calls

/-! ## A rebuild that stops -/

section Example

attribute [local instance] asciiTables noUrls

/-- One capture, flushed, and then a rebuild: complete, or stopped after its first effect. -/
def flushedThenRebuild (stop : Option ℕ) : List VaultCall :=
  [.persistCapture (noteCall "1".toList 1000), .flushOnce constantEmbedder 1 (tableOrder _) none,
    .rebuild constantEmbedder 2 (tableOrder _) 2 stop]

theorem flushedThenRebuild_admissible (stop : Option ℕ) :
    StepsMeet (VaultCall.exec ℚ) (VaultCall.Admissible ℚ) Vault.empty
      (flushedThenRebuild stop) := by
  have hone : (0 : ℤ) < 1 := by decide
  have htwo : (0 : ℤ) < 2 := by decide
  exact ⟨⟨.stored "1".toList 0, by decide +kernel⟩, hone, htwo, trivial⟩

theorem everyChunkIndexed_iff_complete :
    AllStates (VaultCall.exec ℚ) Vault.EveryChunkIndexed Vault.empty (flushedThenRebuild none) ↔
      StepsMeet (VaultCall.exec ℚ) VaultCall.NotBetweenDropAndReset Vault.empty
        (flushedThenRebuild none) :=
  everyChunkIndexed_iff _ (flushedThenRebuild_admissible none)

/-- After the stop the chunk is stamped and the table is gone. -/
theorem rebuild_stop_loses_chunk :
    StepsMeet (VaultCall.exec ℚ) (VaultCall.Admissible ℚ) Vault.empty
        (flushedThenRebuild (some 1)) ∧
      ¬ AllStates (VaultCall.exec ℚ) Vault.EveryChunkIndexed Vault.empty
        (flushedThenRebuild (some 1)) := by
  refine ⟨flushedThenRebuild_admissible (some 1), fun h => ?_⟩
  have hlast : (final (VaultCall.exec ℚ) Vault.empty
      (flushedThenRebuild (some 1))).EveryChunkIndexed := h.final
  exact absurd hlast (by decide +kernel)

end Example

end Fndr
