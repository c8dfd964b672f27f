import Fndr.Memory.WritePath

set_option autoImplicit false

/-! # What a refused write says

A write of the store fails for a reason of the schema or for a reason outside it, which the oracle
`SqlFaults` gives. A merge meets no constraint, and an insert meets only the uniqueness of its two
keys; so a capture whose record id and chunk id are new is refused by a fault alone
(`persistCapture_fault`). -/

namespace Fndr

open RustStd Rows

/-- The error is one the oracle gave for some statement. -/
def SqlFaults.Gave (sql : SqlFaults) (error : StoreError) : Prop :=
  ∃ statement fault, sql statement = some fault ∧ error = .sqlite fault

theorem SqlFaults.check_bind_eq_error {α : Type} {sql : SqlFaults} {statement : Statement}
    {k : Unit → Except StoreError α} {error : StoreError}
    (h : (sql.check statement >>= k) = .error error) : sql.Gave error ∨ k () = .error error := by
  unfold SqlFaults.check at h
  cases hfault : sql statement with
  | some fault =>
      rw [hfault] at h
      cases h
      exact Or.inl ⟨statement, fault, hfault, rfl⟩
  | none =>
      rw [hfault] at h
      exact Or.inr h

/-- A transaction whose body fails only by faults fails only by faults. -/
theorem Store.transaction_fault {α : Type} {sql : SqlFaults} {tx : Tx}
    {body : Store → Except StoreError (TxEnd α)} {store : Store}
    (hbody : ∀ error, body store = .error error → sql.Gave error) {error : StoreError}
    (h : (store.transaction sql tx body).1 = .error error) : sql.Gave error := by
  unfold Store.transaction at h
  dsimp only at h
  split at h
  · cases h
  · next error' hr =>
      cases h
      rcases SqlFaults.check_bind_eq_error hr with hgave | hrest
      · exact hgave
      · cases hend : body store with
        | error e =>
            rw [hend] at hrest
            cases hrest
            exact hbody _ hend
        | ok txEnd =>
            rw [hend] at hrest
            cases txEnd with
            | commit value store' =>
                exact (SqlFaults.check_bind_eq_error hrest).resolve_right (fun h => by cases h)
            | rollback value =>
                exact (SqlFaults.check_bind_eq_error hrest).resolve_right (fun h => by cases h)

theorem Store.mergePendingCapture_fault {sql : SqlFaults} {candidate : PendingContinuityCandidate}
    {incoming : NewRecord} {mergedText : Str} {store : Store} {error : StoreError}
    (h : (store.mergePendingCapture sql candidate incoming mergedText).1 = .error error) :
    sql.Gave error := by
  refine Store.transaction_fault (fun error hbody => ?_) h
  rcases SqlFaults.check_bind_eq_error hbody with hgave | hbody
  · exact hgave
  · split at hbody
    · cases hbody
    · exact (SqlFaults.check_bind_eq_error hbody).resolve_right (fun h => nomatch h)

/-- A record whose id is new goes in. -/
theorem Store.insertRecord_of_new {store : Store} {record : MemoryRecord}
    (hnew : ∀ r ∈ store.db.memoryRecords, r.id ≠ record.id) :
    ∃ store', store.insertRecord record = .ok store' := by
  have hdb : store.db.insertRecord record
      = .ok { store.db with memoryRecords := store.db.memoryRecords ++ [record] } := by
    rw [Db.insertRecord, if_neg (by simpa using hnew)]
  unfold Store.insertRecord
  split
  · exact ⟨_, rfl⟩
  · next herror =>
    rw [hdb] at herror
    cases herror

/-- A chunk goes in when its id is new and its record exists without a chunk. -/
theorem Store.insertChunk_of_new {store : Store} {id recordId text : Str} {ord : ℤ}
    (hnew : ∀ c ∈ store.db.chunks, c.id ≠ id)
    (hfirst : ∀ c ∈ store.db.chunks, c.recordId ≠ recordId)
    (hrecord : ∃ r ∈ store.db.memoryRecords, r.id = recordId) :
    ∃ store', store.insertChunk id recordId ord text = .ok store' := by
  have hord : ¬ store.db.chunks.any (fun c => c.recordId == recordId && c.ord == ord) = true := by
    simp only [List.any_eq_true, Bool.and_eq_true, beq_iff_eq, not_exists, not_and]
    exact fun c hc hid => absurd hid (hfirst c hc)
  have hdb : ∃ db, store.db.insertChunk id recordId ord text = .ok db := by
    rw [Db.insertChunk, if_neg (by simpa using hnew), if_neg hord, if_neg (by simpa using hrecord)]
    exact ⟨_, rfl⟩
  unfold Store.insertChunk
  split
  · exact ⟨_, rfl⟩
  · next herror =>
    rw [herror] at hdb
    obtain ⟨db, hok⟩ := hdb
    cases hok

/-- With both keys new, no constraint refuses the insert. -/
theorem Store.insertCapture_fault {sql : SqlFaults} {record : NewRecord} {chunk : NewChunk}
    {store : Store} (hrecord : ∀ r ∈ store.db.memoryRecords, r.id ≠ record.id)
    (hchunk : ∀ c ∈ store.db.chunks, c.id ≠ chunk.id) {error : StoreError}
    (h : (store.insertCapture sql record [chunk]).1 = .error error) : sql.Gave error := by
  refine Store.transaction_fault (fun error hbody => ?_) h
  rcases SqlFaults.check_bind_eq_error hbody with hgave | hbody
  · exact hgave
  have hrow : ∀ r ∈ store.db.memoryRecords, r.id ≠ record.row.id := hrecord
  obtain ⟨withRecord, hinsert⟩ := store.insertRecord_of_new hrow
  obtain ⟨-, hdb⟩ := Db.insertRecord_ok (Store.insertRecord_ok hinsert)
  rw [hinsert] at hbody
  replace hbody : (Store.insertChunks sql record.id [chunk] withRecord >>= fun store =>
      (.ok (.commit () store) : Except StoreError (TxEnd Unit))) = .error error := hbody
  cases hloop : Store.insertChunks sql record.id [chunk] withRecord with
  | ok _ =>
      rw [hloop] at hbody
      cases hbody
  | error e =>
      rw [hloop] at hbody
      cases hbody
      rcases SqlFaults.check_bind_eq_error hloop with hgave | hone
      · exact hgave
      -- the record is new, so this is its first chunk
      have hfirst : ∀ c ∈ withRecord.db.chunks, c.recordId ≠ record.id := by
        rw [hdb]
        exact store.chunk_recordId_ne hrecord
      have hid : ∀ c ∈ withRecord.db.chunks, c.id ≠ chunk.id := by
        rw [hdb]
        exact hchunk
      have hparent : ∃ r ∈ withRecord.db.memoryRecords, r.id = record.id :=
        ⟨record.row, by rw [hdb]; exact List.mem_append_right _ List.mem_cons_self, rfl⟩
      obtain ⟨done, hdone⟩ : ∃ done, withRecord.insertChunk chunk.id record.id chunk.ord chunk.text
          = .ok done := Store.insertChunk_of_new hid hfirst hparent
      rw [hdone] at hone
      cases hone

section WritePath

variable [UnicodeTables] [UrlCrate] (F : Type) [ScoreArith F]

omit [UrlCrate] in
theorem mergeIntoCandidates_fault {sql : SqlFaults} {record : NewRecord} {text : Str}
    {candidates : List PendingContinuityCandidate} {store : Store} {error : StoreError}
    (h : (mergeIntoCandidates F sql record text candidates store).1 = .error error) :
    sql.Gave error := by
  induction candidates generalizing store with
  | nil => cases h
  | cons candidate candidates ih =>
      rw [mergeIntoCandidates] at h
      split at h
      · dsimp only at h
        split at h
        · next hmerge =>
          cases h
          exact Store.mergePendingCapture_fault (congrArg Prod.fst hmerge)
        · cases h
        · exact ih h
      · exact ih h

omit [UrlCrate] in
/-- No candidate took the capture, so nothing was written. -/
theorem eq_of_mergeIntoCandidates_none {sql : SqlFaults} {scan : Scan} {record : NewRecord}
    {text : Str} {store store' : Store}
    (h : mergeIntoCandidates F sql record text (continuityCandidates scan record store) store
      = (.ok none, store')) : store' = store := by
  rcases mergeIntoCandidates_cases F sql record text (continuityCandidates scan record store) store
      (fun c hc => isPending_of_mem_candidates hc) with
    ⟨error, hcase⟩ | ⟨-, hcase⟩ | ⟨candidate, after, -, -, hcase⟩
  · exact nomatch h.symm.trans hcase
  · exact congrArg Prod.snd (h.symm.trans hcase)
  · exact nomatch h.symm.trans hcase

/-- **A capture under new keys is refused by a fault alone.** -/
theorem persistCapture_fault {sql : SqlFaults} {scan : Scan} {capture : CaptureForPersistence}
    {blocklist : Blocklist} {store : Store}
    (hrecord : ∀ r ∈ store.db.memoryRecords, r.id ≠ capture.recordId)
    (hchunk : ∀ c ∈ store.db.chunks, c.id ≠ capture.chunkId) {error : StoreError}
    (h : (persistCapture F sql scan capture blocklist store).1 = .error error) :
    sql.Gave error := by
  unfold persistCapture at h
  split at h
  · cases h
  · next text redactionCount hpolicy =>
    dsimp only at h
    split at h
    · next fault hfault =>
      cases h
      exact ⟨_, fault, hfault, rfl⟩
    · split at h
      · next hmerge =>
        cases h
        exact mergeIntoCandidates_fault F (congrArg Prod.fst hmerge)
      · cases h
      · next store' hmerge =>
        -- the insert meets the store as it was
        cases eq_of_mergeIntoCandidates_none F hmerge
        split at h
        · next hinsert =>
          cases h
          have hnewRecord : ∀ r ∈ store.db.memoryRecords, r.id ≠ capture.newRecord.id := hrecord
          have hnewChunk : ∀ c ∈ store.db.chunks,
              c.id ≠ (NewChunk.mk capture.chunkId 0 text).id := hchunk
          exact Store.insertCapture_fault hnewRecord hnewChunk (congrArg Prod.fst hinsert)
        · cases h

end WritePath

end Fndr
