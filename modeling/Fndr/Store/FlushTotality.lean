import Fndr.Store.Rebuild

set_option autoImplicit false

/-! # When a flush is total

An embedder may answer anything. `flush_once` refuses an `Err` and the first vector of a wrong
length, but it pairs vectors with chunks by position, so a surplus or a lack of vectors reaches the
construction of the record batch, which asserts columns of one length. `flushTotal_iff` says for
which answers a flush is what it should be: free of panics, exact when it succeeds and without a
trace when it stops before the Lance commit. -/

namespace Fndr

open RustStd Rows

/-- The chunks of the next flush. -/
def Vault.batch (v : Vault) (scan : Scan) : List PendingChunk :=
  v.store.db.pendingChunks scan FLUSH_BATCH_SIZE

/-- The answer is an error, or has one vector for each text, or some vector that is paired with a
    text has a wrong length. -/
def Embedder.AnswersInStep (embedder : Embedder) (batch : List PendingChunk) : Prop :=
  ∀ vectors, embedder.embedDocuments (batch.map PendingChunk.text) = .ok vectors →
    vectors.length = batch.length ∨
      ∃ vector ∈ vectors.take batch.length, vector.length ≠ embedder.spec.dim

/-! ## The order of a batch -/

instance : Std.Total OldestFirst := ⟨fun a b => by
  unfold OldestFirst
  omega⟩

instance : IsTrans (Chunk × MemoryRecord) OldestFirst := ⟨fun a b c hab hbc => by
  unfold OldestFirst at *
  omega⟩

theorem Vault.batch_eq_take (v : Vault) (scan : Scan) :
    ∃ rows : List (Chunk × MemoryRecord), rows.Perm v.store.db.pendingRows ∧
      rows.Pairwise OldestFirst ∧
      v.batch scan = (rows.take FLUSH_BATCH_SIZE).map PendingChunk.ofRow :=
  ⟨_, sorted_perm scan _, List.pairwise_insertionSort OldestFirst _, rfl⟩

/-! ## Before the Lance commit -/

/-- The dimensions pass exactly when every paired vector has the length of the contract. -/
theorem checkDimensions_eq_ok_iff (dim : ℕ) (pending : List PendingChunk)
    (vectors : List (List F32)) :
    checkDimensions dim pending vectors = .ok () ↔
      ∀ vector ∈ vectors.take pending.length, vector.length = dim := by
  induction pending generalizing vectors with
  | nil => cases vectors <;> simp [checkDimensions]
  | cons chunk pending ih =>
      cases vectors with
      | nil => simp [checkDimensions]
      | cons vector vectors =>
          rw [checkDimensions, List.length_cons, List.take_succ_cons, List.forall_mem_cons, ← ih]
          by_cases h : vector.length = dim
          · simp [h]
          · simp [h]

theorem embedPending_of_ok {embedder : Embedder} {batch : List PendingChunk}
    {vectors : List (List F32)}
    (hembed : embedder.embedDocuments (batch.map PendingChunk.text) = .ok vectors) :
    (checkDimensions embedder.spec.dim batch vectors = .ok () ∧
      embedPending embedder batch = .ok vectors) ∨
    (checkDimensions embedder.spec.dim batch vectors ≠ .ok () ∧
      ∃ error, embedPending embedder batch = .error (.error error)) := by
  have hrun : embedPending embedder batch = (do
      (checkDimensions embedder.spec.dim batch vectors).mapError Halt.error
      return vectors) := by
    rw [embedPending, hembed]
    rfl
  rw [hrun]
  cases checkDimensions embedder.spec.dim batch vectors with
  | error error =>
      refine Or.inr ⟨?_, error, rfl⟩
      rintro ⟨⟩
  | ok => exact Or.inl ⟨rfl, rfl⟩

/-! ## Totality -/

/-- What a flush of `v` should be, whatever the embedder answers. -/
structure FlushTotal (embedder : Embedder) (nowMs : ℤ) (scan : Scan) (v : Vault) : Prop where
  noPanic : (flushOnce embedder nowMs scan v).1 ≠ .error .panic
  /-- The batch is the front of the pending rows, in the order of capture time and `ord`. -/
  inOrder : ∃ rows : List (Chunk × MemoryRecord), rows.Perm v.store.db.pendingRows ∧
    rows.Pairwise OldestFirst ∧
    v.batch scan = (rows.take FLUSH_BATCH_SIZE).map PendingChunk.ofRow
  /-- Success means one vector of the contract for each text, the batch in Lance with its own
      vectors, and its chunks and no others stamped. -/
  exact : ∀ report, (flushOnce embedder nowMs scan v).1 = .ok report →
    report.written = min FLUSH_BATCH_SIZE v.store.db.pendingRows.length ∧
    ∃ vectors : List (List F32), vectors.length = (v.batch scan).length ∧
      (∀ vector ∈ vectors, vector.length = embedder.spec.dim) ∧
      (v.batch scan ≠ [] →
        embedder.embedDocuments ((v.batch scan).map PendingChunk.text) = .ok vectors) ∧
      ((flushOnce embedder nowMs scan).final v).rows
        = v.rows ++ List.zipWith LanceRow.ofChunk (v.batch scan) vectors ∧
      ((flushOnce embedder nowMs scan).final v).store.db = { v.store.db with
        chunks := v.store.db.chunks.map (fun c =>
          if c.id ∈ (v.batch scan).map PendingChunk.chunkId then { c with flushedAtMs := nowMs }
          else c) }
  /-- An error leaves the data, and so does every stop before the Lance commit, the first effect
      after opening the table. -/
  intact : (∀ halt, (flushOnce embedder nowMs scan v).1 = .error halt →
      v.SameData ((flushOnce embedder nowMs scan).final v)) ∧
    ∀ k ≤ (openOrCreateTable v).2.length, v.SameData ((flushOnce embedder nowMs scan).stopAfter v k)

theorem flushOnce_of_empty (embedder : Embedder) (nowMs : ℤ) (scan : Scan) {v : Vault}
    (h : v.batch scan = []) : flushOnce embedder nowMs scan v = (.ok ⟨0, false⟩, []) := by
  rw [flushOnce_run embedder nowMs scan v h, if_pos rfl]
  rfl

theorem flushOnce_of_refused {embedder : Embedder} (nowMs : ℤ) {scan : Scan} {v : Vault} {halt : Halt}
    (hne : v.batch scan ≠ []) (h : embedPending embedder (v.batch scan) = .error halt) :
    flushOnce embedder nowMs scan v = (.error halt, []) := by
  rw [flushOnce_run embedder nowMs scan v rfl]
  change (if v.batch scan = [] then _ else _ : Writer FlushReport) v = _
  rw [if_neg hne]
  change (Durable.lift (embedPending embedder (v.batch scan)) >>= _ : Writer FlushReport) v = _
  rw [h]
  rfl

/-- A flush with accepted vectors opens the table and goes on to the record batch. -/
theorem flushOnce_of_embedded {embedder : Embedder} (nowMs : ℤ) {scan : Scan} {v : Vault}
    {vectors : List (List F32)} (hne : v.batch scan ≠ [])
    (h : embedPending embedder (v.batch scan) = .ok vectors) :
    flushOnce embedder nowMs scan v =
      ((commitBatch (v.batch scan) vectors nowMs (openOrCreateTable.final v)).1,
        (openOrCreateTable v).2 ++
          (commitBatch (v.batch scan) vectors nowMs (openOrCreateTable.final v)).2) := by
  rw [flushOnce_run embedder nowMs scan v rfl]
  change (if v.batch scan = [] then _ else _ : Writer FlushReport) v = _
  rw [if_neg hne]
  change (Durable.lift (embedPending embedder (v.batch scan)) >>= _ : Writer FlushReport) v = _
  rw [h, Durable.bind_run_ok (a := vectors) rfl, Durable.final_lift,
    Durable.bind_run_ok (a := ()) (openOrCreateTable_sameData v).1]
  rfl

theorem Vault.length_batch (v : Vault) (scan : Scan) :
    (v.batch scan).length = min FLUSH_BATCH_SIZE v.store.db.pendingRows.length := by
  rw [Vault.batch, Db.pendingChunks, List.length_map]
  exact length_orderLimit scan FLUSH_BATCH_SIZE _

theorem Vault.stamped_db (v : Vault) (ids : List Str) (nowMs : ℤ) :
    (v.store.markChunksFlushed ids nowMs).db = { v.store.db with
      chunks := v.store.db.chunks.map (fun c =>
        if c.id ∈ ids then { c with flushedAtMs := nowMs } else c) } := by
  rw [Store.markChunksFlushed_db]
  simp only [updateWhere, decide_eq_true_eq]
  rfl

/-- A run without an effect keeps the data. -/
theorem FlushTotal.of_no_effect {embedder : Embedder} {nowMs : ℤ} {scan : Scan} {v : Vault}
    {halt : Halt} (hhalt : halt ≠ .panic)
    (hrun : flushOnce embedder nowMs scan v = (.error halt, [])) :
    FlushTotal embedder nowMs scan v where
  noPanic := by
    rw [hrun]
    exact fun h => hhalt (Except.error.inj h)
  inOrder := v.batch_eq_take scan
  exact := fun report h => by
    rw [hrun] at h
    cases h
  intact := by
    refine ⟨fun _ _ => ?_, fun k _ => ?_⟩
    · rw [Durable.final, hrun]
      exact .refl v
    · rw [Durable.stopAfter, hrun, List.take_nil]
      exact .refl v

theorem FlushTotal.of_empty (embedder : Embedder) (nowMs : ℤ) {scan : Scan} {v : Vault}
    (h : v.batch scan = []) : FlushTotal embedder nowMs scan v := by
  have hrun := flushOnce_of_empty embedder nowMs scan h
  refine ⟨?_, v.batch_eq_take scan, fun report hok => ?_, fun halt herr => ?_, fun k _ => ?_⟩
  · rw [hrun]
    exact fun h => by cases h
  · rw [hrun] at hok
    cases hok
    have hlen := v.length_batch scan
    rw [h] at hlen
    rw [h]
    refine ⟨hlen, [], rfl, fun _ h => absurd h List.not_mem_nil, fun hne => absurd rfl hne, ?_, ?_⟩
    · rw [Durable.final, hrun]
      exact (List.append_nil _).symm
    · rw [Durable.final, hrun]
      simp
  · rw [hrun] at herr
    cases herr
  · rw [Durable.stopAfter, hrun, List.take_nil]
    exact .refl v

/-- One vector of the contract for each text: the batch goes through. -/
theorem FlushTotal.of_exact {embedder : Embedder} (nowMs : ℤ) {scan : Scan} {v : Vault}
    {vectors : List (List F32)} (hne : v.batch scan ≠ [])
    (hembed : embedder.embedDocuments ((v.batch scan).map PendingChunk.text) = .ok vectors)
    (hlen : vectors.length = (v.batch scan).length)
    (hdim : checkDimensions embedder.spec.dim (v.batch scan) vectors = .ok ())
    (hpending : embedPending embedder (v.batch scan) = .ok vectors) :
    FlushTotal embedder nowMs scan v := by
  obtain ⟨-, hsame, hopened, hsome⟩ := openOrCreateTable_sameData v
  have hrun := flushOnce_of_embedded nowMs hne hpending
  rw [commitBatch, if_neg (not_not.2 hlen)] at hrun
  let added := (openOrCreateTable.final v).addRows
    (List.zipWith LanceRow.ofChunk (v.batch scan) vectors)
  let stamped := added.onStore
    (Store.markChunksFlushed ((v.batch scan).map PendingChunk.chunkId) nowMs)
  replace hrun : flushOnce embedder nowMs scan v =
      (.ok ⟨(v.batch scan).length, (v.batch scan).length == FLUSH_BATCH_SIZE⟩,
        (openOrCreateTable v).2 ++ [added, stamped]) := hrun
  have hfinal : (flushOnce embedder nowMs scan).final v = stamped := by
    rw [Durable.final, hrun]
    exact Durable.getLastD_append _ [added, stamped] v
  refine ⟨?_, v.batch_eq_take scan, fun report hok => ?_, fun halt herr => ?_, fun k hk => ?_⟩
  · rw [hrun]
    exact fun h => by cases h
  · rw [hrun] at hok
    cases hok
    refine ⟨v.length_batch scan, vectors, hlen, ?_, fun _ => hembed, ?_, ?_⟩
    · have hall := (checkDimensions_eq_ok_iff _ _ _).1 hdim
      rwa [List.take_of_length_le (le_of_eq hlen)] at hall
    · rw [hfinal, ← hopened.rows]
      exact Vault.rows_addRows hsome _
    · rw [hfinal, ← v.stamped_db, ← hopened.store]
      rfl
  · rw [hrun] at herr
    cases herr
  · rw [Durable.stopAfter, hrun, List.take_append_of_le_length hk]
    rcases List.eq_nil_or_concat' ((openOrCreateTable v).2.take k) with h | ⟨ts, t, h⟩
    · rw [h]
      exact .refl v
    · rw [h, List.getLastD_concat]
      exact hsame t (List.mem_of_mem_take (h ▸ List.mem_append_right ts List.mem_cons_self))

/-- **A flush is total exactly when the batch is empty or the embedder answers in step.** -/
theorem flushTotal_iff (embedder : Embedder) (nowMs : ℤ) (scan : Scan) (v : Vault) :
    FlushTotal embedder nowMs scan v ↔
      v.batch scan = [] ∨ embedder.AnswersInStep (v.batch scan) := by
  by_cases hne : v.batch scan = []
  · exact ⟨fun _ => Or.inl hne, fun _ => .of_empty embedder nowMs hne⟩
  rw [or_iff_right hne, Embedder.AnswersInStep]
  cases hembed : embedder.embedDocuments ((v.batch scan).map PendingChunk.text) with
  -- an embedder that answers with an error is refused without an effect
  | error error =>
      refine ⟨fun _ _ h => (by cases h), fun _ => ?_⟩
      have hrefused : embedPending embedder (v.batch scan) = .error (.error (.embed error)) := by
        rw [embedPending, hembed]
        rfl
      exact .of_no_effect (fun h => by cases h) (flushOnce_of_refused nowMs hne hrefused)
  | ok vectors =>
      simp only [Except.ok.injEq, forall_eq']
      rcases embedPending_of_ok hembed with ⟨hdim, hpending⟩ | ⟨hdim, error, hpending⟩
      · -- the paired vectors pass, so the count decides
        rw [checkDimensions_eq_ok_iff] at hdim
        have hwrong : ¬ ∃ vector ∈ vectors.take (v.batch scan).length,
            vector.length ≠ embedder.spec.dim := by
          rintro ⟨vector, hmem, h⟩
          exact h (hdim vector hmem)
        rw [or_iff_left hwrong]
        refine ⟨fun htotal => ?_, fun hlen => .of_exact nowMs hne hembed hlen
          ((checkDimensions_eq_ok_iff _ _ _).2 hdim) hpending⟩
        by_contra hlen
        refine htotal.noPanic ?_
        rw [flushOnce_of_embedded nowMs hne hpending, commitBatch, if_pos hlen]
        rfl
      · -- a paired vector of a wrong length is refused before anything is written
        rw [Ne, checkDimensions_eq_ok_iff] at hdim
        push Not at hdim
        have hrefused := flushOnce_of_refused nowMs hne hpending
        exact ⟨fun _ => Or.inr hdim, fun _ => .of_no_effect (fun h => by cases h) hrefused⟩

/-- An embedder that answers without a vector. -/
def silentEmbedder : Embedder where
  spec := constantEmbedder.spec
  embedDocuments := fun _ => .ok []

/-- One text and no vector: the flush creates the table and panics. -/
theorem silent_flush_panics :
    (flushOnce silentEmbedder 1 (tableOrder _) ⟨oneChunkStore, none⟩).1 = .error .panic ∧
      ¬ FlushTotal silentEmbedder 1 (tableOrder _) ⟨oneChunkStore, none⟩ :=
  ⟨rfl, fun h => h.noPanic rfl⟩

end Fndr
