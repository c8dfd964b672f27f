import Fndr.Vault.Stories

set_option autoImplicit false

/-! # What a vault remembers

Abstractly a vault is a list of stories: each record has its captures, and its text is that of the
captures in the order they came, each as the policy passed it, every one merged into what was there
(`toldText`). The tables hold exactly that: records and chunks correspond, and the text of a chunk is
the text of its record's story, whatever flushes, rebuilds and deletions of other records went on
in between and wherever they stopped (`texts_told`). -/

namespace Fndr

open RustStd Rows Runs

variable [UnicodeTables] [UrlCrate] {F : Type} [ScoreArith F]

/-- The text a capture passes the policy with, redacted where it has to be. -/
def PersistCall.passedText (call : PersistCall) : Option Str :=
  (recheckPolicy call.capture call.blocklist).toOption.map Prod.fst

/-- The text of captures, newest first. -/
def toldText : List PersistCall → Option Str
  | [] => none
  | [call] => call.passedText
  | call :: earlier => do
      some (mergeStoryText (← toldText earlier) (← call.passedText) MERGED_TEXT_MAX_CHARS)

/-- Records and chunks correspond, and the text of a chunk is that of its record's captures, all of
    which passed the policy. -/
structure Annals.Remembers (annals : Annals) : Prop where
  oneChunk : (annals.vault.store.db.chunks.map Chunk.recordId).Perm
    (annals.vault.store.db.memoryRecords.map MemoryRecord.id)
  text : ∀ c ∈ annals.vault.store.db.chunks,
    toldText (capturesOf annals.captures c.recordId) = some c.text
  passed : ∀ c ∈ annals.vault.store.db.chunks, ∀ call ∈ capturesOf annals.captures c.recordId,
    call.passedText.isSome

/-! ## The text of a story -/

theorem toldText_cons {call : PersistCall} {earlier : List PersistCall} {told text : Str}
    (hearlier : toldText earlier = some told) (htext : call.passedText = some text) :
    toldText (call :: earlier) = some (mergeStoryText told text MERGED_TEXT_MAX_CHARS) := by
  cases earlier with
  | nil => cases hearlier
  | cons last earlier =>
      rw [toldText]
      · rw [hearlier, htext]
        rfl
      · exact fun h => nomatch h

/-- What a story is told from. -/
theorem toldText_cases {last : PersistCall} {earlier : List PersistCall} {text : Str}
    (h : toldText (last :: earlier) = some text) :
    (earlier = [] ∧ last.passedText = some text) ∨ ∃ told incoming,
      toldText earlier = some told ∧ last.passedText = some incoming ∧
        text = mergeStoryText told incoming MERGED_TEXT_MAX_CHARS := by
  cases earlier with
  | nil => exact Or.inl ⟨rfl, h⟩
  | cons second earlier =>
      rw [toldText] at h
      · obtain ⟨told, htold, h⟩ := Option.bind_eq_some_iff.1 h
        obtain ⟨incoming, hincoming, hmerged⟩ := Option.bind_eq_some_iff.1 h
        exact Or.inr ⟨told, incoming, htold, hincoming, (Option.some.inj hmerged).symm⟩
      · exact List.cons_ne_nil _ _

/-- A story is told only of captures that passed. -/
theorem passedText_of_toldText {calls : List PersistCall} {text : Str}
    (h : toldText calls = some text) : ∀ call ∈ calls, call.passedText.isSome := by
  induction calls generalizing text with
  | nil => exact fun _ hcall => absurd hcall List.not_mem_nil
  | cons last earlier ih =>
      intro call hcall
      rcases toldText_cases h with ⟨rfl, hpassed⟩ | ⟨told, incoming, htold, hpassed, -⟩
      · rw [List.mem_singleton.1 hcall, hpassed]
        rfl
      · rcases List.mem_cons.1 hcall with rfl | hcall
        · rw [hpassed]
          rfl
        · exact ih htold call hcall

theorem PersistCall.passedText_eq {call : PersistCall} {text : Str} {redactionCount : ℕ}
    (h : recheckPolicy call.capture call.blocklist = .ok (text, redactionCount)) :
    call.passedText = some text := by
  rw [PersistCall.passedText, h]
  rfl

/-! ## Calls that capture nothing -/

/-- The chunks are some of the chunks of a database, but for their stamps. -/
structure TextsFrom (old : Db) (store : Store) (_ : List PendingChunk) : Prop where
  oneChunk : (store.db.chunks.map Chunk.recordId).Perm (store.db.memoryRecords.map MemoryRecord.id)
  chunks : ∀ c ∈ store.db.chunks, ∃ d ∈ old.chunks, d.recordId = c.recordId ∧ d.text = c.text

omit [UnicodeTables] [UrlCrate] in
theorem TextsFrom.stamped {old : Db} {store after : Store} {indexed indexed' : List PendingChunk}
    {p : Chunk → Bool} {nowMs : ℤ} (h : TextsFrom old store indexed)
    (hchunks : after.db.chunks = updateWhere p (·.stamped nowMs) store.db.chunks)
    (hrecords : after.db.memoryRecords = store.db.memoryRecords) :
    TextsFrom old after indexed' := by
  have hids : after.db.chunks.map Chunk.recordId = store.db.chunks.map Chunk.recordId := by
    rw [hchunks]
    refine map_updateWhere (fun _ _ => ?_) _
    rfl
  refine ⟨hids ▸ hrecords ▸ h.oneChunk, fun c hc => ?_⟩
  rw [hchunks] at hc
  obtain ⟨d, hd, rfl⟩ := mem_updateWhere.1 hc
  obtain ⟨e, he, hrecord, htext⟩ := h.chunks d hd
  split
  · exact ⟨e, he, hrecord, htext⟩
  · exact ⟨e, he, hrecord, htext⟩

omit [UnicodeTables] [UrlCrate] in
theorem TextsFrom.deleted {old : Db} {store : Store} {indexed : List PendingChunk}
    (recordIds : List Str) (h : TextsFrom old store indexed) :
    TextsFrom old (store.deleteRecords recordIds).2 indexed := by
  constructor
  · rw [Store.deleteRecords_chunks, Store.deleteRecords_records, deleteWhere, deleteWhere]
    have hperm := h.oneChunk.filter (fun id => !decide (id ∈ recordIds))
    rw [List.filter_map, List.filter_map] at hperm
    exact hperm
  · intro c hc
    rw [Store.deleteRecords_chunks] at hc
    exact h.chunks c (mem_deleteWhere.1 hc).1

/-- A call that captures nothing leaves the texts of the chunks that stay. -/
theorem VaultCall.textsFrom {v : Vault} {call : VaultCall} (hcall : ∀ id, ¬ call.Captures id)
    (hv : (v.store.db.chunks.map Chunk.recordId).Perm
      (v.store.db.memoryRecords.map MemoryRecord.id)) :
    TextsFrom v.store.db (call.exec F v).store (call.exec F v).indexed := by
  have hself : TextsFrom v.store.db v.store v.indexed := ⟨hv, fun c hc => ⟨c, hc, rfl, rfl⟩⟩
  have hflush : ∀ nowMs scan, FlushKeeps (TextsFrom v.store.db) nowMs scan := by
    refine fun nowMs scan => ⟨fun _ _ h => ⟨h.oneChunk, h.chunks⟩, ?_⟩
    intro store indexed h pending
    have hdb := Store.markChunksFlushed_db (pending.map PendingChunk.chunkId) nowMs store
    exact h.stamped (by rw [hdb]) (by rw [hdb])
  cases call with
  | persistCapture persist => exact absurd rfl (hcall _)
  | flushOnce embedder nowMs scan stop =>
      exact (hflush nowMs scan).flushOnce.cut (s := v) hself hself stop
  | rebuild embedder nowMs scan fuel stop =>
      refine rebuild_keeps (hflush nowMs scan) (fun _ _ h => ⟨h.oneChunk, h.chunks⟩) ?_ hself stop
      exact fun store h => h.stamped rfl rfl
  | deleteEverywhere scope stop =>
      refine deleteEverywhere_keeps ⟨fun _ _ _ h => ⟨h.oneChunk, h.chunks⟩, ?_⟩ hself stop
      exact fun store indexed recordIds h _ => h.deleted recordIds

/-! ## Captures -/

/-- Records and chunks correspond, and the text of a chunk is that of its record's captures. -/
structure TellsTexts (db : Db) (captures : List (Str × PersistCall)) : Prop where
  oneChunk : (db.chunks.map Chunk.recordId).Perm (db.memoryRecords.map MemoryRecord.id)
  text : ∀ c ∈ db.chunks, toldText (capturesOf captures c.recordId) = some c.text

/-- A new record tells the text of its one capture. -/
theorem TellsTexts.withCapture {store : Store} {captures : List (Str × PersistCall)}
    (h : TellsTexts store.db captures) (record : NewRecord) {call : PersistCall}
    {chunkId text : Str} (hfresh : ∀ r ∈ store.db.memoryRecords, r.id ≠ record.id)
    (hnone : capturesOf captures record.id = []) (hpassed : call.passedText = some text) :
    TellsTexts (store.db.withCapture record ⟨chunkId, 0, text⟩) ((record.id, call) :: captures) := by
  constructor
  · rw [Db.withCapture, List.map_append, List.map_append]
    exact h.oneChunk.append_right _
  · intro c hc
    rcases List.mem_append.1 hc with hc | hc
    · rw [capturesOf_cons_ne (store.chunk_recordId_ne hfresh c hc).symm]
      exact h.text c hc
    · rw [List.mem_singleton.1 hc, capturesOf_cons_self, hnone, toldText, hpassed]

/-- A merge adds its text to what the record told, and to no other record. -/
theorem TellsTexts.withMerge {store : Store} {captures : List (Str × PersistCall)}
    (h : TellsTexts store.db captures) {chunk : Chunk} (hchunk : chunk ∈ store.db.chunks)
    (hpending : chunk.flushedAtMs = 0) {call : PersistCall} {text : Str}
    (hpassed : call.passedText = some text) (incoming : NewRecord) :
    TellsTexts (store.db.withMerge chunk.recordId chunk.id incoming
      (mergeStoryText chunk.text text MERGED_TEXT_MAX_CHARS))
      ((chunk.recordId, call) :: captures) := by
  have hnodup : (store.db.chunks.map Chunk.recordId).Nodup :=
    h.oneChunk.nodup_iff.2 store.constraints.recordIds
  constructor
  · rw [Db.withMerge_recordIds, Db.withMerge_memoryRecordIds]
    exact h.oneChunk
  · intro c hc
    obtain ⟨old, hold, rfl⟩ := mem_updateWhere.1 hc
    by_cases hsame : old = chunk
    · subst hsame
      rw [if_pos (by simp [hpending])]
      refine (congrArg toldText (capturesOf_cons_self _ _ _)).trans ?_
      exact toldText_cons (h.text old hchunk) hpassed
    · -- another chunk has another id and another record
      have hids : old.id ≠ chunk.id := fun heq =>
        hsame (eq_of_key_eq store.constraints.chunkIds hold hchunk heq)
      have hrecords : chunk.recordId ≠ old.recordId := fun heq =>
        hsame (eq_of_key_eq hnodup hold hchunk heq.symm)
      rw [if_neg (by simp [hids]), capturesOf_cons_ne hrecords]
      exact h.text old hold

variable (F) in
/-- **A capture adds its text to the story it goes into.** -/
theorem Annals.Remembers.persist {annals : Annals} (hpresent : annals.Present)
    (h : annals.Remembers) (call : PersistCall) :
    TellsTexts (PersistCall.exec F annals.vault.store call).db
      (((VaultCall.persistCapture call).absorbed F annals.vault).toList ++ annals.captures) := by
  have htells : TellsTexts annals.vault.store.db annals.captures := ⟨h.oneChunk, h.text⟩
  have heffect := call.effect F annals.vault.store
  unfold VaultCall.absorbed
  dsimp only
  generalize PersistCall.exec F annals.vault.store call = store' at heffect
  generalize call.result F annals.vault.store = result at heffect
  cases heffect with
  | failed error => exact htells
  | skipped reason _ => exact htells
  | stored text count store' hpolicy _ hfresh _ hdb =>
      rw [hdb, Option.toList_some, List.singleton_append]
      exact htells.withCapture call.capture.newRecord hfresh
        (hpresent.capturesOf_eq_nil hfresh) (PersistCall.passedText_eq hpolicy)
  | merged text count candidate store' hpolicy _ hpending hdb =>
      obtain ⟨row, hrow, -, rfl⟩ := hpending
      obtain ⟨⟨hchunk, -, hid⟩, hpendingRow⟩ := Db.mem_pendingRows.1 hrow
      have hcandidate : (PendingContinuityCandidate.ofRow row).recordId = row.1.recordId := hid
      rw [hdb, Option.toList_some, List.singleton_append, hcandidate]
      exact htells.withMerge hchunk hpendingRow (PersistCall.passedText_eq hpolicy) _

/-! ## Every call -/

/-- The account of a vault with its captures: they are of its records, and the texts are theirs. -/
structure Annals.Kept (annals : Annals) : Prop where
  present : annals.Present
  remembers : annals.Remembers

/-- A call that captures nothing leaves the texts of the chunks that stay. -/
theorem Annals.Remembers.call {annals : Annals} (h : annals.Remembers) {call : VaultCall}
    (hcall : ∀ id, ¬ call.Captures id) :
    TellsTexts (call.exec F annals.vault).store.db annals.captures := by
  have hfrom := VaultCall.textsFrom (F := F) hcall h.oneChunk
  refine ⟨hfrom.oneChunk, fun c hc => ?_⟩
  obtain ⟨d, hd, hrecord, htext⟩ := hfrom.chunks c hc
  rw [← hrecord, ← htext]
  exact h.text d hd

variable (F) in
/-- **Every call keeps what the vault remembers.** -/
theorem Annals.Kept.exec {annals : Annals} (h : annals.Kept) (call : VaultCall) :
    (annals.exec F call).Kept := by
  have hafter : TellsTexts (call.exec F annals.vault).store.db
      ((call.absorbed F annals.vault).toList ++ annals.captures) := by
    cases call with
    | persistCapture call => exact Annals.Remembers.persist F h.present h.remembers call
    | flushOnce embedder nowMs scan stop => exact h.remembers.call (fun _ => id)
    | rebuild embedder nowMs scan fuel stop => exact h.remembers.call (fun _ => id)
    | deleteEverywhere scope stop => exact h.remembers.call (fun _ => id)
  -- the captures that go with a deleted record are of no chunk that stays
  have htexts : ∀ c ∈ (annals.exec F call).vault.store.db.chunks,
      toldText (capturesOf (annals.exec F call).captures c.recordId) = some c.text := by
    intro c hc
    have hkept : (annals.exec F call).vault.store.db.HasRecord c.recordId :=
      (annals.exec F call).vault.store.constraints.foreignKey c hc
    have hstory : capturesOf (annals.exec F call).captures c.recordId = _ :=
      capturesOf_filter _ hkept
    rw [hstory]
    exact hafter.text c hc
  refine ⟨annals.present_exec F call, hafter.oneChunk, htexts, fun c hc => ?_⟩
  exact passedText_of_toldText (htexts c hc)

theorem Annals.kept_empty : Annals.empty.Kept := by
  refine ⟨?_, ⟨?_, ?_, ?_⟩⟩
  · exact fun c hc => nomatch hc
  · exact List.Perm.refl _
  · exact fun c hc => nomatch hc
  · exact fun c hc => nomatch hc

theorem kept_of_run (calls : List VaultCall) :
    AllStates (Annals.exec F) Annals.Kept Annals.empty calls :=
  AllStates.of_step (fun _ call h => h.exec F call) Annals.kept_empty

/-- **The vault remembers the stories and nothing else.** Over every run of captures, flushes,
    rebuilds and deletions, wherever they stop: every record has exactly one chunk, and its text is
    that of the record's captures in the order they came, each as the policy passed it. -/
theorem texts_told (calls : List VaultCall) :
    AllStates (Annals.exec F) Annals.Remembers Annals.empty calls :=
  (kept_of_run calls).imp (fun _ h => h.remembers)

end Fndr
