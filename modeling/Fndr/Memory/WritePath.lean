import Fndr.Library.Runs
import Fndr.Memory.Continuity
import Fndr.Store.Store

set_option autoImplicit false

/-! # The write path

`persist_capture`: recheck the policy, redact, look for a pending record to continue, and else
insert. `persistCapture_effect` says everything a call can do; the two theorems after it are the
write seam's contract, all or nothing and local (`persistCapture_frame`), and no secret pattern in
stored text over any run (`secretFree_of_persistCaptures`). -/

namespace Fndr

open RustStd Rows Runs

/-- The already assembled capture fields that may become one record and one chunk. -/
structure CaptureForPersistence where
  recordId : Str
  sessionId : Str
  chunkId : Str
  source : Str
  appName : Str
  bundleId : Option Str
  url : Option Str
  windowTitle : Str
  ocrText : Str
  capturedAtMs : ℤ
  createdAtMs : ℤ

/-- What became of a capture. -/
inductive PersistCaptureOutcome
  | stored (recordId : Str) (redactionCount : ℕ)
  | merged (recordId : Str) (redactionCount : ℕ)
  | skipped (reason : SafetyReason)
  deriving DecidableEq

/-- `i64::saturating_sub`. -/
def saturatingSub (a b : ℤ) : ℤ := max (-2 ^ 63) (min (2 ^ 63 - 1) (a - b))

/-- What the safety gate is shown of the capture. -/
def CaptureForPersistence.safetyContext (capture : CaptureForPersistence)
    (ocrText : Option Str) : SafetyContext where
  appName := some capture.appName
  bundleId := capture.bundleId
  url := capture.url
  windowTitle := some capture.windowTitle
  ocrText := ocrText

/-- A stored candidate as the continuity policy sees it. -/
def PendingContinuityCandidate.continuityRecord (candidate : PendingContinuityCandidate) :
    ContinuityRecord where
  appName := candidate.appName
  url := candidate.url
  windowTitle := candidate.windowTitle
  text := candidate.text
  snippet := candidate.windowTitle
  lexicalShadow := candidate.text
  capturedAtMs := candidate.capturedAtMs

/-- The incoming record with its redacted text, as the continuity policy sees it. -/
def NewRecord.continuityRecord (record : NewRecord) (text : Str) : ContinuityRecord where
  appName := record.appName
  url := record.url.map SanitizedUrl.asStr
  windowTitle := record.windowTitle
  text := text
  snippet := record.windowTitle
  lexicalShadow := text
  capturedAtMs := record.capturedAtMs

variable [UnicodeTables] [UrlCrate]

/-- The row of the capture, its URL sanitized. -/
def CaptureForPersistence.newRecord (capture : CaptureForPersistence) : NewRecord where
  id := capture.recordId
  sessionId := capture.sessionId
  source := capture.source
  appName := capture.appName
  bundleId := capture.bundleId
  url := capture.url.bind sanitizeUrlForStorage
  windowTitle := capture.windowTitle
  capturedAtMs := capture.capturedAtMs
  createdAtMs := capture.createdAtMs

/-- The policy recheck: the text to store and the number of redacted lines, or why to skip. -/
def recheckPolicy (capture : CaptureForPersistence) (blocklist : Blocklist) :
    Except SafetyReason (Str × ℕ) :=
  match evaluate (capture.safetyContext none) blocklist with
  | .skipStorage reason => .error reason
  | _ =>
      match evaluate (capture.safetyContext (some capture.ocrText)) blocklist with
      | .allow => .ok (capture.ocrText, 0)
      | .redact _ => .ok (redactSecretLines capture.ocrText)
      | .skipStorage reason => .error reason

/-- The characters up to which a chunk takes in further captures. -/
def MERGED_TEXT_MAX_CHARS : ℕ := 6400

variable (F : Type) [ScoreArith F]

/-- `should_merge` as the write path calls it, with no vector evidence. -/
def continues (record : NewRecord) (text : Str) (candidate : PendingContinuityCandidate) : Bool :=
  (shouldMerge (record.continuityRecord text) candidate.continuityRecord (0.0 : F)).isSome

/-- The candidate loop: the first merge that takes effect ends it. -/
def mergeIntoCandidates (sql : SqlFaults) (record : NewRecord) (text : Str) :
    List PendingContinuityCandidate → Store → Except StoreError (Option Str) × Store
  | [], store => (.ok none, store)
  | candidate :: candidates, store =>
      if continues F record text candidate then
        let merged := mergeStoryText candidate.text text MERGED_TEXT_MAX_CHARS
        match store.mergePendingCapture sql candidate record merged with
        | (.error error, store) => (.error error, store)
        | (.ok true, store) => (.ok (some candidate.recordId), store)
        -- the chunk was flushed since it was read
        | (.ok false, store) => mergeIntoCandidates sql record text candidates store
      else
        mergeIntoCandidates sql record text candidates store

/-- The candidates of a record: pending captures of the last 45 minutes, newest first. -/
def continuityCandidates (scan : Scan) (record : NewRecord) (store : Store) :
    List PendingContinuityCandidate :=
  store.db.pendingContinuityCandidates scan
    (saturatingSub record.capturedAtMs (45 * 60 * 1000)) 64

/-- Recheck policy, then merge into a pending record or insert a new one. -/
def persistCapture (sql : SqlFaults) (scan : Scan) (capture : CaptureForPersistence)
    (blocklist : Blocklist) (store : Store) : Except StoreError PersistCaptureOutcome × Store :=
  match recheckPolicy capture blocklist with
  -- the second check, on the text
  | .error reason => (.ok (.skipped reason), store)
  | .ok (text, redactionCount) =>
      let record := capture.newRecord
      match sql .selectContinuityCandidates with
      | some error => (.error (.sqlite error), store)
      | none =>
          match mergeIntoCandidates F sql record text (continuityCandidates scan record store)
            store with
          | (.error error, store) => (.error error, store)
          | (.ok (some recordId), store) => (.ok (.merged recordId redactionCount), store)
          -- no candidate was merged into, or none was still pending
          | (.ok none, store) =>
              match store.insertCapture sql record [⟨capture.chunkId, 0, text⟩] with
              | (.error error, store) => (.error error, store)
              | (.ok (), store) => (.ok (.stored capture.recordId redactionCount), store)

/-! ## Everything a call can do -/

/-- The first candidate the policy accepts. -/
def mergeTarget (scan : Scan) (record : NewRecord) (text : Str) (store : Store) :
    Option PendingContinuityCandidate :=
  (continuityCandidates scan record store).find? (continues F record text)

/-- The candidate is the row of a pending first chunk. -/
def PendingContinuityCandidate.IsPending (candidate : PendingContinuityCandidate) (db : Db) :
    Prop :=
  ∃ row ∈ db.pendingRows, row.1.ord = 0 ∧ candidate = PendingContinuityCandidate.ofRow row

omit [UnicodeTables] [UrlCrate] in
theorem isPending_of_mem_candidates {scan : Scan} {record : NewRecord} {store : Store}
    {candidate : PendingContinuityCandidate}
    (h : candidate ∈ continuityCandidates scan record store) : candidate.IsPending store.db := by
  obtain ⟨row, hrow, hord, -, heq⟩ := Db.mem_pendingContinuityCandidates h
  exact ⟨row, hrow, hord, heq⟩

omit [UnicodeTables] [UrlCrate] in
/-- The guarded update finds the record of a pending candidate, so its merge is not refused. -/
theorem PendingContinuityCandidate.IsPending.updatedRecord_ne
    {candidate : PendingContinuityCandidate} {db : Db} (h : candidate.IsPending db) :
    db.updatedRecord candidate ≠ 0 := by
  obtain ⟨row, hrow, -, rfl⟩ := h
  obtain ⟨⟨hc, hr, hid⟩, hpending⟩ := Db.mem_pendingRows.1 hrow
  have hexists : db.pendingChunkExists row.1.id row.2.id = true := by
    rw [Db.pendingChunkExists, List.any_eq_true]
    exact ⟨row.1, hc, by simp [hid, hpending]⟩
  have hcount : 0 < db.memoryRecords.countP (fun r => r.id == row.2.id) :=
    List.countP_pos_iff.2 ⟨row.2, hr, by simp⟩
  simp only [Db.updatedRecord, PendingContinuityCandidate.ofRow, hexists, if_true]
  omega

/-- What a call did, by its result: the step relation of the write path. -/
inductive PersistEffect (scan : Scan) (capture : CaptureForPersistence) (blocklist : Blocklist)
    (store : Store) : Except StoreError PersistCaptureOutcome → Store → Prop
  | failed (error : StoreError) :
      PersistEffect scan capture blocklist store (.error error) store
  | skipped (reason : SafetyReason) (hpolicy : recheckPolicy capture blocklist = .error reason) :
      PersistEffect scan capture blocklist store (.ok (.skipped reason)) store
  | merged (text : Str) (redactionCount : ℕ) (candidate : PendingContinuityCandidate)
      (store' : Store) (hpolicy : recheckPolicy capture blocklist = .ok (text, redactionCount))
      (htarget : mergeTarget F scan capture.newRecord text store = some candidate)
      (hpending : candidate.IsPending store.db)
      (hdb : store'.db = store.db.withMerge candidate.recordId candidate.chunkId capture.newRecord
        (mergeStoryText candidate.text text MERGED_TEXT_MAX_CHARS)) :
      PersistEffect scan capture blocklist store
        (.ok (.merged candidate.recordId redactionCount)) store'
  | stored (text : Str) (redactionCount : ℕ) (store' : Store)
      (hpolicy : recheckPolicy capture blocklist = .ok (text, redactionCount))
      (htarget : mergeTarget F scan capture.newRecord text store = none)
      (hrecord : ∀ r ∈ store.db.memoryRecords, r.id ≠ capture.recordId)
      (hchunk : ∀ c ∈ store.db.chunks, c.id ≠ capture.chunkId)
      (hdb : store'.db = store.db.withCapture capture.newRecord ⟨capture.chunkId, 0, text⟩) :
      PersistEffect scan capture blocklist store
        (.ok (.stored capture.recordId redactionCount)) store'

omit [UrlCrate] in
theorem mergeIntoCandidates_cases (sql : SqlFaults) (record : NewRecord) (text : Str)
    (candidates : List PendingContinuityCandidate) (store : Store)
    (hpending : ∀ candidate ∈ candidates, candidate.IsPending store.db) :
    (∃ error, mergeIntoCandidates F sql record text candidates store = (.error error, store)) ∨
    (candidates.find? (continues F record text) = none ∧
      mergeIntoCandidates F sql record text candidates store = (.ok none, store)) ∨
    ∃ candidate store', candidates.find? (continues F record text) = some candidate ∧
      store'.db = store.db.withMerge candidate.recordId candidate.chunkId record
        (mergeStoryText candidate.text text MERGED_TEXT_MAX_CHARS) ∧
      mergeIntoCandidates F sql record text candidates store
        = (.ok (some candidate.recordId), store') := by
  induction candidates with
  | nil => exact Or.inr (Or.inl ⟨rfl, rfl⟩)
  | cons candidate candidates ih =>
      rw [mergeIntoCandidates]
      by_cases hcont : continues F record text candidate = true
      · rw [if_pos hcont, List.find?_cons_of_pos hcont]
        rcases store.mergePendingCapture_cases sql candidate record
            (mergeStoryText candidate.text text MERGED_TEXT_MAX_CHARS) with
          ⟨error, h⟩ | ⟨hzero, -⟩ | ⟨store', h, -, -, hdb⟩
        · exact Or.inl ⟨error, by simp only [h]⟩
        · -- nothing ran since the candidates were read, so the guarded update finds its row
          exact absurd hzero (hpending candidate List.mem_cons_self).updatedRecord_ne
        · exact Or.inr (Or.inr ⟨candidate, store', rfl, hdb, by simp only [h]⟩)
      · rw [if_neg hcont, List.find?_cons_of_neg hcont]
        exact ih (fun c hc => hpending c (List.mem_cons_of_mem candidate hc))

/-- **Every call is one step of the relation.** -/
theorem persistCapture_effect (sql : SqlFaults) (scan : Scan) (capture : CaptureForPersistence)
    (blocklist : Blocklist) (store : Store) :
    PersistEffect F scan capture blocklist store
      (persistCapture F sql scan capture blocklist store).1
      (persistCapture F sql scan capture blocklist store).2 := by
  unfold persistCapture
  cases hpolicy : recheckPolicy capture blocklist with
  | error reason => exact .skipped reason hpolicy
  | ok pair =>
      obtain ⟨text, redactionCount⟩ := pair
      dsimp only
      cases sql .selectContinuityCandidates with
      | some error => exact .failed _
      | none =>
          dsimp only
          rcases mergeIntoCandidates_cases F sql capture.newRecord text
              (continuityCandidates scan capture.newRecord store) store
              (fun c hc => isPending_of_mem_candidates hc) with
            ⟨error, h⟩ | ⟨hnone, h⟩ | ⟨candidate, store', htarget, hdb, h⟩
          · rw [h]
            exact .failed error
          · rw [h]
            rcases store.insertCapture_cases sql capture.newRecord ⟨capture.chunkId, 0, text⟩ with
              ⟨error, h⟩ | ⟨store', h, hrecord, hchunk, hdb⟩
            · simp only [h]
              exact .failed error
            · simp only [h]
              exact .stored text redactionCount store' hpolicy hnone hrecord hchunk hdb
          · rw [h]
            exact .merged text redactionCount candidate store' hpolicy htarget
              (isPending_of_mem_candidates (List.mem_of_find?_eq_some htarget)) hdb

/-! ## All or nothing, and local -/

omit [UnicodeTables] [UrlCrate] in
theorem Store.updateRecord_rows (store : Store) {record : MemoryRecord}
    (hrecord : record ∈ store.db.memoryRecords) (f : MemoryRecord → MemoryRecord) :
    updateWhere (fun r => r.id == record.id) f store.db.memoryRecords
      = store.db.memoryRecords.map (fun r => if r = record then f r else r) := by
  refine List.map_congr_left (fun r hr => ?_)
  by_cases h : r.id = record.id
  · rw [if_pos (by simpa using h),
      if_pos (eq_of_key_eq store.constraints.recordIds hr hrecord h)]
  · rw [if_neg (by simpa using h), if_neg (fun he : r = record => h (congrArg _ he))]

omit [UnicodeTables] [UrlCrate] in
theorem Store.updatePendingText_rows (store : Store) {chunk : Chunk}
    (hchunk : chunk ∈ store.db.chunks) (hpending : chunk.flushedAtMs = 0) (f : Chunk → Chunk) :
    updateWhere (fun c => c.id == chunk.id && c.flushedAtMs == 0) f store.db.chunks
      = store.db.chunks.map (fun c => if c = chunk then f c else c) := by
  refine List.map_congr_left (fun c hc => ?_)
  by_cases h : c.id = chunk.id
  · have heq := eq_of_key_eq store.constraints.chunkIds hc hchunk h
    rw [if_pos (by simp [heq, hpending]), if_pos heq]
  · rw [if_neg (by simp [h]), if_neg (fun he : c = chunk => h (congrArg _ he))]

omit [UnicodeTables] [UrlCrate] in
theorem filter_ftsEntry_withText (chunk : Chunk) (text : Str) (chunks : List Chunk) :
    ((chunks.map (fun c => if c = chunk then c.withText text else c)).map Chunk.ftsEntry).filter
        (fun e => e.rowid != chunk.rowid)
      = (chunks.map Chunk.ftsEntry).filter (fun e => e.rowid != chunk.rowid) := by
  induction chunks with
  | nil => rfl
  | cons c chunks ih =>
      simp only [List.map_cons, List.filter_cons, ih]
      by_cases h : c = chunk
      · simp [h, Chunk.ftsEntry, Chunk.withText]
      · rw [if_neg h]

omit [UnicodeTables] [UrlCrate] in
/-- Changing the text of one chunk leaves the index entries of the others. -/
theorem Store.fts_of_chunks {before after : Store} {chunk : Chunk} {text : Str}
    (h : after.db.chunks
      = before.db.chunks.map (fun c => if c = chunk then c.withText text else c)) :
    (after.db.chunksFts.filter (fun e => e.rowid != chunk.rowid)).Perm
      (before.db.chunksFts.filter (fun e => e.rowid != chunk.rowid)) := by
  refine (after.ftsCurrent.filter _).trans ?_
  rw [h, filter_ftsEntry_withText]
  exact (before.ftsCurrent.filter _).symm

/-- **All or nothing, and local.** An error or a skip leaves the store as it was; a new capture adds
    one record with one pending chunk; a merge refreshes five columns of one record and the text of
    its pending first chunk, and touches no other row. -/
theorem persistCapture_frame (sql : SqlFaults) (scan : Scan) (capture : CaptureForPersistence)
    (blocklist : Blocklist) (store : Store) :
    match persistCapture F sql scan capture blocklist store with
    | (.error _, after) => after = store
    | (.ok (.skipped _), after) => after = store
    | (.ok (.stored recordId _), after) =>
        recordId = capture.recordId ∧
          (∀ r ∈ store.db.memoryRecords, r.id ≠ capture.recordId) ∧
          (∀ c ∈ store.db.chunks, c.id ≠ capture.chunkId) ∧
          ∃ rowid text, after.db =
            { memoryRecords := store.db.memoryRecords ++ [capture.newRecord.row]
              chunks := store.db.chunks ++ [⟨rowid, capture.chunkId, capture.recordId, 0, text, 0⟩]
              chunksFts := store.db.chunksFts ++ [⟨rowid, text⟩] }
    | (.ok (.merged recordId _), after) =>
        ∃ record ∈ store.db.memoryRecords, ∃ chunk ∈ store.db.chunks, ∃ text,
          record.id = recordId ∧ chunk.recordId = recordId ∧ chunk.ord = 0 ∧
          chunk.flushedAtMs = 0 ∧
          after.db.memoryRecords = store.db.memoryRecords.map
            (fun r => if r = record then r.refresh capture.newRecord else r) ∧
          after.db.chunks = store.db.chunks.map
            (fun c => if c = chunk then c.withText text else c) ∧
          (after.db.chunksFts.filter (fun e => e.rowid != chunk.rowid)).Perm
            (store.db.chunksFts.filter (fun e => e.rowid != chunk.rowid)) := by
  have heffect := persistCapture_effect F sql scan capture blocklist store
  generalize persistCapture F sql scan capture blocklist store = result at heffect
  obtain ⟨outcome, after⟩ := result
  cases heffect with
  | failed error => rfl
  | skipped reason _ => rfl
  | stored text redactionCount after _ _ hrecord hchunk hdb =>
      exact ⟨rfl, hrecord, hchunk, store.db.nextRowid, text, hdb⟩
  | merged text redactionCount candidate after _ _ hpending hdb =>
      obtain ⟨row, hrow, hord, rfl⟩ := hpending
      obtain ⟨⟨hc, hr, hid⟩, hflushed⟩ := Db.mem_pendingRows.1 hrow
      let merged := mergeStoryText row.1.text text MERGED_TEXT_MAX_CHARS
      -- the ids are unique, so one chunk changes
      have hchunks : after.db.chunks
          = store.db.chunks.map (fun c => if c = row.1 then c.withText merged else c) := by
        rw [hdb]
        exact store.updatePendingText_rows hc hflushed (·.withText merged)
      refine ⟨row.2, hr, row.1, hc, merged, rfl, hid.symm, hord, hflushed, ?_, hchunks, ?_⟩
      · rw [hdb]
        exact store.updateRecord_rows hr (·.refresh capture.newRecord)
      · exact Store.fts_of_chunks hchunks

/-! ## No secret pattern in stored text -/

/-- One call of the write path, with what the engine and the disk do during it. -/
structure PersistCall where
  sql : SqlFaults
  scan : Scan
  capture : CaptureForPersistence
  blocklist : Blocklist

/-- The store that the call leaves. -/
def PersistCall.exec (store : Store) (call : PersistCall) : Store :=
  (persistCapture F call.sql call.scan call.capture call.blocklist store).2

/-- The recheck lets only redacted text through. -/
theorem recheckPolicy_secretFree {capture : CaptureForPersistence} {blocklist : Blocklist}
    {text : Str} {redactionCount : ℕ}
    (h : recheckPolicy capture blocklist = .ok (text, redactionCount)) :
    SecretFree SECRET_PATTERNS text := by
  unfold recheckPolicy at h
  split at h
  · cases h
  · split at h
    · next hallow =>
      cases h
      -- allowed with its text, so the text rule found no pattern
      have heval := evaluate_with_text (capture.safetyContext none) blocklist capture.ocrText rfl
      rw [← containsSecretPattern_eq_false_iff]
      by_contra hcontains
      rw [if_pos (by simpa using hcontains)] at heval
      have hsame : (capture.safetyContext none).withText capture.ocrText
          = capture.safetyContext (some capture.ocrText) := rfl
      rw [hsame, hallow] at heval
      revert heval
      cases evaluate (capture.safetyContext none) blocklist <;> simp [SafetyDecision.thenText]
    · cases h
      exact redactSecretLines_avoids capture.ocrText
    · cases h

/-- Every stored text is free of the built-in secret patterns. -/
def Store.SecretFree (store : Store) : Prop :=
  ∀ c ∈ store.db.chunks, Fndr.SecretFree SECRET_PATTERNS c.text

theorem persistCall_secretFree (store : Store) (call : PersistCall) (h : store.SecretFree) :
    (PersistCall.exec F store call).SecretFree := by
  have heffect := persistCapture_effect F call.sql call.scan call.capture call.blocklist store
  unfold PersistCall.exec
  generalize persistCapture F call.sql call.scan call.capture call.blocklist store = result
    at heffect
  obtain ⟨outcome, after⟩ := result
  cases heffect with
  | failed error => exact h
  | skipped reason _ => exact h
  | stored text redactionCount after hpolicy _ _ _ hdb =>
      intro c hc
      rw [hdb] at hc
      rcases List.mem_append.1 hc with hc | hc
      · exact h c hc
      · cases List.mem_singleton.1 hc
        exact recheckPolicy_secretFree hpolicy
  | merged text redactionCount candidate after hpolicy _ hpending hdb =>
      intro c hc
      rw [hdb] at hc
      obtain ⟨d, hd, rfl⟩ := mem_updateWhere.1 hc
      obtain ⟨row, hrow, -, rfl⟩ := hpending
      split
      · exact mergeStoryText_secretFree joinable_secretPatterns MERGED_TEXT_MAX_CHARS
          (h row.1 (Db.mem_pendingRows.1 hrow).1.1) (recheckPolicy_secretFree hpolicy)
      · exact h d hd

/-- **No secret pattern reaches stored text**, over any run of captures and merges from an empty
    store. -/
theorem secretFree_of_persistCaptures (calls : List PersistCall) :
    AllStates (PersistCall.exec F) Store.SecretFree Store.empty calls := by
  refine AllStates.of_step (fun store call h => persistCall_secretFree F store call h) ?_
  intro c hc
  cases hc

end Fndr
