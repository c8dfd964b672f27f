import Fndr.Shell.CaptureAdapters
import Fndr.Store.Faults

set_option autoImplicit false

/-! # Record ids over the life of a vault

`StoreCaptureSink::ids` numbers the captures of one sink below its session id, and `app.rs` names
the session after the process. So an id says which process handed it out and under which number
(`recordIdOf_injective`), and nothing but that pair keeps it apart from the ids already stored: an id
is new exactly when no process of that number stored a capture under it before (`idsFresh_iff`). The
OS hands out process numbers again, and a second process of one number starts at 0. -/

namespace Fndr

open RustStd Rows Runs

/-- `format!("desktop-{}", std::process::id())`. -/
def desktopSession (processId : ℕ) : Str := "desktop-".toList ++ (toString processId).toList

/-! ## The encoding of ids -/

/-- The record id `ids` hands out for a number of a session. -/
def recordIdOf (processId sequence : ℕ) : Str :=
  desktopSession processId ++ "-".toList ++ (toString sequence).toList

/-- The id of a capture's one chunk. -/
def chunkIdOf (processId sequence : ℕ) : Str := recordIdOf processId sequence ++ "-0".toList

theorem recordIdOf_eq (p m : ℕ) :
    recordIdOf p m = "desktop-".toList ++ ((toString p).toList ++ '-' :: (toString m).toList) := by
  unfold recordIdOf desktopSession
  have hdash : "-".toList ++ (toString m).toList = '-' :: (toString m).toList := by congr 1
  calc
    "desktop-".toList ++ (toString p).toList ++ "-".toList ++ (toString m).toList
      = ("desktop-".toList ++ (toString p).toList) ++ ("-".toList ++ (toString m).toList) :=
        List.append_assoc _ _ _
    _ = ("desktop-".toList ++ (toString p).toList) ++ '-' :: (toString m).toList := by
        exact congrArg _ hdash
    _ = "desktop-".toList ++ ((toString p).toList ++ '-' :: (toString m).toList) :=
        List.append_assoc _ _ _

theorem recordIdOf_injective {p q m n : ℕ} (h : recordIdOf p m = recordIdOf q n) :
    p = q ∧ m = n := by
  rw [recordIdOf_eq, recordIdOf_eq] at h
  -- the first dash after the prefix ends the process number
  obtain ⟨hp, -, hm⟩ := (List.append_cons_inj_of_notMem (dash_notMem_toString p)
    (dash_notMem_toString m)).1 (List.append_cancel_left h)
  exact ⟨toString_toList_injective hp, toString_toList_injective hm⟩

theorem chunkIdOf_injective {p q m n : ℕ} (h : chunkIdOf p m = chunkIdOf q n) :
    p = q ∧ m = n := by
  rw [chunkIdOf, chunkIdOf] at h
  exact recordIdOf_injective (List.append_cancel_right h)

theorem count_dash_toString (n : ℕ) : (toString n).toList.count '-' = 0 :=
  List.count_eq_zero.2 (dash_notMem_toString n)

/-- A chunk id has one dash more than a record id. -/
theorem recordIdOf_ne_chunkIdOf (p m q n : ℕ) : recordIdOf p m ≠ chunkIdOf q n := by
  intro h
  have hcount := congrArg (List.count '-') h
  have hsuffix : List.count '-' "-0".toList = 1 := by decide
  rw [chunkIdOf, List.count_append, hsuffix, recordIdOf_eq, recordIdOf_eq] at hcount
  simp only [List.count_append, List.count_cons_self, count_dash_toString] at hcount
  omega

/-! ## App runs -/

section AppRuns

variable [UnicodeTables] [UrlCrate]

/-- What one capture hands to the sink, with what SQLite does during it. -/
structure SinkCall where
  sql : SqlFaults
  scan : Scan
  source : Str
  context : CaptureContext
  capturedAtMs : ℕ
  text : Str

/-- The sink of the process that has the vault open, which owns the store; and, for every capture
    that added a record, the process that made it and the number it had there. -/
structure AppVault where
  processId : ℕ
  sink : StoreCaptureSink
  stored : List (ℕ × ℕ)

/-- A launch of the app, or a capture by the sink that the launch made. -/
inductive AppStep
  | launch (processId : ℕ) (blocklist : Blocklist)
  | capture (call : SinkCall)

/-- A new process opens a sink over the store. -/
def AppVault.launch (processId : ℕ) (blocklist : Blocklist) (s : AppVault) : AppVault :=
  match StoreCaptureSink.new s.sink.store blocklist (desktopSession processId) with
  | .ok sink => { s with processId := processId, sink := sink }
  | .error _ => s

/-- The first launch over a fresh vault. -/
def AppVault.first (processId : ℕ) (blocklist : Blocklist) : AppVault where
  processId := processId
  sink := ⟨Store.empty, blocklist, desktopSession processId, 0⟩
  stored := []

variable (F : Type) [ScoreArith F]

/-- What the sink makes of the call. -/
def SinkCall.persist (call : SinkCall) (sink : StoreCaptureSink) :
    Except PipelineError PersistenceOutcome × StoreCaptureSink :=
  sink.persist F call.sql call.scan call.source call.context call.capturedAtMs call.text

/-- Capture once, noting the key of the record if one was added. -/
def AppVault.capture (call : SinkCall) (s : AppVault) : AppVault :=
  let sink := (call.persist F s.sink).2
  { s with
    sink := sink
    stored :=
      if s.sink.store.db.memoryRecords.length < sink.store.db.memoryRecords.length then
        s.stored ++ [(s.processId, s.sink.nextSequence)]
      else s.stored }

/-- Run one step of the app. -/
def AppVault.exec (s : AppVault) : AppStep → AppVault
  | .launch processId blocklist => s.launch processId blocklist
  | .capture call => s.capture F call

/-! ## What the stored ids say -/

/-- The ids that the vault holds. -/
def AppVault.storedIds (s : AppVault) : List Str :=
  s.sink.store.db.memoryRecords.map MemoryRecord.id ++ s.sink.store.db.chunks.map Chunk.id

/-- The ids a capture is given are new, and SQLite refuses it for no key. A capture whose time does
    not fit the column is given none. -/
def AppVault.IdsFresh (s : AppVault) : AppStep → Prop
  | .launch .. => True
  | .capture call => call.capturedAtMs < 2 ^ 63 →
      (∀ id ∈ s.storedIds, s.sink.ids.1.1 ≠ id ∧ s.sink.ids.1.2 ≠ id) ∧
      ∀ error, (call.persist F s.sink).1 = .error error →
        ∃ fault, call.sql.Gave fault ∧ error = storeError fault

/-- No process of this number has stored a capture under the number this one has reached. -/
def AppVault.NumberUnused (s : AppVault) : AppStep → Prop
  | .launch .. => True
  | .capture call => call.capturedAtMs < 2 ^ 63 → (s.processId, s.sink.nextSequence) ∉ s.stored

/-- Every stored id is the one of a stored capture. -/
structure AppVault.Accounted (s : AppVault) : Prop where
  session : s.sink.sessionId = desktopSession s.processId
  records : s.sink.store.db.memoryRecords.map MemoryRecord.id
    = s.stored.map (fun key => recordIdOf key.1 key.2)
  chunks : s.sink.store.db.chunks.map Chunk.id = s.stored.map (fun key => chunkIdOf key.1 key.2)

/-! ## One capture -/

/-- A capture whose time fits the column reaches the write path under the ids of the sink. -/
theorem SinkCall.persist_eq (call : SinkCall) (sink : StoreCaptureSink)
    (htime : call.capturedAtMs < 2 ^ 63) :
    ∃ capture : CaptureForPersistence, capture.recordId = sink.ids.1.1 ∧
      capture.chunkId = sink.ids.1.2 ∧
      (call.persist F sink).1 = persistenceResult
        (persistCapture F call.sql call.scan capture sink.blocklist sink.store).1 ∧
      (call.persist F sink).2 = { sink.ids.2 with
        store := (persistCapture F call.sql call.scan capture sink.blocklist sink.store).2 } := by
  unfold SinkCall.persist StoreCaptureSink.persist
  rw [if_pos htime]
  exact ⟨_, rfl, rfl, rfl, rfl⟩

theorem SinkCall.persist_late (call : SinkCall) (sink : StoreCaptureSink)
    (htime : ¬ call.capturedAtMs < 2 ^ 63) : (call.persist F sink).2 = sink := by
  unfold SinkCall.persist StoreCaptureSink.persist
  rw [if_neg htime]

/-- The ids a capture leaves stored: those before it, with its own at the end when it is stored as a
    new record. -/
theorem SinkCall.persist_storedIds (call : SinkCall) (sink : StoreCaptureSink) :
    let before := sink.store.db
    let after := (call.persist F sink).2.store.db
    (after.memoryRecords.map MemoryRecord.id = before.memoryRecords.map MemoryRecord.id ∧
      after.chunks.map Chunk.id = before.chunks.map Chunk.id) ∨
    (after.memoryRecords.map MemoryRecord.id
        = before.memoryRecords.map MemoryRecord.id ++ [sink.ids.1.1] ∧
      after.chunks.map Chunk.id = before.chunks.map Chunk.id ++ [sink.ids.1.2]) := by
  by_cases htime : call.capturedAtMs < 2 ^ 63
  · obtain ⟨capture, hrecordId, hchunkId, -, hafter⟩ := call.persist_eq F sink htime
    have heffect := persistCapture_effect F call.sql call.scan capture sink.blocklist sink.store
    rw [hafter, ← hrecordId, ← hchunkId]
    generalize persistCapture F call.sql call.scan capture sink.blocklist sink.store = result
      at heffect
    obtain ⟨outcome, after⟩ := result
    cases heffect with
    | failed error => exact Or.inl ⟨rfl, rfl⟩
    | skipped reason _ => exact Or.inl ⟨rfl, rfl⟩
    | stored text count after _ _ _ _ hdb =>
        rw [hdb]
        exact Or.inr ⟨List.map_append, List.map_append⟩
    | merged text count candidate after _ _ _ hdb =>
        rw [hdb]
        refine Or.inl ⟨Db.withMerge_memoryRecordIds _ _ _ _ _, map_updateWhere (fun c _ => ?_) _⟩
        rfl
  · rw [call.persist_late F sink htime]
    exact Or.inl ⟨rfl, rfl⟩

theorem SinkCall.persist_sessionId (call : SinkCall) (sink : StoreCaptureSink) :
    (call.persist F sink).2.sessionId = sink.sessionId := by
  unfold SinkCall.persist StoreCaptureSink.persist
  split <;> rfl

/-! ## Every stored id is accounted for -/

omit [UnicodeTables] [UrlCrate] in
theorem StoreCaptureSink.new_desktop (store : Store) (blocklist : Blocklist) (processId : ℕ) :
    StoreCaptureSink.new store blocklist (desktopSession processId)
      = .ok ⟨store, blocklist, desktopSession processId, 0⟩ := by
  have htrim : trim (desktopSession processId) ≠ [] := by
    intro h
    rw [trim, trimEndMatches, List.rdropWhile_eq_nil_iff] at h
    have hfirst : 'd' ∈ trimStartMatches isWhitespace (desktopSession processId) :=
      List.mem_cons_self
    exact absurd (h 'd' hfirst) (by decide)
  rw [StoreCaptureSink.new, if_neg htrim]

omit [UnicodeTables] [UrlCrate] in
theorem AppVault.Accounted.launch {s : AppVault} (h : s.Accounted) (processId : ℕ)
    (blocklist : Blocklist) : (s.launch processId blocklist).Accounted := by
  unfold AppVault.launch
  rw [StoreCaptureSink.new_desktop]
  exact ⟨rfl, h.records, h.chunks⟩

variable {F}

omit [UnicodeTables] [UrlCrate] in
theorem AppVault.Accounted.ids_eq {s : AppVault} (h : s.Accounted) :
    s.sink.ids.1 = (recordIdOf s.processId s.sink.nextSequence,
      chunkIdOf s.processId s.sink.nextSequence) := by
  unfold StoreCaptureSink.ids chunkIdOf recordIdOf
  rw [h.session]

theorem AppVault.Accounted.capture {s : AppVault} (h : s.Accounted) (call : SinkCall) :
    (s.capture F call).Accounted := by
  have hids := h.ids_eq
  have hsession : (s.capture F call).sink.sessionId = desktopSession (s.capture F call).processId :=
    (call.persist_sessionId F s.sink).trans h.session
  rcases call.persist_storedIds F s.sink with ⟨hrecords, hchunks⟩ | ⟨hrecords, hchunks⟩
  · have hlength := congrArg List.length hrecords
    simp only [List.length_map] at hlength
    have hstored : (s.capture F call).stored = s.stored := if_neg (by omega)
    refine ⟨hsession, ?_, ?_⟩
    · rw [hstored]
      exact hrecords.trans h.records
    · rw [hstored]
      exact hchunks.trans h.chunks
  · have hlength := congrArg List.length hrecords
    simp only [List.length_map, List.length_append, List.length_singleton] at hlength
    have hstored : (s.capture F call).stored = s.stored ++ [(s.processId, s.sink.nextSequence)] :=
      if_pos (by omega)
    rw [h.records, hids] at hrecords
    rw [h.chunks, hids] at hchunks
    refine ⟨hsession, ?_, ?_⟩
    · rw [hstored, List.map_append]
      exact hrecords
    · rw [hstored, List.map_append]
      exact hchunks

theorem accounted_exec (s : AppVault) (step : AppStep) (h : s.Accounted) :
    (s.exec F step).Accounted := by
  cases step with
  | launch processId blocklist => exact h.launch processId blocklist
  | capture call => exact h.capture call

omit [UnicodeTables] [UrlCrate] in
theorem AppVault.Accounted.mem_storedIds {s : AppVault} (h : s.Accounted) {id : Str} :
    id ∈ s.storedIds ↔
      ∃ key ∈ s.stored, id = recordIdOf key.1 key.2 ∨ id = chunkIdOf key.1 key.2 := by
  rw [AppVault.storedIds, h.records, h.chunks, List.mem_append, List.mem_map, List.mem_map]
  constructor
  · rintro (⟨key, hkey, rfl⟩ | ⟨key, hkey, rfl⟩)
    · exact ⟨key, hkey, Or.inl rfl⟩
    · exact ⟨key, hkey, Or.inr rfl⟩
  · rintro ⟨key, hkey, rfl | rfl⟩
    · exact Or.inl ⟨key, hkey, rfl⟩
    · exact Or.inr ⟨key, hkey, rfl⟩

omit [UnicodeTables] [UrlCrate] in
/-- The next pair of ids is new exactly when its number is unused. -/
theorem AppVault.Accounted.ids_new_iff {s : AppVault} (h : s.Accounted) :
    (∀ id ∈ s.storedIds, s.sink.ids.1.1 ≠ id ∧ s.sink.ids.1.2 ≠ id) ↔
      (s.processId, s.sink.nextSequence) ∉ s.stored := by
  rw [h.ids_eq]
  constructor
  · intro hnew hused
    exact (hnew _ (h.mem_storedIds.2 ⟨_, hused, Or.inl rfl⟩)).1 rfl
  · intro hunused id hid
    obtain ⟨⟨p, n⟩, hkey, rfl | rfl⟩ := h.mem_storedIds.1 hid
    · refine ⟨fun heq => hunused ?_, (recordIdOf_ne_chunkIdOf _ _ _ _).symm⟩
      obtain ⟨rfl, rfl⟩ := recordIdOf_injective heq
      exact hkey
    · refine ⟨recordIdOf_ne_chunkIdOf _ _ _ _, fun heq => hunused ?_⟩
      obtain ⟨rfl, rfl⟩ := chunkIdOf_injective heq
      exact hkey

/-- Under new ids a capture fails by a fault alone. -/
theorem SinkCall.persist_fault {call : SinkCall} {sink : StoreCaptureSink}
    (htime : call.capturedAtMs < 2 ^ 63)
    (hrecord : ∀ r ∈ sink.store.db.memoryRecords, r.id ≠ sink.ids.1.1)
    (hchunk : ∀ c ∈ sink.store.db.chunks, c.id ≠ sink.ids.1.2) {error : PipelineError}
    (h : (call.persist F sink).1 = .error error) :
    ∃ fault, call.sql.Gave fault ∧ error = storeError fault := by
  obtain ⟨capture, hrecordId, hchunkId, houtcome, -⟩ := call.persist_eq F sink htime
  rw [houtcome] at h
  rw [← hrecordId] at hrecord
  rw [← hchunkId] at hchunk
  generalize hresult : (persistCapture F call.sql call.scan capture sink.blocklist sink.store).1
    = result at h
  cases result with
  | error fault =>
      cases h
      exact ⟨fault, persistCapture_fault F hrecord hchunk hresult, rfl⟩
  | ok outcome => cases outcome <;> cases h

/-- The ids of a capture are new exactly when its number is unused. -/
theorem AppVault.Accounted.fresh_iff_unused {s : AppVault} (h : s.Accounted) (step : AppStep) :
    s.IdsFresh F step ↔ s.NumberUnused step := by
  cases step with
  | launch => exact Iff.rfl
  | capture call =>
      refine forall_congr' (fun htime => ⟨fun hfresh => h.ids_new_iff.1 hfresh.1, fun hunused => ?_⟩)
      have hnew := h.ids_new_iff.2 hunused
      refine ⟨hnew, fun error herror => SinkCall.persist_fault htime ?_ ?_ herror⟩
      · intro r hr
        exact (hnew _ (List.mem_append_left _ (List.mem_map_of_mem hr))).1.symm
      · intro c hc
        exact (hnew _ (List.mem_append_right _ (List.mem_map_of_mem hc))).2.symm

/-- **Ids are new until a process number comes back.** Over every sequence of app runs on a vault,
    the captures whose ids are all new, and which no key refuses, are those of the runs in which no
    capture reaches a number that a process of the same number has stored a capture under. -/
theorem idsFresh_iff (processId : ℕ) (blocklist : Blocklist) (steps : List AppStep) :
    StepsMeet (AppVault.exec F) (AppVault.IdsFresh F) (.first processId blocklist) steps ↔
      StepsMeet (AppVault.exec F) AppVault.NumberUnused (.first processId blocklist) steps := by
  have haccounted : AllStates (AppVault.exec F) AppVault.Accounted (.first processId blocklist)
      steps := AllStates.of_step accounted_exec ⟨rfl, rfl, rfl⟩
  exact stepsMeet_congr haccounted (fun s step h => h.fresh_iff_unused step)

end AppRuns

section Example

attribute [local instance] asciiTables noUrls

/-- A capture of `text` from the notes. -/
def shortNote (text : Str) : SinkCall where
  sql := noFaults
  scan := tableOrder _
  source := "screen".toList
  context := ⟨"Notes".toList, none, "Draft".toList, none, 1000⟩
  capturedAtMs := 1000
  text := text

/-- Two processes numbered 7, one note each: the second is refused the first one's key. -/
theorem not_idsFresh_reused :
    ¬ StepsMeet (AppVault.exec ℚ) (AppVault.IdsFresh ℚ) (.first 7 ⟨[], []⟩)
      [.capture (shortNote "milk".toList), .launch 7 ⟨[], []⟩,
        .capture (shortNote "quarterly plan".toList)] := by
  rintro ⟨-, -, hfresh, -⟩
  have hstored : "desktop-7-0".toList ∈ ((AppVault.first 7 ⟨[], []⟩).capture ℚ
      (shortNote "milk".toList)).storedIds := by decide
  exact ((hfresh (by decide)).1 "desktop-7-0".toList hstored).1 (by decide)

end Example

end Fndr
