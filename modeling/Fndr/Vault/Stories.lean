import Fndr.Memory.Anchor
import Fndr.Vault.Presence

set_option autoImplicit false

/-! # What a record is a record of

Captures that continue a pending record are merged into it, and the record then carries the fields
of the last of them. `Annals` are a vault with the captures behind each of its records, newest
first. The next capture is compared with the last one only; but without vector evidence it has to
have the same anchor, and sameness is passed on, so a record is one activity however long its story
gets (`stories_hold`). Scores are of any arithmetic in which no sum of overlaps reaches the
thresholds by rounding (`MonotoneScores`), such as `Float32`. -/

namespace Fndr

open RustStd Rows Runs

/-- A vault, and the captures behind its records, newest first. -/
structure Annals where
  vault : Vault
  captures : List (Str × PersistCall)

/-- A new vault, with no captures behind it. -/
def Annals.empty : Annals := ⟨Vault.empty, []⟩

/-- The captures that went into a record, newest first. -/
def capturesOf (captures : List (Str × PersistCall)) (recordId : Str) : List PersistCall :=
  (captures.filter (fun c => c.1 == recordId)).map Prod.snd

section Stories

variable [UnicodeTables] [UrlCrate]

section Calls

variable (F : Type) [ScoreArith F]

/-- The record that a call stored or merged its capture into. -/
def VaultCall.absorbed (v : Vault) : VaultCall → Option (Str × PersistCall)
  | .persistCapture call =>
      match call.result F v.store with
      | .ok (.stored recordId _) => some (recordId, call)
      | .ok (.merged recordId _) => some (recordId, call)
      | _ => none
  | _ => none

/-- One call, with the captures of the records that are left. -/
def Annals.exec (annals : Annals) (call : VaultCall) : Annals :=
  let v := call.exec F annals.vault
  ⟨v, ((call.absorbed F annals.vault).toList ++ annals.captures).filter
    (fun c => decide (v.store.db.HasRecord c.1))⟩

end Calls

variable {F : Type} [ScoreArith F]

/-- The URL a capture is stored with. -/
def CaptureForPersistence.storedUrl (capture : CaptureForPersistence) : Option Str :=
  capture.newRecord.url.map SanitizedUrl.asStr

/-- The continuity anchor of a capture, which does not read its text. -/
def CaptureForPersistence.anchor (capture : CaptureForPersistence) : Option Str :=
  continuityAnchor (capture.newRecord.continuityRecord [])

/-- A capture that may follow another one in a record. -/
structure Follows (later earlier : CaptureForPersistence) : Prop where
  sameAnchor : ∃ anchor, later.anchor = some anchor ∧ earlier.anchor = some anchor
  recent : saturatingSub later.capturedAtMs (45 * 60 * 1000) ≤ earlier.capturedAtMs
  /-- Another application needs the same page or at least the same domain. -/
  acrossApps : later.appName = earlier.appName ∨
    matchingEffectiveUrl later.storedUrl earlier.storedUrl = true ∨
    bothEqual (domain later.storedUrl) (domain earlier.storedUrl) = true

/-- The record carries the fields of the capture. -/
structure MemoryRecord.IsOf (r : MemoryRecord) (capture : CaptureForPersistence) : Prop where
  appName : r.appName = capture.appName
  url : r.url = capture.storedUrl
  windowTitle : r.windowTitle = capture.windowTitle
  capturedAtMs : r.capturedAtMs = capture.capturedAtMs

/-- The record is of the newest of its captures, and each follows the one before. -/
def MemoryRecord.Tells (r : MemoryRecord) (calls : List PersistCall) : Prop :=
  ∃ last earlier, calls = last :: earlier ∧ r.IsOf last.capture ∧
    (last :: earlier).IsChain (fun later earlier => Follows later.capture earlier.capture)

/-- Every record tells the story of its captures. They have one anchor, and without URLs one
    application. -/
def Annals.StoriesHold (annals : Annals) : Prop :=
  ∀ r ∈ annals.vault.store.db.memoryRecords,
    r.Tells (capturesOf annals.captures r.id) ∧
    ∀ a ∈ capturesOf annals.captures r.id, ∀ b ∈ capturesOf annals.captures r.id,
      a.capture.anchor = b.capture.anchor ∧
      ((∀ c ∈ capturesOf annals.captures r.id, c.capture.storedUrl = none) →
        a.capture.appName = b.capture.appName)

/-! ## One capture more -/

omit [UrlCrate] in
/-- Across applications a merge needs the page or the domain. -/
theorem acrossApps_of_shouldMerge {incoming candidate : ContinuityRecord} {similarity : F}
    (h : (shouldMerge incoming candidate similarity).isSome) :
    incoming.appName = candidate.appName ∨
      matchingEffectiveUrl incoming.url candidate.url = true ∨
      bothEqual (domain incoming.url) (domain candidate.url) = true := by
  unfold shouldMerge at h
  split at h
  · cases h
  · dsimp only at h
    split at h
    · cases h
    · next happs =>
      by_cases happ : incoming.appName = candidate.appName
      · exact Or.inl happ
      · have hallows := not_not.1 (fun hnot => happs ⟨happ, hnot⟩)
        unfold allowsCrossAppMerge at hallows
        split at hallows
        · cases hallows
        · split at hallows
          · next hpage => exact Or.inr (Or.inl hpage)
          · exact Or.inr (Or.inr (Bool.and_eq_true_iff.1 hallows).1)

/-- A candidate has the anchor of the capture its record is of: the text is not read. -/
theorem MemoryRecord.IsOf.anchor_eq {row : Chunk × MemoryRecord} {capture : CaptureForPersistence}
    (h : row.2.IsOf capture) :
    continuityAnchor (PendingContinuityCandidate.ofRow row).continuityRecord = capture.anchor := by
  unfold continuityAnchor CaptureForPersistence.anchor PendingContinuityCandidate.continuityRecord
    PendingContinuityCandidate.ofRow
  dsimp only
  rw [h.appName, h.url, h.windowTitle]
  rfl

/-- What is merged follows the capture its record is of. -/
theorem follows_of_mergeTarget [MonotoneScores F] {scan : Scan}
    {capture last : CaptureForPersistence} {text : Str} {store : Store}
    {row : Chunk × MemoryRecord} (hlast : row.2.IsOf last)
    (htarget : mergeTarget F scan capture.newRecord text store
      = some (PendingContinuityCandidate.ofRow row)) : Follows capture last := by
  have hcontinues : continues F capture.newRecord text (PendingContinuityCandidate.ofRow row)
      = true := List.find?_some htarget
  have hcandidate : PendingContinuityCandidate.ofRow row
      ∈ continuityCandidates scan capture.newRecord store := List.mem_of_find?_eq_some htarget
  obtain ⟨row', -, -, hrecent, heq⟩ := Db.mem_pendingContinuityCandidates hcandidate
  refine ⟨?_, ?_, ?_⟩
  · obtain ⟨anchor, hleft, hright⟩ := eq_some_of_bothEqual (anchor_of_shouldMerge hcontinues)
    exact ⟨anchor, hleft, hlast.anchor_eq ▸ hright⟩
  · have htime : row.2.capturedAtMs = row'.2.capturedAtMs :=
      congrArg PendingContinuityCandidate.capturedAtMs heq
    rw [← hlast.capturedAtMs, htime]
    exact hrecent
  · rw [← hlast.appName, ← hlast.url]
    exact acrossApps_of_shouldMerge hcontinues

/-! ## The invariant -/

/-- The captures are of records that are there. -/
def Annals.Present (annals : Annals) : Prop :=
  ∀ c ∈ annals.captures, annals.vault.store.db.HasRecord c.1

/-- And they tell the stories of the records. -/
structure Annals.Told (annals : Annals) : Prop where
  present : annals.Present
  tells : ∀ r ∈ annals.vault.store.db.memoryRecords, r.Tells (capturesOf annals.captures r.id)

omit [UnicodeTables] [UrlCrate] in
/-- Forgetting the captures of records that are gone leaves the stories of the others. -/
theorem capturesOf_filter (captures : List (Str × PersistCall)) {db : Db} {id : Str}
    (h : db.HasRecord id) :
    capturesOf (captures.filter (fun c => decide (db.HasRecord c.1))) id = capturesOf captures id := by
  unfold capturesOf
  rw [List.filter_filter]
  refine congrArg _ (List.filter_congr (fun c _ => ?_))
  by_cases hid : c.1 = id
  · rw [hid, decide_eq_true h, Bool.and_true]
  · rw [beq_eq_false_iff_ne.2 hid, Bool.false_and]

omit [UnicodeTables] [UrlCrate] in
theorem capturesOf_cons_self (id : Str) (call : PersistCall) (captures : List (Str × PersistCall)) :
    capturesOf ((id, call) :: captures) id = call :: capturesOf captures id := by
  unfold capturesOf
  rw [List.filter_cons_of_pos (by simp), List.map_cons]

omit [UnicodeTables] [UrlCrate] in
theorem capturesOf_cons_ne {recordId id : Str} (h : recordId ≠ id) (call : PersistCall)
    (captures : List (Str × PersistCall)) :
    capturesOf ((recordId, call) :: captures) id = capturesOf captures id := by
  unfold capturesOf
  rw [List.filter_cons_of_neg (by simpa using h)]

/-- A call that captures nothing has only records that were there. -/
theorem VaultCall.records_subset {v : Vault} {call : VaultCall}
    (hcall : ∀ id, ¬ call.Captures id) :
    (call.exec F v).store.db.memoryRecords ⊆ v.store.db.memoryRecords := by
  have hflush : ∀ nowMs scan, FlushKeeps
      (fun store _ => store.db.memoryRecords ⊆ v.store.db.memoryRecords) nowMs scan := by
    refine fun nowMs scan => ⟨fun _ _ h => h, ?_⟩
    intro store indexed h pending
    rw [Store.markChunksFlushed_db]
    exact h
  have hv : v.store.db.memoryRecords ⊆ v.store.db.memoryRecords := fun _ hr => hr
  cases call with
  | persistCapture persist => exact absurd rfl (hcall _)
  | flushOnce embedder nowMs scan stop =>
      exact (hflush nowMs scan).flushOnce.cut (s := v) hv hv stop
  | rebuild embedder nowMs scan fuel stop =>
      refine rebuild_keeps (I := fun store _ => store.db.memoryRecords ⊆ v.store.db.memoryRecords)
        (hflush nowMs scan) (fun _ _ h => h) (fun _ h => h) hv stop
  | deleteEverywhere scope stop =>
      refine deleteEverywhere_keeps
        (I := fun store _ => store.db.memoryRecords ⊆ v.store.db.memoryRecords)
        ⟨fun _ _ _ h => h, fun store indexed ids h _ => ?_⟩ hv stop
      rw [Store.deleteRecords_records]
      exact fun r hr => h (mem_deleteWhere.1 hr).1

omit [UnicodeTables] [UrlCrate] in
/-- Nothing is told of a record that is not there. -/
theorem Annals.Present.capturesOf_eq_nil {annals : Annals} (h : annals.Present) {id : Str}
    (hid : ∀ r ∈ annals.vault.store.db.memoryRecords, r.id ≠ id) :
    capturesOf annals.captures id = [] := by
  unfold capturesOf
  rw [List.map_eq_nil_iff, List.filter_eq_nil_iff]
  intro c hc hbeq
  obtain ⟨r, hr, hrid⟩ := h c hc
  exact hid r hr (hrid.trans (beq_iff_eq.1 hbeq))

variable (F) in
/-- Only captures of records that are there are left. -/
theorem Annals.present_exec (annals : Annals) (call : VaultCall) :
    (annals.exec F call).Present :=
  fun _ hc => of_decide_eq_true (List.mem_filter.1 hc).2

variable (F) in
/-- **A capture keeps the stories.** -/
theorem Annals.Told.persist [MonotoneScores F] {annals : Annals} (h : annals.Told)
    (call : PersistCall) :
    ∀ r ∈ (PersistCall.exec F annals.vault.store call).db.memoryRecords,
      r.Tells (capturesOf (((VaultCall.persistCapture call).absorbed F annals.vault).toList
        ++ annals.captures) r.id) := by
  have heffect := call.effect F annals.vault.store
  unfold VaultCall.absorbed
  dsimp only
  generalize PersistCall.exec F annals.vault.store call = store' at heffect
  generalize call.result F annals.vault.store = result at heffect
  cases heffect with
  | failed error => exact h.tells
  | skipped reason _ => exact h.tells
  | stored text count store' _ _ hfresh _ hdb =>
      intro r hr
      rw [hdb] at hr
      rw [Option.toList_some, List.singleton_append]
      rcases List.mem_append.1 hr with hr | hr
      · rw [capturesOf_cons_ne (hfresh r hr).symm]
        exact h.tells r hr
      · -- the record is new, so nothing was told of it
        rw [List.mem_singleton.1 hr]
        refine ⟨call, [], ?_, ⟨rfl, rfl, rfl, rfl⟩, .singleton _⟩
        refine (capturesOf_cons_self _ _ _).trans ?_
        rw [h.present.capturesOf_eq_nil hfresh]
  | merged text count candidate store' _ htarget hpending hdb =>
      obtain ⟨row, hrow, -, rfl⟩ := hpending
      obtain ⟨⟨-, hrecord, -⟩, -⟩ := Db.mem_pendingRows.1 hrow
      intro r hr
      rw [hdb] at hr
      obtain ⟨old, hold, rfl⟩ := mem_updateWhere.1 hr
      have hcandidate : (PendingContinuityCandidate.ofRow row).recordId = row.2.id := rfl
      rw [Option.toList_some, List.singleton_append, hcandidate]
      by_cases hid : old.id = row.2.id
      · obtain rfl : old = row.2 :=
          eq_of_key_eq annals.vault.store.constraints.recordIds hold hrecord hid
        obtain ⟨last, earlier, htold, hlast, hchain⟩ := h.tells _ hrecord
        -- the candidate's record is of the newest capture told of it
        have hfollows : Follows call.capture last.capture := follows_of_mergeTarget hlast htarget
        rw [if_pos (beq_self_eq_true _)]
        refine ⟨call, last :: earlier, ?_, ⟨rfl, rfl, rfl, rfl⟩, ?_⟩
        · refine (capturesOf_cons_self _ _ _).trans ?_
          rw [htold]
        · exact List.isChain_cons_cons.2 ⟨hfollows, hchain⟩
      · rw [if_neg (by simpa using hid), capturesOf_cons_ne (Ne.symm hid)]
        exact h.tells old hold

variable (F) in
/-- **Every call keeps the stories.** -/
theorem Annals.Told.exec [MonotoneScores F] {annals : Annals} (h : annals.Told) (call : VaultCall) :
    (annals.exec F call).Told := by
  have htells : ∀ r ∈ (call.exec F annals.vault).store.db.memoryRecords,
      r.Tells (capturesOf ((call.absorbed F annals.vault).toList ++ annals.captures) r.id) := by
    cases call with
    | persistCapture call => exact h.persist F call
    | flushOnce embedder nowMs scan stop =>
        exact fun r hr => h.tells r (VaultCall.records_subset (fun _ => id) hr)
    | rebuild embedder nowMs scan fuel stop =>
        exact fun r hr => h.tells r (VaultCall.records_subset (fun _ => id) hr)
    | deleteEverywhere scope stop =>
        exact fun r hr => h.tells r (VaultCall.records_subset (fun _ => id) hr)
  refine ⟨annals.present_exec F call, fun r hr => ?_⟩
  have hkept : (annals.exec F call).vault.store.db.HasRecord r.id := ⟨r, hr, rfl⟩
  have hstory : capturesOf (annals.exec F call).captures r.id = _ := capturesOf_filter _ hkept
  rw [hstory]
  exact htells r hr

/-! ## What a story says -/

omit [UnicodeTables] [UrlCrate] in
/-- What neighbours share, all share. -/
theorem eq_of_isChain {α β : Type} {R : α → α → Prop} {f : α → β} {a : α} {l : List α}
    (hchain : (a :: l).IsChain R) (hR : ∀ b ∈ a :: l, ∀ c ∈ a :: l, R b c → f b = f c) :
    ∀ b ∈ a :: l, f b = f a := by
  have hequal : (a :: l).IsChain (fun b c => f b = f c) :=
    hchain.imp_of_mem_imp (fun b c hb hc => hR b hb c hc)
  intro b hb
  rcases List.mem_cons.1 hb with rfl | hb
  · rfl
  · exact (((List.isChain_map f).2 hequal).rel_cons (List.mem_map_of_mem hb)).symm

/-- **A record is one activity.** -/
theorem MemoryRecord.Tells.one_activity {r : MemoryRecord} {calls : List PersistCall}
    (h : r.Tells calls) : ∀ a ∈ calls, ∀ b ∈ calls, a.capture.anchor = b.capture.anchor ∧
      ((∀ c ∈ calls, c.capture.storedUrl = none) → a.capture.appName = b.capture.appName) := by
  obtain ⟨last, earlier, rfl, -, hchain⟩ := h
  have hanchor : ∀ c ∈ last :: earlier, c.capture.anchor = last.capture.anchor := by
    refine eq_of_isChain hchain (fun b _ c _ hfollows => ?_)
    obtain ⟨anchor, hb, hc⟩ := hfollows.sameAnchor
    rw [hb, hc]
  refine fun a ha b hb => ⟨(hanchor a ha).trans (hanchor b hb).symm, fun hnone => ?_⟩
  have happ : ∀ c ∈ last :: earlier, c.capture.appName = last.capture.appName := by
    refine eq_of_isChain hchain (fun b hb c hc hfollows => ?_)
    rcases hfollows.acrossApps with happ | hpage | hdomain
    · exact happ
    · rw [hnone b hb] at hpage
      cases hpage
    · rw [hnone b hb] at hdomain
      cases hdomain
  exact (happ a ha).trans (happ b hb).symm

/-- **Over every run, a record is one activity.** Whatever is captured, flushed, rebuilt or deleted
    and wherever the calls stop, a record carries the fields of the newest of its captures, each
    capture followed the one before within the continuity window and with its anchor, and so all
    captures of a record have one anchor. -/
theorem stories_hold [MonotoneScores F] (calls : List VaultCall) :
    AllStates (Annals.exec F) Annals.StoriesHold Annals.empty calls := by
  have htold : AllStates (Annals.exec F) Annals.Told Annals.empty calls := by
    refine AllStates.of_step (fun _ call h => h.exec F call) ⟨?_, ?_⟩
    · exact fun c hc => nomatch hc
    · exact fun r hr => nomatch hr
  exact htold.imp (fun annals h r hr => ⟨h.tells r hr, (h.tells r hr).one_activity⟩)

end Stories

/-! ## Two captures of one note -/

section Example

attribute [local instance] asciiTables noUrls

/-- A capture of the same note with another text on the screen. -/
def budgetCall : PersistCall :=
  let call := noteCall "2".toList 2000
  { call with
    capture := { call.capture with ocrText := "Review the budget. Book the room!".toList } }

/-- The second capture was merged into the record of the first. -/
def planAndBudget : Annals :=
  final (Annals.exec Float32) Annals.empty
    [.persistCapture (noteCall "1".toList 1000), .persistCapture budgetCall]

theorem planAndBudget_record :
    (planAndBudget.vault.store.db.memoryRecords.map (fun r => (r.id, r.capturedAtMs)),
      (capturesOf planAndBudget.captures "1".toList).map (fun c => c.capture.recordId))
      = ([("1".toList, 2000)], ["2".toList, "1".toList]) := by
  decide +kernel

theorem stories_hold_planAndBudget : planAndBudget.StoriesHold ∧
    (planAndBudget.vault.store.db.memoryRecords.map (fun r => (r.id, r.capturedAtMs)),
      (capturesOf planAndBudget.captures "1".toList).map (fun c => c.capture.recordId))
      = ([("1".toList, 2000)], ["2".toList, "1".toList]) :=
  ⟨(stories_hold (F := Float32) [.persistCapture (noteCall "1".toList 1000),
    .persistCapture budgetCall]).final, planAndBudget_record⟩

end Example

end Fndr
