import Fndr.Memory.Anchor
import Fndr.Vault.Calls

set_option autoImplicit false

/-! # Is deletion by domain complete?

A record merged from several captures carries the URL of the last one only, so deletion by domain
reaches the others through it. A `History` is a store with what each capture of the run contributed:
the record it ended up in and the text it added, of which the record's chunk is the story
(`story`, `storyOf`). As long as no capture continues a record of another IPv6 host, all captures of
a record have one host, and a deletion of a domain leaves no text of its captures
(`domainsComplete_of_bracketsAgree`). -/

namespace Fndr

open RustStd Rows Runs

/-- What one capture added to a record. -/
structure Contribution where
  recordId : Str
  text : Str
  capture : CaptureForPersistence

/-- A store and the contributions behind its text, oldest first. -/
structure History where
  store : Store
  contributions : List Contribution

/-- A new vault, with no captures behind it. -/
def History.empty : History := ⟨Store.empty, []⟩

/-- The texts a record was made of. -/
def History.textsOf (h : History) (recordId : Str) : List Str :=
  (h.contributions.filter (fun a => a.recordId == recordId)).map Contribution.text

section Calls

variable [UnicodeTables] [UrlCrate]

/-- The text of a record made of these texts, in order. -/
def story : List Str → Str
  | [] => []
  | text :: texts =>
      texts.foldl (fun merged text => mergeStoryText merged text MERGED_TEXT_MAX_CHARS) text

/-- The text a capture is stored with. -/
def PersistCall.text (call : PersistCall) : Str :=
  match recheckPolicy call.capture call.blocklist with
  | .ok (text, _) => text
  | .error _ => []

/-- What the capture puts into the record. -/
def PersistCall.contribution (call : PersistCall) (recordId : Str) : Contribution :=
  ⟨recordId, call.text, call.capture⟩

/-- One call with exact scores, recorded. -/
def History.exec (h : History) (call : PersistCall) : History :=
  match persistCapture ℚ call.sql call.scan call.capture call.blocklist h.store with
  | (.ok (.stored recordId _), store) =>
      ⟨store, h.contributions ++ [call.contribution recordId]⟩
  | (.ok (.merged recordId _), store) =>
      ⟨store, h.contributions ++ [call.contribution recordId]⟩
  | (_, store) => ⟨store, h.contributions⟩

/-- Neither capture has a URL to retain, or both have one, of the same host. -/
def SameHost (a b : CaptureForPersistence) : Prop :=
  (a.newRecord.url = none ∧ b.newRecord.url = none) ∨
    ∃ host, storedHost a.newRecord.url = some host ∧ storedHost b.newRecord.url = some host

/-- Captures of one record have one host; a chunk holds what its record's captures contributed; and
    a domain's deletion leaves no chunk with a capture of the domain or a subdomain. -/
def History.DomainsComplete (h : History) : Prop :=
  (∀ a ∈ h.contributions, ∀ b ∈ h.contributions, a.recordId = b.recordId →
    SameHost a.capture b.capture) ∧
  (∀ c ∈ h.store.db.chunks, c.text = story (h.textsOf c.recordId)) ∧
  ∀ lance domain report, (deleteEverywhere (.domain domain) ⟨h.store, lance⟩).1 = .ok report →
    ∀ c ∈ ((deleteEverywhere (.domain domain)).final ⟨h.store, lance⟩).store.db.chunks,
      ∀ a ∈ h.contributions, a.recordId = c.recordId →
        ∀ host, storedHost a.capture.newRecord.url = some host →
          ∀ d, normalizeDomain domain = some d → ¬ IsSubdomain d host

/-- The record the capture continues, if any, has no other IPv6 host than the capture. -/
def PersistCall.BracketsAgree (h : History) (call : PersistCall) : Prop :=
  ∀ text count, recheckPolicy call.capture call.blocklist = .ok (text, count) →
    ∀ candidate, mergeTarget ℚ call.scan call.capture.newRecord text h.store = some candidate →
      Fndr.BracketsAgree (call.capture.newRecord.url.map SanitizedUrl.asStr) candidate.url

/-! ## The invariant -/

/-- Every record has a contribution with its URL, of the host all its contributions have. -/
structure OneHost (h : History) : Prop where
  known : ∀ a ∈ h.contributions, ∃ r ∈ h.store.db.memoryRecords, r.id = a.recordId
  latest : ∀ r ∈ h.store.db.memoryRecords, ∃ a ∈ h.contributions, a.recordId = r.id ∧
    r.url = a.capture.newRecord.url.map SanitizedUrl.asStr
  oneHost : ∀ a ∈ h.contributions, ∀ b ∈ h.contributions, a.recordId = b.recordId →
    storedHost a.capture.newRecord.url = storedHost b.capture.newRecord.url
  oneChunk : (h.store.db.chunks.map Chunk.recordId).Nodup
  storyOf : ∀ c ∈ h.store.db.chunks, c.text = story (h.textsOf c.recordId)

theorem oneHost_empty : OneHost History.empty :=
  ⟨fun _ ha => (nomatch ha), fun _ hr => (nomatch hr), fun _ ha => (nomatch ha), List.nodup_nil,
    fun _ hc => (nomatch hc)⟩

theorem readsHost_newRecord (doc : UrlCrateDocumented) (capture : CaptureForPersistence) :
    ∀ url ∈ capture.newRecord.url, ∃ h, ReadsHost url h := by
  intro url hurl
  obtain ⟨raw, -, hsanitize⟩ := Option.bind_eq_some_iff.1 (Option.mem_def.1 hurl)
  exact readsHost_of_sanitize doc hsanitize

theorem storedHost_isSome (doc : UrlCrateDocumented) {capture : CaptureForPersistence}
    (h : capture.newRecord.url ≠ none) : ∃ host, storedHost capture.newRecord.url = some host := by
  obtain ⟨url, hurl⟩ := Option.ne_none_iff_exists'.1 h
  obtain ⟨host, hreads⟩ := readsHost_newRecord doc capture url hurl
  exact ⟨toLowercase host, by rw [hurl, storedHost, Option.bind_some, hreads.hostFromUrl]⟩

theorem sameHost_of_eq (doc : UrlCrateDocumented) {a b : CaptureForPersistence}
    (h : storedHost a.newRecord.url = storedHost b.newRecord.url) : SameHost a b := by
  by_cases ha : a.newRecord.url = none
  · refine Or.inl ⟨ha, ?_⟩
    by_contra hb
    obtain ⟨host, hhost⟩ := storedHost_isSome doc hb
    rw [ha, hhost] at h
    cases h
  · obtain ⟨host, hhost⟩ := storedHost_isSome doc ha
    exact Or.inr ⟨host, hhost, h.symm.trans hhost⟩

/-! ## Texts -/

omit [UrlCrate] in
theorem story_concat {texts : List Str} (hne : texts ≠ []) (text : Str) :
    story (texts ++ [text]) = mergeStoryText (story texts) text MERGED_TEXT_MAX_CHARS := by
  cases texts with
  | nil => exact absurd rfl hne
  | cons first rest => simp [story, List.foldl_append]

omit [UnicodeTables] [UrlCrate] in
theorem textsOf_concat_self (store : Store) (contributions : List Contribution)
    (a : Contribution) :
    History.textsOf ⟨store, contributions ++ [a]⟩ a.recordId
      = History.textsOf ⟨store, contributions⟩ a.recordId ++ [a.text] := by
  simp [History.textsOf, List.filter_append]

omit [UnicodeTables] [UrlCrate] in
/-- A contribution shows in the texts of its own record only. -/
theorem textsOf_concat_of_ne (store : Store) (contributions : List Contribution)
    {a : Contribution} {recordId : Str} (h : a.recordId ≠ recordId) :
    History.textsOf ⟨store, contributions ++ [a]⟩ recordId
      = History.textsOf ⟨store, contributions⟩ recordId := by
  simp [History.textsOf, List.filter_append, h]

omit [UrlCrate] in
/-- A further contribution is merged into the story of its record. -/
theorem story_textsOf_concat (store : Store) {contributions : List Contribution} {a : Contribution}
    (hne : History.textsOf ⟨store, contributions⟩ a.recordId ≠ []) :
    story (History.textsOf ⟨store, contributions ++ [a]⟩ a.recordId)
      = mergeStoryText (story (History.textsOf ⟨store, contributions⟩ a.recordId)) a.text
          MERGED_TEXT_MAX_CHARS := by
  rw [textsOf_concat_self]
  exact story_concat hne a.text

/-- One host a record is kept by a contribution that has the host of its record. -/
theorem oneHost_concat {contributions : List Contribution} {new : Contribution}
    (hone : ∀ a ∈ contributions, ∀ b ∈ contributions, a.recordId = b.recordId →
      storedHost a.capture.newRecord.url = storedHost b.capture.newRecord.url)
    (hnew : ∀ a ∈ contributions, a.recordId = new.recordId →
      storedHost a.capture.newRecord.url = storedHost new.capture.newRecord.url) :
    ∀ a ∈ contributions ++ [new], ∀ b ∈ contributions ++ [new], a.recordId = b.recordId →
      storedHost a.capture.newRecord.url = storedHost b.capture.newRecord.url := by
  intro a ha b hb hid
  rcases List.mem_append.1 ha with ha | ha <;> rcases List.mem_append.1 hb with hb | hb
  · exact hone a ha b hb hid
  · cases List.mem_singleton.1 hb
    exact hnew a ha hid
  · cases List.mem_singleton.1 ha
    exact (hnew b hb hid.symm).symm
  · cases List.mem_singleton.1 ha
    cases List.mem_singleton.1 hb
    rfl

/-! ## One call -/

/-- What a recorded call did: nothing, or one more contribution. -/
theorem History.exec_eq (h : History) (call : PersistCall) :
    h.exec call = ⟨PersistCall.exec ℚ h.store call,
      h.contributions ++ (match call.result ℚ h.store with
        | .ok (.stored recordId _) => [call.contribution recordId]
        | .ok (.merged recordId _) => [call.contribution recordId]
        | _ => [])⟩ := by
  unfold History.exec PersistCall.exec PersistCall.result
  generalize persistCapture ℚ call.sql call.scan call.capture call.blocklist h.store = result
  obtain ⟨outcome, store⟩ := result
  rcases outcome with error | (⟨recordId, count⟩ | ⟨recordId, count⟩ | reason)
  · simp
  · rfl
  · rfl
  · simp

theorem PersistCall.text_eq {call : PersistCall} {text : Str} {count : ℕ}
    (h : recheckPolicy call.capture call.blocklist = .ok (text, count)) : call.text = text := by
  rw [PersistCall.text, h]

/-- The records of the contributions are those of the store, and one more contribution only has to
    name a record of the store behind it. -/
theorem OneHost.known_concat {h : History} (hone : OneHost h) {db : Db} {new : Contribution}
    (hkept : ∀ r ∈ h.store.db.memoryRecords, ∃ r' ∈ db.memoryRecords, r'.id = r.id)
    (hnew : ∃ r ∈ db.memoryRecords, r.id = new.recordId) :
    ∀ a ∈ h.contributions ++ [new], ∃ r ∈ db.memoryRecords, r.id = a.recordId := by
  refine List.forall_mem_append.2 ⟨fun a ha => ?_, List.forall_mem_singleton.2 hnew⟩
  obtain ⟨r, hr, hid⟩ := hone.known a ha
  obtain ⟨r', hr', hid'⟩ := hkept r hr
  exact ⟨r', hr', hid'.trans hid⟩

/-- A record keeps the contribution that has its URL when another one is recorded. -/
theorem OneHost.latest_concat {h : History} (hone : OneHost h) (new : Contribution)
    {r : MemoryRecord} (hr : r ∈ h.store.db.memoryRecords) :
    ∃ a ∈ h.contributions ++ [new], a.recordId = r.id ∧
      r.url = a.capture.newRecord.url.map SanitizedUrl.asStr := by
  obtain ⟨a, ha, hid, hurl⟩ := hone.latest r hr
  exact ⟨a, List.mem_append_left _ ha, hid, hurl⟩

/-- A record of the store has texts. -/
theorem OneHost.textsOf_ne_nil {h : History} (hone : OneHost h) {r : MemoryRecord}
    (hr : r ∈ h.store.db.memoryRecords) : h.textsOf r.id ≠ [] := by
  obtain ⟨a, ha, hid, -⟩ := hone.latest r hr
  rw [History.textsOf, Ne, List.map_eq_nil_iff, List.filter_eq_nil_iff]
  exact fun hnone => hnone a ha (beq_iff_eq.2 hid)

/-- A record that is not in the store has none. -/
theorem OneHost.textsOf_eq_nil {h : History} (hone : OneHost h) {recordId : Str}
    (hnew : ∀ r ∈ h.store.db.memoryRecords, r.id ≠ recordId) : h.textsOf recordId = [] := by
  rw [History.textsOf, List.map_eq_nil_iff, List.filter_eq_nil_iff]
  intro a ha heq
  obtain ⟨r, hr, hid⟩ := hone.known a ha
  exact hnew r hr (hid.trans (beq_iff_eq.1 heq))

/-- A new record starts with one contribution, of a new id. -/
theorem OneHost.withCapture {h : History} (hone : OneHost h) {call : PersistCall} {store : Store}
    (hrecord : ∀ r ∈ h.store.db.memoryRecords, r.id ≠ call.capture.recordId)
    (hdb : store.db = h.store.db.withCapture call.capture.newRecord
      ⟨call.capture.chunkId, 0, call.text⟩) :
    OneHost ⟨store, h.contributions ++ [call.contribution call.capture.recordId]⟩ := by
  have hchunk : ∀ c ∈ h.store.db.chunks, c.recordId ≠ call.capture.recordId :=
    h.store.chunk_recordId_ne hrecord
  refine ⟨?_, ?_, ?_, ?_, ?_⟩
  · rw [hdb]
    exact hone.known_concat (fun r hr => ⟨r, List.mem_append_left _ hr, rfl⟩)
      ⟨_, List.mem_append_right _ List.mem_cons_self, rfl⟩
  · rw [hdb]
    refine List.forall_mem_append.2
      ⟨fun r hr => hone.latest_concat _ hr, List.forall_mem_singleton.2 ?_⟩
    exact ⟨_, List.mem_append_right _ List.mem_cons_self, rfl, rfl⟩
  · refine oneHost_concat hone.oneHost fun a ha hid => ?_
    obtain ⟨r, hr, hknown⟩ := hone.known a ha
    exact absurd (hknown.trans hid) (hrecord r hr)
  · rw [hdb]
    exact nodup_map_concat hone.oneChunk hchunk
  · rw [hdb]
    refine List.forall_mem_append.2 ⟨fun c hc => ?_, List.forall_mem_singleton.2 ?_⟩
    · rw [textsOf_concat_of_ne _ _ (fun heq => hchunk c hc heq.symm)]
      exact hone.storyOf c hc
    · -- the chunk of a new record holds the one text it has
      have htexts := textsOf_concat_self store h.contributions
        (call.contribution call.capture.recordId)
      have hnone : History.textsOf ⟨store, h.contributions⟩ call.capture.recordId = [] :=
        hone.textsOf_eq_nil hrecord
      rw [show (call.contribution call.capture.recordId).recordId = call.capture.recordId from rfl,
        hnone] at htexts
      exact (congrArg story htexts).symm

/-- The anchor compares with the URL of the last contribution, which has everyone's host. -/
theorem OneHost.host_of_continues (doc : UrlCrateDocumented) {h : History} (hone : OneHost h)
    {call : PersistCall} {row : Chunk × MemoryRecord} (hrow : row.2 ∈ h.store.db.memoryRecords)
    (hcontinues : continues ℚ call.capture.newRecord call.text
      (PendingContinuityCandidate.ofRow row) = true)
    (hbrackets : Fndr.BracketsAgree (call.capture.newRecord.url.map SanitizedUrl.asStr)
      (PendingContinuityCandidate.ofRow row).url) :
    ∀ a ∈ h.contributions, a.recordId = row.2.id →
      storedHost a.capture.newRecord.url = storedHost call.capture.newRecord.url := by
  obtain ⟨last, hlast, hlastId, hurl⟩ := hone.latest row.2 hrow
  have hhost : storedHost call.capture.newRecord.url = storedHost last.capture.newRecord.url :=
    storedHost_eq_of_shouldMerge rfl hurl (readsHost_newRecord doc call.capture)
      (readsHost_newRecord doc last.capture) hbrackets hcontinues
  intro a ha hid
  exact (hone.oneHost a ha last hlast (hid.trans hlastId.symm)).trans hhost.symm

/-- The merged chunk grows by what the texts of its record grow by. -/
theorem OneHost.storyOf_withMerge {h : History} (hone : OneHost h) {store : Store}
    {call : PersistCall} {row : Chunk × MemoryRecord} (hrow : row ∈ h.store.db.pendingRows)
    (hdb : store.db = h.store.db.withMerge row.2.id row.1.id call.capture.newRecord
      (mergeStoryText row.1.text call.text MERGED_TEXT_MAX_CHARS)) :
    ∀ c ∈ store.db.chunks, c.text = story
      (History.textsOf ⟨store, h.contributions ++ [call.contribution row.2.id]⟩ c.recordId) := by
  obtain ⟨⟨hchunk, hrecord, hid⟩, hpending⟩ := Db.mem_pendingRows.1 hrow
  intro c hc
  rw [hdb] at hc
  obtain ⟨d, hd, rfl⟩ := mem_updateWhere.1 hc
  by_cases hmerged : d = row.1
  · subst hmerged
    have hstory := hone.storyOf row.1 hchunk
    rw [← hid] at hstory
    rw [if_pos (by simp [hpending])]
    show mergeStoryText row.1.text call.text MERGED_TEXT_MAX_CHARS
      = story (History.textsOf ⟨store, h.contributions ++ [call.contribution row.2.id]⟩
        row.1.recordId)
    rw [← hid, hstory]
    exact (story_textsOf_concat store (a := call.contribution row.2.id)
      (hone.textsOf_ne_nil hrecord)).symm
  · have hother : d.recordId ≠ row.2.id := fun heq =>
      hmerged (eq_of_key_eq hone.oneChunk hd hchunk (heq.trans hid))
    have hne : d.id ≠ row.1.id := fun heq =>
      hmerged (eq_of_key_eq h.store.constraints.chunkIds hd hchunk heq)
    rw [if_neg (by simp [hne]), textsOf_concat_of_ne _ _ (fun heq => hother heq.symm)]
    exact hone.storyOf d hd

/-- A merge adds a contribution of the same host. -/
theorem OneHost.withMerge (doc : UrlCrateDocumented) {h : History} (hone : OneHost h)
    {call : PersistCall} {store : Store} {candidate : PendingContinuityCandidate}
    (hpending : candidate.IsPending h.store.db)
    (hcontinues : continues ℚ call.capture.newRecord call.text candidate = true)
    (hbrackets : Fndr.BracketsAgree (call.capture.newRecord.url.map SanitizedUrl.asStr)
      candidate.url)
    (hdb : store.db = h.store.db.withMerge candidate.recordId candidate.chunkId
      call.capture.newRecord (mergeStoryText candidate.text call.text MERGED_TEXT_MAX_CHARS)) :
    OneHost ⟨store, h.contributions ++ [call.contribution candidate.recordId]⟩ := by
  -- the record and its story were of one host, and so is the capture
  obtain ⟨row, hrow, -, rfl⟩ := hpending
  obtain ⟨⟨-, hrecord, -⟩, -⟩ := Db.mem_pendingRows.1 hrow
  have hkept : ∀ r ∈ h.store.db.memoryRecords, ∃ r' ∈ store.db.memoryRecords, r'.id = r.id := by
    intro r hr
    rw [hdb]
    refine ⟨_, mem_updateWhere.2 ⟨r, hr, rfl⟩, ?_⟩
    split <;> rfl
  refine ⟨hone.known_concat hkept (hkept row.2 hrecord), ?_,
    oneHost_concat hone.oneHost (hone.host_of_continues doc hrecord hcontinues hbrackets), ?_,
    hone.storyOf_withMerge hrow hdb⟩
  · intro r hr
    rw [hdb] at hr
    obtain ⟨r', hr', rfl⟩ := mem_updateWhere.1 hr
    split
    · next hmerged =>
      exact ⟨_, List.mem_append_right _ List.mem_cons_self, (beq_iff_eq.1 hmerged).symm, rfl⟩
    · exact hone.latest_concat _ hr'
  · rw [hdb, Db.withMerge_recordIds]
    exact hone.oneChunk

theorem oneHost_exec (doc : UrlCrateDocumented) (h : History) (call : PersistCall)
    (hone : OneHost h) (hbrackets : call.BracketsAgree h) : OneHost (h.exec call) := by
  have heffect := call.effect ℚ h.store
  rw [History.exec_eq]
  generalize PersistCall.exec ℚ h.store call = store at heffect
  generalize call.result ℚ h.store = result at heffect
  cases heffect with
  | failed error => simpa using hone
  | skipped reason _ => simpa using hone
  | stored text count store hpolicy _ hrecord _ hdb =>
      cases PersistCall.text_eq hpolicy
      exact hone.withCapture hrecord hdb
  | merged text count candidate store hpolicy htarget hpending hdb =>
      cases PersistCall.text_eq hpolicy
      exact hone.withMerge doc hpending (List.find?_some htarget)
        (hbrackets _ count hpolicy candidate htarget) hdb

/-! ## Deletion by domain -/

theorem OneHost.domainsComplete (doc : UrlCrateDocumented) {h : History} (hone : OneHost h) :
    h.DomainsComplete := by
  refine ⟨fun a ha b hb hid => sameHost_of_eq doc (hone.oneHost a ha b hb hid), hone.storyOf, ?_⟩
  intro lance domain report hok c hc a ha haid host hhost d hd hsub
  obtain ⟨recordIds, hids, hremoved⟩ := deleteEverywhere_removed hok
  refine hremoved.noChunk c hc ?_
  have hc₀ : c ∈ h.store.db.chunks := by
    rw [hremoved.otherChunks] at hc
    exact List.mem_of_mem_filter hc
  obtain ⟨r, hr, hrid⟩ := h.store.constraints.foreignKey c hc₀
  obtain ⟨b, hb, hbid, hurl⟩ := hone.latest r hr
  -- the record's URL is that of its last capture, which has the host of this one
  have hlast : storedHost b.capture.newRecord.url = some host :=
    (hone.oneHost b hb a ha (hbid.trans (hrid.trans haid.symm))).trans hhost
  obtain ⟨url, hsome, hread⟩ := Option.bind_eq_some_iff.1 hlast
  refine (Db.mem_recordIdsForDelete_domain hids).2 ⟨r, hr, ⟨url.asStr, ?_, ?_⟩, hrid⟩
  · rw [hurl, hsome]
    exact Option.mem_some_self url.asStr
  · exact (urlMatchesDomainSuffix_iff hd hread).2 hsub

/-- **Deletion by domain is complete, as long as no capture continues a record of another IPv6
    host.** Over every run of captures, whatever fails on the way. -/
theorem domainsComplete_of_bracketsAgree (doc : UrlCrateDocumented) (calls : List PersistCall)
    (hbrackets : StepsMeet History.exec (fun h call => call.BracketsAgree h) History.empty calls) :
    AllStates History.exec History.DomainsComplete History.empty calls :=
  (AllStates.of_invariant (oneHost_exec doc) oneHost_empty hbrackets).imp
    (fun _ hone => hone.domainsComplete doc)

end Calls

/-! ## Two IPv6 hosts -/

section Example

/-- A `url` crate that knows three pages and writes URLs without credentials, query and fragment. -/
def somePages : List Url :=
  ["docs.example.com", "[2001:db8::1]", "[2001:db8::2]"].map (fun host =>
    ⟨"https".toList, [], none, some host.toList, none, "/plan".toList, none, none⟩)

/-- A crate that parses the pages of the run below, and writes them back. -/
@[reducible] def someUrls : UrlCrate :=
  .ofParts (fun s => somePages.find? (fun u =>
      u.scheme ++ "://".toList ++ (u.host.getD [] ++ u.path) == s))
    (fun u => u.scheme ++ "://".toList ++ (u.host.getD [] ++ u.path))

attribute [local instance] asciiTables someUrls

theorem someUrls_documented : UrlCrateDocumented := by
  have hpage : ∀ s u, UrlCrate.parse s = some u → u ∈ somePages :=
    fun s u h => List.mem_of_find?_eq_some h
  have hhosts : ∀ u ∈ somePages, ∀ h ∈ u.host, h ≠ [] ∧
      h.all (fun c => decide
        (c ≠ '/' ∧ c ≠ '?' ∧ c ≠ '#' ∧ c ≠ '@' ∧ isWhitespace c = false ∧ c.toLower = c)) = true ∧
      (':' ∈ h → h.head? = some '[') := by decide +kernel
  have hpaths : ∀ u ∈ somePages, u.path = '/' :: "plan".toList := by decide
  have hround : ∀ u ∈ somePages,
      (UrlCrate.parse (UrlCrate.serialize u.stripped)).bind Url.host = u.host := by decide +kernel
  have hcarries : ∀ (u : Url) h, u.host = some h → u.host.isNone ≠ true := by
    intro u h hhost
    rw [hhost]
    exact Bool.false_ne_true
  refine ⟨fun s u h hu _ hhost => ?_, fun s u hu _ => ?_, fun s u h hu _ hhost => ?_,
    fun s u h hu _ hhost => ?_, fun u h _ hhost _ => if_neg (hcarries u h hhost),
    fun u h _ hhost _ => if_neg (hcarries u h hhost), fun _ _ => rfl, fun _ _ => rfl⟩
  · obtain ⟨hne, hplain, hcolon⟩ := hhosts u (hpage s u hu) h hhost
    exact ⟨hne, fun c hc => of_decide_eq_true (List.all_eq_true.1 hplain c hc), hcolon⟩
  · have hplan : "plan".toList.all (fun c => !isWhitespace c) = true := by decide
    refine ⟨_, hpaths u (hpage s u hu), fun c hc => ?_⟩
    simpa using List.all_eq_true.1 hplan c hc
  · refine ⟨[], Or.inl rfl, ?_⟩
    rw [List.append_nil]
    show u.scheme ++ "://".toList ++ (u.host.getD [] ++ u.path) = _
    rw [hhost, Option.getD_some]
  · exact (hround u (hpage s u hu)).trans hhost

/-- Two captures of one page title, on two hosts. -/
def planOn (host₁ host₂ : String) : List PersistCall :=
  [("1", 1000, host₁), ("2", 2000, host₂)].map (fun (name, capturedAtMs, host) =>
    let call := noteCall name.toList capturedAtMs
    { call with capture :=
      { call.capture with url := some ("https://" ++ host ++ "/plan").toList } })

/-- Hosts without brackets agree with every record. -/
theorem domainsComplete_of_bracketsAgree_docs :
    AllStates History.exec History.DomainsComplete History.empty
      (planOn "docs.example.com" "docs.example.com") := by
  have hagree : ∀ call ∈ planOn "docs.example.com" "docs.example.com", ∀ h,
      call.BracketsAgree h := by
    intro call hcall h text count _ candidate _ u hu v hv host k hhost hk hbracket
    have hdocs : ∀ call ∈ planOn "docs.example.com" "docs.example.com",
        ∀ u ∈ call.capture.newRecord.url.map SanitizedUrl.asStr,
          ∀ host ∈ (UrlCrate.parse u).bind Url.host, host.head? ≠ some '[' := by decide +kernel
    exact absurd hbracket (hdocs call hcall u hu host hhost)
  refine domainsComplete_of_bracketsAgree someUrls_documented _ ⟨?_, ?_, trivial⟩
  · exact hagree _ (by simp [planOn]) _
  · exact hagree _ (by simp [planOn]) _

/-- Both hosts read `[2001` in the anchor, so the second capture continues the record of the first,
    and a deletion of the first host keeps the merged text. -/
theorem merge_joins_ipv6_hosts :
    UrlCrateDocumented ∧
      ¬ AllStates History.exec History.DomainsComplete History.empty
        (planOn "[2001:db8::1]" "[2001:db8::2]") := by
  refine ⟨someUrls_documented, fun h => ?_⟩
  obtain ⟨-, -, hdeletion⟩ := h.final
  generalize hlast : final History.exec History.empty
    (planOn "[2001:db8::1]" "[2001:db8::2]") = last at hdeletion
  have hkept : ∃ c ∈ ((deleteEverywhere (.domain "https://[2001:db8::1]/plan".toList)).final
        ⟨last.store, none⟩).store.db.chunks,
      ∃ a ∈ last.contributions, a.recordId = c.recordId ∧
        storedHost a.capture.newRecord.url = some "[2001:db8::1]".toList := by
    rw [← hlast]
    decide +kernel
  have hok : (deleteEverywhere (.domain "https://[2001:db8::1]/plan".toList)
      ⟨last.store, none⟩).1 = .ok ⟨0, 0⟩ := by
    rw [← hlast]
    decide +kernel
  obtain ⟨c, hc, a, ha, hid, hhost⟩ := hkept
  exact hdeletion none _ ⟨0, 0⟩ hok c hc a ha hid _ hhost "[2001:db8::1]".toList
    (by decide +kernel) (Or.inl rfl)

end Example

end Fndr
