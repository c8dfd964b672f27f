import Fndr.Library.Cursor
import Fndr.Library.Runs
import Fndr.Mcp.Audit

set_option autoImplicit false

/-! # Polling for changes

A client of `fndr.delta` that follows the documented protocol: it passes the previous answer's
`newest_captured_at_ms` as the next `since_ms`, and keeps its own when an answer has none or the
call fails. Its vault grows meanwhile, with captures that never go back in time. A client is a
`Cursor` reader of the records (`DeltaClient.exec_poll`), as long as the instants survive the
double they travel in; so every record is counted by the first poll that finds it, and again by
those whose `since_ms` is its own instant (`delta_counts`). -/

namespace Fndr

open RustStd Rows Binary64 Runs

/-! ## The client -/

/-- An answered poll, with the records the vault held. -/
structure DeltaPoll where
  sinceMs : ℤ
  records : List MemoryRecord
  out : DeltaOutput
  deriving DecidableEq

/-- A server, the cursor of an agent, and the polls it has made. -/
structure DeltaClient where
  server : FndrMcpServer
  sinceMs : ℤ
  polls : List DeltaPoll

/-- A capture, or a poll. -/
inductive DeltaStep
  | insert (sql : SqlFaults) (record : NewRecord) (chunks : List NewChunk)
  | poll (env : CallEnv) (appLimit : Option ℕ)

/-- A capture that the host stores. -/
def FndrMcpServer.insertCapture (server : FndrMcpServer) (sql : SqlFaults) (record : NewRecord)
    (chunks : List NewChunk) : FndrMcpServer :=
  { server with vault := { server.vault with
      store := (server.vault.store.insertCapture sql record chunks).2 } }

/-- The records of the window, which the answer counts. -/
def DeltaPoll.counted (poll : DeltaPoll) : List MemoryRecord :=
  poll.records.filter (fun r => decide (poll.sinceMs ≤ r.capturedAtMs))

section Client

variable [UnicodeTables] [Fts5]

/-- The next cursor is the newest time of an answer that has one. -/
def DeltaClient.exec (client : DeltaClient) : DeltaStep → DeltaClient
  | .insert sql record chunks =>
      { client with server := client.server.insertCapture sql record chunks }
  | .poll env appLimit =>
      match client.server.callTool env (.delta ⟨client.sinceMs, appLimit⟩) with
      | (.ok (.delta out), server) => {
          server := server
          sinceMs := out.newestCapturedAtMs.getD client.sinceMs
          polls := client.polls ++
            [⟨client.sinceMs, client.server.vault.store.db.memoryRecords, out⟩] }
      | (_, server) => { client with server := server }

/-- Captures never go back in time, and their instants are doubles. -/
def DeltaClient.Rises (client : DeltaClient) : DeltaStep → Prop
  | .insert _ record _ => record.capturedAtMs.natAbs < 2 ^ 53 ∧
      ∀ r ∈ client.server.vault.store.db.memoryRecords, r.capturedAtMs ≤ record.capturedAtMs
  | .poll _ _ => True

end Client

/-- Every record from `startMs` on that was there at the last poll is counted by one poll. -/
def DeltaClient.CountsOnce (startMs : ℤ) (client : DeltaClient) : Prop :=
  ∀ last ∈ client.polls.getLast?, ∀ r ∈ last.records, startMs ≤ r.capturedAtMs →
    (client.polls.filter (fun poll => decide (r ∈ poll.counted))).length = 1

instance (startMs : ℤ) (client : DeltaClient) : Decidable (client.CountsOnce startMs) :=
  inferInstanceAs (Decidable (∀ last ∈ client.polls.getLast?, ∀ r ∈ last.records,
    startMs ≤ r.capturedAtMs → _))

/-- Every poll reports the records it counts. A record from `startMs` on is among them when no
    earlier poll has found it, or when the poll's `since_ms` is its own instant; so none is
    missed. -/
def DeltaClient.CountsFirst (startMs : ℤ) (client : DeltaClient) : Prop :=
  ∀ earlier poll later, client.polls = earlier ++ poll :: later →
    poll.out.recordCount = poll.counted.length ∧
    ∀ r ∈ poll.records, startMs ≤ r.capturedAtMs →
      (r ∈ poll.counted ↔
        (∀ before ∈ earlier, r ∉ before.records) ∨ r.capturedAtMs = poll.sinceMs) ∧
      ∃ first ∈ client.polls, r ∈ first.counted

/-! ## The client is a reader of the records -/

/-- The poll as one of the library. -/
def DeltaPoll.cursorPoll (poll : DeltaPoll) : Cursor.Poll MemoryRecord ℤ := ⟨poll.sinceMs, poll.records⟩

/-- The agent as a reader with a cursor. -/
def DeltaClient.reader (client : DeltaClient) : Cursor.Reader MemoryRecord ℤ where
  items := client.server.vault.store.db.memoryRecords
  since := client.sinceMs
  polls := client.polls.map DeltaPoll.cursorPoll

/-- A client whose instants are doubles, whose polls count what they should, and whose reader
    tracks the records. -/
structure DeltaClient.Sound (startMs : ℤ) (client : DeltaClient) : Prop where
  doubles : ∀ r ∈ client.server.vault.store.db.memoryRecords, r.capturedAtMs.natAbs < 2 ^ 53
  counts : ∀ poll ∈ client.polls, poll.out.recordCount = poll.counted.length
  tracks : client.reader.Tracks MemoryRecord.capturedAtMs startMs

/-- The cursor a client takes from an answer. -/
theorem newest_eq_advance {db : Db} (hdoubles : ∀ r ∈ db.memoryRecords, r.capturedAtMs.natAbs < 2 ^ 53)
    (sinceMs : ℤ) (appLimit : ℕ) :
    (DeltaOutput.ofSummary sinceMs (db.changes sinceMs appLimit)).newestCapturedAtMs.getD sinceMs
      = Cursor.advance MemoryRecord.capturedAtMs sinceMs db.memoryRecords := by
  unfold DeltaOutput.ofSummary Cursor.advance
  dsimp only
  rw [db.changes_newest sinceMs appLimit, Db.capturedSince]
  cases hmax : ((db.memoryRecords.filter (fun r => decide (sinceMs ≤ r.capturedAtMs))).map
      MemoryRecord.capturedAtMs).max? with
  | none => rfl
  | some newest =>
      obtain ⟨r, hr, rfl⟩ := List.mem_map.1 (List.max?_mem hmax)
      exact asF64_of_natAbs_lt (hdoubles r (List.mem_filter.1 hr).1)

section Reader

variable [UnicodeTables] [Fts5]

/-- Nothing but the log changes in the vault of a server that answers a poll, or fails to. -/
theorem FndrMcpServer.callTool_delta_store (env : CallEnv) (server : FndrMcpServer)
    (params : DeltaParams) :
    (server.callTool env (.delta params)).2.vault.store = server.vault.store := by
  have hinner : (server.vaultAfter (server.inner env (.delta params))).store = server.vault.store := by
    cases hdelta : server.inner env (.delta params) with
    | error error => rfl
    | ok done => exact congrArg McpStore.store (vault_of_map hdelta)
  rw [← hinner]
  unfold FndrMcpServer.callTool FndrMcpServer.audit CallEnv.lock McpStore.recordToolCall Faults.check
  cases env.poisoned .audit with
  | true => rfl
  | false => cases env.writes .recordToolCall <;> rfl

/-- A poll is answered with the summary of the vault, or leaves the client where it was. -/
theorem DeltaClient.exec_poll (client : DeltaClient) (env : CallEnv) (appLimit : Option ℕ) :
    (∃ server, server.vault.store = client.server.vault.store ∧
      client.exec (.poll env appLimit) = { client with server := server }) ∨
    (∃ server, server.vault.store = client.server.vault.store ∧ ∃ limit,
      client.exec (.poll env appLimit) =
        ⟨server, (DeltaOutput.ofSummary client.sinceMs (client.server.vault.store.db.changes
            client.sinceMs limit)).newestCapturedAtMs.getD client.sinceMs,
          client.polls ++ [⟨client.sinceMs, client.server.vault.store.db.memoryRecords,
            .ofSummary client.sinceMs (client.server.vault.store.db.changes client.sinceMs limit)⟩]⟩) := by
  have hstore := client.server.callTool_delta_store env ⟨client.sinceMs, appLimit⟩
  unfold DeltaClient.exec
  dsimp only
  generalize hcall : client.server.callTool env (.delta ⟨client.sinceMs, appLimit⟩) = done at hstore ⊢
  obtain ⟨answer, server⟩ := done
  cases answer with
  | error error => exact Or.inl ⟨server, hstore, rfl⟩
  | ok response =>
      obtain ⟨-, vault, hinner⟩ := FndrMcpServer.callTool_eq_ok.1 (congrArg Prod.fst hcall)
      change (client.server.deltaInner env ⟨client.sinceMs, appLimit⟩).map _ = _ at hinner
      cases hdelta : client.server.deltaInner env ⟨client.sinceMs, appLimit⟩ with
      | error error =>
          rw [hdelta] at hinner
          cases hinner
      | ok out =>
          rw [hdelta] at hinner
          cases hinner
          obtain ⟨-, -, rfl⟩ := FndrMcpServer.deltaInner_eq_ok.1 hdelta
          exact Or.inr ⟨server, hstore, _, rfl⟩

theorem DeltaClient.Sound.insert {startMs : ℤ} {client : DeltaClient} (h : client.Sound startMs)
    {sql : SqlFaults} {record : NewRecord} {chunks : List NewChunk}
    (hrises : client.Rises (.insert sql record chunks)) :
    (client.exec (.insert sql record chunks)).Sound startMs := by
  obtain ⟨hdouble, hle⟩ := hrises
  have hrecords : (client.exec (.insert sql record chunks)).server.vault.store.db.memoryRecords
      = (client.server.vault.store.insertCapture sql record chunks).2.db.memoryRecords := rfl
  have hreader : (client.exec (.insert sql record chunks)).reader = { client.reader with
      items := (client.server.vault.store.insertCapture sql record chunks).2.db.memoryRecords } := rfl
  rcases client.server.vault.store.insertCapture_memoryRecords sql record chunks with
    hsame | ⟨-, happend⟩
  · exact ⟨hrecords.trans hsame ▸ h.doubles, h.counts, by rw [hreader, hsame]; exact h.tracks⟩
  · refine ⟨fun r hr => ?_, h.counts, ?_⟩
    · rw [hrecords, happend] at hr
      rcases List.mem_append.1 hr with hold | hnew
      · exact h.doubles r hold
      · exact List.mem_singleton.1 hnew ▸ hdouble
    · rw [hreader, happend]
      exact h.tracks.append (a := record.row) hle

theorem DeltaClient.Sound.poll {startMs : ℤ} {client : DeltaClient} (h : client.Sound startMs)
    (env : CallEnv) (appLimit : Option ℕ) : (client.exec (.poll env appLimit)).Sound startMs := by
  rcases client.exec_poll env appLimit with ⟨server, hstore, hexec⟩ | ⟨server, hstore, limit, hexec⟩
  · rw [hexec]
    refine ⟨fun r hr => h.doubles r (hstore ▸ hr), h.counts, ?_⟩
    have hreader : ({ client with server := server } : DeltaClient).reader = client.reader := by
      unfold DeltaClient.reader
      rw [hstore]
    exact hreader ▸ h.tracks
  · rw [hexec]
    refine ⟨fun r hr => h.doubles r (hstore ▸ hr), fun poll hpoll => ?_, ?_⟩
    · rcases List.mem_append.1 hpoll with hold | hnew
      · exact h.counts poll hold
      · rw [List.mem_singleton.1 hnew]
        exact Db.changes_recordCount _ client.sinceMs limit
    · have htracks := h.tracks.poll
      unfold DeltaClient.reader
      dsimp only
      rw [newest_eq_advance h.doubles, hstore, List.map_append]
      exact htracks

theorem DeltaClient.Sound.exec {startMs : ℤ} (client : DeltaClient) (step : DeltaStep)
    (h : client.Sound startMs) (hrises : client.Rises step) : (client.exec step).Sound startMs := by
  cases step with
  | insert sql record chunks => exact h.insert hrises
  | poll env appLimit => exact h.poll env appLimit

/-! ## What the polls count -/

omit [UnicodeTables] [Fts5] in
theorem DeltaClient.Sound.countsFirst {startMs : ℤ} {client : DeltaClient}
    (h : client.Sound startMs) : client.CountsFirst startMs := by
  intro earlier poll later hpolls
  have hpoll : poll ∈ client.polls := hpolls ▸ List.mem_append_right _ List.mem_cons_self
  refine ⟨h.counts poll hpoll, fun r hr hstart => ⟨?_, ?_⟩⟩
  · have hsplit : client.reader.polls = earlier.map DeltaPoll.cursorPoll ++
        poll.cursorPoll :: later.map DeltaPoll.cursorPoll := by
      change client.polls.map DeltaPoll.cursorPoll = _
      rw [hpolls, List.map_append, List.map_cons]
    refine (h.tracks.exact _ _ _ hsplit r hstart).trans ((and_iff_right hr).trans ?_)
    exact or_congr_left List.forall_mem_map
  · obtain ⟨first, hfirst, hcounted⟩ :=
      h.tracks.counted (List.mem_map_of_mem (f := DeltaPoll.cursorPoll) hpoll) hr hstart
    obtain ⟨found, hfound, rfl⟩ := List.mem_map.1 hfirst
    exact ⟨found, hfound, hcounted⟩

/-- **Delta polling.** However inserts and polls interleave, a record is counted by the first poll
    that finds it, and then by exactly the polls whose `since_ms` is its instant. -/
theorem delta_counts {server : FndrMcpServer} {startMs : ℤ} {steps : List DeltaStep}
    (hdoubles : ∀ r ∈ server.vault.store.db.memoryRecords, r.capturedAtMs.natAbs < 2 ^ 53)
    (hrises : StepsMeet DeltaClient.exec DeltaClient.Rises ⟨server, startMs, []⟩ steps) :
    AllStates DeltaClient.exec (DeltaClient.CountsFirst startMs) ⟨server, startMs, []⟩ steps := by
  have hbegin : (⟨server, startMs, []⟩ : DeltaClient).Sound startMs :=
    ⟨hdoubles, fun poll hpoll => (nomatch hpoll), Cursor.Reader.tracks_begin _ _⟩
  exact (AllStates.of_invariant DeltaClient.Sound.exec hbegin hrises).imp
    (fun _ h => h.countsFirst)

end Reader

section Example

attribute [local instance] asciiTables wordFts

/-- A capture at this time. -/
def noteAt (id : Str) (capturedAtMs : ℤ) : DeltaStep :=
  .insert noFaults ⟨id, "s".toList, "screen".toList, "Notes".toList, none, none, "Draft".toList,
    capturedAtMs, capturedAtMs⟩ []

/-- A server over an empty vault. -/
def emptyServer : FndrMcpServer := ⟨⟨Store.empty, [], [], []⟩, ⟨[], []⟩, none⟩

theorem delta_counts_note :
    AllStates DeltaClient.exec (DeltaClient.CountsFirst 0) ⟨emptyServer, 0, []⟩
      [noteAt "r".toList 1000, .poll quietEnv none, .poll quietEnv none] :=
  delta_counts (fun _ h => (nomatch h)) ⟨⟨by decide, fun _ h => (nomatch h)⟩, trivial, trivial, trivial⟩

/-- The record at the cursor is counted by both of two polls. Past the doubles, a record is counted
    by none: the cursor is rounded past its instant. -/
theorem not_countsOnce :
    ¬ (final DeltaClient.exec ⟨emptyServer, 0, []⟩
      [noteAt "r".toList 1000, .poll quietEnv none, .poll quietEnv none]).CountsOnce 0 ∧
    ¬ (final DeltaClient.exec ⟨emptyServer, 0, []⟩
      [noteAt "r".toList (2 ^ 53 + 3), .poll quietEnv none, noteAt "s".toList (2 ^ 53 + 3),
        .poll quietEnv none]).CountsOnce 0 := by
  constructor
  · decide +kernel
  · decide +kernel

end Example

end Fndr
