import Fndr.Library.References
import Fndr.Mcp.Audit
import Fndr.Vault.Presence

set_option autoImplicit false

/-! # One vault, two processes

The desktop host captures, flushes, rebuilds and deletes; the MCP server reads, and inserts into its
three ledgers. Both have the same SQLite file open. A run interleaves host operations with single
`INSERT`s of the server, so the statements of several tool calls may stand between one another; what
a call reads changes nothing and is not a step here.

The server never reaches captures or index (`allStates_vault_iff`). The host reaches the ledgers
through one foreign-key action only, `ON DELETE SET NULL`, so what the ledgers say about the past
stays (`ledger_history`). -/

namespace Fndr

open RustStd Rows Runs References

/-- SQLite and the index directory. -/
structure SharedVault where
  mcp : McpStore
  lance : Option LanceTable

/-- The vault before anything was written, without an index. -/
def SharedVault.empty : SharedVault := ⟨⟨Store.empty, [], [], []⟩, none⟩

/-- What the host works on. -/
def SharedVault.vault (shared : SharedVault) : Vault := ⟨shared.mcp.store, shared.lance⟩

/-! ## Steps -/

/-- `decision_ledger.record_id REFERENCES memory_records (id) ON DELETE SET NULL`. -/
def decisionRecord : Column LedgerDecision Str where
  ref := LedgerDecision.recordId
  clear decision := { decision with recordId := none }
  ref_clear _ := rfl

/-- `result_feedback.record_id REFERENCES memory_records (id) ON DELETE SET NULL`. -/
def feedbackRecord : Column ResultFeedback Str where
  ref := ResultFeedback.recordId
  clear feedback := { feedback with recordId := none }
  ref_clear _ := rfl

/-- The id is not one of a record that was deleted between the two states. -/
def NotDeleted (before after : Db) (id : Str) : Prop := before.HasRecord id → after.HasRecord id

instance (before after : Db) : DecidablePred (NotDeleted before after) :=
  fun id => inferInstanceAs (Decidable (before.HasRecord id → after.HasRecord id))

/-- The ledgers beside a new state of the captures. -/
def McpStore.withStore (mcp : McpStore) (store : Store) : McpStore where
  store := store
  decisionLedger := decisionRecord.setNull (NotDeleted mcp.store.db store.db) mcp.decisionLedger
  resultFeedback := feedbackRecord.setNull (NotDeleted mcp.store.db store.db) mcp.resultFeedback
  mcpAudit := mcp.mcpAudit

/-- One `INSERT` of the server. -/
inductive LedgerInsert
  | rememberDecision (decidedAtMs : ℤ) (statement : Str) (recordId : Option Str)
  | recordFeedback (atMs : ℤ) (recordId chunkId : Option Str) (query rating note : Str)
  | recordToolCall (atMs : ℤ) (tool outcome : Str) (rawReleased : Bool)

/-- What the insert leaves. One that fails leaves everything. -/
def LedgerInsert.exec (writes : LedgerFaults) (mcp : McpStore) : LedgerInsert → McpStore
  | .rememberDecision decidedAtMs statement recordId =>
      ((mcp.rememberDecision writes decidedAtMs statement recordId).map Prod.snd).toOption.getD mcp
  | .recordFeedback atMs recordId chunkId query rating note =>
      ((mcp.recordFeedback writes atMs recordId chunkId query rating note).map
        Prod.snd).toOption.getD mcp
  | .recordToolCall atMs tool outcome rawReleased =>
      (mcp.recordToolCall writes atMs tool outcome rawReleased).toOption.getD mcp

/-- The ids of the rows an insert adds: none, or the next one. -/
def NextIds (ids added : List ℕ) : Prop := added = [] ∨ added = [nextId ids]

/-- **Everything an insert can do**: the rows it appends have the next id of their table and cite
    records that are there. -/
structure Inserted (before after : McpStore) (decisions : List LedgerDecision)
    (feedback : List ResultFeedback) (audit : List AuditEntry) : Prop where
  store : after.store = before.store
  decisionLedger : after.decisionLedger = before.decisionLedger ++ decisions
  resultFeedback : after.resultFeedback = before.resultFeedback ++ feedback
  mcpAudit : after.mcpAudit = before.mcpAudit ++ audit
  decisionIds : NextIds (before.decisionLedger.map LedgerDecision.id)
    (decisions.map LedgerDecision.id)
  feedbackIds : NextIds (before.resultFeedback.map ResultFeedback.id)
    (feedback.map ResultFeedback.id)
  auditIds : NextIds (before.mcpAudit.map AuditEntry.id) (audit.map AuditEntry.id)
  decisionRecords : decisionRecord.Valid before.store.db.HasRecord decisions
  feedbackRecords : feedbackRecord.Valid before.store.db.HasRecord feedback

/-- The ids 1, 2, .. in the order of the rows. -/
def Numbered (ids : List ℕ) : Prop := ids = List.range' 1 ids.length

theorem foldr_max_range' (a n : ℕ) : (List.range' 1 n).foldr max a = max a n := by
  induction n generalizing a with
  | zero => exact (Nat.max_zero a).symm
  | succ n ih =>
      rw [List.range'_1_concat, List.foldr_append, ih]
      simp only [List.foldr_cons, List.foldr_nil]
      omega

theorem Numbered.append {ids added : List ℕ} (h : Numbered ids) (hnext : NextIds ids added) :
    Numbered (ids ++ added) := by
  rcases hnext with rfl | rfl
  · rw [List.append_nil]
    exact h
  · have hid : nextId ids = 1 + ids.length := by
      rw [h, nextId, foldr_max_range', List.length_range']
      omega
    rw [Numbered, List.length_append, List.length_singleton, List.range'_1_concat, ← h, hid]

theorem Inserted.nothing (mcp : McpStore) : Inserted mcp mcp [] [] [] where
  store := rfl
  decisionLedger := (List.append_nil _).symm
  resultFeedback := (List.append_nil _).symm
  mcpAudit := (List.append_nil _).symm
  decisionIds := Or.inl rfl
  feedbackIds := Or.inl rfl
  auditIds := Or.inl rfl
  decisionRecords := Column.valid_nil _
  feedbackRecords := Column.valid_nil _

theorem LedgerInsert.exec_inserted (writes : LedgerFaults) (mcp : McpStore)
    (insert : LedgerInsert) : ∃ decisions feedback audit,
      Inserted mcp (insert.exec writes mcp) decisions feedback audit := by
  -- each insert checks the record it cites and adds one row, or none when its statement fails
  cases insert with
  | rememberDecision decidedAtMs statement recordId =>
      rw [LedgerInsert.exec]
      cases hwrite : mcp.rememberDecision writes decidedAtMs statement recordId with
      | error error => exact ⟨[], [], [], .nothing mcp⟩
      | ok done =>
          obtain ⟨-, hcites, rfl⟩ := McpStore.rememberDecision_eq_ok.1 hwrite
          refine ⟨[_], [], [], { Inserted.nothing mcp with
            decisionLedger := rfl, decisionIds := Or.inr rfl, decisionRecords := ?_ }⟩
          intro row hrow id hid
          rw [List.mem_singleton.1 hrow] at hid
          exact hcites id hid
  | recordFeedback atMs recordId chunkId query rating note =>
      rw [LedgerInsert.exec]
      cases hwrite : mcp.recordFeedback writes atMs recordId chunkId query rating note with
      | error error => exact ⟨[], [], [], .nothing mcp⟩
      | ok done =>
          obtain ⟨-, hcites, rfl⟩ := McpStore.recordFeedback_eq_ok.1 hwrite
          refine ⟨[], [_], [], { Inserted.nothing mcp with
            resultFeedback := rfl, feedbackIds := Or.inr rfl, feedbackRecords := ?_ }⟩
          intro row hrow id hid
          rw [List.mem_singleton.1 hrow] at hid
          exact hcites id hid
  | recordToolCall atMs tool outcome rawReleased =>
      rw [LedgerInsert.exec, McpStore.recordToolCall]
      unfold Faults.check
      cases writes .recordToolCall with
      | some error => exact ⟨[], [], [], .nothing mcp⟩
      | none =>
          exact ⟨[], [], [_], { Inserted.nothing mcp with
            mcpAudit := rfl, auditIds := Or.inr rfl }⟩

/-! ## Steps -/

/-- A call of the host, or a row that a tool of the server writes. -/
inductive SharedStep
  | host (call : VaultCall)
  | insert (writes : LedgerFaults) (insert : LedgerInsert)

variable [UnicodeTables] [UrlCrate] (F : Type) [ScoreArith F]

/-- Run one step of either side. -/
def SharedVault.exec (shared : SharedVault) : SharedStep → SharedVault
  | .host call =>
      let after := call.exec F shared.vault
      ⟨shared.mcp.withStore after.store, after.lance⟩
  | .insert writes insert => ⟨insert.exec writes shared.mcp, shared.lance⟩

/-- The call, if it is one of the host. -/
def SharedStep.hostCall : SharedStep → Option VaultCall
  | .host call => some call
  | .insert _ _ => none

variable {F}

theorem SharedVault.exec_vault (shared : SharedVault) (step : SharedStep) :
    (shared.exec F step).vault = step.hostCall.elim shared.vault (VaultCall.exec F shared.vault) := by
  cases step with
  | host call => rfl
  | insert writes insert =>
      obtain ⟨_, _, _, hinserted⟩ := insert.exec_inserted writes shared.mcp
      rw [SharedVault.vault, SharedVault.exec, hinserted.store]
      rfl

/-! ## The ledgers through a run -/

/-- The rows of each ledger are numbered in order, and cite records that are there. -/
structure McpStore.LedgersSound (mcp : McpStore) : Prop where
  decisionIds : Numbered (mcp.decisionLedger.map LedgerDecision.id)
  feedbackIds : Numbered (mcp.resultFeedback.map ResultFeedback.id)
  auditIds : Numbered (mcp.mcpAudit.map AuditEntry.id)
  decisionRecords : decisionRecord.Valid mcp.store.db.HasRecord mcp.decisionLedger
  feedbackRecords : feedbackRecord.Valid mcp.store.db.HasRecord mcp.resultFeedback

theorem appendOnly_decisions : AppendOnly (SharedVault.exec F)
    (fun shared => shared.mcp.decisionLedger) (fun shared => shared.mcp.store.db.HasRecord)
    decisionRecord := by
  intro shared step
  cases step with
  | host call =>
      exact Keeps.of_setNull (NotDeleted shared.mcp.store.db (call.exec F shared.vault).store.db)
        (fun id hid => ⟨fun h => h hid, fun h _ => h⟩) rfl
  | insert writes insert =>
      obtain ⟨decisions, _, _, hinserted⟩ := insert.exec_inserted writes shared.mcp
      exact Keeps.of_append (congrArg (fun store => Db.HasRecord store.db) hinserted.store)
        hinserted.decisionRecords hinserted.decisionLedger

theorem appendOnly_feedback : AppendOnly (SharedVault.exec F)
    (fun shared => shared.mcp.resultFeedback) (fun shared => shared.mcp.store.db.HasRecord)
    feedbackRecord := by
  intro shared step
  cases step with
  | host call =>
      exact Keeps.of_setNull (NotDeleted shared.mcp.store.db (call.exec F shared.vault).store.db)
        (fun id hid => ⟨fun h => h hid, fun h _ => h⟩) rfl
  | insert writes insert =>
      obtain ⟨_, feedback, _, hinserted⟩ := insert.exec_inserted writes shared.mcp
      exact Keeps.of_append (congrArg (fun store => Db.HasRecord store.db) hinserted.store)
        hinserted.feedbackRecords hinserted.resultFeedback

theorem ledgersSound_exec (shared : SharedVault) (step : SharedStep)
    (h : shared.mcp.LedgersSound) : (shared.exec F step).mcp.LedgersSound := by
  have hdecisions := (appendOnly_decisions (F := F)).valid_step step h.decisionRecords
  have hfeedback := (appendOnly_feedback (F := F)).valid_step step h.feedbackRecords
  cases step with
  | host call =>
      refine ⟨?_, ?_, h.auditIds, hdecisions, hfeedback⟩
      · rw [SharedVault.exec, McpStore.withStore, decisionRecord.map_setNull (fun _ => rfl)]
        exact h.decisionIds
      · rw [SharedVault.exec, McpStore.withStore, feedbackRecord.map_setNull (fun _ => rfl)]
        exact h.feedbackIds
  | insert writes insert =>
      obtain ⟨decisions, feedback, audit, hinserted⟩ := insert.exec_inserted writes shared.mcp
      refine ⟨?_, ?_, ?_, hdecisions, hfeedback⟩
      · rw [SharedVault.exec, hinserted.decisionLedger, List.map_append]
        exact h.decisionIds.append hinserted.decisionIds
      · rw [SharedVault.exec, hinserted.resultFeedback, List.map_append]
        exact h.feedbackIds.append hinserted.feedbackIds
      · rw [SharedVault.exec, hinserted.mcpAudit, List.map_append]
        exact h.auditIds.append hinserted.auditIds

omit [UnicodeTables] [UrlCrate] in
theorem ledgersSound_empty : SharedVault.empty.mcp.LedgersSound :=
  ⟨rfl, rfl, rfl, Column.valid_nil _, Column.valid_nil _⟩

theorem ledgersSound_interleaved (steps : List SharedStep) :
    AllStates (SharedVault.exec F) (fun shared => shared.mcp.LedgersSound) SharedVault.empty steps :=
  AllStates.of_step ledgersSound_exec ledgersSound_empty

/-- What a row says of a call. -/
def AuditEntry.said (entry : AuditEntry) : ℤ × Str × Str × Bool :=
  (entry.atMs, entry.tool, entry.outcome, entry.rawReleased)

/-- What a step adds to the audit log. -/
def SharedStep.audited : SharedStep → Option (ℤ × Str × Str × Bool)
  | .insert writes (.recordToolCall atMs tool outcome rawReleased) =>
      if (writes .recordToolCall).isNone then some (atMs, tool, outcome, rawReleased) else none
  | _ => none

theorem SharedVault.exec_mcpAudit (shared : SharedVault) (step : SharedStep) :
    ∃ added, (shared.exec F step).mcp.mcpAudit = shared.mcp.mcpAudit ++ added ∧
      added.map AuditEntry.said = step.audited.toList := by
  cases step with
  | host call => exact ⟨[], (List.append_nil _).symm, rfl⟩
  | insert writes insert =>
      cases insert with
      | rememberDecision decidedAtMs statement recordId =>
          refine ⟨[], ?_, rfl⟩
          rw [List.append_nil, SharedVault.exec, LedgerInsert.exec]
          cases hwrite : shared.mcp.rememberDecision writes decidedAtMs statement recordId with
          | error error => rfl
          | ok done =>
              obtain ⟨-, -, rfl⟩ := McpStore.rememberDecision_eq_ok.1 hwrite
              rfl
      | recordFeedback atMs recordId chunkId query rating note =>
          refine ⟨[], ?_, rfl⟩
          rw [List.append_nil, SharedVault.exec, LedgerInsert.exec]
          cases hwrite : shared.mcp.recordFeedback writes atMs recordId chunkId query rating note with
          | error error => rfl
          | ok done =>
              obtain ⟨-, -, rfl⟩ := McpStore.recordFeedback_eq_ok.1 hwrite
              rfl
      | recordToolCall atMs tool outcome rawReleased =>
          rw [SharedVault.exec, LedgerInsert.exec, McpStore.recordToolCall, SharedStep.audited]
          unfold Faults.check
          cases writes .recordToolCall with
          | some error => exact ⟨[], (List.append_nil _).symm, rfl⟩
          | none => exact ⟨[_], rfl, rfl⟩

/-- The audit log of a run is what its steps recorded. -/
theorem audit_log (shared : SharedVault) (steps : List SharedStep) :
    ∃ added, (final (SharedVault.exec F) shared steps).mcp.mcpAudit = shared.mcp.mcpAudit ++ added ∧
      added.map AuditEntry.said = steps.filterMap SharedStep.audited := by
  induction steps generalizing shared with
  | nil => exact ⟨[], (List.append_nil _).symm, rfl⟩
  | cons step steps ih =>
      obtain ⟨first, hfirst, hsaid⟩ := shared.exec_mcpAudit (F := F) step
      obtain ⟨rest, hrest, hsaid'⟩ := ih (shared.exec F step)
      refine ⟨first ++ rest, ?_, ?_⟩
      · rw [← List.append_assoc, ← hfirst]
        exact hrest
      · rw [List.map_append, hsaid, hsaid']
        cases hstep : step.audited with
        | none => rw [List.filterMap_cons_none hstep, Option.toList_none, List.nil_append]
        | some said =>
            rw [List.filterMap_cons_some hstep, Option.toList_some, List.singleton_append]

variable (F) in
/-- The record is there now and in every later state. -/
def SharedVault.Lasts (shared : SharedVault) (later : List SharedStep) (id : Str) : Prop :=
  AllStates (SharedVault.exec F) (fun t => t.mcp.store.db.HasRecord id) shared later

open Classical in
/-- **The ledgers are history.** Whatever the host deletes later, the rows written so far stay in
    their places; of a row only its reference can be cleared, which happens exactly when its record
    does not last. The audit log gains one row for each recording that commits. -/
theorem ledger_history (steps later : List SharedStep) :
    let earlier := final (SharedVault.exec F) SharedVault.empty steps
    let now := final (SharedVault.exec F) earlier later
    (∃ added, now.mcp.decisionLedger
      = decisionRecord.setNull (earlier.Lasts F later) earlier.mcp.decisionLedger ++ added) ∧
    (∃ added, now.mcp.resultFeedback
      = feedbackRecord.setNull (earlier.Lasts F later) earlier.mcp.resultFeedback ++ added) ∧
    ∃ added, now.mcp.mcpAudit = earlier.mcp.mcpAudit ++ added ∧
      added.map AuditEntry.said = later.filterMap SharedStep.audited := by
  have hsound : (final (SharedVault.exec F) SharedVault.empty steps).mcp.LedgersSound :=
    (AllStates.of_step ledgersSound_exec ledgersSound_empty).final
  intro earlier now
  exact ⟨appendOnly_decisions.history later hsound.decisionRecords,
    appendOnly_feedback.history later hsound.feedbackRecords, audit_log earlier later⟩

/-! ## The captures through a run -/

section Calls

variable [Fts5]

omit [UrlCrate] in
/-- A tool that answers has made one insert at most. -/
theorem FndrMcpServer.inner_inserts {env : CallEnv} {server : FndrMcpServer} {call : ToolCall}
    {response : Response} {mcp : McpStore} (h : server.inner env call = .ok (response, mcp)) :
    ∃ inserts : List LedgerInsert,
      mcp = inserts.foldl (fun mcp insert => insert.exec env.writes mcp) server.vault := by
  cases call with
  | feedback params =>
      obtain ⟨done, hout, hanswer⟩ := Except.map_eq_ok.1 h
      cases hanswer
      obtain ⟨-, -, id, hwrite, -⟩ := FndrMcpServer.feedbackInner_eq_ok.1 hout
      refine ⟨[.recordFeedback (env.nowMs .tool) params.recordId params.chunkId params.query
        params.rating.asStr (params.note.getD [])], ?_⟩
      rw [List.foldl_cons, LedgerInsert.exec, hwrite]
      rfl
  | rememberDecision params =>
      obtain ⟨done, hout, hanswer⟩ := Except.map_eq_ok.1 h
      cases hanswer
      obtain ⟨-, -, id, hwrite, -⟩ := FndrMcpServer.rememberDecisionInner_eq_ok.1 hout
      refine ⟨[.rememberDecision (params.decidedAtMs.getD (env.nowMs .tool)) params.statement
        params.recordId], ?_⟩
      rw [List.foldl_cons, LedgerInsert.exec, hwrite]
      rfl
  | privacyStatus =>
      cases h
      exact ⟨[], rfl⟩
  | _ => exact ⟨[], vault_of_map h⟩

omit [UrlCrate] in
/-- A tool call is a run of inserts. -/
theorem FndrMcpServer.callTool_inserts (env : CallEnv) (server : FndrMcpServer) (call : ToolCall) :
    ∃ inserts : List LedgerInsert, (server.callTool env call).2.vault
      = inserts.foldl (fun mcp insert => insert.exec env.writes mcp) server.vault := by
  have hafter : ∃ inserts : List LedgerInsert, server.vaultAfter (server.inner env call)
      = inserts.foldl (fun mcp insert => insert.exec env.writes mcp) server.vault := by
    cases hinner : server.inner env call with
    | error error => exact ⟨[], rfl⟩
    | ok done => exact FndrMcpServer.inner_inserts hinner
  obtain ⟨inserts, hinserts⟩ := hafter
  unfold FndrMcpServer.callTool FndrMcpServer.audit CallEnv.lock
  cases env.poisoned .audit with
  | true => exact ⟨inserts, hinserts⟩
  | false =>
      generalize hrow : LedgerInsert.recordToolCall (env.nowMs .audit) call.name
        (if (server.inner env call).isOk then "ok".toList else "refused".toList)
        (call.rawReleased && (server.inner env call).isOk) = row
      refine ⟨inserts ++ [row], ?_⟩
      rw [List.foldl_append, ← hinserts, ← hrow, List.foldl_cons, LedgerInsert.exec]
      unfold McpStore.recordToolCall Faults.check
      cases env.writes .recordToolCall <;> rfl

omit [Fts5] in
theorem final_inserts (writes : LedgerFaults) (shared : SharedVault) (inserts : List LedgerInsert) :
    final (SharedVault.exec F) shared (inserts.map (SharedStep.insert writes))
      = ⟨inserts.foldl (fun mcp insert => insert.exec writes mcp) shared.mcp, shared.lance⟩ := by
  induction inserts generalizing shared with
  | nil => rfl
  | cons insert inserts ih => exact ih (shared.exec F (.insert writes insert))

/-- A server's call in a vault. -/
def SharedVault.call (env : CallEnv) (blocklist : Blocklist)
    (route : Option (QueryEmbedder × IndexDir)) (shared : SharedVault) (call : ToolCall) :
    SharedVault :=
  ⟨(FndrMcpServer.callTool env ⟨shared.mcp, blocklist, route⟩ call).2.vault, shared.lance⟩

/-- **The captures are the host's alone.** What holds of them throughout the host's part of a run
    holds throughout the run, whatever the server inserts in between, and conversely; and a tool
    call, whatever it is, does nothing but insert. -/
theorem captures_of_host :
    (∀ (P : Vault → Prop) (steps : List SharedStep),
      AllStates (SharedVault.exec F) (fun shared => P shared.vault) SharedVault.empty steps ↔
        AllStates (VaultCall.exec F) P Vault.empty (steps.filterMap SharedStep.hostCall)) ∧
    ∀ (env : CallEnv) (blocklist : Blocklist) (route : Option (QueryEmbedder × IndexDir))
      (shared : SharedVault) (call : ToolCall), ∃ steps : List SharedStep,
        steps.filterMap SharedStep.hostCall = [] ∧
          shared.call env blocklist route call = final (SharedVault.exec F) shared steps := by
  constructor
  · intro P steps
    exact allStates_project SharedVault.exec_vault SharedVault.empty steps
  · intro env blocklist route shared call
    obtain ⟨inserts, hinserts⟩ :=
      FndrMcpServer.callTool_inserts env ⟨shared.mcp, blocklist, route⟩ call
    refine ⟨inserts.map (SharedStep.insert env.writes), ?_, ?_⟩
    · rw [List.filterMap_map]
      exact List.filterMap_eq_nil_iff.2 (fun _ _ => rfl)
    · rw [SharedVault.call, hinserts, final_inserts]

end Calls

end Fndr
