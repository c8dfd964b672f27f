import Fndr.Store.Evidence

set_option autoImplicit false

/-! # The append-only tables

`decision_ledger`, `result_feedback` and `mcp_audit` next to the capture tables, as the MCP server
holds them. Each has one writer, an `INSERT` that commits by itself; a refused insert leaves the
vault as it was. -/

namespace Fndr

open RustStd Rows

/-- One entry of the append-only decision ledger. -/
structure LedgerDecision where
  id : ℕ
  decidedAtMs : ℤ
  statement : Str
  recordId : Option Str
  deriving DecidableEq

/-- One owner rating of a surfaced result. -/
structure ResultFeedback where
  id : ℕ
  atMs : ℤ
  recordId : Option Str
  chunkId : Option Str
  query : Str
  rating : Str
  note : Str
  deriving DecidableEq

/-- One recorded MCP tool call. -/
structure AuditEntry where
  id : ℕ
  atMs : ℤ
  tool : Str
  outcome : Str
  rawReleased : Bool
  deriving DecidableEq

/-- The vault as the MCP server holds it. -/
structure McpStore where
  store : Store
  decisionLedger : List LedgerDecision
  resultFeedback : List ResultFeedback
  mcpAudit : List AuditEntry

/-- The statements that write a ledger. -/
inductive LedgerWrite
  | rememberDecision
  | recordFeedback
  | recordToolCall
  deriving DecidableEq

/-- The ledger's statements that fail, and how. -/
abbrev LedgerFaults := Faults LedgerWrite

/-- No statement fails. -/
def noLedgerFaults : LedgerFaults := fun _ => none

/-- The id an `AUTOINCREMENT` key gives the next row. -/
def nextId (ids : List ℕ) : ℕ := ids.foldr max 0 + 1

/-- The foreign key of a nullable `record_id` column. -/
def McpStore.checkRecord (vault : McpStore) (recordId : Option Str) : Except StoreError Unit :=
  if recordId.all (fun id => vault.store.db.memoryRecords.any (fun r => r.id == id)) then .ok ()
  else .error (.sqlite ⟨"FOREIGN KEY constraint failed".toList⟩)

/-- Append one entry to the decision ledger. -/
def McpStore.rememberDecision (writes : LedgerFaults) (vault : McpStore) (decidedAtMs : ℤ)
    (statement : Str) (recordId : Option Str) : Except StoreError (ℕ × McpStore) := do
  writes.check .rememberDecision
  vault.checkRecord recordId
  let id := nextId (vault.decisionLedger.map LedgerDecision.id)
  return (id, { vault with
    decisionLedger := vault.decisionLedger ++ [⟨id, decidedAtMs, statement, recordId⟩] })

/-- Record one rating of a surfaced result. -/
def McpStore.recordFeedback (writes : LedgerFaults) (vault : McpStore) (atMs : ℤ)
    (recordId chunkId : Option Str) (query rating note : Str) :
    Except StoreError (ℕ × McpStore) := do
  writes.check .recordFeedback
  vault.checkRecord recordId
  let id := nextId (vault.resultFeedback.map ResultFeedback.id)
  return (id, { vault with
    resultFeedback := vault.resultFeedback ++ [⟨id, atMs, recordId, chunkId, query, rating, note⟩] })

/-- Record one MCP tool call. -/
def McpStore.recordToolCall (writes : LedgerFaults) (vault : McpStore) (atMs : ℤ)
    (tool outcome : Str) (rawReleased : Bool) : Except StoreError McpStore := do
  writes.check .recordToolCall
  return { vault with
    mcpAudit := vault.mcpAudit ++
      [⟨nextId (vault.mcpAudit.map AuditEntry.id), atMs, tool, outcome, rawReleased⟩] }

/-- `ORDER BY decided_at_ms DESC, id DESC`. -/
def NewestDecisionFirst (a b : LedgerDecision) : Prop :=
  b.decidedAtMs < a.decidedAtMs ∨ (b.decidedAtMs = a.decidedAtMs ∧ b.id ≤ a.id)

instance : DecidableRel NewestDecisionFirst := fun _ _ => inferInstanceAs (Decidable (_ ∨ _))

/-- The decisions since a time, the newest first. -/
def McpStore.decisions (vault : McpStore) (sinceMs : Option ℤ) (limit : ℕ) :
    List LedgerDecision :=
  Rows.limit (asI64 limit) ((vault.decisionLedger.filter (fun d =>
    decide (sinceMs.getD (-2 ^ 63) ≤ d.decidedAtMs))).insertionSort NewestDecisionFirst)

/-- Read the decision ledger, newest first. -/
def McpStore.recentDecisions (reads : ReadFaults) (vault : McpStore) (sinceMs : Option ℤ)
    (limit : ℕ) : Except StoreError (List LedgerDecision) := do
  reads.check .recentDecisions
  return vault.decisions sinceMs limit

/-! ## One row per write -/

/-- The record a new row cites, if any, is there. -/
def McpStore.Cites (vault : McpStore) (recordId : Option Str) : Prop :=
  ∀ id ∈ recordId, ∃ r ∈ vault.store.db.memoryRecords, r.id = id

theorem McpStore.cites_iff {vault : McpStore} {recordId : Option Str} :
    recordId.all (fun id => vault.store.db.memoryRecords.any (fun r => r.id == id)) = true ↔
      vault.Cites recordId := by
  cases recordId with
  | none => simp [McpStore.Cites]
  | some id => simp [McpStore.Cites]

theorem McpStore.checkRecord_bind_eq_ok {α : Type} {vault : McpStore} {recordId : Option Str}
    {k : Unit → Except StoreError α} {a : α} :
    (vault.checkRecord recordId >>= k) = .ok a ↔ vault.Cites recordId ∧ k () = .ok a := by
  unfold McpStore.checkRecord
  split
  · next hall => exact ⟨fun h => ⟨McpStore.cites_iff.1 hall, h⟩, fun h => h.2⟩
  · next hall => exact ⟨fun h => (nomatch h), fun h => absurd (McpStore.cites_iff.2 h.1) hall⟩

/-- A decision that is appended, and what the ledger holds then. -/
theorem McpStore.rememberDecision_eq_ok {writes : LedgerFaults} {vault : McpStore} {decidedAtMs : ℤ}
    {statement : Str} {recordId : Option Str} {result : ℕ × McpStore} :
    vault.rememberDecision writes decidedAtMs statement recordId = .ok result ↔
      writes .rememberDecision = none ∧ vault.Cites recordId ∧
        result = (nextId (vault.decisionLedger.map LedgerDecision.id), { vault with
          decisionLedger := vault.decisionLedger ++
            [⟨nextId (vault.decisionLedger.map LedgerDecision.id), decidedAtMs, statement, recordId⟩] }) :=
  Faults.check_bind_eq_ok.trans (and_congr_right' (McpStore.checkRecord_bind_eq_ok.trans
    (and_congr_right' ⟨fun h => (Except.ok.inj h).symm, fun h => congrArg _ h.symm⟩)))

theorem McpStore.recordFeedback_eq_ok {writes : LedgerFaults} {vault : McpStore} {atMs : ℤ}
    {recordId chunkId : Option Str} {query rating note : Str} {result : ℕ × McpStore} :
    vault.recordFeedback writes atMs recordId chunkId query rating note = .ok result ↔
      writes .recordFeedback = none ∧ vault.Cites recordId ∧
        result = (nextId (vault.resultFeedback.map ResultFeedback.id), { vault with
          resultFeedback := vault.resultFeedback ++
            [⟨nextId (vault.resultFeedback.map ResultFeedback.id), atMs, recordId, chunkId, query,
              rating, note⟩] }) :=
  Faults.check_bind_eq_ok.trans (and_congr_right' (McpStore.checkRecord_bind_eq_ok.trans
    (and_congr_right' ⟨fun h => (Except.ok.inj h).symm, fun h => congrArg _ h.symm⟩)))

theorem McpStore.recentDecisions_eq_ok {reads : ReadFaults} {vault : McpStore} {sinceMs : Option ℤ}
    {limit : ℕ} {decisions : List LedgerDecision} :
    vault.recentDecisions reads sinceMs limit = .ok decisions ↔
      reads .recentDecisions = none ∧ decisions = vault.decisions sinceMs limit :=
  Faults.check_bind_pure

end Fndr
