import Fndr.Vault.Shared

set_option autoImplicit false

/-! # The audit view

`recent_audit_entries` opens the vault read-only and shows the newest rows of `mcp_audit`, ordered
by their time and then by their number. The log itself is in the order of recording, so the two
orders agree while the recording clock does not go back (`recentAuditEntries_eq`). -/

namespace Fndr

open RustStd Rows Runs Binary64

/-- One row of the view. -/
structure AuditLogEntry where
  atMs : ℤ
  tool : Str
  outcome : Str
  rawReleased : Bool
  deriving DecidableEq

/-- `ORDER BY at_ms DESC, id DESC`. -/
def NewestEntryFirst (a b : AuditEntry) : Prop :=
  b.atMs < a.atMs ∨ (b.atMs = a.atMs ∧ b.id ≤ a.id)

instance : DecidableRel NewestEntryFirst := fun _ _ => inferInstanceAs (Decidable (_ ∨ _))

/-- Read recorded tool calls, newest first. -/
def McpStore.recentToolCalls (mcp : McpStore) (limit : ℕ) : List AuditEntry :=
  Rows.limit (asI64 limit) (mcp.mcpAudit.insertionSort NewestEntryFirst)

/-- A row of the audit log as the window is sent it. -/
def AuditLogEntry.ofEntry (entry : AuditEntry) : AuditLogEntry :=
  ⟨asF64 entry.atMs, entry.tool, entry.outcome, entry.rawReleased⟩

/-- The vault as the view finds it: the database file may not be there, and then nothing has been
    recorded; and it may not open, or not be readable. -/
inductive ViewedVault
  | absent
  | unreadable
  | vault (mcp : McpStore)

/-- The latest rows, none where no vault has been created. -/
def recentAuditEntries (file : ViewedVault) (limit : ℕ) : Except Str (List AuditLogEntry) :=
  match file with
  | .absent => .ok []
  | .unreadable => .error "audit_log_unavailable".toList
  | .vault mcp => .ok ((mcp.recentToolCalls limit).map AuditLogEntry.ofEntry)

/-- A row of the view from what was recorded. -/
def AuditLogEntry.ofSaid (said : ℤ × Str × Str × Bool) : AuditLogEntry :=
  ⟨asF64 said.1, said.2.1, said.2.2.1, said.2.2.2⟩

/-- The order of the view: by time alone. -/
def LaterFirst (a b : ℤ × Str × Str × Bool) : Prop := b.1 ≤ a.1

instance : DecidableRel LaterFirst := fun _ _ => inferInstanceAs (Decidable (_ ≤ _))

instance : Std.Total NewestEntryFirst where
  total a b := by
    unfold NewestEntryFirst
    omega

instance : IsTrans AuditEntry NewestEntryFirst where
  trans a b c := by
    unfold NewestEntryFirst
    omega

theorem Numbered.pairwise_lt {log : List AuditEntry} (h : Numbered (log.map AuditEntry.id)) :
    log.Pairwise (fun a b => a.id < b.id) := by
  have hsorted : (log.map AuditEntry.id).Pairwise (· < ·) := by
    rw [h]
    exact List.pairwise_lt_range'
  exact List.pairwise_map.1 hsorted

/-- Sorting a log by time and number is a stable sort by time, the last row first. -/
theorem insertionSort_newestEntryFirst {log : List AuditEntry}
    (hids : Numbered (log.map AuditEntry.id)) :
    (log.insertionSort NewestEntryFirst).map AuditEntry.said
      = (log.map AuditEntry.said).reverse.insertionSort LaterFirst := by
  have hrises := hids.pairwise_lt
  -- the numbers tell the rows apart, so the order of the rows before sorting is the same to it
  have hturned : log.insertionSort NewestEntryFirst
      = log.reverse.insertionSort NewestEntryFirst := by
    refine List.Perm.eq_of_pairwise ?_ (List.pairwise_insertionSort _ _)
      (List.pairwise_insertionSort _ _) ?_
    · intro a b ha hb hab hba
      rw [List.mem_insertionSort, List.mem_reverse] at hb
      rw [List.mem_insertionSort] at ha
      have hid : a.id = b.id := by
        unfold NewestEntryFirst at hab hba
        omega
      exact List.inj_on_of_nodup_map (List.pairwise_map.2 (hrises.imp Nat.ne_of_lt)) ha hb hid
    · exact (List.perm_insertionSort _ _).trans
        ((List.reverse_perm log).symm.trans (List.perm_insertionSort _ _).symm)
  have hbyTime : log.reverse.insertionSort NewestEntryFirst
      = log.reverse.insertionSort (fun a b => LaterFirst a.said b.said) := by
    refine insertionSort_congr ((List.pairwise_reverse.2 hrises).imp (fun {a b} hlt => ?_))
    unfold NewestEntryFirst LaterFirst AuditEntry.said
    omega
  rw [hturned, hbyTime, ← List.map_reverse]
  exact List.map_insertionSort _ LaterFirst AuditEntry.said _ (fun _ _ _ _ => Iff.rfl)

/-- **The view is what was recorded, newest first.** In every run, whatever the host has captured,
    flushed or deleted in the meantime, the audit view shows what the tool calls recorded in order
    of their times, of equal times the last one first, up to its limit. As long as the recording
    clock does not go back, that is the end of the log turned round. -/
theorem recentAuditEntries_eq [UnicodeTables] [UrlCrate] {F : Type} [ScoreArith F]
    (steps : List SharedStep) (limit : ℕ) :
    let recorded := steps.filterMap SharedStep.audited
    let shown := recentAuditEntries
      (.vault (final (SharedVault.exec F) SharedVault.empty steps).mcp) limit
    shown = .ok ((Rows.limit (asI64 limit) (recorded.reverse.insertionSort LaterFirst)).map
        AuditLogEntry.ofSaid) ∧
      (recorded.Pairwise (fun a b => a.1 ≤ b.1) →
        shown = .ok ((Rows.limit (asI64 limit) recorded.reverse).map AuditLogEntry.ofSaid)) := by
  obtain ⟨added, hlog, hsaid⟩ := audit_log (F := F) SharedVault.empty steps
  have hlog' : (final (SharedVault.exec F) SharedVault.empty steps).mcp.mcpAudit.map
      AuditEntry.said = steps.filterMap SharedStep.audited := by
    rw [hlog]
    exact hsaid
  have hsound : (final (SharedVault.exec F) SharedVault.empty steps).mcp.LedgersSound :=
    (AllStates.of_step ledgersSound_exec ledgersSound_empty).final
  intro recorded shown
  have hshown : shown = .ok ((Rows.limit (asI64 limit)
      (recorded.reverse.insertionSort LaterFirst)).map AuditLogEntry.ofSaid) := by
    change recentAuditEntries _ _ = Except.ok (List.map _ (Rows.limit _ (List.insertionSort _
      (steps.filterMap SharedStep.audited).reverse)))
    rw [← hlog', ← insertionSort_newestEntryFirst hsound.auditIds, ← limit_map, List.map_map]
    rfl
  refine ⟨hshown, fun hclock => ?_⟩
  have hsorted : recorded.reverse.Pairwise LaterFirst := List.pairwise_reverse.2 hclock
  rw [hshown, hsorted.insertionSort_eq]

section Example

attribute [local instance] asciiTables noUrls

/-- Three calls, one of them not recorded, and a deletion in between. -/
def threeCalls : List SharedStep :=
  [.insert noLedgerFaults (.recordToolCall 1000 "fndr.search".toList "ok".toList false),
    .insert (fun _ => some ⟨"disk full".toList⟩)
      (.recordToolCall 1500 "fndr.delta".toList "ok".toList false),
    .host (.deleteEverywhere .all none),
    .insert noLedgerFaults (.recordToolCall 2000 "fndr.source_evidence".toList "ok".toList true)]

/-- Two calls, and a clock that was set back in between. -/
def clockSetBack : List SharedStep :=
  [.insert noLedgerFaults (.recordToolCall 2000 "fndr.search".toList "ok".toList false),
    .insert noLedgerFaults (.recordToolCall 1000 "fndr.recall".toList "ok".toList false)]

/-- The view shows the last call of the first run, and the first call of the second. -/
theorem recentAuditEntries_eq_threeCalls :
    recentAuditEntries (.vault (final (SharedVault.exec ℚ) SharedVault.empty threeCalls).mcp) 1
      = .ok [⟨2000, "fndr.source_evidence".toList, "ok".toList, true⟩] ∧
    recentAuditEntries (.vault (final (SharedVault.exec ℚ) SharedVault.empty clockSetBack).mcp) 1
      = .ok [⟨2000, "fndr.search".toList, "ok".toList, false⟩] :=
  ⟨(recentAuditEntries_eq threeCalls 1).2 (by decide), (recentAuditEntries_eq clockSetBack 1).1⟩

end Example

end Fndr
