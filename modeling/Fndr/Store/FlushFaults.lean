import Fndr.Store.LanceWriter

set_option autoImplicit false

/-! # A flush among failing calls

`flushOnce` stops only by itself: on a refused embedding, on a wrong dimension, on a batch it cannot
build. The calls it makes can fail as well, each statement of SQLite and each call of Lance, and
what a tick reports is the text of the failure. `FlushFaults` says which calls fail during one flush;
under them a flush does what `flushOnce` does or stops on the way (`flushOnce_mayStop`), so that what
is proved of `flushOnce` cut anywhere holds of it. -/

namespace Fndr

open RustStd Rows

/-- The statements of a flush. -/
inductive FlushStatement
  | selectPending
  | begin
  | stamp (chunkId : Str)
  | commit

/-- The calls of LanceDB that can fail. -/
inductive LanceCall
  | connect
  | openTable
  | createTable
  | createIndex (index : LanceIndex)
  | add

/-- The calls that fail during one flush; a Lance error is what it displays. -/
structure FlushFaults where
  sqlite : Faults FlushStatement
  lance : LanceCall → Option Str

/-- Neither SQLite nor Lance reports an error. -/
def noFlushFaults : FlushFaults := ⟨fun _ => none, fun _ => none⟩

/-- The errors of `flush_once`, Lance's own included. -/
inductive FlushFailure
  | known (error : FlushError)
  | lance (error : Str)

/-- Why a flush stopped. -/
inductive FlushStop
  | failed (failure : FlushFailure)
  | panicked
  | outOfFuel

/-- The end of a flush without failures as one of a flush with them. -/
def Halt.asStop : Halt → FlushStop
  | .error failure => .failed (.known failure)
  | .panic => .panicked
  | .outOfFuel => .outOfFuel

/-! ## The flush, call by call -/

/-- The error that a statement reports, if it does. -/
def FlushFaults.checkSqlite (faults : FlushFaults) (statement : FlushStatement) :
    Except FlushStop Unit :=
  match faults.sqlite statement with
  | some error => .error (.failed (.known (.store (.sqlite error))))
  | none => .ok ()

/-- The error that a call reports, if it does. -/
def FlushFaults.checkLance (faults : FlushFaults) (call : LanceCall) : Except FlushStop Unit :=
  match faults.lance call with
  | some error => .error (.failed (.lance error))
  | none => .ok ()

/-- The updates of the stamping transaction, and its commit. -/
def FlushFaults.checkStamps (faults : FlushFaults) : List Str → Except FlushStop Unit
  | [] => faults.checkSqlite .commit
  | chunkId :: chunkIds => do
      faults.checkSqlite (.stamp chunkId)
      faults.checkStamps chunkIds

/-- One commit of Lance, if the call succeeds. -/
def FlushFaults.lanceCommit (faults : FlushFaults) (call : LanceCall) (f : Vault → Vault) :
    Durable Vault FlushStop Unit := do
  Durable.lift (faults.checkLance call)
  Durable.commit f

/-- Open the table, or create it with its indices one by one. -/
def FlushFaults.openOrCreateTable (faults : FlushFaults) : Durable Vault FlushStop Unit := do
  Durable.lift (faults.checkLance .connect)
  Durable.lift (faults.checkLance .openTable)
  let vault ← Durable.get
  if vault.lance.isSome then
    return ()
  else
    let capturedAt : LanceIndex := .btree "captured_at_ms".toList
    let text : LanceIndex := .fts "text".toList
    -- three commits: a stop between them leaves a table without its indexes
    faults.lanceCommit .createTable Vault.createEmptyTable
    faults.lanceCommit (.createIndex capturedAt) (Vault.createIndex capturedAt)
    faults.lanceCommit (.createIndex text) (Vault.createIndex text)

/-- Append the rows, then stamp their chunks. -/
def FlushFaults.commitBatch (faults : FlushFaults) (pending : List PendingChunk)
    (vectors : List (List F32)) (nowMs : ℤ) : Durable Vault FlushStop FlushReport :=
  if vectors.length ≠ pending.length then
    Durable.throw .panicked
  else do
    let chunkIds := pending.map PendingChunk.chunkId
    faults.lanceCommit .add (Vault.addRows (List.zipWith LanceRow.ofChunk pending vectors))
    Durable.lift (faults.checkSqlite .begin)
    -- the stamps are one transaction, which a failed statement rolls back
    Durable.lift (faults.checkStamps chunkIds)
    Durable.commit (Vault.onStore (Store.markChunksFlushed chunkIds nowMs))
    return ⟨pending.length, pending.length == FLUSH_BATCH_SIZE⟩

/-- One batch: read, embed, open, append, stamp; each step can fail. -/
def FlushFaults.flushOnce (faults : FlushFaults) (embedder : Embedder) (nowMs : ℤ) (scan : Scan) :
    Durable Vault FlushStop FlushReport := do
  Durable.lift (faults.checkSqlite .selectPending)
  let vault ← Durable.get
  let pending := vault.store.db.pendingChunks scan FLUSH_BATCH_SIZE
  if pending = [] then
    return ⟨0, false⟩
  else
    let vectors ← Durable.lift ((embedPending embedder pending).mapError Halt.asStop)
    faults.openOrCreateTable
    faults.commitBatch pending vectors nowMs

/-! ## It does what the flush does, or stops on the way -/

/-- The stop is a failure of one of the calls. -/
def FlushFaults.Gave (faults : FlushFaults) (stop : FlushStop) : Prop :=
  (∃ statement error, faults.sqlite statement = some error ∧
    stop = .failed (.known (.store (.sqlite error)))) ∨
  ∃ call error, faults.lance call = some error ∧ stop = .failed (.lance error)

theorem FlushFaults.gave_of_sqlite {faults : FlushFaults} {statement : FlushStatement}
    {stop : FlushStop} (h : faults.checkSqlite statement = .error stop) : faults.Gave stop := by
  unfold FlushFaults.checkSqlite at h
  split at h
  · next error hfault =>
    cases h
    exact Or.inl ⟨statement, error, hfault, rfl⟩
  · cases h

theorem FlushFaults.gave_of_lance {faults : FlushFaults} {call : LanceCall} {stop : FlushStop}
    (h : faults.checkLance call = .error stop) : faults.Gave stop := by
  unfold FlushFaults.checkLance at h
  split at h
  · next error hfault =>
    cases h
    exact Or.inr ⟨call, error, hfault, rfl⟩
  · cases h

theorem FlushFaults.gave_of_stamps {faults : FlushFaults} {chunkIds : List Str} {stop : FlushStop}
    (h : faults.checkStamps chunkIds = .error stop) : faults.Gave stop := by
  induction chunkIds with
  | nil => exact gave_of_sqlite h
  | cons chunkId chunkIds ih =>
      rw [FlushFaults.checkStamps] at h
      cases hstamp : faults.checkSqlite (.stamp chunkId) with
      | error stop' =>
          rw [hstamp] at h
          cases h
          exact gave_of_sqlite hstamp
      | ok =>
          rw [hstamp] at h
          exact ih h

open Durable in
theorem FlushFaults.lanceCommit_mayStop (faults : FlushFaults) (call : LanceCall)
    (f : Vault → Vault) :
    MayStop Halt.asStop faults.Gave (faults.lanceCommit call f) (Durable.commit f) :=
  .check (fun _ => gave_of_lance) (.commit f)

open Durable in
theorem FlushFaults.openOrCreateTable_mayStop (faults : FlushFaults) :
    MayStop Halt.asStop faults.Gave faults.openOrCreateTable Fndr.openOrCreateTable := by
  refine .check (fun _ => gave_of_lance) (.check (fun _ => gave_of_lance) (.get_bind fun vault => ?_))
  split
  · exact .pure ()
  · exact (faults.lanceCommit_mayStop _ _).bind fun _ =>
      (faults.lanceCommit_mayStop _ _).bind fun _ => faults.lanceCommit_mayStop _ _

open Durable in
theorem FlushFaults.commitBatch_mayStop (faults : FlushFaults) (pending : List PendingChunk)
    (vectors : List (List F32)) (nowMs : ℤ) :
    MayStop Halt.asStop faults.Gave (faults.commitBatch pending vectors nowMs)
      (Fndr.commitBatch pending vectors nowMs) := by
  unfold FlushFaults.commitBatch Fndr.commitBatch
  split
  · exact .throw Halt.panic
  · refine (faults.lanceCommit_mayStop _ _).bind fun _ => ?_
    refine .check (fun _ => gave_of_sqlite) (.check (fun _ => gave_of_stamps) ?_)
    exact (MayStop.commit _).bind fun _ => .pure _

open Durable in
/-- **A flush among failing calls does what a flush does, or stops on the way.** It fails as the
    flush would, or with the failure of one of the calls. -/
theorem FlushFaults.flushOnce_mayStop (faults : FlushFaults) (embedder : Embedder) (nowMs : ℤ)
    (scan : Scan) :
    MayStop Halt.asStop faults.Gave (faults.flushOnce embedder nowMs scan)
      (Fndr.flushOnce embedder nowMs scan) := by
  refine .check (fun _ => gave_of_sqlite) (.get_bind fun vault => ?_)
  dsimp only
  split
  · exact .pure _
  · refine (MayStop.lift rfl).bind fun vectors => ?_
    exact faults.openOrCreateTable_mayStop.bind fun _ =>
      faults.commitBatch_mayStop _ vectors nowMs

theorem not_gave_noFlushFaults (stop : FlushStop) : ¬ noFlushFaults.Gave stop := by
  rintro (⟨_, _, h, -⟩ | ⟨_, _, h, -⟩)
  · cases h
  · cases h

end Fndr
