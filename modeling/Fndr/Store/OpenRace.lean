import Fndr.Library.Runs
import Fndr.Store.Migrations
import Mathlib.Logic.Function.Basic

set_option autoImplicit false

/-! # Opening one vault from several processes

The desktop app and the MCP host both open the file with `Store::open`, and nothing keeps them from
doing so at the same time. `apply` reads the version outside of any transaction, so when a migration
gets its turn another process may have run it already. That is harmless because every migration
creates something: SQLite refuses it on a schema that has it, and its transaction leaves nothing.
Whatever the interleaving, and whatever fails or is killed, every migration is committed once, on the
version it is for; a store is open on the last version only; and an open that lost the race can be
tried again (`opens_race`). -/

namespace Fndr

open Ddl Runs

/-! ## Opens between their statements -/

/-- Where an open stands. -/
inductive OpenPhase
  /-- The loop of `apply` has these turns left. -/
  | migrating (rest : List (List Ddl.Statement × ℕ))
  | opened
  | failed (error : StoreError)

/-- An open with nothing left to apply is done. -/
def OpenPhase.ofRest : List (List Ddl.Statement × ℕ) → OpenPhase
  | [] => .opened
  | turn :: rest => .migrating (turn :: rest)

/-- `Store::init` up to the loop of `apply`: the migrations that the version asks for. -/
def pendingMigrations (faults : MigrationFaults) (disk : Disk) :
    Except StoreError (List (List Ddl.Statement × ℕ)) := do
  faults.check .journalMode
  faults.check .foreignKeys
  faults.check .readVersion
  if disk.userVersion > schemaVersion then
    throw (.schemaTooNew disk.userVersion schemaVersion)
  else return MIGRATIONS.zipIdx.drop (asUsize disk.userVersion)

/-- What an open reads of the file's version before its loop. -/
def OpenPhase.begin (faults : MigrationFaults) (disk : Disk) : OpenPhase :=
  match pendingMigrations faults disk with
  | .ok rest => .ofRest rest
  | .error error => .failed error

/-- One turn of the loop. A transaction that writes is alone until it commits. -/
def OpenPhase.turn (faults : MigrationFaults) (disk : Disk) : OpenPhase → OpenPhase × Disk
  | .migrating ((sql, index) :: rest) =>
      match migrate faults sql index disk with
      | .ok after => (.ofRest rest, after)
      | .error error => (.failed error, disk)
  | phase => (phase, disk)

/-- What an open, or the store it returned, does next. -/
inductive OpenStep
  | begin (faults : MigrationFaults)
  | turn (faults : MigrationFaults)
  /-- What an open store does to the rows. -/
  | write (change : Db → Db)
  /-- The store is dropped, or its process is killed. -/
  | close

/-- One vault file, and the handles on it. -/
structure OpenRace where
  disk : Disk
  opens : ℕ → Option OpenPhase

/-- The file as it stands, before anyone opens it. -/
def OpenRace.start (disk : Disk) : OpenRace := ⟨disk, fun _ => none⟩

/-- A step of one handle. A step that is not enabled changes nothing. -/
def OpenRace.exec (race : OpenRace) : ℕ × OpenStep → OpenRace
  | (handle, step) =>
      match race.opens handle, step with
      | none, .begin faults =>
          { race with
            opens := Function.update race.opens handle (some (.begin faults race.disk)) }
      | some phase, .turn faults =>
          let after := phase.turn faults race.disk
          ⟨after.2, Function.update race.opens handle (some after.1)⟩
      -- writes go through an open store only
      | some .opened, .write change =>
          { race with disk := { race.disk with db := change race.disk.db } }
      | some _, .close => { race with opens := Function.update race.opens handle none }
      | _, _ => race

/-! ## No migration runs twice -/

/-- Each migration creates a table or an index. -/
theorem migrations_create {w : ℕ} (hw : w < MIGRATIONS.length) :
    ∃ name, ∃ statement ∈ MIGRATIONS[w], statement.Creates name := by
  match w, hw with
  | 0, _ => exact ⟨_, _, List.mem_cons_self, _, rfl, rfl⟩
  | 1, _ => exact ⟨_, _, List.mem_cons_of_mem _ List.mem_cons_self, _, rfl, rfl⟩
  | 2, _ =>
      exact ⟨_, _, List.mem_cons_of_mem _ (List.mem_cons_of_mem _ List.mem_cons_self), _, rfl, rfl⟩
  | 3, _ => exact ⟨_, _, List.mem_cons_self, _, rfl, rfl⟩
  | 4, _ => exact ⟨_, _, List.mem_cons_self, _, rfl, rfl⟩
  | 5, _ => exact ⟨_, _, List.mem_cons_self, _, rfl, rfl⟩

variable {later : List (List Ddl.Statement)}

/-- A migration is refused on every version that has it. -/
theorem Disk.AtVersion.refused {disk : Disk} {v w : ℕ} (h : disk.AtVersion later w) (hvw : v < w)
    (hv : v < MIGRATIONS.length) (faults : MigrationFaults) :
    ∃ error, Fndr.migrate faults MIGRATIONS[v] v disk = .error error := by
  have hscripts : ((MIGRATIONS ++ later).take w).flatten
      = ((MIGRATIONS ++ later).take v).flatten ++
        (MIGRATIONS[v] ++ (((MIGRATIONS ++ later).take w).drop (v + 1)).flatten) := by
    rw [← List.append_assoc, ← scripts_succ hv, ← List.flatten_append]
    have htake : (MIGRATIONS ++ later).take (v + 1)
        = ((MIGRATIONS ++ later).take w).take (v + 1) := by
      rw [List.take_take, min_eq_left hvw]
    rw [htake, List.take_append_drop]
  have hschema := h.schema
  rw [hscripts] at hschema
  obtain ⟨before, -, hrest⟩ := execAll_beginning hschema
  obtain ⟨mid, hmid, hmore⟩ := execAll_beginning hrest
  obtain ⟨name, hcreates⟩ := migrations_create hv
  obtain ⟨message, hrefused⟩ := execAll_again hcreates hmid hmore
  cases hmigrate : Fndr.migrate faults MIGRATIONS[v] v disk with
  | error error => exact ⟨error, rfl⟩
  | ok after =>
      have hran := (migrate_ok hmigrate).2.1
      rw [hrefused] at hran
      cases hran

/-! ## What every handle knows -/

/-- What a handle has to do fits the version, which others may have moved on. -/
def OpenPhase.Fits (w : ℕ) : OpenPhase → Prop
  | .migrating rest => w ≤ MIGRATIONS.length ∧
      ∃ v ≤ w, v < MIGRATIONS.length ∧ rest = MIGRATIONS.zipIdx.drop v
  | .opened => w = MIGRATIONS.length
  | .failed _ => True

/-- The file is at version `w`, and no open that runs has passed it by. -/
structure OpenRace.Sound (later : List (List Ddl.Statement)) (race : OpenRace) (w : ℕ) : Prop where
  atVersion : race.disk.AtVersion later w
  fits : ∀ handle phase, race.opens handle = some phase → phase.Fits w

theorem OpenPhase.fits_ofRest {w : ℕ} (hw : w ≤ MIGRATIONS.length) :
    (OpenPhase.ofRest (MIGRATIONS.zipIdx.drop w)).Fits w := by
  rcases hw.lt_or_eq with hlt | rfl
  · rw [migrations_drop hlt]
    exact ⟨hw, w, le_rfl, hlt, (migrations_drop hlt).symm⟩
  · exact rfl

theorem pendingMigrations_eq_ok {faults : MigrationFaults} {disk : Disk} {w : ℕ}
    {rest : List (List Ddl.Statement × ℕ)} (hdisk : disk.AtVersion later w)
    (h : pendingMigrations faults disk = .ok rest) :
    w ≤ MIGRATIONS.length ∧ rest = MIGRATIONS.zipIdx.drop w := by
  have hread := (Faults.check_bind_eq_ok.1 (Faults.check_bind_eq_ok.1
    (Faults.check_bind_eq_ok.1 h).2).2).2
  split at hread
  · cases hread
  · next hknown =>
    have hle : disk.userVersion ≤ schemaVersion := by omega
    have hw : w ≤ MIGRATIONS.length := by
      rw [hdisk.version] at hle
      exact Int.ofNat_le.1 hle
    cases hread
    refine ⟨hw, ?_⟩
    rw [asUsize_of_nonneg (by rw [hdisk.version]; omega) hle, hdisk.version, Int.toNat_natCast]

theorem OpenPhase.fits_begin {disk : Disk} {w : ℕ} (h : disk.AtVersion later w)
    (faults : MigrationFaults) : (OpenPhase.begin faults disk).Fits w := by
  unfold OpenPhase.begin
  split
  · next rest hrest =>
    obtain ⟨hw, rfl⟩ := pendingMigrations_eq_ok h hrest
    exact fits_ofRest hw
  · exact trivial

/-- A version that others reach is fine with a handle that is not open yet. -/
theorem OpenPhase.Fits.succ {w : ℕ} {phase : OpenPhase} (h : phase.Fits w)
    (hw : w < MIGRATIONS.length) : phase.Fits (w + 1) := by
  cases phase with
  | migrating rest =>
      obtain ⟨-, v, hvw, hv, hrest⟩ := h
      exact ⟨hw, v, hvw.trans (Nat.le_succ w), hv, hrest⟩
  | opened => exact absurd h hw.ne
  | failed => exact trivial

/-- A turn commits the migration that is due, or changes nothing. -/
theorem OpenPhase.turn_cases {disk : Disk} {w : ℕ} {phase : OpenPhase}
    (h : disk.AtVersion later w) (hphase : phase.Fits w) (faults : MigrationFaults) :
    ((phase.turn faults disk).2 = disk ∧ (phase.turn faults disk).1.Fits w) ∨
      ∃ hw : w < MIGRATIONS.length,
        migrate faults MIGRATIONS[w] w disk = .ok (phase.turn faults disk).2 ∧
          (phase.turn faults disk).1.Fits (w + 1) := by
  cases phase with
  | opened => exact Or.inl ⟨rfl, hphase⟩
  | failed => exact Or.inl ⟨rfl, trivial⟩
  | migrating rest =>
      obtain ⟨-, v, hvw, hv, rfl⟩ := hphase
      rw [migrations_drop hv]
      unfold OpenPhase.turn
      dsimp only
      rcases hvw.lt_or_eq with hbehind | rfl
      · obtain ⟨error, herror⟩ := h.refused hbehind hv faults
        rw [herror]
        exact Or.inl ⟨rfl, trivial⟩
      · cases hmigrate : migrate faults MIGRATIONS[v] v disk with
        | error error => exact Or.inl ⟨rfl, trivial⟩
        | ok after => exact Or.inr ⟨hv, hmigrate, fits_ofRest hv⟩

/-! ## Every step -/

/-- A step leaves the file, or writes rows through an open store, or commits the migration that is
    due. -/
def OpenRace.Orderly (later : List (List Ddl.Statement)) (race : OpenRace)
    (step : ℕ × OpenStep) : Prop :=
  (race.exec step).disk = race.disk ∨
    (∃ change, step.2 = .write change ∧ race.opens step.1 = some .opened) ∨
    ∃ faults w, ∃ hw : w < MIGRATIONS.length, race.disk.AtVersion later w ∧
      migrate faults MIGRATIONS[w] w race.disk = .ok (race.exec step).disk

theorem OpenRace.Sound.withOpen {race : OpenRace} {w v : ℕ} (h : race.Sound later w) {disk : Disk}
    (hdisk : disk.AtVersion later v) (handle : ℕ) {next : Option OpenPhase}
    (hothers : ∀ phase : OpenPhase, phase.Fits w → phase.Fits v)
    (hnext : ∀ phase ∈ next, phase.Fits v) :
    OpenRace.Sound later ⟨disk, Function.update race.opens handle next⟩ v := by
  refine ⟨hdisk, fun other phase hother => ?_⟩
  dsimp only at hother
  by_cases hsame : other = handle
  · subst hsame
    rw [Function.update_self] at hother
    exact hnext phase hother
  · rw [Function.update_of_ne hsame] at hother
    exact hothers phase (h.fits other phase hother)

/-- Versions only go up, one migration at a time. -/
theorem OpenRace.Sound.exec {race : OpenRace} {w : ℕ} (h : race.Sound later w)
    (step : ℕ × OpenStep) :
    (∃ v, (race.exec step).Sound later v) ∧ race.Orderly later step := by
  obtain ⟨handle, step⟩ := step
  unfold OpenRace.Orderly OpenRace.exec
  dsimp only
  split
  · next faults _ =>
    refine ⟨⟨w, h.withOpen h.atVersion handle (fun _ => id) ?_⟩, Or.inl rfl⟩
    intro phase hphase
    cases hphase
    exact OpenPhase.fits_begin h.atVersion faults
  · next phase faults hphase =>
    rcases OpenPhase.turn_cases h.atVersion (h.fits handle phase hphase) faults with
      ⟨hsame, hfits⟩ | ⟨hw, hmigrate, hfits⟩
    · have hdisk : (phase.turn faults race.disk).2.AtVersion later w := by
        rw [hsame]
        exact h.atVersion
      refine ⟨⟨w, h.withOpen hdisk handle (fun _ => id) ?_⟩, Or.inl hsame⟩
      intro next hnext
      cases hnext
      exact hfits
    · -- the version goes up by one, and no other open has passed it
      refine ⟨⟨w + 1, h.withOpen (h.atVersion.migrate hw hmigrate) handle
        (fun _ hother => hother.succ hw) ?_⟩, Or.inr (Or.inr ⟨faults, w, hw, h.atVersion, hmigrate⟩)⟩
      intro next hnext
      cases hnext
      exact hfits
  · next change hopen =>
    refine ⟨⟨w, ⟨h.atVersion.version, h.atVersion.known, h.atVersion.schema⟩, h.fits⟩, ?_⟩
    exact Or.inr (Or.inl ⟨change, rfl, hopen⟩)
  · next phase hphase =>
    exact ⟨⟨w, h.withOpen h.atVersion handle (fun _ => id) nofun⟩, Or.inl rfl⟩
  · exact ⟨⟨w, h⟩, Or.inl rfl⟩

/-! ## An open on its own -/

/-- The state of a handle after the loop has run. -/
def OpenPhase.ofResult : Except StoreError Unit → OpenPhase
  | .ok () => .opened
  | .error error => .failed error

theorem OpenRace.exec_turn {race : OpenRace} {handle : ℕ} {phase : OpenPhase}
    (hphase : race.opens handle = some phase) (faults : MigrationFaults) :
    race.exec (handle, .turn faults) = ⟨(phase.turn faults race.disk).2,
      Function.update race.opens handle (some (phase.turn faults race.disk).1)⟩ := by
  unfold OpenRace.exec
  dsimp only
  rw [hphase]

/-- Turns of a handle that has none left change nothing. -/
theorem OpenRace.turns_ofResult {race : OpenRace} {handle : ℕ} (result : Except StoreError Unit)
    (hphase : race.opens handle = some (.ofResult result)) (faults : MigrationFaults) (n : ℕ) :
    final OpenRace.exec race (List.replicate n (handle, .turn faults)) = race := by
  have hexec : race.exec (handle, .turn faults) = race := by
    rw [OpenRace.exec_turn hphase]
    cases result with
    | ok done | error error =>
        dsimp only [OpenPhase.ofResult, OpenPhase.turn] at hphase ⊢
        rw [← hphase, Function.update_eq_self]
  induction n with
  | zero => rfl
  | succ n ih =>
      rw [List.replicate_succ]
      exact (congrArg (fun next => final OpenRace.exec next _) hexec).trans ih

theorem applyEach_of_error {faults : MigrationFaults} {sql : List Ddl.Statement} {index : ℕ}
    {rest : List (List Ddl.Statement × ℕ)} {disk : Disk} {error : StoreError}
    (h : migrate faults sql index disk = .error error) :
    applyEach faults ((sql, index) :: rest) disk = (.error error, []) := by
  rw [applyEach, Durable.get_bind_run, h]
  rfl

theorem applyEach_of_ok {faults : MigrationFaults} {sql : List Ddl.Statement} {index : ℕ}
    {rest : List (List Ddl.Statement × ℕ)} {disk after : Disk}
    (h : migrate faults sql index disk = .ok after) :
    applyEach faults ((sql, index) :: rest) disk
      = ((applyEach faults rest after).1, after :: (applyEach faults rest after).2) := by
  rw [applyEach, Durable.get_bind_run, h]
  rfl

/-- With nobody in between, the turns of a handle are the loop of `apply`. -/
theorem OpenRace.turns_alone {race : OpenRace} {handle : ℕ}
    {rest : List (List Ddl.Statement × ℕ)}
    (hphase : race.opens handle = some (.ofRest rest)) (faults : MigrationFaults) :
    final OpenRace.exec race (List.replicate rest.length (handle, .turn faults))
      = ⟨(applyEach faults rest).final race.disk, Function.update race.opens handle
          (some (.ofResult (applyEach faults rest race.disk).1))⟩ := by
  induction rest generalizing race with
  | nil =>
      have hopened : race.opens handle = some .opened := hphase
      have hself : Function.update race.opens handle (some .opened) = race.opens := by
        rw [← hopened, Function.update_eq_self]
      exact congrArg (OpenRace.mk race.disk) hself.symm
  | cons turn rest ih =>
      obtain ⟨sql, index⟩ := turn
      rw [List.length_cons, List.replicate_succ, final, List.foldl_cons, ← final,
        race.exec_turn hphase faults]
      unfold OpenPhase.ofRest OpenPhase.turn
      dsimp only
      cases hmigrate : migrate faults sql index race.disk with
      | error error =>
          rw [Durable.final, applyEach_of_error hmigrate]
          exact turns_ofResult (.error error) (Function.update_self ..) faults _
      | ok after =>
          rw [Durable.final, applyEach_of_ok hmigrate, List.getLastD_cons]
          refine (ih (Function.update_self ..)).trans ?_
          rw [Function.update_idem]
          rfl

theorem OpenPhase.begin_noFaults {disk : Disk} {w : ℕ} (h : disk.AtVersion later w)
    (hw : w ≤ MIGRATIONS.length) :
    OpenPhase.begin noMigrationFaults disk = .ofRest (MIGRATIONS.zipIdx.drop w) := by
  have hle : disk.userVersion ≤ schemaVersion := by
    rw [h.version]
    exact Int.ofNat_le.2 hw
  have hread : pendingMigrations noMigrationFaults disk = .ok (MIGRATIONS.zipIdx.drop w) := by
    refine Faults.check_bind_eq_ok.2 ⟨rfl, Faults.check_bind_eq_ok.2 ⟨rfl,
      Faults.check_bind_eq_ok.2 ⟨rfl, ?_⟩⟩⟩
    rw [if_neg (by omega), asUsize_of_nonneg (by rw [h.version]; omega) hle, h.version,
      Int.toNat_natCast]
    rfl
  rw [begin, hread]

/-- From every version the list knows, an open on its own gets through. -/
theorem OpenRace.open_alone {race : OpenRace} {handle w : ℕ} (hfree : race.opens handle = none)
    (h : race.disk.AtVersion later w) (hw : w ≤ MIGRATIONS.length) :
    (final OpenRace.exec race ((handle, .begin noMigrationFaults) ::
      List.replicate (MIGRATIONS.length - w) (handle, .turn noMigrationFaults))).opens handle
        = some .opened := by
  have hbegin : race.exec (handle, .begin noMigrationFaults) = ⟨race.disk,
      Function.update race.opens handle (some (.ofRest (MIGRATIONS.zipIdx.drop w)))⟩ := by
    unfold OpenRace.exec
    dsimp only
    rw [hfree, ← OpenPhase.begin_noFaults h hw]
  have hlength : MIGRATIONS.length - w = (MIGRATIONS.zipIdx.drop w).length := by
    rw [List.length_drop, List.length_zipIdx]
  have hdone := applyEach_noFaults (MIGRATIONS.length - w) w (by omega) h
  rw [final, List.foldl_cons, ← final, hbegin, hlength,
    OpenRace.turns_alone (Function.update_self ..)]
  dsimp only
  rw [Function.update_self, hdone]
  rfl

/-- What holds between the steps: the file is at some version, a store is open on the last one only,
    and where the version is not too new an open gets through once nobody is in between. -/
structure OpenRace.Safe (later : List (List Ddl.Statement)) (race : OpenRace) : Prop where
  atVersion : ∃ w, race.disk.AtVersion later w
  opened : ∀ handle, race.opens handle = some .opened →
    race.disk.AtVersion later MIGRATIONS.length
  retries : race.disk.userVersion ≤ schemaVersion → ∀ handle, race.opens handle = none →
    ∃ turns, (final OpenRace.exec race ((handle, .begin noMigrationFaults) ::
      List.replicate turns (handle, .turn noMigrationFaults))).opens handle = some .opened

theorem OpenRace.Sound.safe {race : OpenRace} {w : ℕ} (h : race.Sound later w) :
    race.Safe later := by
  refine ⟨⟨w, h.atVersion⟩, fun handle hopened => ?_, fun hknown handle hfree => ?_⟩
  · have hlast : w = MIGRATIONS.length := h.fits handle .opened hopened
    rw [← hlast]
    exact h.atVersion
  · rw [h.atVersion.version] at hknown
    exact ⟨_, open_alone hfree h.atVersion (Int.ofNat_le.1 hknown)⟩

/-- **Racing opens do no harm.** From any version on, of this binary or a newer one, however any
    number of opens, writes of open stores, failures and kills interleave: in every state the file is
    at a version, stores are open on the last version only, and an open can be tried again; and
    every step leaves the file, or writes rows through an open store, or commits the migration that
    is due. -/
theorem opens_race {disk : Disk} {w : ℕ} (h : disk.AtVersion later w)
    (steps : List (ℕ × OpenStep)) :
    AllStates OpenRace.exec (OpenRace.Safe later) (OpenRace.start disk) steps ∧
      StepsMeet OpenRace.exec (OpenRace.Orderly later) (OpenRace.start disk) steps := by
  have hsound : AllStates OpenRace.exec (fun race => ∃ v, race.Sound later v)
      (OpenRace.start disk) steps :=
    AllStates.of_step (fun _ step ⟨_, hv⟩ => (hv.exec step).1) ⟨w, h, nofun⟩
  exact ⟨hsound.imp (fun _ ⟨_, hv⟩ => hv.safe),
    StepsMeet.of_allStates (fun _ step ⟨_, hv⟩ => (hv.exec step).2) hsound⟩

/-- Two processes open a new vault: both read version 0, and the second is refused. -/
def twoOpens : List (ℕ × OpenStep) :=
  [(0, .begin noMigrationFaults), (1, .begin noMigrationFaults), (0, .turn noMigrationFaults),
    (1, .turn noMigrationFaults)]

theorem opens_race_twoOpens :
    (final OpenRace.exec (OpenRace.start Disk.fresh) twoOpens).Safe [] ∧
      (final OpenRace.exec (OpenRace.start Disk.fresh) twoOpens).disk.userVersion = 1 ∧
      (final OpenRace.exec (OpenRace.start Disk.fresh) twoOpens).opens 1
        = some (.failed (.sqlite ⟨"table memory_records already exists".toList⟩)) :=
  ⟨(opens_race Disk.fresh_atVersion twoOpens).1.final, by decide +kernel, rfl⟩

end Fndr
