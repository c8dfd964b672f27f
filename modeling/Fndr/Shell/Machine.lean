import Fndr.Shell.AppState
import Mathlib.Logic.Function.Basic

set_option autoImplicit false

/-! # Desktop processes on one machine

A call of `ShellCaptureState::start` is not one step. It looks for a lifecycle, asks for the
instance lock, puts the lock into the state, launches the capture thread and puts the lifecycle into
the state; other calls, of the same process or of another one, go on in between, and a process can
end anywhere. The check does not keep two calls apart, since both can find no lifecycle. The lock
does: whatever the interleaving, a vault has one capture thread at most, and nothing of a process
that is gone keeps the vault locked (`one_worker_per_vault`). -/

namespace Fndr

open Runs Flock

/-! ## Processes -/

/-- Where a call of `start` is that found no lifecycle. -/
inductive StartPhase
  | checked
  /-- The lock is granted and not in the state yet. -/
  | granted (lock : Held ℕ)
  /-- The lock is in the state, and the capture thread is launched next. -/
  | holding
  /-- The capture thread runs, and the lifecycle is not in the state yet. -/
  | launched
  deriving DecidableEq

/-- The launch options of a process do not change, so all its calls ask for the lock on one file. -/
structure DesktopProcess where
  lockFile : ℕ
  state : ShellCaptureState
  starts : List StartPhase
  /-- The capture threads that are alive. -/
  workers : ℕ

/-- A process that has just been launched. -/
def DesktopProcess.fresh (lockFile : ℕ) : DesktopProcess := ⟨lockFile, .ofDefault, [], 0⟩

/-- The steps of `start` and of `shutdown`, and the ends of threads. -/
inductive ProcessStep
  | check
  /-- `opened` is the way to the opened lock file. -/
  | acquire (opened : Except TauriError Unit)
  | store (lock : Held ℕ)
  | launch (result : Except CaptureWorkerStartError Unit) (nowMs : ℕ)
  | keep (nowMs : ℕ)
  /-- The first half of `shutdown`; the thread ends later. -/
  | takeLifecycle
  | endWorker

/-- Show a status. -/
def DesktopProcess.publish (process : DesktopProcess) (status : CaptureRuntimeStatus) :
    DesktopProcess :=
  { process with state := { process.state with status := status } }

/-- A step of one process, with the locks of the machine. A step that is not enabled changes
    nothing. -/
def DesktopProcess.exec (process : DesktopProcess) (locks : Table ℕ) :
    ProcessStep → DesktopProcess × Table ℕ
  | .check =>
      if process.state.lifecycle.isSome then (process, locks)
      else ({ process with starts := .checked :: process.starts }, locks)
  | .acquire opened =>
      if .checked ∈ process.starts then
        let starts := process.starts.erase .checked
        match opened with
        | .error _ => ({ process with starts := starts }, locks)
        | .ok () =>
            match locks.acquire process.lockFile with
            | (none, locks) => ({ process with starts := starts }, locks)
            | (some lock, locks) => ({ process with starts := .granted lock :: starts }, locks)
      else (process, locks)
  | .store lock =>
      if .granted lock ∈ process.starts then
        ({ process with
            state := { process.state with instanceLock := some lock }
            starts := .holding :: process.starts.erase (.granted lock) },
          -- the lock that was there is dropped
          match process.state.instanceLock with
          | some old => locks.close old
          | none => locks)
      else (process, locks)
  | .launch result nowMs =>
      if .holding ∈ process.starts then
        let starts := process.starts.erase .holding
        let process := process.publish ⟨.starting, nowMs, none, none, none⟩
        match result with
        | .error error =>
            ({ process.publish ⟨.blocked, nowMs, none, none, some (startErrorReason error)⟩ with
              starts := starts }, locks)
        | .ok () =>
            ({ process.publish ⟨.running, nowMs, none, none, none⟩ with
              starts := .launched :: starts
              workers := process.workers + 1 }, locks)
      else (process, locks)
  | .keep nowMs =>
      if .launched ∈ process.starts then
        ({ process with
            state := { process.state with lifecycle := some (.started nowMs) }
            starts := process.starts.erase .launched }, locks)
      else (process, locks)
  | .takeLifecycle =>
      ({ process with state := { process.state with lifecycle := none } }, locks)
  | .endWorker => ({ process with workers := process.workers - 1 }, locks)

/-- The lock that a start holds and has not stored. -/
def StartPhase.lock? : StartPhase → Option (Held ℕ)
  | .granted lock => some lock
  | _ => none

/-- The locks a process holds. -/
def DesktopProcess.held (process : DesktopProcess) : List (Held ℕ) :=
  process.state.instanceLock.toList ++ process.starts.filterMap StartPhase.lock?

/-! ## The machine -/

/-- The locks of the machine and its processes. -/
structure Machine where
  locks : Table ℕ
  processes : ℕ → Option DesktopProcess

/-- Nothing runs and nothing is locked. -/
def Machine.booted : Machine := ⟨.empty, fun _ => none⟩

/-- A launch, a step of a process, or the end of one. -/
inductive MachineStep
  | launch (processId lockFile : ℕ)
  | step (processId : ℕ) (step : ProcessStep)
  | exit (processId : ℕ)

/-- The machine after a step. A step that cannot happen leaves it as it is. -/
def Machine.exec (machine : Machine) : MachineStep → Machine
  | .launch processId lockFile =>
      match machine.processes processId with
      | some _ => machine
      | none =>
          { machine with
            processes := Function.update machine.processes processId (some (.fresh lockFile)) }
  | .step processId step =>
      match machine.processes processId with
      | some process =>
          let after := process.exec machine.locks step
          ⟨after.2, Function.update machine.processes processId (some after.1)⟩
      | none => machine
  | .exit processId =>
      match machine.processes processId with
      | some process =>
          -- the kernel closes what the process has open
          ⟨machine.locks.closeAll process.held, Function.update machine.processes processId none⟩
      | none => machine

/-- A vault is captured by one thread at most, which holds its lock, and what is locked is locked by
    a process that is there. -/
structure Machine.Exclusive (machine : Machine) : Prop where
  oneThread : ∀ processId process, machine.processes processId = some process →
    process.workers ≤ 1 ∧ (0 < process.workers →
      ∃ lock ∈ machine.locks.held, process.state.instanceLock = some lock ∧
        lock.file = process.lockFile)
  oneProcess : ∀ p process, machine.processes p = some process →
    ∀ q other, machine.processes q = some other → 0 < process.workers → 0 < other.workers →
      process.lockFile = other.lockFile → p = q
  locked : ∀ file, file ∈ machine.locks.held.map Held.file ↔
    ∃ processId process, machine.processes processId = some process ∧ process.lockFile = file ∧
      process.held ≠ []

/-! ## What a step of a process keeps -/

/-- A process holds one lock at most, on its file, and with it in the state it launches one thread at
    most. -/
structure DesktopProcess.Careful (process : DesktopProcess) (locks : Table ℕ) : Prop where
  locked : ∀ lock ∈ process.held, lock ∈ locks.held ∧ lock.file = process.lockFile
  oneLock : process.held.length ≤ 1
  oneLaunch : process.starts.count .holding + process.workers
    ≤ process.state.instanceLock.toList.length

/-- A step gives up no lock and takes none that somebody holds. -/
structure DesktopProcess.Keeps (process : DesktopProcess) (locks : Table ℕ)
    (after : DesktopProcess × Table ℕ) : Prop where
  lockFile : after.1.lockFile = process.lockFile
  careful : after.1.Careful after.2
  kept : process.held ⊆ after.1.held
  taken : ∀ lock ∈ after.1.held, lock ∈ process.held ∨ lock ∉ locks.held
  table : ∀ lock, lock ∈ after.2.held ↔ lock ∈ locks.held ∨ lock ∈ after.1.held

/-- A step after which the process holds the same locks. -/
theorem DesktopProcess.Careful.same {process : DesktopProcess} {locks : Table ℕ}
    (h : process.Careful locks) {after : DesktopProcess × Table ℕ}
    (hlocks : after.2.held = locks.held) (hfile : after.1.lockFile = process.lockFile)
    (hheld : process.held.Perm after.1.held)
    (hlaunch : after.1.starts.count .holding + after.1.workers
      ≤ after.1.state.instanceLock.toList.length) : process.Keeps locks after where
  lockFile := hfile
  careful := by
    refine ⟨fun lock hlock => ?_, hheld.length_eq ▸ h.oneLock, hlaunch⟩
    rw [hlocks, hfile]
    exact h.locked lock (hheld.mem_iff.2 hlock)
  kept := fun lock hlock => hheld.mem_iff.1 hlock
  taken := fun lock hlock => Or.inl (hheld.mem_iff.2 hlock)
  table lock := by
    rw [hlocks]
    exact ⟨Or.inl, fun hor => hor.elim id (fun hlock => (h.locked lock (hheld.mem_iff.2 hlock)).1)⟩

theorem starts_perm {starts : List StartPhase} {phase : StartPhase} (h : phase ∈ starts) :
    (starts.filterMap StartPhase.lock?).Perm
      (phase.lock?.toList ++ (starts.erase phase).filterMap StartPhase.lock?) := by
  have hperm := (List.perm_cons_erase h).filterMap StartPhase.lock?
  rw [List.filterMap_cons] at hperm
  cases hlock : phase.lock? with
  | none => simpa [hlock] using hperm
  | some lock => simpa [hlock] using hperm

theorem count_starts {starts : List StartPhase} {phase : StartPhase} (h : phase ∈ starts) :
    starts.count .holding = (starts.erase phase).count .holding + [phase].count .holding := by
  have hcount := (List.perm_cons_erase h).count_eq StartPhase.holding
  rw [hcount]
  simp only [List.count_cons, List.count_nil, Nat.zero_add]

/-- A call of `start` goes on, or ends, with the locks it has. -/
theorem DesktopProcess.Careful.proceed {process : DesktopProcess} {locks : Table ℕ}
    (h : process.Careful locks) {phase : StartPhase} (hphase : phase ∈ process.starts)
    (hnone : phase.lock? = none) {after : DesktopProcess × Table ℕ} (next : List StartPhase)
    (hlocks : after.2.held = locks.held) (hfile : after.1.lockFile = process.lockFile)
    (hinstance : after.1.state.instanceLock = process.state.instanceLock)
    (hstarts : after.1.starts = next ++ process.starts.erase phase)
    (hnext : next.filterMap StartPhase.lock? = [])
    (hcount : next.count .holding + after.1.workers ≤ [phase].count .holding + process.workers) :
    process.Keeps locks after := by
  refine h.same hlocks hfile ?_ ?_
  · have hperm := starts_perm hphase
    rw [hnone, Option.toList_none, List.nil_append] at hperm
    rw [DesktopProcess.held, DesktopProcess.held, hinstance, hstarts, List.filterMap_append, hnext,
      List.nil_append]
    exact hperm.append_left _
  · have hlaunch := h.oneLaunch
    rw [count_starts hphase] at hlaunch
    rw [hinstance, hstarts, List.count_append]
    omega

/-- The lock is granted: the process had none. -/
theorem DesktopProcess.Careful.granted {process : DesktopProcess} {locks after : Table ℕ}
    (h : process.Careful locks) (hphase : StartPhase.checked ∈ process.starts) {lock : Held ℕ}
    (hacquire : locks.acquire process.lockFile = (some lock, after)) :
    process.Keeps locks
      ({ process with starts := .granted lock :: process.starts.erase .checked }, after) := by
  obtain ⟨hfree, hfile, hheld⟩ := Table.acquire_some hacquire
  -- whoever is granted the lock held none before
  have hnone : process.held = [] := by
    refine List.eq_nil_iff_forall_not_mem.2 (fun other hother => hfree ?_)
    obtain ⟨hmem, hsame⟩ := h.locked other hother
    exact hsame ▸ List.mem_map_of_mem hmem
  have hinstance : process.state.instanceLock = none := by
    have hleft := (List.append_eq_nil_iff.1 hnone).1
    cases hlock : process.state.instanceLock with
    | none => rfl
    | some other => simp [hlock] at hleft
  have hstarts : (process.starts.erase .checked).filterMap StartPhase.lock? = [] := by
    have hperm := starts_perm hphase
    rw [(List.append_eq_nil_iff.1 hnone).2] at hperm
    exact hperm.nil_eq.symm
  have hafter : DesktopProcess.held
      { process with starts := .granted lock :: process.starts.erase .checked } = [lock] := by
    simp [DesktopProcess.held, hinstance, hstarts, StartPhase.lock?]
  have hlaunch := h.oneLaunch
  rw [count_starts hphase, hinstance] at hlaunch
  refine ⟨rfl, ⟨?_, ?_, ?_⟩, ?_, ?_, ?_⟩
  · intro other hother
    rw [hafter, List.mem_singleton] at hother
    subst hother
    exact ⟨hheld ▸ List.mem_cons_self, hfile⟩
  · rw [hafter]
    rfl
  · simpa [hinstance] using hlaunch
  · rw [hnone]
    exact List.nil_subset _
  · intro other hother
    rw [hafter, List.mem_singleton] at hother
    subst hother
    exact Or.inr (fun hmem => hfree (hfile ▸ List.mem_map_of_mem hmem))
  · intro other
    rw [hafter, hheld, List.mem_cons, List.mem_singleton, or_comm]

/-- The granted lock goes into the state, which had none. -/
theorem DesktopProcess.Careful.store {process : DesktopProcess} {locks : Table ℕ}
    (h : process.Careful locks) {lock : Held ℕ} (hphase : .granted lock ∈ process.starts) :
    process.Keeps locks (process.exec locks (.store lock)) := by
  have hperm := starts_perm hphase
  have hinstance : process.state.instanceLock = none := by
    have hone := h.oneLock
    rw [DesktopProcess.held, List.length_append, hperm.length_eq] at hone
    cases hlock : process.state.instanceLock with
    | none => rfl
    | some other =>
        simp only [hlock, StartPhase.lock?, Option.toList_some, List.length_append,
          List.length_singleton] at hone
        omega
  have hlaunch := h.oneLaunch
  rw [count_starts hphase, hinstance] at hlaunch
  unfold exec
  dsimp only
  rw [if_pos hphase, hinstance]
  refine h.same rfl rfl ?_ ?_
  · have hholding : (StartPhase.holding :: process.starts.erase (.granted lock)).filterMap
        StartPhase.lock? = (process.starts.erase (.granted lock)).filterMap StartPhase.lock? :=
      List.filterMap_cons_none rfl
    rw [DesktopProcess.held, DesktopProcess.held, hinstance, hholding]
    exact hperm
  · simp at hlaunch ⊢
    omega

/-- **What a step of a process keeps.** -/
theorem DesktopProcess.Careful.exec {process : DesktopProcess} {locks : Table ℕ}
    (h : process.Careful locks) (step : ProcessStep) :
    process.Keeps locks (process.exec locks step) := by
  have hsame : process.Keeps locks (process, locks) := h.same rfl rfl (List.Perm.refl _) h.oneLaunch
  cases step with
  | check =>
      unfold DesktopProcess.exec
      dsimp only
      split_ifs
      · exact hsame
      · exact h.same rfl rfl (List.Perm.refl _) (by simpa using h.oneLaunch)
  | acquire opened =>
      unfold DesktopProcess.exec
      dsimp only
      split_ifs with hphase
      · cases opened with
        | error error => exact h.proceed hphase rfl [] rfl rfl rfl rfl rfl (by simp)
        | ok _ =>
            dsimp only
            -- the lock is refused to whoever holds it, so one start at a time gets it
            cases hacquire : locks.acquire process.lockFile with
            | mk lock after =>
                cases lock with
                | none =>
                    have hheld := (Table.acquire_none hacquire).2
                    exact h.proceed hphase rfl [] hheld rfl rfl rfl rfl (by simp)
                | some lock => exact h.granted hphase hacquire
      · exact hsame
  | store lock =>
      by_cases hphase : .granted lock ∈ process.starts
      · exact h.store hphase
      · unfold DesktopProcess.exec
        dsimp only
        rw [if_neg hphase]
        exact hsame
  | launch result nowMs =>
      unfold DesktopProcess.exec
      dsimp only
      split_ifs with hphase
      · cases result with
        | error error =>
            exact h.proceed hphase rfl [] rfl rfl rfl rfl rfl (by simp [DesktopProcess.publish])
        | ok _ =>
            refine h.proceed hphase rfl [.launched] rfl rfl rfl rfl rfl ?_
            -- the start under way becomes the worker
            change 0 + (process.workers + 1) ≤ 1 + process.workers
            omega
      · exact hsame
  | keep nowMs =>
      unfold DesktopProcess.exec
      dsimp only
      split_ifs with hphase
      · exact h.proceed hphase rfl [] rfl rfl rfl rfl rfl (by simp)
      · exact hsame
  | takeLifecycle => exact h.same rfl rfl (List.Perm.refl _) h.oneLaunch
  | endWorker =>
      refine h.same rfl rfl (List.Perm.refl _) ?_
      have hlaunch := h.oneLaunch
      unfold DesktopProcess.exec
      dsimp only
      omega

/-! ## The whole machine -/

/-- Every process is careful, every lock is one of a process that is there, and of only one. -/
structure Machine.Sound (machine : Machine) : Prop where
  careful : ∀ processId process, machine.processes processId = some process →
    process.Careful machine.locks
  owned : ∀ lock ∈ machine.locks.held, ∃ processId process,
    machine.processes processId = some process ∧ lock ∈ process.held
  apart : ∀ p process, machine.processes p = some process →
    ∀ q other, machine.processes q = some other → ∀ lock ∈ process.held, lock ∈ other.held → p = q

theorem Machine.sound_booted : booted.Sound where
  careful _ _ h := by cases h
  owned _ h := by cases h
  apart _ _ h := by cases h

theorem Machine.Sound.launch {machine : Machine} (h : machine.Sound) (processId lockFile : ℕ) :
    (machine.exec (.launch processId lockFile)).Sound := by
  unfold Machine.exec
  dsimp only
  split
  · exact h
  · next hfree =>
    -- the new process holds nothing, the others are as they were
    have hprocesses : ∀ p process, Function.update machine.processes processId
        (some (.fresh lockFile)) p = some process →
        process = .fresh lockFile ∨ machine.processes p = some process := by
      intro p process hp
      by_cases heq : p = processId
      · subst heq
        rw [Function.update_self] at hp
        exact Or.inl (Option.some.inj hp).symm
      · rw [Function.update_of_ne heq] at hp
        exact Or.inr hp
    refine ⟨?_, ?_, ?_⟩
    · intro p process hp
      rcases hprocesses p process hp with rfl | hold
      · exact ⟨nofun, Nat.zero_le 1, le_rfl⟩
      · exact h.careful p process hold
    · intro lock hlock
      obtain ⟨p, process, hp, hheld⟩ := h.owned lock hlock
      have hne : p ≠ processId := by
        rintro rfl
        cases hfree.symm.trans hp
      exact ⟨p, process, (Function.update_of_ne hne ..).trans hp, hheld⟩
    · intro p process hp q other hq lock hlock hother
      rcases hprocesses p process hp with rfl | hp
      · cases hlock
      · rcases hprocesses q other hq with rfl | hq
        · cases hother
        · exact h.apart p process hp q other hq lock hlock hother

theorem Machine.Sound.exit {machine : Machine} (h : machine.Sound) (processId : ℕ) :
    (machine.exec (.exit processId)).Sound := by
  unfold Machine.exec
  dsimp only
  split
  · next gone hgone =>
    -- the processes that are left
    have hprocesses : ∀ p process, Function.update machine.processes processId none p
        = some process → p ≠ processId ∧ machine.processes p = some process := by
      intro p process hp
      by_cases heq : p = processId
      · subst heq
        rw [Function.update_self] at hp
        cases hp
      · rw [Function.update_of_ne heq] at hp
        exact ⟨heq, hp⟩
    refine ⟨?_, ?_, ?_⟩
    · intro p process hp
      obtain ⟨hne, hp⟩ := hprocesses p process hp
      have hcareful := h.careful p process hp
      refine ⟨fun lock hlock => ⟨Table.mem_closeAll.2 ⟨(hcareful.locked lock hlock).1, ?_⟩,
        (hcareful.locked lock hlock).2⟩, hcareful.oneLock, hcareful.oneLaunch⟩
      exact fun hclosed => hne (h.apart p process hp processId gone hgone lock hlock hclosed)
    -- the locks of the one that is gone went with its files
    · intro lock hlock
      obtain ⟨hlock, hkept⟩ := Table.mem_closeAll.1 hlock
      obtain ⟨p, process, hp, hheld⟩ := h.owned lock hlock
      have hne : p ≠ processId := by
        rintro rfl
        cases hgone.symm.trans hp
        exact hkept hheld
      exact ⟨p, process, (Function.update_of_ne hne ..).trans hp, hheld⟩
    · intro p process hp q other hq
      exact h.apart p process (hprocesses p process hp).2 q other (hprocesses q other hq).2
  · exact h

theorem Machine.Sound.step {machine : Machine} (h : machine.Sound) (processId : ℕ)
    (step : ProcessStep) : (machine.exec (.step processId step)).Sound := by
  unfold Machine.exec
  dsimp only
  split
  · next before hbefore =>
    have hkeeps := (h.careful processId before hbefore).exec step
    generalize before.exec machine.locks step = after at hkeeps
    have hprocesses : ∀ p process, Function.update machine.processes processId (some after.1) p
        = some process →
        (p = processId ∧ process = after.1) ∨ (p ≠ processId ∧ machine.processes p = some process) := by
      intro p process hp
      by_cases heq : p = processId
      · subst heq
        rw [Function.update_self] at hp
        exact Or.inl ⟨rfl, (Option.some.inj hp).symm⟩
      · rw [Function.update_of_ne heq] at hp
        exact Or.inr ⟨heq, hp⟩
    -- another process does not hold a lock that the step took
    have hothers : ∀ p process, p ≠ processId → machine.processes p = some process →
        ∀ lock ∈ process.held, lock ∉ after.1.held := by
      intro p process hne hp lock hlock hafter
      rcases hkeeps.taken lock hafter with hold | hnew
      · exact hne (h.apart p process hp processId before hbefore lock hlock hold)
      · exact hnew ((h.careful p process hp).locked lock hlock).1
    refine ⟨?_, ?_, ?_⟩
    · intro p process hp
      rcases hprocesses p process hp with ⟨-, rfl⟩ | ⟨-, hp⟩
      · exact hkeeps.careful
      · have hcareful := h.careful p process hp
        refine ⟨fun lock hlock => ⟨(hkeeps.table lock).2 (Or.inl (hcareful.locked lock hlock).1),
          (hcareful.locked lock hlock).2⟩, hcareful.oneLock, hcareful.oneLaunch⟩
    · intro lock hlock
      rcases (hkeeps.table lock).1 hlock with hold | hnew
      · obtain ⟨p, process, hp, hheld⟩ := h.owned lock hold
        by_cases heq : p = processId
        · subst heq
          cases hbefore.symm.trans hp
          exact ⟨p, after.1, Function.update_self .., hkeeps.kept hheld⟩
        · exact ⟨p, process, (Function.update_of_ne heq ..).trans hp, hheld⟩
      · exact ⟨processId, after.1, Function.update_self .., hnew⟩
    · intro p process hp q other hq lock hlock hother
      rcases hprocesses p process hp with ⟨rfl, rfl⟩ | ⟨hne, hp'⟩
      · rcases hprocesses q other hq with ⟨rfl, -⟩ | ⟨hne, hq'⟩
        · rfl
        · exact absurd hlock (hothers q other hne hq' lock hother)
      · rcases hprocesses q other hq with ⟨rfl, rfl⟩ | ⟨-, hq'⟩
        · exact absurd hother (hothers p process hne hp' lock hlock)
        · exact h.apart p process hp' q other hq' lock hlock hother
  · exact h

theorem Machine.Sound.exec {machine : Machine} (h : machine.Sound) (step : MachineStep) :
    (machine.exec step).Sound := by
  cases step with
  | launch processId lockFile => exact h.launch processId lockFile
  | step processId step => exact h.step processId step
  | exit processId => exact h.exit processId

/-- A thread runs under the lock in the state. -/
theorem DesktopProcess.Careful.lock_of_worker {process : DesktopProcess} {locks : Table ℕ}
    (h : process.Careful locks) (hworker : 0 < process.workers) :
    ∃ lock ∈ process.held, process.state.instanceLock = some lock := by
  cases hlock : process.state.instanceLock with
  | none =>
      have hlaunch := h.oneLaunch
      rw [hlock, Option.toList_none, List.length_nil] at hlaunch
      omega
  | some lock =>
      refine ⟨lock, ?_, rfl⟩
      rw [DesktopProcess.held, hlock]
      exact List.mem_append_left _ List.mem_cons_self

theorem Machine.Sound.exclusive {machine : Machine} (h : machine.Sound) : machine.Exclusive where
  oneThread processId process hprocess := by
    have hcareful := h.careful processId process hprocess
    have hlaunch := hcareful.oneLaunch
    refine ⟨?_, fun hworker => ?_⟩
    · have hone : process.state.instanceLock.toList.length ≤ 1 := by
        cases process.state.instanceLock <;> simp
      omega
    · obtain ⟨lock, hlock, hinstance⟩ := hcareful.lock_of_worker hworker
      exact ⟨lock, (hcareful.locked lock hlock).1, hinstance, (hcareful.locked lock hlock).2⟩
  oneProcess p process hp q other hq hworker hother hfile := by
    have hcareful := h.careful p process hp
    have hcareful' := h.careful q other hq
    obtain ⟨lock, hlock, -⟩ := hcareful.lock_of_worker hworker
    obtain ⟨lock', hlock', -⟩ := hcareful'.lock_of_worker hother
    obtain ⟨hmem, hlockFile⟩ := hcareful.locked lock hlock
    obtain ⟨hmem', hlockFile'⟩ := hcareful'.locked lock' hlock'
    -- a file has one lock
    obtain rfl : lock = lock' :=
      Table.eq_of_file hmem hmem' (hlockFile.trans (hfile.trans hlockFile'.symm))
    exact h.apart p process hp q other hq lock hlock hlock'
  locked file := by
    constructor
    · intro hfile
      obtain ⟨lock, hlock, rfl⟩ := List.mem_map.1 hfile
      obtain ⟨processId, process, hprocess, hheld⟩ := h.owned lock hlock
      exact ⟨processId, process, hprocess,
        ((h.careful processId process hprocess).locked lock hheld).2.symm,
        List.ne_nil_of_mem hheld⟩
    · rintro ⟨processId, process, hprocess, rfl, hne⟩
      obtain ⟨lock, hlock⟩ := List.exists_mem_of_ne_nil _ hne
      obtain ⟨hmem, hfile⟩ := (h.careful processId process hprocess).locked lock hlock
      exact hfile ▸ List.mem_map_of_mem hmem

theorem Desktop.takeLock_acquire (desktop : Desktop) (file : ℕ) :
    (∃ locks after, desktop.locks.acquire file = (none, locks) ∧
      desktop.takeLock file = (.error wouldBlock, after) ∧ after.state = desktop.state ∧
      after.locks = locks) ∨
    (∃ lock locks after, desktop.locks.acquire file = (some lock, locks) ∧
      desktop.takeLock file = (.ok (), after) ∧
      after.state = { desktop.state with instanceLock := some lock } ∧
      after.locks = match desktop.state.instanceLock with
        | some old => locks.close old
        | none => locks) := by
  unfold Desktop.takeLock
  split
  · next hacquire => exact Or.inl ⟨_, _, hacquire, rfl, rfl, rfl⟩
  · next hacquire => exact Or.inr ⟨_, _, _, hacquire, rfl, rfl, rfl⟩

/-- **A call that nothing interrupts is `Desktop.start`.** -/
theorem DesktopProcess.exec_start {process : DesktopProcess} {desktop : Desktop}
    {attempt : StartAttempt} (hstate : process.state = desktop.state) (hstarts : process.starts = [])
    (hidle : desktop.state.lifecycle = none) (hfile : attempt.lockFile = some process.lockFile) :
    ∃ steps : List ProcessStep,
      let after := steps.foldl (fun s step => s.1.exec s.2 step) (process, desktop.locks)
      after.1.state = (desktop.start attempt).2.state ∧ after.1.starts = [] ∧
        after.2.held = (desktop.start attempt).2.locks.held := by
  obtain ⟨dataDir, -, hstart⟩ := Desktop.start_of_some hidle hfile
  have hcheck : process.exec desktop.locks .check
      = ({ process with starts := [.checked] }, desktop.locks) := by
    simp [DesktopProcess.exec, hstate, hidle, hstarts]
  rw [hstart]
  rcases desktop.takeLock_acquire process.lockFile with
    ⟨locks, after, hacquire, htake, hafter, hlocks⟩ |
    ⟨lock, locks, after, hacquire, htake, hafter, hlocks⟩
  · refine ⟨[.check, .acquire (.ok ())], ?_⟩
    rw [htake, List.foldl_cons, hcheck]
    simp [DesktopProcess.exec, hacquire, hstate, hafter, hlocks]
  · let config := workerConfig attempt.processId dataDir attempt.options
    refine ⟨[.check, .acquire (.ok ()), .store lock,
      .launch (attempt.startWorker config) attempt.nowMs, .keep attempt.nowMs], ?_⟩
    rw [htake, List.foldl_cons, hcheck]
    cases hworker : attempt.startWorker config with
    | error error =>
        simp [DesktopProcess.exec, DesktopProcess.publish, hacquire, hstate, hafter, hlocks,
          Desktop.launch, Desktop.publish, hworker, config]
    | ok _ =>
        simp [DesktopProcess.exec, DesktopProcess.publish, hacquire, hstate, hafter, hlocks,
          Desktop.launch, Desktop.publish, hworker, config]

/-- **One capture thread a vault.** However the calls of `start` of any number of processes are
    interleaved with each other, with shutdowns and with the ends of threads and processes, a vault
    is captured by one thread at most, which holds its lock; and a vault is locked exactly while a
    process that holds its lock is there, so a process that ended, also by a crash, keeps nobody
    from capturing. -/
theorem one_worker_per_vault (steps : List MachineStep) :
    AllStates Machine.exec Machine.Exclusive .booted steps :=
  (AllStates.of_step (fun _ step h => h.exec step) Machine.sound_booted).imp
    (fun _ h => h.exclusive)

end Fndr
