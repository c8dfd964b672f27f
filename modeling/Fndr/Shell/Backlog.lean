import Fndr.Shell.FlushIsolation

set_option autoImplicit false

/-! # The index keeps up

A capture adds one chunk to the queue at most, a flush takes `FLUSH_BATCH_SIZE` of them, and between
two flushes there is room for the ticks of one interval only. With ticks that are some time apart and
flushes that succeed the queue never grows beyond those, and every tick that is due empties it
(`index_keeps_up`). The worker keeps its ticks `MIN_CAPTURE_INTERVAL` apart. -/

namespace Fndr

open RustStd Rows Runs

/-! ## The length of the queue -/

theorem Store.length_queue (store : Store) :
    store.db.queue.length = (store.db.chunks.map Chunk.flushedAtMs).count 0 := by
  have hpending : store.db.pendingRows.length
      = store.db.joined.countP (fun row => row.1.flushedAtMs == 0) := by
    rw [Db.pendingRows, List.countP_eq_length_filter]
  rw [Db.queue, List.length_map, hpending, ← store.joined_fst, List.map_map, List.count_eq_countP,
    List.countP_map]
  rfl

/-- A working embedder's flush takes one batch off the queue. -/
theorem flushOnce_queue {embedder : Embedder} (h : embedder.Complete) {nowMs : ℤ}
    (hnow : nowMs ≠ 0) (scan : Scan) (v : Vault) :
    (∃ report, (flushOnce embedder nowMs scan v).1 = .ok report) ∧
      ((flushOnce embedder nowMs scan).final v).store.db.queue.length
        = v.store.db.queue.length - FLUSH_BATCH_SIZE := by
  by_cases hbatch : v.store.db.pendingChunks scan FLUSH_BATCH_SIZE = []
  · have hrun : flushOnce embedder nowMs scan v = (.ok ⟨0, false⟩, []) := by
      rw [flushOnce_run embedder nowMs scan v rfl, if_pos hbatch]
      rfl
    have hnil := (v.store.pendingChunks_eq_nil_iff scan).1 hbatch
    rw [Durable.final, hrun]
    refine ⟨⟨_, rfl⟩, ?_⟩
    show v.store.db.queue.length = _
    rw [hnil]
    rfl
  · obtain ⟨opened, added, stamped, hcommitted, hrun⟩ := h.flushOnce nowMs scan v rfl hbatch
    have hfinal : (flushOnce embedder nowMs scan).final v = stamped := by
      rw [Durable.final, hrun]
      exact Durable.getLastD_append opened [added, stamped] v
    obtain ⟨-, -, hqueue⟩ := hcommitted.moved hnow
    have hlength := v.store.length_pendingChunks scan
    rw [hfinal, hrun]
    exact ⟨⟨_, rfl⟩, by omega⟩

section Ticks

variable [UnicodeTables] [UrlCrate] {F : Type} [ScoreArith F]

theorem PersistCall.length_queue (store : Store) (call : PersistCall) :
    (PersistCall.exec F store call).db.queue.length ≤ store.db.queue.length + 1 := by
  have heffect := call.effect F store
  rw [Store.length_queue, Store.length_queue]
  generalize PersistCall.exec F store call = store' at heffect
  generalize call.result F store = result at heffect
  cases heffect with
  | failed error => exact Nat.le_succ _
  | skipped reason _ => exact Nat.le_succ _
  | stored text count store' _ _ _ _ hdb =>
      rw [hdb]
      show ((store.db.chunks ++ [_]).map Chunk.flushedAtMs).count 0 ≤ _
      rw [List.map_append, List.count_append]
      exact Nat.le_refl _
  | merged text count candidate store' _ _ _ hdb =>
      have hflags : store'.db.chunks.map Chunk.flushedAtMs
          = store.db.chunks.map Chunk.flushedAtMs := by
        rw [hdb]
        refine map_updateWhere (fun c _ => ?_) _
        rfl
      rw [hflags]
      exact Nat.le_succ _

variable {H : Type}

/-! ## One tick -/

/-- Nothing fails in the flush of the tick. -/
structure SchedulerTick.Reliable (spec : EmbeddingSpec) (t : SchedulerTick H) : Prop where
  embeds : Embedder.Complete ⟨spec, t.flush.embedDocuments⟩
  silent : t.flush.faults = noFlushFaults

omit [UnicodeTables] [UrlCrate] in
/-- A flush that meets no failure takes one batch off the queue. -/
theorem SchedulerTick.Reliable.flushOnce {s : CaptureScheduler H} {t : SchedulerTick H}
    (h : t.Reliable s.spec) (hnow : t.nowMs ≠ 0) :
    (∃ report, (s.flushOnce t.flush t.nowMs).1 = some (.flushed report)) ∧
      (s.flushOnce t.flush t.nowMs).2.lastSuccessfulFlushMs = t.nowMs ∧
      (s.flushOnce t.flush t.nowMs).2.vault.store.db.queue.length
        = s.vault.store.db.queue.length - FLUSH_BATCH_SIZE := by
  have hzero : i64OfU64 t.nowMs ≠ 0 := mt (i64OfU64_eq_zero_iff t.nowMs).1 hnow
  have hrun := (noFlushFaults.flushOnce_mayStop ⟨s.spec, t.flush.embedDocuments⟩
    (i64OfU64 t.nowMs) t.flush.scan).run_eq not_gave_noFlushFaults s.vault
  obtain ⟨⟨report, hok⟩, hqueue⟩ := flushOnce_queue h.embeds hzero t.flush.scan s.vault
  rw [hok, ← h.silent] at hrun
  have hresult : (t.flush.flushReport s.spec t.nowMs s.vault).1 = .ok report :=
    congrArg Prod.fst hrun
  have hfinal : (t.flush.flushReport s.spec t.nowMs).final s.vault
      = (Fndr.flushOnce ⟨s.spec, t.flush.embedDocuments⟩ (i64OfU64 t.nowMs)
          t.flush.scan).final s.vault :=
    congrArg (fun run => run.2.getLastD s.vault) hrun
  rw [CaptureScheduler.flushOnce_vault, hfinal]
  refine ⟨?_, ?_, hqueue⟩
  · rw [CaptureScheduler.flushOnce, hresult]
    exact ⟨report, rfl⟩
  · rw [CaptureScheduler.flushOnce, hresult]

variable [ImageHash H] [DefaultHasher]

theorem CaptureScheduler.capture_queue (s : CaptureScheduler H) (surroundings : Surroundings H) :
    (s.capture F surroundings).2.vault.store.db.queue.length
      ≤ s.vault.store.db.queue.length + 1 := by
  rcases s.capture_vault (F := F) surroundings with h | ⟨call, h⟩
  · rw [h]
    exact Nat.le_succ _
  · rw [h]
    exact call.length_queue s.vault.store

/-! ## Runs -/

/-- A tick of this time finds no more chunks pending than ticks fit since the last flush, and fewer
    than fit in an interval and one more. -/
structure CaptureScheduler.KeepsUp (s : CaptureScheduler H) (spec : EmbeddingSpec)
    (interval spacing nowMs : ℕ) : Prop where
  sameSpec : s.spec = spec
  sameInterval : s.flushIntervalMs = interval
  flushed : s.lastSuccessfulFlushMs ≤ nowMs
  since : s.vault.store.db.queue.length * spacing ≤ nowMs - s.lastSuccessfulFlushMs
  bound : s.vault.store.db.queue.length * spacing < interval + spacing

theorem CaptureScheduler.KeepsUp.ticked {s : CaptureScheduler H} {spec : EmbeddingSpec}
    {interval spacing : ℕ} {t : SchedulerTick H} (h : s.KeepsUp spec interval spacing t.nowMs)
    (hspacing : 0 < spacing) (hpos : 0 < interval) (hbatch : interval ≤ 255 * spacing)
    (ht : t.Reliable spec) :
    (s.Due t.nowMs → (s.ticked F t).vault.store.db.queue = []) ∧
      ∀ later, t.nowMs + spacing ≤ later → (s.ticked F t).KeepsUp spec interval spacing later := by
  obtain ⟨rfl, rfl, hflushed, hsince, hbound⟩ := h
  have hcapture := s.capture_queue (F := F) t.surroundings
  have hmul := Nat.mul_le_mul_right spacing hcapture
  rw [Nat.add_mul, Nat.one_mul] at hmul
  have htick : s.ticked F t = if s.Due t.nowMs then
      ((s.capture F t.surroundings).2.flushOnce t.flush t.nowMs).2
      else (s.capture F t.surroundings).2 := by
    rw [CaptureScheduler.ticked, CaptureScheduler.tick]
    exact apply_ite Prod.snd _ _ _
  rw [htick]
  by_cases hdue : s.Due t.nowMs
  · have hnow : t.nowMs ≠ 0 := by
      have : s.flushIntervalMs ≤ t.nowMs - s.lastSuccessfulFlushMs := hdue
      omega
    obtain ⟨-, hlast, hqueue⟩ :=
      SchedulerTick.Reliable.flushOnce (s := (s.capture F t.surroundings).2) ht hnow
    -- the whole queue fits in one batch
    have hfits : s.vault.store.db.queue.length < 256 := by
      by_contra hlong
      have := Nat.mul_le_mul_right spacing (Nat.not_lt.1 hlong)
      omega
    have hempty : ((s.capture F t.surroundings).2.flushOnce t.flush
        t.nowMs).2.vault.store.db.queue = [] := by
      rw [← List.length_eq_zero_iff, hqueue, FLUSH_BATCH_SIZE]
      omega
    rw [if_pos hdue]
    refine ⟨fun _ => hempty, fun later hlater => ⟨?_, ?_, ?_, ?_, ?_⟩⟩
    · unfold CaptureScheduler.flushOnce
      dsimp only
      split <;> rfl
    · unfold CaptureScheduler.flushOnce
      dsimp only
      split <;> rfl
    · rw [hlast]
      omega
    · rw [hempty, List.length_nil, Nat.zero_mul]
      exact Nat.zero_le _
    · rw [hempty, List.length_nil, Nat.zero_mul]
      omega
  · have hearly : t.nowMs - s.lastSuccessfulFlushMs < s.flushIntervalMs := Nat.not_le.1 hdue
    rw [if_neg hdue]
    refine ⟨fun h => absurd h hdue, fun later hlater => ⟨rfl, rfl, ?_, ?_, ?_⟩⟩
    · show s.lastSuccessfulFlushMs ≤ later
      omega
    · show _ ≤ later - s.lastSuccessfulFlushMs
      omega
    · omega

/-- Ticks that are `spacing` apart, from a time on. -/
def SpacedTicks (spacing : ℕ) : ℕ → List (SchedulerTick H) → Prop
  | _, [] => True
  | earliest, t :: ticks =>
      earliest ≤ t.nowMs ∧ SpacedTicks spacing (t.nowMs + spacing) ticks

theorem keepsUp_run {s : CaptureScheduler H} {spec : EmbeddingSpec}
    {interval spacing earliest : ℕ} {ticks : List (SchedulerTick H)} (hspacing : 0 < spacing)
    (hpos : 0 < interval) (hbatch : interval ≤ 255 * spacing)
    (h : ∀ nowMs, earliest ≤ nowMs → s.KeepsUp spec interval spacing nowMs)
    (hspaced : SpacedTicks spacing earliest ticks) (hreliable : ∀ t ∈ ticks, t.Reliable spec) :
    AllStates (CaptureScheduler.ticked F)
        (fun t => t.vault.store.db.queue.length * spacing < interval + spacing) s ticks ∧
      StepsMeet (CaptureScheduler.ticked F)
        (fun t tick => t.Due tick.nowMs → (t.ticked F tick).vault.store.db.queue = []) s ticks := by
  induction ticks generalizing s earliest with
  | nil => exact ⟨(h earliest (le_refl _)).bound, trivial⟩
  | cons t ticks ih =>
      have hnow := h t.nowMs hspaced.1
      obtain ⟨hdue, hnext⟩ := hnow.ticked (F := F) hspacing hpos hbatch
        (hreliable t List.mem_cons_self)
      obtain ⟨hstates, hsteps⟩ := ih hnext hspaced.2
        (fun other hother => hreliable other (List.mem_cons_of_mem t hother))
      exact ⟨⟨hnow.bound, hstates⟩, hdue, hsteps⟩

/-- **The index keeps up.** Over every run of ticks `spacing` apart whose flushes meet no failure, if
    one batch holds what fits in an interval and one more, there is never more pending than that,
    and every tick that is due leaves nothing pending. -/
theorem index_keeps_up (s : CaptureScheduler H) {spacing : ℕ} {ticks : List (SchedulerTick H)}
    (hspacing : 0 < spacing) (hpos : 0 < s.flushIntervalMs)
    (hbatch : s.flushIntervalMs ≤ 255 * spacing) (hempty : s.vault.store.db.queue = [])
    (hspaced : SpacedTicks spacing s.lastSuccessfulFlushMs ticks)
    (hreliable : ∀ t ∈ ticks, t.Reliable s.spec) :
    AllStates (CaptureScheduler.ticked F)
        (fun t => t.vault.store.db.queue.length * spacing < s.flushIntervalMs + spacing) s ticks ∧
      StepsMeet (CaptureScheduler.ticked F)
        (fun t tick => t.Due tick.nowMs → (t.ticked F tick).vault.store.db.queue = []) s ticks := by
  have hstart : ∀ nowMs, s.lastSuccessfulFlushMs ≤ nowMs →
      s.KeepsUp s.spec s.flushIntervalMs spacing nowMs := by
    intro nowMs hnow
    refine ⟨rfl, rfl, hnow, ?_, ?_⟩ <;> rw [hempty, List.length_nil, Nat.zero_mul]
    · exact Nat.zero_le _
    · omega
  exact keepsUp_run hspacing hpos hbatch hstart hspaced hreliable

/-! ## The cadence -/

variable (F) in
/-- The times of the flushes that succeeded. -/
def CaptureScheduler.flushTimes (s : CaptureScheduler H) : List (SchedulerTick H) → List ℕ
  | [] => []
  | t :: ticks =>
      (match (s.tick F t).1.map SchedulerTickOutcome.flush with
        | some (.flushed _) => [t.nowMs]
        | _ => []) ++ (s.ticked F t).flushTimes ticks

/-- What a tick does to the cadence. -/
theorem CaptureScheduler.tick_cadence (s : CaptureScheduler H) (t : SchedulerTick H) :
    (s.ticked F t).flushIntervalMs = s.flushIntervalMs ∧
      ((s.Due t.nowMs ∧ (∃ report, (s.tick F t).1.map SchedulerTickOutcome.flush
          = some (.flushed report)) ∧ (s.ticked F t).lastSuccessfulFlushMs = t.nowMs) ∨
        ((∀ report, (s.tick F t).1.map SchedulerTickOutcome.flush ≠ some (.flushed report)) ∧
          (s.ticked F t).lastSuccessfulFlushMs = s.lastSuccessfulFlushMs)) := by
  have hdue : (s.capture F t.surroundings).2.Due t.nowMs ↔ s.Due t.nowMs := Iff.rfl
  rw [CaptureScheduler.ticked, CaptureScheduler.tick]
  dsimp only
  split
  · next h =>
    unfold CaptureScheduler.flushOnce
    dsimp only
    split
    · next report _ => exact ⟨rfl, Or.inl ⟨hdue.1 h, ⟨report, rfl⟩, rfl⟩⟩
    · exact ⟨rfl, Or.inr ⟨by simp, rfl⟩⟩
    · exact ⟨rfl, Or.inr ⟨by simp, rfl⟩⟩
  · exact ⟨rfl, Or.inr ⟨by simp, rfl⟩⟩

/-- **Flushes never come faster than the cadence.** Whatever the clock does and whatever fails, each
    flush that succeeds comes an interval after the one before it, or after the start. -/
theorem flushTimes_spaced (s : CaptureScheduler H) (ticks : List (SchedulerTick H))
    (hpos : 0 < s.flushIntervalMs) :
    List.IsChain (fun earlier later => earlier + s.flushIntervalMs ≤ later)
      (s.lastSuccessfulFlushMs :: s.flushTimes F ticks) := by
  induction ticks generalizing s with
  | nil => exact List.isChain_singleton _
  | cons t ticks ih =>
      obtain ⟨hinterval, hcadence⟩ := s.tick_cadence (F := F) t
      have hrest := ih (s.ticked F t) (hinterval ▸ hpos)
      rw [hinterval] at hrest
      rw [CaptureScheduler.flushTimes]
      rcases hcadence with ⟨hdue, ⟨report, hflushed⟩, hlast⟩ | ⟨hnot, hlast⟩
      · rw [hlast] at hrest
        rw [hflushed]
        have hwaited : s.flushIntervalMs ≤ t.nowMs - s.lastSuccessfulFlushMs := hdue
        exact List.isChain_cons_cons.2 ⟨by omega, hrest⟩
      · rw [hlast] at hrest
        split
        · next report hflushed => exact absurd hflushed (hnot report)
        · exact hrest

end Ticks

/-! ## Two windows and a working model -/

section Example

attribute [local instance] asciiTables noUrls bitHash lengthHasher

/-- An embedder that answers, and a flush without a fault. -/
def workingFlush : FlushConditions where
  embedDocuments := fun texts => .ok (texts.map (fun _ => List.replicate 768 0))
  faults := noFlushFaults
  scan := tableOrder _

/-- The two windows, with flushes that work. -/
def flushedWindows : List (SchedulerTick (List Bool)) :=
  twoWindows.map (fun t => { t with flush := workingFlush })

theorem workingFlush_reliable : ∀ t ∈ flushedWindows, t.Reliable desktopScheduler.spec := by
  intro t ht
  obtain ⟨t, -, rfl⟩ := List.mem_map.1 ht
  refine ⟨fun texts => ⟨_, rfl, List.length_map _, fun vector hvector => ?_⟩, rfl⟩
  obtain ⟨_, -, rfl⟩ := List.mem_map.1 hvector
  exact List.length_replicate

/-- Ticks two seconds apart, as the worker keeps them. -/
theorem index_keeps_up_flushedWindows :
    AllStates (CaptureScheduler.ticked ℚ)
        (fun t => t.vault.store.db.queue.length * 2000 < 30 * 1000 + 2000) desktopScheduler
        flushedWindows ∧
      StepsMeet (CaptureScheduler.ticked ℚ)
        (fun t tick => t.Due tick.nowMs → (t.ticked ℚ tick).vault.store.db.queue = [])
        desktopScheduler flushedWindows :=
  index_keeps_up desktopScheduler (by decide) (by decide) (by decide) rfl
    ⟨by decide, by decide, trivial⟩ workingFlush_reliable

theorem flushTimes_spaced_flushedWindows :
    desktopScheduler.flushTimes ℚ flushedWindows = [31000] ∧
      List.IsChain (fun earlier later => earlier + 30 * 1000 ≤ later)
        (0 :: desktopScheduler.flushTimes ℚ flushedWindows) :=
  ⟨by decide +kernel, flushTimes_spaced desktopScheduler flushedWindows (by decide)⟩

end Example

end Fndr
