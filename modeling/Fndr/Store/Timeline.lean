import Fndr.Store.Evidence

set_option autoImplicit false

/-! # Timeline buckets

`activity_buckets` takes the start of a bucket from a division that truncates toward zero, in 64-bit
integers. For a local instant that is not negative this is the start of its local hour or day; a
negative one is moved up to the next boundary, unless it lies on one (`tdiv_mul_le_iff`). So a
timeline is right exactly when every instant of its window is `OnTimeline` (`timelineHolds_iff`). -/

namespace Fndr

open RustStd Rows

/-! ## What a timeline promises -/

/-- `WHERE captured_at_ms >= start_ms AND captured_at_ms <= end_ms`. -/
def Db.window (db : Db) (startMs endMs : ℤ) : List MemoryRecord :=
  db.memoryRecords.filter (fun r =>
    decide (startMs ≤ r.capturedAtMs) && decide (r.capturedAtMs ≤ endMs))

/-- The bucket is of the record's group. -/
def ActivityBucket.Holds (width offset : ℤ) (bucket : ActivityBucket) (r : MemoryRecord) : Prop :=
  bucketStart width offset r.capturedAtMs = some bucket.bucketStartMs ∧ r.appName = bucket.appName

instance (width offset : ℤ) (bucket : ActivityBucket) :
    DecidablePred (bucket.Holds width offset) := fun _ => inferInstanceAs (Decidable (_ ∧ _))

/-- A timeline of the records of a window, in local time. -/
structure TimelineOf (width offset : ℤ) (records : List MemoryRecord)
    (buckets : List ActivityBucket) : Prop where
  once : ∀ r ∈ records, ∃! bucket, bucket ∈ buckets ∧ bucket.Holds width offset r
  contains : ∀ r ∈ records, ∀ bucket ∈ buckets, bucket.Holds width offset r →
    bucket.bucketStartMs ≤ r.capturedAtMs ∧ r.capturedAtMs < bucket.bucketStartMs + width ∧
      width ∣ bucket.bucketStartMs + offset
  shared : ∀ r ∈ records, ∀ r' ∈ records, r.appName = r'.appName →
    (r.capturedAtMs + offset) / width = (r'.capturedAtMs + offset) / width →
    ∀ bucket ∈ buckets, bucket.Holds width offset r → bucket.Holds width offset r'
  counts : ∀ bucket ∈ buckets,
    bucket.recordCount = (records.filter (fun r => decide (bucket.Holds width offset r))).length
  total : (buckets.map ActivityBucket.recordCount).sum = records.length

/-- The limit leaves no bucket out. -/
def Db.Unclipped (db : Db) (startMs endMs width offset : ℤ) (limit : ℕ) : Prop :=
  limit < 2 ^ 64 ∧ ((db.window startMs endMs).map (fun r =>
    (bucketStart width offset r.capturedAtMs, r.appName))).dedup.length ≤ limit

instance (db : Db) (startMs endMs width offset : ℤ) (limit : ℕ) :
    Decidable (db.Unclipped startMs endMs width offset limit) :=
  inferInstanceAs (Decidable (_ ∧ _))

/-- The instants that truncation and 64 bits leave in their local hour or day. -/
structure OnTimeline (width offset ms : ℤ) : Prop where
  shifted : -2 ^ 63 ≤ ms + offset ∧ ms + offset < 2 ^ 63
  start : -2 ^ 63 ≤ ms - (ms + offset) % width ∧ ms - (ms + offset) % width < 2 ^ 63
  /-- the local instant is not negative, or it is a boundary -/
  forward : 0 ≤ ms + offset ∨ width ∣ ms + offset

/-! ## Truncating division -/

/-- Truncation toward zero goes down exactly for what is not negative or divides. -/
theorem tdiv_mul_le_iff {n width : ℤ} :
    n.tdiv width * width ≤ n ↔ 0 ≤ n ∨ width ∣ n := by
  have hsplit := Int.tdiv_mul_add_tmod n width
  constructor
  · intro hle
    by_cases hn : 0 ≤ n
    · exact Or.inl hn
    · have hneg : 0 ≤ (-n).tmod width := Int.tmod_nonneg width (by omega)
      rw [Int.neg_tmod] at hneg
      exact Or.inr (Int.dvd_of_tmod_eq_zero (by omega))
  · rintro (hn | hdvd)
    · have := Int.tmod_nonneg width hn
      omega
    · rw [Int.tdiv_mul_cancel hdvd]

/-- There it is the boundary before. -/
theorem tdiv_mul_eq {n width : ℤ} (h : 0 ≤ n ∨ width ∣ n) :
    n.tdiv width * width = n - n % width := by
  rcases h with hn | hdvd
  · rw [Int.tdiv_eq_ediv_of_nonneg hn]
    have := Int.ediv_mul_add_emod n width
    omega
  · rw [Int.tdiv_mul_cancel hdvd, Int.emod_eq_zero_of_dvd hdvd, Int.sub_zero]

theorem bucketStart_of_onTimeline {width offset ms : ℤ} (h : OnTimeline width offset ms) :
    bucketStart width offset ms = some (ms - (ms + offset) % width) := by
  have hstart : (ms + offset).tdiv width * width - offset = ms - (ms + offset) % width := by
    rw [tdiv_mul_eq h.forward]
    omega
  simp only [bucketStart, hstart]
  rw [if_pos ⟨h.shifted, h.start⟩]

/-- A bucket that starts no later than its instant is the local hour or day of the instant. -/
theorem onTimeline_of_bucketStart {width offset ms start : ℤ}
    (h : bucketStart width offset ms = some start) (hle : start ≤ ms) :
    OnTimeline width offset ms := by
  simp only [bucketStart] at h
  split at h
  · next hfits =>
    obtain rfl := Option.some.inj h
    have hforward : 0 ≤ ms + offset ∨ width ∣ ms + offset := tdiv_mul_le_iff.1 (by omega)
    have hstart : (ms + offset).tdiv width * width - offset = ms - (ms + offset) % width := by
      rw [tdiv_mul_eq hforward]
      omega
    exact ⟨hfits.1, hstart ▸ hfits.2, hforward⟩
  · cases h

theorem TimelineGranularity.widthMs_pos (granularity : TimelineGranularity) :
    0 < granularity.widthMs := by
  cases granularity <;> decide

/-! ## The groups of a window -/

theorem mapM_eq_some_map {α β : Type} {f : α → Option β} {g : α → β} {l : List α}
    (h : ∀ x ∈ l, f x = some (g x)) : l.mapM f = some (l.map g) := by
  induction l with
  | nil => rfl
  | cons x l ih =>
      obtain ⟨hx, hl⟩ := List.forall_mem_cons.1 h
      rw [List.mapM_cons, hx, ih hl]
      rfl

theorem asI64_of_ge {n : ℕ} (hlow : 2 ^ 63 ≤ n) (hhigh : n < 2 ^ 64) : asI64 n = n - 2 ^ 64 := by
  have hshift : asI64 n = ((n : ℤ) - (2 ^ 64 : ℕ)).bmod (2 ^ 64) :=
    (Int.sub_bmod_right (n : ℤ) (2 ^ 64)).symm
  rw [hshift, Int.bmod_eq_of_le]
  · rfl
  · omega
  · omega

/-- A limit that leaves nothing out. -/
theorem limit_asI64_eq_self {ρ : Type} {rows : List ρ} {n : ℕ} (husize : n < 2 ^ 64)
    (h : rows.length ≤ n) : Rows.limit (asI64 n) rows = rows := by
  unfold Rows.limit
  split
  · rfl
  · next hneg =>
    -- not wrapped to a negative number, the limit is itself
    rcases Nat.lt_or_ge n (2 ^ 63) with hsmall | hbig
    · rw [asI64_of_lt hsmall]
      exact List.take_of_length_le (by omega)
    · rw [asI64_of_ge hbig husize] at hneg
      omega

section Groups

variable {width offset : ℤ} {records : List MemoryRecord}

/-- The buckets of records whose bucket starts are integers. -/
def bucketsOf (start : MemoryRecord → ℤ) (records : List MemoryRecord) : List ActivityBucket :=
  ((groupBy (fun row : ℤ × MemoryRecord => (row.1, row.2.appName))
    (records.map (fun r => (start r, r)))).map (fun group =>
      (⟨group.1.1, group.1.2, group.2.length⟩ : ActivityBucket))).insertionSort OldestBucketFirst

theorem mem_bucketsOf {start : MemoryRecord → ℤ} {bucket : ActivityBucket} :
    bucket ∈ bucketsOf start records ↔ ∃ r ∈ records, bucket = ⟨start r, r.appName,
      (records.filter (fun r' => decide (start r' = start r ∧ r'.appName = r.appName))).length⟩ := by
  rw [bucketsOf, List.mem_insertionSort, List.mem_map]
  constructor
  · rintro ⟨group, hgroup, rfl⟩
    obtain ⟨row, hrow, rfl⟩ := mem_groupBy.1 hgroup
    obtain ⟨r, hr, rfl⟩ := List.mem_map.1 hrow
    refine ⟨r, hr, ?_⟩
    dsimp only
    rw [List.filter_map, List.length_map]
    simp [Function.comp_def]
  · rintro ⟨r, hr, rfl⟩
    refine ⟨_, mem_groupBy.2 ⟨(start r, r), List.mem_map_of_mem hr, rfl⟩, ?_⟩
    dsimp only
    rw [List.filter_map, List.length_map]
    simp [Function.comp_def]

theorem sum_bucketsOf (start : MemoryRecord → ℤ) (records : List MemoryRecord) :
    ((bucketsOf start records).map ActivityBucket.recordCount).sum = records.length := by
  have hsum := sum_length_groupBy (fun row : ℤ × MemoryRecord => (row.1, row.2.appName))
    (records.map (fun r => (start r, r)))
  rw [List.length_map] at hsum
  rw [bucketsOf, ((List.perm_insertionSort OldestBucketFirst _).map _).sum_eq, List.map_map, ← hsum,
    Nat.cast_list_sum, List.map_map]
  rfl

/-- There are as many buckets as distinct pairs of a start and an app. -/
theorem length_bucketsOf (start : MemoryRecord → ℤ) (records : List MemoryRecord) :
    (bucketsOf start records).length
      = (records.map (fun r => (start r, r.appName))).dedup.length := by
  rw [bucketsOf, List.length_insertionSort, List.length_map, groupBy, List.length_map, List.map_map]
  rfl

/-- **Buckets that start with the local hour or day of their records are a timeline.** -/
theorem timelineOf_bucketsOf (hwidth : 0 < width)
    (h : ∀ r ∈ records, OnTimeline width offset r.capturedAtMs) :
    TimelineOf width offset records (bucketsOf
      (fun r => r.capturedAtMs - (r.capturedAtMs + offset) % width) records) := by
  have hstart : ∀ r ∈ records, bucketStart width offset r.capturedAtMs
      = some (r.capturedAtMs - (r.capturedAtMs + offset) % width) :=
    fun r hr => bucketStart_of_onTimeline (h r hr)
  have hholds : ∀ r ∈ records, ∀ bucket : ActivityBucket, bucket.Holds width offset r ↔
      r.capturedAtMs - (r.capturedAtMs + offset) % width = bucket.bucketStartMs ∧
        r.appName = bucket.appName := by
    intro r hr bucket
    rw [ActivityBucket.Holds, hstart r hr, Option.some_inj]
  refine ⟨fun r hr => ?_, fun r hr bucket _ hbucket => ?_,
    fun r hr r' hr' happ hlocal bucket _ hbucket => ?_, fun bucket hbucket => ?_, sum_bucketsOf _ _⟩
  · refine ⟨_, ⟨mem_bucketsOf.2 ⟨r, hr, rfl⟩, (hholds r hr _).2 ⟨rfl, rfl⟩⟩, ?_⟩
    -- a bucket of the record has its start and its app, and with them its count
    rintro bucket ⟨hbucket, hof⟩
    obtain ⟨hsame, happ⟩ := (hholds r hr bucket).1 hof
    obtain ⟨r', -, rfl⟩ := mem_bucketsOf.1 hbucket
    dsimp only at hsame happ
    rw [hsame, happ]
  · obtain ⟨hsame, -⟩ := (hholds r hr bucket).1 hbucket
    have hnonneg := Int.emod_nonneg (r.capturedAtMs + offset) hwidth.ne'
    have hlt := Int.emod_lt_of_pos (r.capturedAtMs + offset) hwidth
    refine ⟨by omega, by omega, ?_⟩
    rw [← hsame, show r.capturedAtMs - (r.capturedAtMs + offset) % width + offset
      = (r.capturedAtMs + offset) - (r.capturedAtMs + offset) % width by omega]
    exact Int.dvd_self_sub_emod
  · obtain ⟨hsame, hname⟩ := (hholds r hr bucket).1 hbucket
    refine (hholds r' hr' bucket).2 ⟨?_, happ ▸ hname⟩
    have hsplit := Int.ediv_mul_add_emod (r.capturedAtMs + offset) width
    have hsplit' := Int.ediv_mul_add_emod (r'.capturedAtMs + offset) width
    rw [hlocal] at hsplit
    omega
  · obtain ⟨r, -, rfl⟩ := mem_bucketsOf.1 hbucket
    dsimp only
    congr 2
    refine List.filter_congr (fun r' hr' => decide_eq_decide.2 ?_)
    rw [hholds r' hr']

end Groups

/-! ## When a timeline is right -/

/-- Every record has one bucket, its local hour or day, and the counts add up. -/
def TimelineHolds (reads : ReadFaults) (store : Store) (startMs endMs : ℤ)
    (granularity : TimelineGranularity) (utcOffsetMinutes : ℤ) (limit : ℕ) : Prop :=
  ∃ buckets, store.activityBuckets reads startMs endMs granularity utcOffsetMinutes limit
      = .ok buckets ∧
    TimelineOf granularity.widthMs (utcOffsetMinutes * 60 * 1000) (store.db.window startMs endMs)
      buckets

/-- **A timeline is right exactly when every instant of its window stays in its hour or day.** -/
theorem timelineHolds_iff {reads : ReadFaults} (hread : reads .activityBuckets = none)
    (store : Store) (startMs endMs : ℤ) (granularity : TimelineGranularity)
    (utcOffsetMinutes : ℤ) {limit : ℕ}
    (hclip : store.db.Unclipped startMs endMs granularity.widthMs (utcOffsetMinutes * 60 * 1000)
      limit) :
    TimelineHolds reads store startMs endMs granularity utcOffsetMinutes limit ↔
      ∀ r ∈ store.db.window startMs endMs,
        OnTimeline granularity.widthMs (utcOffsetMinutes * 60 * 1000) r.capturedAtMs := by
  constructor
  · rintro ⟨buckets, hbuckets, htimeline⟩ r hr
    obtain ⟨bucket, ⟨hbucket, hholds⟩, -⟩ := htimeline.once r hr
    exact onTimeline_of_bucketStart hholds.1 (htimeline.contains r hr bucket hbucket hholds).1
  · intro h
    have hrows : store.db.bucketed startMs endMs granularity.widthMs (utcOffsetMinutes * 60 * 1000)
        = some ((store.db.window startMs endMs).map (fun r =>
          (r.capturedAtMs - (r.capturedAtMs + utcOffsetMinutes * 60 * 1000) % granularity.widthMs,
            r))) :=
      mapM_eq_some_map (fun r hr => by rw [bucketStart_of_onTimeline (h r hr)]; rfl)
    -- below the limit nothing is cut, so the rows are all the buckets
    have hpairs : (bucketsOf (fun r => r.capturedAtMs
        - (r.capturedAtMs + utcOffsetMinutes * 60 * 1000) % granularity.widthMs)
        (store.db.window startMs endMs)).length ≤ limit := by
      have hsome : (store.db.window startMs endMs).map (fun r =>
          (bucketStart granularity.widthMs (utcOffsetMinutes * 60 * 1000) r.capturedAtMs, r.appName))
          = ((store.db.window startMs endMs).map (fun r => (r.capturedAtMs
            - (r.capturedAtMs + utcOffsetMinutes * 60 * 1000) % granularity.widthMs,
              r.appName))).map (fun pair => (some pair.1, pair.2)) := by
        rw [List.map_map]
        exact List.map_congr_left (fun r hr => by rw [bucketStart_of_onTimeline (h r hr)]; rfl)
      have hcount := hclip.2
      rw [hsome, List.dedup_map_of_injective, List.length_map] at hcount
      · rwa [length_bucketsOf]
      · intro a b hab
        obtain ⟨hfst, hsnd⟩ := Prod.mk.inj hab
        exact Prod.ext (Option.some.inj hfst) hsnd
    refine ⟨_, Store.activityBuckets_eq_ok.2 ⟨hread, ?_⟩,
      timelineOf_bucketsOf granularity.widthMs_pos h⟩
    rw [Db.activity, hrows, Option.map_some]
    exact congrArg some (limit_asI64_eq_self hclip.1 hpairs)

/-! ## Before the epoch -/

/-- A record of the first second. -/
def dawnRecord : NewRecord :=
  ⟨"r".toList, "s".toList, "screen".toList, "Notes".toList, none, none, "Draft".toList, 1000, 1000⟩

/-- A record of one second after the epoch. -/
def dawnStore : Store := (Store.empty.insertCapture noFaults dawnRecord []).2

/-- One hour to the west the second lies before the epoch, and its bucket starts after it. -/
theorem timeline_moves_dawn_up :
    ¬ ∀ (store : Store) (startMs endMs : ℤ) (granularity : TimelineGranularity)
      (utcOffsetMinutes : ℤ) (limit : ℕ), -720 ≤ utcOffsetMinutes ∧ utcOffsetMinutes ≤ 840 →
      store.db.Unclipped startMs endMs granularity.widthMs (utcOffsetMinutes * 60 * 1000) limit →
      TimelineHolds noReadFaults store startMs endMs granularity utcOffsetMinutes limit := by
  intro h
  obtain ⟨buckets, -, htimeline⟩ := h dawnStore 0 5000 .hour (-60) 10 (by decide) (by decide)
  have hrecord : ∃ r ∈ dawnStore.db.window 0 5000, r.capturedAtMs = 1000 := by decide
  obtain ⟨r, hr, hms⟩ := hrecord
  obtain ⟨bucket, ⟨hbucket, hholds⟩, -⟩ := htimeline.once r hr
  have hforward := (onTimeline_of_bucketStart hholds.1
    (htimeline.contains r hr bucket hbucket hholds).1).forward
  rw [hms] at hforward
  exact absurd hforward (by decide)

/-- A second record, in the next hour. -/
def twoHourStore : Store :=
  (dawnStore.insertCapture noFaults { dawnRecord with id := "q".toList, capturedAtMs := 3700000 }
    []).2

/-- Half an hour after a full hour to the east the two records are in two buckets. -/
theorem timelineHolds_twoHours :
    TimelineHolds noReadFaults twoHourStore 0 5000000 .hour 330 10 ∧
      (twoHourStore.activityBuckets noReadFaults 0 5000000 .hour 330 10).toOption.map
        (List.map (fun bucket => (bucket.bucketStartMs, bucket.recordCount)))
        = some [(-1800000, 1), (1800000, 1)] := by
  have hwindow : ∀ r ∈ twoHourStore.db.window 0 5000000,
      r.capturedAtMs = 1000 ∨ r.capturedAtMs = 3700000 := by decide
  refine ⟨(timelineHolds_iff rfl twoHourStore 0 5000000 .hour 330 (by decide)).2 ?_,
    by decide +kernel⟩
  intro r hr
  rcases hwindow r hr with hms | hms <;> rw [hms]
  · exact ⟨by decide, by decide, by decide⟩
  · exact ⟨by decide, by decide, by decide⟩

end Fndr
