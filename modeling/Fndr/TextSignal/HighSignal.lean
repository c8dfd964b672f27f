import Fndr.TextSignal.Cleanup

set_option autoImplicit false

/-! # High-signal text

`build_high_signal_text_for_app`: a scored loop over the payloads of the lines, which counts what it
sees, and the reduction of `reduce_chrome_noise_for_app` when the loop keeps nothing. The score of a
line is a parameter of the loop, of which `lineQualityScore` is the source's.

The loop sorts the payloads into noise, low signal and accepted lines and keeps the first of the
accepted ones (`tallied_foldl`). The reduction has other tests, and its lines are not counted. -/

namespace Fndr

open RustStd

/-- The counts of one pass over a screen's lines. -/
structure CaptureQualityStats (F : Type) where
  totalLines : ℕ
  keptLines : ℕ
  lowConfLines : ℕ
  droppedNoiseLines : ℕ
  droppedLowSignalLines : ℕ
  avgLineScore : F

/-- The text that is kept of a screen, with its counts. -/
structure HighSignalText (F : Type) where
  text : Str
  stats : CaptureQualityStats F

/-- The text of a line behind a marker of the recognizer, and whether there was one. -/
def lowConfPayload (line : Str) : Str × Bool :=
  let trimmed := trim line
  if trimmed = "[LOW_CONF]".toList then ([], true)
  else if startsWith trimmed "[LOW_CONF] ".toList then
    (trimmed.drop "[LOW_CONF] ".toList.length, true)
  else (trimmed, false)

/-- A normalized payload and the flag of its marker. -/
def payloadOf (line : Str) : Str × Bool :=
  let payload := lowConfPayload line
  (normalizeInline payload.1, payload.2)

section Builder

variable [UnicodeTables] {F : Type} [ScoreArith F]

/-- The score of a line, between 0 and 1. -/
def lineQualityScore [Sub F] (app : AppIdentity) (line : Str) (hasLowConf : Bool) : F :=
  let symbol : F := clamp (symbolRatio F line) 0.0 1.0
  let charCount := line.length
  let alpha : F :=
    if charCount = 0 then 0.0
    else ScoreArith.ofCount (line.countP isAlphanumeric) / ScoreArith.ofCount charCount
  let lenScore : F := clamp (ScoreArith.ofCount (min charCount 180) / 180.0) 0.0 1.0
  let score := alpha * 0.52 + (1.0 - symbol) * 0.28 + lenScore * 0.20
  -- what speaks against a line scales the score down
  let score := if hasLowConf then score * 0.78 else score
  let score := if shouldDropLine F app line then score * 0.16 else score
  let score := if !app.isCode && looksLikeFileInventory line then score * 0.25 else score
  clamp score 0.0 1.0

/-- The loop of `build_high_signal_text_for_app`. -/
structure HighSignalLoop (F : Type) where
  stats : CaptureQualityStats F
  out : Str
  seen : List Str
  scoreSum : F
  scoredLines : ℕ

/-- A payload that is not empty is counted and scored. -/
def HighSignalLoop.count (loop : HighSignalLoop F) (hasLowConf : Bool) (quality : F) :
    HighSignalLoop F :=
  { loop with
    stats := { loop.stats with
      totalLines := loop.stats.totalLines + 1
      lowConfLines := loop.stats.lowConfLines + if hasLowConf then 1 else 0 }
    scoreSum := loop.scoreSum + quality
    scoredLines := loop.scoredLines + 1 }

/-- Score one line, and keep it unless it is noise, weak or a repetition. -/
def HighSignalLoop.step (score : Str → Bool → F) (app : AppIdentity) (loop : HighSignalLoop F)
    (line : Str) : HighSignalLoop F :=
  let item := payloadOf line
  if item.1 = [] then loop
  else
    let quality := score item.1 item.2
    let loop := loop.count item.2 quality
    if shouldDropLine F app item.1 then
      { loop with stats := { loop.stats with
          droppedNoiseLines := loop.stats.droppedNoiseLines + 1 } }
    else if quality < 0.36 ∨ item.1.length < MIN_LINE_LEN then
      { loop with stats := { loop.stats with
          droppedLowSignalLines := loop.stats.droppedLowSignalLines + 1 } }
    else
      let dedupKey := snippetDedupKey item.1
      -- a repetition is scored, but neither kept nor dropped
      if loop.seen.contains dedupKey then loop
      else
        { loop with
          out := (if loop.out = [] then [] else loop.out ++ "\n".toList) ++ item.1
          seen := dedupKey :: loop.seen
          stats := { loop.stats with keptLines := loop.stats.keptLines + 1 } }

/-- The loop before its first line. -/
def HighSignalLoop.start : HighSignalLoop F where
  stats := ⟨0, 0, 0, 0, 0, 0.0⟩
  out := []
  seen := []
  scoreSum := 0.0
  scoredLines := 0

/-- The text that is reduced when the loop keeps nothing. -/
def markerFree (text : Str) : Str :=
  join "\n".toList ((lines text).map (fun line => (lowConfPayload line).1))

/-- The kept lines, or the cleaned text where no line was kept. -/
def buildHighSignalTextForApp (score : Str → Bool → F) (app : AppIdentity) (text : Str) :
    HighSignalText F :=
  let loop := (lines text).foldl (HighSignalLoop.step score app) .start
  { text :=
      if trim loop.out = [] then reduceChromeNoiseForApp F app (markerFree text) else loop.out
    stats := { loop.stats with
      avgLineScore :=
        if loop.scoredLines = 0 then 0.0
        else clamp (loop.scoreSum / ScoreArith.ofCount loop.scoredLines) 0.0 1.0 } }

end Builder

/-! ## Payloads -/

/-- The payload of a line is the line, or what follows one marker. -/
theorem lowConfPayload_spec (line : Str) :
    (lowConfPayload line).1 = trim line ∨
      trim line = "[LOW_CONF] ".toList ++ (lowConfPayload line).1 ∨
      trim line = "[LOW_CONF]".toList ∧ (lowConfPayload line).1 = [] := by
  rw [lowConfPayload]
  split
  · next h => exact Or.inr (Or.inr ⟨h, rfl⟩)
  · split
    · next h =>
      obtain ⟨rest, hrest⟩ := of_decide_eq_true h
      refine Or.inr (Or.inl ?_)
      rw [← hrest, List.drop_left]
    · exact Or.inl rfl

theorem lowConfPayload_isInfix (line : Str) : (lowConfPayload line).1 <:+: line := by
  refine List.IsInfix.trans ?_ (trim_isInfix line)
  rcases lowConfPayload_spec line with h | h | ⟨-, h⟩
  · rw [h]
  · rw [h]
    exact (List.suffix_append _ _).isInfix
  · rw [h]
    exact List.nil_infix

/-- The payloads that the loop counts. -/
def payloads (text : Str) : List (Str × Bool) := ((lines text).map payloadOf).filter (·.1 ≠ [])

theorem normalizeInline_stripCarriageReturn (line : Str) :
    normalizeInline (stripCarriageReturn line) = normalizeInline line := by
  rw [stripCarriageReturn]
  split
  · next h =>
    conv_rhs => rw [← List.dropLast_append_getLast? _ h]
    rw [← normalizeInline_trim (line.dropLast ++ _), trim_concat_of_whitespace (by decide),
      normalizeInline_trim]
  · rfl

section Agreement

variable [UnicodeTables] {F : Type} [ScoreArith F] (score : Str → Bool → F) (app : AppIdentity)

/-! ## What the loop counts -/

/-- Counted, no noise, but of low quality or too short. -/
def isLowSignal (item : Str × Bool) : Bool :=
  !shouldDropLine F app item.1 &&
    (decide (score item.1 item.2 < 0.36) || decide (item.1.length < MIN_LINE_LEN))

/-- The tests that a payload passes before the loop looks for repetitions. -/
def isAccepted (item : Str × Bool) : Bool :=
  !shouldDropLine F app item.1 &&
    !(decide (score item.1 item.2 < 0.36) || decide (item.1.length < MIN_LINE_LEN))

/-- The payloads that pass the tests of the loop. -/
def accepted (items : List (Str × Bool)) : List Str :=
  (items.filter (isAccepted score app)).map Prod.fst

/-- What a run of the loop over these payloads adds. -/
structure Tallied (items : List (Str × Bool)) (loop after : HighSignalLoop F) : Prop where
  total : after.stats.totalLines = loop.stats.totalLines + items.length
  lowConf : after.stats.lowConfLines = loop.stats.lowConfLines + items.countP Prod.snd
  noise : after.stats.droppedNoiseLines =
    loop.stats.droppedNoiseLines + items.countP (fun item => shouldDropLine F app item.1)
  lowSignal : after.stats.droppedLowSignalLines =
    loop.stats.droppedLowSignalLines + items.countP (isLowSignal score app)
  kept : after.stats.keptLines = loop.stats.keptLines +
    (FirstByKey.firsts snippetDedupKey loop.seen (accepted score app items)).length
  out : after.out =
    (FirstByKey.firsts snippetDedupKey loop.seen (accepted score app items)).foldl
      (joinNext ['\n']) loop.out

variable {score app} {item : Str × Bool} {items : List (Str × Bool)}
  {loop after : HighSignalLoop F}

theorem accepted_cons_of_not (h : isAccepted score app item = false) :
    accepted score app (item :: items) = accepted score app items := by
  rw [accepted, List.filter_cons_of_neg (by simp [h]), accepted]

theorem accepted_cons_of (h : isAccepted score app item = true) :
    accepted score app (item :: items) = item.1 :: accepted score app items := by
  rw [accepted, List.filter_cons_of_pos h, List.map_cons, accepted]

/-- A payload is counted once, whatever becomes of it. -/
theorem Tallied.cons {next : HighSignalLoop F}
    (htotal : next.stats.totalLines = loop.stats.totalLines + 1)
    (hconf : next.stats.lowConfLines = loop.stats.lowConfLines + if item.2 then 1 else 0)
    (hnoise : next.stats.droppedNoiseLines =
      loop.stats.droppedNoiseLines + if shouldDropLine F app item.1 then 1 else 0)
    (hlow : next.stats.droppedLowSignalLines =
      loop.stats.droppedLowSignalLines + if isLowSignal score app item then 1 else 0)
    (hkept : next.stats.keptLines +
        (FirstByKey.firsts snippetDedupKey next.seen (accepted score app items)).length =
      loop.stats.keptLines +
        (FirstByKey.firsts snippetDedupKey loop.seen (accepted score app (item :: items))).length)
    (hout : (FirstByKey.firsts snippetDedupKey next.seen (accepted score app items)).foldl
        (joinNext ['\n']) next.out =
      (FirstByKey.firsts snippetDedupKey loop.seen (accepted score app (item :: items))).foldl
        (joinNext ['\n']) loop.out)
    (h : Tallied score app items next after) : Tallied score app (item :: items) loop after where
  total := by rw [h.total, htotal, List.length_cons, Nat.add_right_comm, Nat.add_assoc]
  lowConf := by rw [h.lowConf, hconf, List.countP_cons, Nat.add_right_comm, Nat.add_assoc]
  noise := by rw [h.noise, hnoise, List.countP_cons, Nat.add_right_comm, Nat.add_assoc]
  lowSignal := by rw [h.lowSignal, hlow, List.countP_cons, Nat.add_right_comm, Nat.add_assoc]
  kept := by rw [h.kept, hkept]
  out := by rw [h.out, hout]

/-- A payload that is left out is counted as noise or as low signal. -/
theorem Tallied.leftOut (noise lowSignal : ℕ)
    (hnoise : noise = if shouldDropLine F app item.1 then 1 else 0)
    (hlow : lowSignal = if isLowSignal score app item then 1 else 0)
    (hout : isAccepted score app item = false) {quality : F}
    (h : Tallied score app items
      { loop.count item.2 quality with
        stats := { (loop.count item.2 quality).stats with
          droppedNoiseLines := loop.stats.droppedNoiseLines + noise
          droppedLowSignalLines := loop.stats.droppedLowSignalLines + lowSignal } } after) :
    Tallied score app (item :: items) loop after := by
  refine Tallied.cons rfl rfl ?_ ?_ ?_ ?_ h
  · rw [← hnoise]
  · rw [← hlow]
  · rw [accepted_cons_of_not hout]
    rfl
  · rw [accepted_cons_of_not hout]
    rfl

theorem isAccepted_iff :
    isAccepted score app item = true ↔
      shouldDropLine F app item.1 = false ∧
        ¬ (score item.1 item.2 < 0.36 ∨ item.1.length < MIN_LINE_LEN) := by
  rw [isAccepted, Bool.and_eq_true, Bool.not_eq_true', Bool.not_eq_true', ← Bool.decide_or,
    decide_eq_false_iff_not]

variable (score) in
theorem kinds_of_noise (h : shouldDropLine F app item.1 = true) :
    isLowSignal score app item = false ∧ isAccepted score app item = false := by
  rw [isLowSignal, isAccepted, h]
  exact ⟨rfl, rfl⟩

theorem kinds_of_lowSignal (hdrop : shouldDropLine F app item.1 = false)
    (hlow : score item.1 item.2 < 0.36 ∨ item.1.length < MIN_LINE_LEN) :
    isLowSignal score app item = true ∧ isAccepted score app item = false := by
  rw [isLowSignal, isAccepted, hdrop, ← Bool.decide_or, decide_eq_true hlow]
  exact ⟨rfl, rfl⟩

theorem isLowSignal_of_isAccepted (h : isAccepted score app item = true) :
    isLowSignal score app item = false := by
  obtain ⟨-, hscore⟩ := isAccepted_iff.1 h
  rw [isLowSignal, ← Bool.decide_or, decide_eq_false hscore, Bool.and_false]

/-- An accepted payload is counted, and kept if its key is new. -/
theorem Tallied.accepted (haccepted : isAccepted score app item = true) {quality : F}
    (h : Tallied score app items
      (if loop.seen.contains (snippetDedupKey item.1) then loop.count item.2 quality
        else { loop.count item.2 quality with
          out := joinNext ['\n'] loop.out item.1
          seen := snippetDedupKey item.1 :: loop.seen
          stats := { (loop.count item.2 quality).stats with
            keptLines := loop.stats.keptLines + 1 } }) after) :
    Tallied score app (item :: items) loop after := by
  have hdrop := (isAccepted_iff.1 haccepted).1
  have hlow := isLowSignal_of_isAccepted haccepted
  by_cases hseen : snippetDedupKey item.1 ∈ loop.seen
  · rw [if_pos (List.contains_iff_mem.2 hseen)] at h
    refine Tallied.cons rfl rfl ?_ ?_ ?_ ?_ h
    · rw [hdrop]
      rfl
    · rw [hlow]
      rfl
    · rw [accepted_cons_of haccepted, FirstByKey.firsts, if_pos hseen]
      rfl
    · rw [accepted_cons_of haccepted, FirstByKey.firsts, if_pos hseen]
      rfl
  · rw [if_neg (fun hcontains => hseen (List.contains_iff_mem.1 hcontains))] at h
    refine Tallied.cons rfl rfl ?_ ?_ ?_ ?_ h
    · rw [hdrop]
      rfl
    · rw [hlow]
      rfl
    · rw [accepted_cons_of haccepted, FirstByKey.firsts, if_neg hseen, List.length_cons]
      exact Nat.add_right_comm _ 1 _
    · rw [accepted_cons_of haccepted, FirstByKey.firsts, if_neg hseen, List.foldl_cons]

theorem Tallied.refl (loop : HighSignalLoop F) : Tallied score app [] loop loop :=
  ⟨rfl, rfl, rfl, rfl, rfl, rfl⟩

/-- One line of the loop, by what becomes of its payload. -/
theorem Tallied.step {line : Str}
    (h : Tallied score app items (loop.step score app line) after) :
    Tallied score app (([payloadOf line].filter (·.1 ≠ [])) ++ items) loop after := by
  unfold HighSignalLoop.step at h
  dsimp only at h
  generalize payloadOf line = item at h ⊢
  by_cases hblank : item.1 = []
  · rw [if_pos hblank] at h
    rwa [List.filter_cons_of_neg (by simp [hblank])]
  · rw [if_neg hblank] at h
    rw [List.filter_cons_of_pos (by simp [hblank]), List.filter_nil, List.singleton_append]
    by_cases hdrop : shouldDropLine F app item.1 = true
    · rw [if_pos hdrop] at h
      obtain ⟨hlow, hout⟩ := kinds_of_noise score hdrop
      refine Tallied.leftOut 1 0 ?_ ?_ hout h
      · rw [if_pos hdrop]
      · rw [hlow]
        rfl
    · rw [if_neg hdrop] at h
      rw [Bool.not_eq_true] at hdrop
      by_cases hlow : score item.1 item.2 < 0.36 ∨ item.1.length < MIN_LINE_LEN
      · rw [if_pos hlow] at h
        obtain ⟨hlow', hout⟩ := kinds_of_lowSignal hdrop hlow
        refine Tallied.leftOut 0 1 ?_ ?_ hout h
        · rw [hdrop]
          rfl
        · rw [if_pos hlow']
      · rw [if_neg hlow] at h
        exact Tallied.accepted (isAccepted_iff.2 ⟨hdrop, hlow⟩) h

/-- **What the loop counts and writes.** -/
theorem tallied_foldl (source : List Str) (loop : HighSignalLoop F) :
    Tallied score app ((source.map payloadOf).filter (·.1 ≠ [])) loop
      (source.foldl (HighSignalLoop.step score app) loop) := by
  induction source generalizing loop with
  | nil => exact .refl loop
  | cons line rest ih =>
      rw [List.foldl_cons, List.map_cons, ← List.singleton_append, List.filter_append]
      exact (ih _).step

/-! ## What comes out -/

variable (score app)

/-- The lines that the loop keeps. -/
def keptLines (text : Str) : List Str :=
  FirstByKey.firsts snippetDedupKey [] (accepted score app (payloads text))

variable {score app}

theorem of_mem_keptLines {text line : Str} (h : line ∈ keptLines score app text) :
    line ∈ accepted score app (payloads text) ∧ line ≠ [] ∧ normalizeInline line = line := by
  have hmem := (FirstByKey.firsts_sublist [] (accepted score app (payloads text))).subset h
  refine ⟨hmem, ?_⟩
  obtain ⟨item, hitem, rfl⟩ := List.mem_map.1 hmem
  obtain ⟨hsource, hne⟩ := List.mem_filter.1 (List.mem_filter.1 hitem).1
  obtain ⟨source, -, rfl⟩ := List.mem_map.1 hsource
  exact ⟨of_decide_eq_true hne, normalizeInline_normalizeInline _⟩

theorem lines_join_keptLines (text : Str) :
    lines (join ['\n'] (keptLines score app text)) = keptLines score app text :=
  lines_join_normalized (fun _ hline => (of_mem_keptLines hline).2)

/-- The loop keeps nothing when it accepts no payload. -/
theorem keptLines_eq_nil_iff (text : Str) :
    keptLines score app text = [] ↔
      ∀ line ∈ lines text, isAccepted score app (payloadOf line) = false := by
  rw [keptLines, FirstByKey.firsts_eq_nil_iff, accepted, List.map_eq_nil_iff,
    List.filter_eq_nil_iff]
  constructor
  · intro h line hline
    by_cases hblank : (payloadOf line).1 = []
    · rw [Bool.eq_false_iff]
      intro haccepted
      refine (isAccepted_iff.1 haccepted).2 (Or.inr ?_)
      rw [hblank]
      exact Nat.succ_pos _
    · exact Bool.eq_false_iff.2
        (h _ (List.mem_filter.2 ⟨List.mem_map_of_mem hline, decide_eq_true hblank⟩))
  · intro h item hitem
    obtain ⟨line, hline, rfl⟩ := List.mem_map.1 (List.mem_filter.1 hitem).1
    exact Bool.eq_false_iff.1 (h line hline)

/-- Joining texts and taking the lines loses none that is long enough to be kept. -/
theorem filter_lines_join {parts : List Str} (h : ∀ part ∈ parts, '\n' ∉ part) :
    ((lines (join ['\n'] parts)).map normalizeInline).filter (keepsLine F app) =
      (parts.map normalizeInline).filter (keepsLine F app) := by
  rcases List.eq_nil_or_concat parts with rfl | ⟨init, last, rfl⟩
  · rfl
  · rw [List.concat_eq_append] at h ⊢
    have hstrip : (init.map stripCarriageReturn).map normalizeInline =
        init.map normalizeInline := by
      rw [List.map_map]
      exact List.map_congr_left (fun line _ => normalizeInline_stripCarriageReturn line)
    rw [lines_join_eq h (by simp), List.dropLast_concat, List.getLastD_concat, List.map_append,
      List.map_append, hstrip, List.filter_append, List.filter_append]
    split
    · next hnil =>
      have hshort : keepsLine F app (normalizeInline []) = false := rfl
      rw [hnil, List.map_singleton, List.filter_cons_of_neg (by simp [hshort])]
      rfl
    · rfl

/-- The reduction of the payloads keeps nothing when no payload passes its tests. -/
theorem reducedLines_markerFree_eq_nil_iff (text : Str) :
    reducedLines F app (markerFree text) = [] ↔
      ∀ line ∈ lines text, keepsLine F app (payloadOf line).1 = false := by
  have hbreak : ∀ part ∈ (lines text).map (fun line => (lowConfPayload line).1), '\n' ∉ part := by
    intro part hpart hmem
    obtain ⟨line, hline, rfl⟩ := List.mem_map.1 hpart
    exact not_mem_of_mem_lines hline ((lowConfPayload_isInfix line).subset hmem)
  have htext : markerFree text =
      join ['\n'] ((lines text).map (fun line => (lowConfPayload line).1)) := rfl
  rw [reducedLines, FirstByKey.firsts_eq_nil_iff, htext, filter_lines_join hbreak,
    List.map_map, List.filter_eq_nil_iff, List.forall_mem_map]
  simp only [Bool.not_eq_true]
  rfl

theorem trim_join_keptLines_eq_nil_iff (text : Str) :
    trim (join ['\n'] (keptLines score app text)) = [] ↔ keptLines score app text = [] := by
  constructor
  · intro h
    by_contra hne
    obtain ⟨line, hline⟩ := List.exists_mem_of_ne_nil _ hne
    obtain ⟨-, hline_ne, hnormal⟩ := of_mem_keptLines hline
    refine hline_ne ?_
    have hblank : collapse (join ['\n'] (keptLines score app text)) = [] := by
      rw [← collapse_trim, h, collapse_nil]
    rw [← hnormal, normalizeInline_eq, collapse_eq_nil_iff]
    exact fun c hc => (collapse_eq_nil_iff _).1 hblank c ((infix_join_of_mem hline).subset hc)
  · intro h
    rw [h]
    rfl

variable (score app) in
/-- The loop's lines, or the reduction of the payloads when it kept none. -/
theorem text_buildHighSignalTextForApp (text : Str) :
    (buildHighSignalTextForApp score app text).text =
      if keptLines score app text = [] then reduceChromeNoiseForApp F app (markerFree text)
      else join ['\n'] (keptLines score app text) := by
  have hout : ((lines text).foldl (HighSignalLoop.step score app) .start).out =
      join ['\n'] (keptLines score app text) := by
    rw [(tallied_foldl (lines text) .start).out]
    exact foldl_joinNext (fun line hline => (of_mem_keptLines hline).2.1)
  simp only [buildHighSignalTextForApp, hout, trim_join_keptLines_eq_nil_iff]

/-! ## When text and statistics agree -/

/-- What is said of the text and the statistics: every payload is counted once, and the lines are
    the first of the accepted payloads, each a whole line or what follows one marker. -/
structure HighSignalText.Agrees (score : Str → Bool → F) (app : AppIdentity) (text : Str)
    (result : HighSignalText F) : Prop where
  kept : (lines result.text).length = result.stats.keptLines
  counted : result.stats.keptLines + result.stats.droppedNoiseLines +
      result.stats.droppedLowSignalLines +
      (FirstByKey.repeats snippetDedupKey [] (accepted score app (payloads text))).length =
    result.stats.totalLines
  lowConf : result.stats.lowConfLines ≤ result.stats.totalLines
  payload : ∀ line ∈ lines result.text, ∃ source ∈ lines text, ∃ payload,
    (trim source = payload ∨ trim source = "[LOW_CONF] ".toList ++ payload) ∧
      line = normalizeInline payload
  order : (lines result.text).Sublist ((lines text).map (fun line => (payloadOf line).1))
  firsts : FirstByKey.IsFirsts snippetDedupKey (accepted score app (payloads text))
    (lines result.text)
  passes : ∀ line ∈ lines result.text,
    shouldDropLine F app line = false ∧ MIN_LINE_LEN ≤ line.length

variable (score app) in
/-- Every payload is of one kind. -/
theorem countP_kinds (items : List (Str × Bool)) :
    items.countP (fun item => shouldDropLine F app item.1) + items.countP (isLowSignal score app) +
      (accepted score app items).length = items.length := by
  induction items with
  | nil => rfl
  | cons item rest ih =>
      rw [List.countP_cons, List.countP_cons, List.length_cons, ← ih]
      cases hdrop : shouldDropLine F app item.1 with
      | true =>
          obtain ⟨hlow, hout⟩ := kinds_of_noise score hdrop
          rw [hlow, accepted_cons_of_not hout, if_pos rfl, if_neg Bool.false_ne_true]
          omega
      | false =>
          by_cases hlow : score item.1 item.2 < 0.36 ∨ item.1.length < MIN_LINE_LEN
          · obtain ⟨hlow', hout⟩ := kinds_of_lowSignal hdrop hlow
            rw [hlow', accepted_cons_of_not hout, if_pos rfl, if_neg Bool.false_ne_true]
            omega
          · have haccepted := isAccepted_iff.2 ⟨hdrop, hlow⟩
            rw [isLowSignal_of_isAccepted haccepted, accepted_cons_of haccepted, List.length_cons,
              if_neg Bool.false_ne_true]
            omega

variable (score app) in
/-- The statistics of every text count the payloads, each once. -/
theorem stats_buildHighSignalTextForApp (text : Str) :
    let stats := (buildHighSignalTextForApp score app text).stats
    stats.keptLines = (keptLines score app text).length ∧
      stats.keptLines + stats.droppedNoiseLines + stats.droppedLowSignalLines +
        (FirstByKey.repeats snippetDedupKey [] (accepted score app (payloads text))).length =
          stats.totalLines ∧
      stats.lowConfLines ≤ stats.totalLines := by
  have htallied : Tallied score app (payloads text) .start
      ((lines text).foldl (HighSignalLoop.step score app) .start) :=
    tallied_foldl (lines text) .start
  have hkinds := countP_kinds score app (payloads text)
  have hkept : (keptLines score app text).length +
      (FirstByKey.repeats snippetDedupKey [] (accepted score app (payloads text))).length =
        (accepted score app (payloads text)).length :=
    FirstByKey.length_firsts_add_length_repeats [] _
  have hconf : (payloads text).countP Prod.snd ≤ (payloads text).length := List.countP_le_length
  obtain ⟨htotal, hlowConf, hnoise, hlow, hlen, -⟩ := htallied
  have hlen' : (keptLines score app text).length = _ := (hlen.trans (Nat.zero_add _)).symm
  dsimp only [buildHighSignalTextForApp]
  rw [htotal, hlowConf, hnoise, hlow, ← hlen']
  dsimp only [HighSignalLoop.start]
  exact ⟨rfl, by omega, by omega⟩

variable (score app) in
/-- A text with the loop's lines agrees with the statistics. -/
theorem agrees_of_lines {text : Str}
    (h : lines (buildHighSignalTextForApp score app text).text = keptLines score app text) :
    (buildHighSignalTextForApp score app text).Agrees score app text := by
  obtain ⟨hlen, hcounted, hlowConf⟩ := stats_buildHighSignalTextForApp score app text
  -- every kept line is an accepted payload
  have hitems : ∀ line ∈ keptLines score app text, ∃ item ∈ payloads text,
      isAccepted score app item = true ∧ item.1 = line := by
    intro line hline
    obtain ⟨item, hitem, hfst⟩ := List.mem_map.1 (of_mem_keptLines hline).1
    exact ⟨item, (List.mem_filter.1 hitem).1, (List.mem_filter.1 hitem).2, hfst⟩
  refine ⟨by rw [h, hlen], hcounted, hlowConf, ?_, ?_, ?_, ?_⟩
  all_goals rw [h]
  · intro line hline
    obtain ⟨item, hitem, -, rfl⟩ := hitems line hline
    obtain ⟨source, hsource, rfl⟩ := List.mem_map.1 (List.mem_filter.1 hitem).1
    refine ⟨source, hsource, (lowConfPayload source).1, ?_, rfl⟩
    rcases lowConfPayload_spec source with hspec | hspec | ⟨-, hblank⟩
    · exact Or.inl hspec.symm
    · exact Or.inr hspec
    · refine absurd ?_ (of_mem_keptLines hline).2.1
      rw [payloadOf, hblank]
      rfl
  · have haccepted : (accepted score app (payloads text)).Sublist ((payloads text).map Prod.fst) :=
      List.filter_sublist.map Prod.fst
    have hpayloads : ((payloads text).map Prod.fst).Sublist
        (((lines text).map payloadOf).map Prod.fst) := List.filter_sublist.map Prod.fst
    rw [List.map_map] at hpayloads
    exact ((FirstByKey.firsts_sublist [] _).trans haccepted).trans hpayloads
  · exact FirstByKey.isFirsts_firsts _
  · intro line hline
    obtain ⟨item, -, haccepted, rfl⟩ := hitems line hline
    obtain ⟨hdrop, hscore⟩ := isAccepted_iff.1 haccepted
    exact ⟨hdrop, Nat.not_lt.1 (not_or.1 hscore).2⟩

variable (score app) in
/-- **The text and its statistics agree exactly when the loop accepts a payload or the reduction
    keeps none.** -/
theorem agrees_buildHighSignalTextForApp_iff (text : Str) :
    (buildHighSignalTextForApp score app text).Agrees score app text ↔
      (∃ line ∈ lines text, isAccepted score app (payloadOf line) = true) ∨
        ∀ line ∈ lines text, keepsLine F app (payloadOf line).1 = false := by
  have htext := text_buildHighSignalTextForApp score app text
  by_cases hkept : keptLines score app text = []
  · have hnone := (keptLines_eq_nil_iff text).1 hkept
    rw [if_pos hkept] at htext
    have hlines := lines_reduceChromeNoiseForApp F app (markerFree text)
    rw [← htext] at hlines
    rw [← reducedLines_markerFree_eq_nil_iff, ← hlines]
    constructor
    · intro h
      have hlen := h.kept
      rw [(stats_buildHighSignalTextForApp score app text).1, hkept] at hlen
      exact Or.inr (List.eq_nil_of_length_eq_zero hlen)
    · rintro (⟨line, hline, haccepted⟩ | hnil)
      · rw [hnone line hline] at haccepted
        cases haccepted
      · exact agrees_of_lines score app (hnil.trans hkept.symm)
  · rw [if_neg hkept] at htext
    refine iff_of_true (agrees_of_lines score app ?_) (Or.inl ?_)
    · rw [htext]
      exact lines_join_keptLines text
    · by_contra hnone
      refine hkept ((keptLines_eq_nil_iff text).2 (fun line hline => ?_))
      exact Bool.eq_false_iff.2 (fun haccepted => hnone ⟨line, hline, haccepted⟩)

end Agreement

section Tests

attribute [local instance] asciiTables

/-- A row of brackets in a terminal is no signal, but the reduction writes it uncounted. -/
theorem brackets_disagree :
    ¬ ∀ (score : Str → Bool → ℚ) (app : AppIdentity) (text : Str),
      (buildHighSignalTextForApp score app text).Agrees score app text := by
  intro h
  have hkept := (h (lineQualityScore (AppIdentity.fromName "Terminal".toList))
    (AppIdentity.fromName "Terminal".toList) "(((((((".toList).kept
  revert hkept
  decide +kernel

end Tests

end Fndr
