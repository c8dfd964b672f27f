import Fndr.TextSignal.HighSignal
import Mathlib.Data.List.Sort

set_option autoImplicit false

/-! # Salient evidence

`rank_salient_spans` cuts a text into sentences and orders those with a score;
`compress_to_salient_evidence` writes them in that order until the budget is used up. The score and
the order are parameters, of which `spanScore` and `SpanOrder.byScore` are the source's.

What is written is whole spans in rank order and at most the start of one more
(`madeOf_compressLoop`). The budget is tested before the separator is written and the cut is made
after it, so the text is too long exactly when a separator is written across the end of the budget
(`length_compressLoop_le_iff`). -/

namespace Fndr

open RustStd

/-- The Unicode table behind `char::is_uppercase`. -/
class UppercaseTable where
  isUppercase : Char → Bool

export UppercaseTable (isUppercase)

/-- The table restricted to ASCII. -/
@[reducible] def asciiUppercase : UppercaseTable where
  isUppercase := Char.isUpper

/-- A sentence with its score. -/
structure SalientSpan (F : Type) where
  text : Str
  score : F

/-- Maximum number of spans considered. -/
def MAX_RANKED_SPANS : ℕ := 64

/-! ## Blocks and sentences -/

/-- `split("\n\n")`. -/
def splitBlocks : Str → List Str
  | [] => [[]]
  | '\n' :: '\n' :: rest => [] :: splitBlocks rest
  | c :: rest => (splitBlocks rest).modifyHead (c :: ·)

/-- The loop over the characters of a block: the sentences so far and the text since the last. -/
def splitSentences (out : List Str) (buffer : Str) : Str → List Str × Str
  | [] => (out, buffer)
  | ch :: rest =>
      let buffer := buffer ++ [ch]
      let isTerminator := ch == '.' || ch == '!' || ch == '?'
      let nextIsBreak := rest.head?.all (fun next => next == ' ' || next == '\n')
      if (isTerminator && nextIsBreak) || ch == '\n' then
        let candidate := trim buffer
        if 12 ≤ candidate.length then splitSentences (out ++ [candidate]) [] rest
        else splitSentences out buffer rest
      else splitSentences out buffer rest

/-- The sentences of a block, the whole block where there is no other. -/
def splitBlockIntoSentences (block : Str) : List Str :=
  let trimmed := trim block
  if trimmed = [] then []
  else
    let sentences := splitSentences [] [] trimmed
    let tail := trim sentences.2
    let out := if tail = [] then sentences.1 else sentences.1 ++ [tail]
    if out = [] then [trimmed] else out

/-! ## Scores -/

/-- The words that speak for a decision or a task. -/
def CUE_WORDS : List Str :=
  ["because", "however", "therefore", "should", "must", "todo", "next", "plan", "need to",
    "consider", "implement", "review", "fix", "blocker", "decided", "open question"].map
    String.toList

/-- The endings of words that say what is done. -/
def VERB_SUFFIXES : List Str :=
  ["ed", "ing", "tion", "sion", "ment", "able", "ible"].map String.toList

section Score

variable [UnicodeTables] [UppercaseTable] {F : Type} [ScoreArith F]

/-- `f32::min`. -/
def scoreMin (x y : F) : F := if y < x then y else x

/-- The part of the tokens that are `hit`, up to `cap`, as a ratio of `cap`. -/
def cappedRatio (hits total : ℕ) (cap : F) : F :=
  clamp (scoreMin (ScoreArith.ofCount hits / ScoreArith.ofCount total) cap / cap) 0.0 1.0

/-- The mean quality of the lines of a span. -/
def averageLineQuality [Sub F] (app : AppIdentity) (span : Str) : F :=
  let spanLines := ((lines span).map (fun line => normalizeInline (trim line))).filter (· ≠ [])
  if spanLines.length = 0 then lineQualityScore app (normalizeInline span) false
  else
    (spanLines.map (fun line => (lineQualityScore app line false : F))).foldl (· + ·) 0.0 /
      ScoreArith.ofCount spanLines.length

/-- The score of a span, between 0 and 1. -/
def spanScore [Sub F] (app : AppIdentity) (span : Str) : F :=
  let normalized := normalizeInline span
  -- too short to say anything
  if normalized.length < 10 then 0.0
  else
    let tokens := splitWhitespace normalized
    if tokens = [] then 0.0
    else
      let capRatio : F :=
        cappedRatio (tokens.countP (fun t => t.head?.any isUppercase)) tokens.length 0.45
      let verbRatio : F := cappedRatio (tokens.countP (fun t =>
        VERB_SUFFIXES.any (endsWith (toAsciiLowercase t) ·))) tokens.length 0.30
      let cueCount := CUE_WORDS.countP (contains (toAsciiLowercase normalized) ·)
      let cueBonus : F := scoreMin (ScoreArith.ofCount cueCount * 0.05) 0.18
      let lengthRatio : F := clamp (ScoreArith.ofCount (min normalized.length 280) / 280.0) 0.0 1.0
      let distinctRatio : F :=
        clamp (ScoreArith.ofCount tokens.dedup.length / ScoreArith.ofCount tokens.length) 0.0 1.0
      clamp (averageLineQuality app span * 0.40 + capRatio * 0.12 + verbRatio * 0.10 +
        lengthRatio * 0.16 + distinctRatio * 0.12 + cueBonus) 0.0 1.0

end Score

/-! ## Ranking -/

section Rank

variable {F : Type} [ScoreArith F]

/-- A way to put spans in order. -/
structure SpanOrder (F : Type) where
  sort : List (SalientSpan F) → List (SalientSpan F)
  perm : ∀ spans, (sort spans).Perm spans

/-- The order of the source: higher scores first, equal ones as they stand. -/
def SpanOrder.byScore : SpanOrder F where
  sort := fun spans => spans.mergeSort (fun a b => !decide (a.score < b.score))
  perm := fun spans => List.mergeSort_perm spans _

/-- One sentence of the ranking loop. -/
def pushSpan (score : Str → F) (spans : List (SalientSpan F)) (sentence : Str) :
    List (SalientSpan F) :=
  if MAX_RANKED_SPANS ≤ spans.length then spans
  else
    let trimmed := trim sentence
    if trimmed = [] then spans
    else if score trimmed ≤ 0.0 then spans
    else spans ++ [⟨trimmed, score trimmed⟩]

/-- The spans with a score, in rank order. -/
def rankSalientSpans (score : AppIdentity → Str → F) (order : SpanOrder F) (cleaned : Str)
    (app : AppIdentity) : List (SalientSpan F) :=
  if trim cleaned = [] then []
  else
    let sentences := (splitBlocks cleaned).flatMap splitBlockIntoSentences
    order.sort (sentences.foldl (pushSpan (score app)) [])

end Rank

/-! ## Compression -/

/-- What stands between two sentences of the evidence. -/
def SEPARATOR : Str := " • ".toList

/-- The loop over the ranked spans. -/
def compressLoop (maxChars : ℕ) (out : Str) : List Str → Str
  | [] => out
  | span :: rest =>
      if maxChars ≤ out.length then out
      else
        let out := if out = [] then out else out ++ SEPARATOR
        if maxChars < out.length + span.length then out ++ span.take (maxChars - out.length)
        else compressLoop maxChars (out ++ span) rest

/-- Replace a text by the highest-ranked spans, or by its head when no span has a score. -/
def compressToSalientEvidence {F : Type} [ScoreArith F] (score : AppIdentity → Str → F)
    (order : SpanOrder F) (cleaned : Str) (app : AppIdentity) (maxChars : ℕ) : Str :=
  if maxChars = 0 ∨ trim cleaned = [] then []
  else
    let spans := rankSalientSpans score order cleaned app
    if spans = [] then cleaned.take maxChars
    else compressLoop maxChars [] (spans.map SalientSpan.text)

/-! ## What is written -/

/-- Whole spans from the front, joined, and at most the start of the next one. -/
inductive MadeOf (spans : List Str) : Str → Prop
  | whole (written : List Str) (hwritten : written <+: spans) :
    MadeOf spans (join SEPARATOR written)
  | cut (written : List Str) (next start : Str) (hwritten : written ++ [next] <+: spans)
      (hstart : start <+: next) (hcut : start ≠ next) :
      MadeOf spans (join SEPARATOR (written ++ [start]))

theorem MadeOf.eq_nil {s : Str} (h : MadeOf [] s) : s = [] := by
  cases h with
  | whole written hwritten => rw [List.prefix_nil.1 hwritten]; rfl
  | cut written next start hwritten =>
      exact absurd (List.prefix_nil.1 hwritten) (List.append_ne_nil_of_right_ne_nil _ (by simp))

/-- The text with the separator written before the next span. -/
def opened (out : Str) : Str := if out = [] then out else out ++ SEPARATOR

theorem opened_append {written : List Str} (h : ∀ span ∈ written, span ≠ []) (s : Str) :
    opened (join SEPARATOR written) ++ s = join SEPARATOR (written ++ [s]) := by
  by_cases hnil : written = []
  · simp [hnil, opened, join]
  · rw [opened, if_neg (join_ne_nil h hnil), join_concat SEPARATOR hnil]

theorem length_opened (out : Str) :
    (opened out).length = out.length + if out = [] then 0 else 3 := by
  rw [opened]
  split
  · rfl
  · rw [List.length_append]
    rfl

/-- One round of the loop. -/
theorem compressLoop_cons (maxChars : ℕ) (out span : Str) (rest : List Str) :
    compressLoop maxChars out (span :: rest) =
      if maxChars ≤ out.length then out
      else if maxChars < (opened out).length + span.length then
        opened out ++ span.take (maxChars - (opened out).length)
      else compressLoop maxChars (opened out ++ span) rest := rfl

theorem madeOf_compressLoop (maxChars : ℕ) {written spans : List Str}
    (hwritten : ∀ span ∈ written, span ≠ []) (hspans : ∀ span ∈ spans, span ≠ []) :
    MadeOf (written ++ spans) (compressLoop maxChars (join SEPARATOR written) spans) := by
  induction spans generalizing written with
  | nil => exact .whole written (List.prefix_append _ _)
  | cons span rest ih =>
      obtain ⟨hspan, hrest⟩ := List.forall_mem_cons.1 hspans
      have hnext : written ++ [span] <+: written ++ span :: rest := by
        rw [List.append_cons written span rest]
        exact List.prefix_append _ _
      rw [compressLoop_cons]
      split
      · exact .whole written (List.prefix_append _ _)
      · split
        · next hlong =>
          rw [opened_append hwritten]
          refine .cut written span _ hnext (List.take_prefix _ _) (fun heq => ?_)
          have hlen := congrArg List.length heq
          have hpos := List.length_pos_iff.2 hspan
          rw [List.length_take] at hlen
          omega
        · rw [opened_append hwritten, List.append_cons]
          exact ih (List.forall_mem_append.2 ⟨hwritten, List.forall_mem_singleton.2 hspan⟩) hrest

/-! ## The budget -/

/-- After `k` whole spans the budget is not used up, and has no room for a separator. -/
def Straddles (maxChars : ℕ) (spans : List Str) (k : ℕ) : Prop :=
  (join SEPARATOR (spans.take k)).length < maxChars ∧
    maxChars < (join SEPARATOR (spans.take k)).length + SEPARATOR.length

/-- No separator is written across the end of the budget behind what is written. -/
def NoStraddle (maxChars : ℕ) (written spans : List Str) : Prop :=
  ∀ k, 0 < k → written.length ≤ k → k < (written ++ spans).length →
    ¬ Straddles maxChars (written ++ spans) k

theorem noStraddle_of_full {maxChars : ℕ} {written : List Str} (spans : List Str)
    (h : maxChars ≤ (join SEPARATOR written).length) : NoStraddle maxChars written spans := by
  intro k _ hk _ hstraddles
  have hlen : (join SEPARATOR written).length ≤
      (join SEPARATOR ((written ++ spans).take k)).length := by
    rw [List.take_append, List.take_of_length_le hk]
    exact length_join_le_append SEPARATOR written _
  exact absurd hstraddles.1 (not_lt.2 (h.trans hlen))

/-- The next separator, and those behind the next span. -/
theorem noStraddle_cons_iff {maxChars : ℕ} {written : List Str}
    (hwritten : ∀ span ∈ written, span ≠ []) (span : Str) (rest : List Str) :
    NoStraddle maxChars written (span :: rest) ↔
      (maxChars ≤ (join SEPARATOR written).length ∨
        (opened (join SEPARATOR written)).length ≤ maxChars) ∧
          NoStraddle maxChars (written ++ [span]) rest := by
  have hhere : 0 < written.length →
      (Straddles maxChars (written ++ span :: rest) written.length ↔
        (join SEPARATOR written).length < maxChars ∧
          maxChars < (opened (join SEPARATOR written)).length) := by
    intro hpos
    rw [Straddles, List.take_left, length_opened,
      if_neg (join_ne_nil hwritten (List.ne_nil_of_length_pos hpos))]
    exact Iff.rfl
  unfold NoStraddle
  rw [← List.append_cons, List.length_append, List.length_append, List.length_singleton,
    List.length_cons]
  constructor
  · intro h
    refine ⟨?_, fun k hpos hk => h k hpos (by omega)⟩
    by_cases hpos : 0 < written.length
    · have := h _ hpos le_rfl (by omega)
      rw [hhere hpos] at this
      omega
    · rw [List.eq_nil_of_length_eq_zero (Nat.eq_zero_of_not_pos hpos)]
      exact Or.inr (Nat.zero_le _)
  · rintro ⟨hnext, hlater⟩ k hpos hk hlt
    rcases Nat.eq_or_lt_of_le hk with rfl | hk
    · rw [hhere hpos]
      omega
    · exact hlater k hpos hk hlt

/-- A cut span fills the budget, unless the separator before it was too long. -/
theorem length_append_take_le_iff {maxChars : ℕ} {out span : Str}
    (h : maxChars < out.length + span.length) :
    (out ++ span.take (maxChars - out.length)).length ≤ maxChars ↔ out.length ≤ maxChars := by
  rw [List.length_append, List.length_take]
  omega

/-- **The loop keeps the budget exactly when no separator is written across its end.** -/
theorem length_compressLoop_le_iff {maxChars : ℕ} {written spans : List Str}
    (hwritten : ∀ span ∈ written, span ≠ []) (hspans : ∀ span ∈ spans, span ≠ [])
    (hfits : (join SEPARATOR written).length ≤ maxChars) :
    (compressLoop maxChars (join SEPARATOR written) spans).length ≤ maxChars ↔
      NoStraddle maxChars written spans := by
  induction spans generalizing written with
  | nil =>
      refine iff_of_true hfits (fun k _ hle hlt => ?_)
      rw [List.append_nil] at hlt
      omega
  | cons span rest ih =>
      obtain ⟨hspan, hrest⟩ := List.forall_mem_cons.1 hspans
      have hnext : ∀ s ∈ written ++ [span], s ≠ [] :=
        List.forall_mem_append.2 ⟨hwritten, List.forall_mem_singleton.2 hspan⟩
      have hlen : (join SEPARATOR (written ++ [span])).length =
          (opened (join SEPARATOR written)).length + span.length := by
        rw [← opened_append hwritten, List.length_append]
      rw [compressLoop_cons]
      split
      · next hfull => exact iff_of_true hfits (noStraddle_of_full _ hfull)
      · next hroom =>
        rw [noStraddle_cons_iff hwritten, or_iff_right hroom]
        split
        · next hlong =>
          rw [length_append_take_le_iff hlong]
          exact (and_iff_left (noStraddle_of_full rest (by omega))).symm
        · next hshort =>
          rw [opened_append hwritten, ih hnext hrest (by omega)]
          exact (and_iff_right (by omega)).symm

example : (compressLoop 12 [] ["alpha beta".toList, "gamma".toList]).length = 13 := by decide

/-! ## The compressed text -/

/-- What holds of the trimmed sentences that are not blank holds of the spans. -/
theorem forall_mem_foldl_pushSpan {F : Type} [ScoreArith F] (score : Str → F) {P : Str → Prop}
    {spans : List (SalientSpan F)} {sentences : List Str}
    (hsentences : ∀ sentence ∈ sentences, trim sentence ≠ [] → P (trim sentence))
    (h : ∀ span ∈ spans, P span.text) :
    ∀ span ∈ sentences.foldl (pushSpan score) spans, P span.text := by
  induction sentences generalizing spans with
  | nil => exact h
  | cons sentence rest ih =>
      obtain ⟨hsentence, hrest⟩ := List.forall_mem_cons.1 hsentences
      refine ih hrest ?_
      rw [pushSpan]
      split
      · exact h
      · dsimp only
        split
        · exact h
        · next hne =>
          split
          · exact h
          · exact List.forall_mem_append.2 ⟨h, List.forall_mem_singleton.2 (hsentence hne)⟩

section Compressed

variable {F : Type} [ScoreArith F] (score : AppIdentity → Str → F) (order : SpanOrder F)
  (cleaned : Str) (app : AppIdentity)

/-- The texts of the ranked spans. -/
def rankedTexts : List Str := (rankSalientSpans score order cleaned app).map SalientSpan.text

theorem rankedTexts_eq_nil_iff :
    rankedTexts score order cleaned app = [] ↔ rankSalientSpans score order cleaned app = [] :=
  List.map_eq_nil_iff

/-- What holds of the sentences holds of the ranked texts. -/
theorem forall_mem_rankedTexts {P : Str → Prop}
    (h : ∀ block ∈ splitBlocks cleaned, ∀ sentence ∈ splitBlockIntoSentences block,
      trim sentence ≠ [] → P (trim sentence)) :
    ∀ text ∈ rankedTexts score order cleaned app, P text := by
  rw [rankedTexts, List.forall_mem_map]
  intro span hspan
  rw [rankSalientSpans] at hspan
  split at hspan
  · exact absurd hspan List.not_mem_nil
  · refine forall_mem_foldl_pushSpan (score app) (fun sentence hsentence => ?_)
      (fun _ hmem => absurd hmem List.not_mem_nil) span ((order.perm _).subset hspan)
    obtain ⟨block, hblock, hmem⟩ := List.mem_flatMap.1 hsentence
    exact h block hblock sentence hmem

theorem ne_nil_of_mem_rankedTexts : ∀ text ∈ rankedTexts score order cleaned app, text ≠ [] :=
  forall_mem_rankedTexts score order cleaned app fun _ _ _ _ hne => hne

theorem rankedTexts_of_blank (h : trim cleaned = []) :
    rankedTexts score order cleaned app = [] := by
  rw [rankedTexts, rankSalientSpans, if_pos h, List.map_nil]

variable {score order cleaned app}

/-- The text is the loop's as soon as a span is ranked. -/
theorem compressToSalientEvidence_eq (maxChars : ℕ) (h : rankedTexts score order cleaned app ≠ []) :
    compressToSalientEvidence score order cleaned app maxChars =
      compressLoop maxChars [] (rankedTexts score order cleaned app) := by
  have htext : trim cleaned ≠ [] :=
    fun hblank => h (rankedTexts_of_blank score order cleaned app hblank)
  rw [compressToSalientEvidence]
  split
  · next hzero =>
    rw [hzero.resolve_right htext]
    cases rankedTexts score order cleaned app with
    | nil => rfl
    | cons span rest => rfl
  · dsimp only
    rw [if_neg (mt (rankedTexts_eq_nil_iff score order cleaned app).2 h)]
    rfl

/-- Without a ranked span it is the head of the text. -/
theorem compressToSalientEvidence_of_none (maxChars : ℕ)
    (h : rankedTexts score order cleaned app = []) :
    compressToSalientEvidence score order cleaned app maxChars =
      if trim cleaned = [] then [] else cleaned.take maxChars := by
  rw [compressToSalientEvidence]
  dsimp only
  rw [if_pos ((rankedTexts_eq_nil_iff score order cleaned app).1 h)]
  by_cases hblank : trim cleaned = []
  · rw [if_pos (Or.inr hblank), if_pos hblank]
  · rw [if_neg hblank]
    split
    · next hzero => rw [hzero.resolve_right hblank, List.take_zero]
    · rfl

variable (score order cleaned app)

/-- The budget is kept exactly when no separator is written across its end. -/
theorem length_compressToSalientEvidence_le_iff (maxChars : ℕ) :
    (compressToSalientEvidence score order cleaned app maxChars).length ≤ maxChars ↔
      NoStraddle maxChars [] (rankedTexts score order cleaned app) := by
  by_cases hnone : rankedTexts score order cleaned app = []
  · rw [compressToSalientEvidence_of_none maxChars hnone, hnone]
    refine iff_of_true ?_ (fun k _ _ hk => absurd hk (Nat.not_lt_zero k))
    split
    · exact Nat.zero_le _
    · exact List.length_take_le _ _
  · rw [compressToSalientEvidence_eq maxChars hnone]
    exact length_compressLoop_le_iff (fun _ h => absurd h List.not_mem_nil)
      (ne_nil_of_mem_rankedTexts score order cleaned app) (Nat.zero_le maxChars)

/-- What is said of a compressed text: the head of a text without ranked spans, or else spans in
    rank order, in the budget as long as no separator is written across its end. -/
structure Compressed (maxChars : ℕ) (out : Str) : Prop where
  head : rankedTexts score order cleaned app = [] →
    out = if trim cleaned = [] then [] else cleaned.take maxChars
  madeOf : rankedTexts score order cleaned app ≠ [] →
    MadeOf (rankedTexts score order cleaned app) out
  budget : (∀ k, 0 < k → k < (rankedTexts score order cleaned app).length →
      ¬ Straddles maxChars (rankedTexts score order cleaned app) k) → out.length ≤ maxChars

/-- **Compressed texts are made of spans in rank order.** -/
theorem compressToSalientEvidence_compressed (maxChars : ℕ) :
    Compressed score order cleaned app maxChars
      (compressToSalientEvidence score order cleaned app maxChars) where
  head := compressToSalientEvidence_of_none maxChars
  madeOf := by
    intro hranked
    rw [compressToSalientEvidence_eq maxChars hranked]
    exact madeOf_compressLoop maxChars (fun _ h => absurd h List.not_mem_nil)
      (ne_nil_of_mem_rankedTexts score order cleaned app)
  budget := fun h => (length_compressToSalientEvidence_le_iff score order cleaned app maxChars).2
    (fun k hpos _ hk => h k hpos hk)

end Compressed

section Tests

attribute [local instance] asciiTables asciiUppercase

/-- A text too short for a score is returned as it is. -/
theorem compress_of_short_text_not_madeOf :
    ¬ ∀ (score : AppIdentity → Str → ℚ) (order : SpanOrder ℚ) (cleaned : Str) (app : AppIdentity)
        (maxChars : ℕ),
      (compressToSalientEvidence score order cleaned app maxChars).length ≤ maxChars ∧
        MadeOf (rankedTexts score order cleaned app)
          (compressToSalientEvidence score order cleaned app maxChars) := by
  intro h
  let app := AppIdentity.fromName "Notes".toList
  have hmade := (h spanScore .byScore "Hi".toList app 10).2
  have hsentences : ((splitBlocks "Hi".toList).flatMap splitBlockIntoSentences).foldl
      (pushSpan (spanScore (F := ℚ) app)) [] = [] := List.isEmpty_iff.1 (by decide +kernel)
  have hnone : rankedTexts (F := ℚ) spanScore .byScore "Hi".toList app = [] := by
    rw [rankedTexts_eq_nil_iff, rankSalientSpans, if_neg (by decide)]
    dsimp only
    rw [hsentences]
    exact List.perm_nil.1 (SpanOrder.perm _ [])
  rw [compressToSalientEvidence_of_none _ hnone, hnone] at hmade
  exact absurd hmade.eq_nil (by decide)

end Tests

end Fndr
