import Fndr.Library.Lines
import Fndr.Privacy.Policy

set_option autoImplicit false

/-! # Redaction under an owner's policy

The gate looks for secret patterns in the whole text (`evaluateWithPolicy`), redaction looks for
them line by line and writes a fixed text over the lines it finds (`redactSecretLinesWithPolicy`).
The two agree, and one pass of redaction is enough, exactly for the texts of `RedactsByLine`: no
pattern is read across the line breaks alone, the replacement holds no pattern, and reading the
output back loses neither a carriage return nor an empty last line (`redactionFinishes_iff`). -/

namespace Fndr

open RustStd

/-! ## What redaction promises -/

section Policy

variable [UnicodeTables] [UrlCrate]

/-- Redaction finishes the job on a text. -/
structure RedactionFinishes (policy : SensitiveContextPolicy) (text : Str) : Prop where
  counts : 0 < (redactSecretLinesWithPolicy text policy).2 ↔
    containsSecretPattern text policy.secretPatterns = true
  /-- a positive count is what the gate's last rule answers with `Redact` -/
  answers : ∀ (context : SafetyContext) (blocklist : Blocklist),
    evaluateWithPolicy { context with ocrText := none } blocklist policy = .allow →
    (0 < (redactSecretLinesWithPolicy text policy).2 ↔
      evaluateWithPolicy (context.withText text) blocklist policy = .redact .secretPattern)
  clean : SecretFree policy.secretPatterns (redactSecretLinesWithPolicy text policy).1
  settled : redactSecretLinesWithPolicy (redactSecretLinesWithPolicy text policy).1 policy
    = ((redactSecretLinesWithPolicy text policy).1, 0)
  kept : ∀ (i : ℕ) (line : Str), (lines text)[i]? = some line →
    SecretFree policy.secretPatterns line →
    (split (· == '\n') (redactSecretLinesWithPolicy text policy).1)[i]? = some line

end Policy

/-- A line holds one of the patterns. -/
def HoldsSecret (patterns : List Str) (line : Str) : Prop :=
  containsSecretPattern line patterns = true

instance (patterns : List Str) : DecidablePred (HoldsSecret patterns) :=
  fun _ => inferInstanceAs (Decidable (_ = true))

theorem not_holdsSecret_iff (patterns : List Str) (line : Str) :
    ¬ HoldsSecret patterns line ↔ SecretFree patterns line := by
  rw [HoldsSecret, Bool.not_eq_true, containsSecretPattern_eq_false_iff]

/-- The texts on which redacting line by line is enough. -/
structure RedactsByLine (patterns : List Str) (text : Str) : Prop where
  /-- a pattern broken over lines comes with one inside a line -/
  within : (∃ p ∈ patterns, ReadsAcross '\n' p ((split (· == '\n') text).map toAsciiLowercase)) →
    ∃ line ∈ lines text, HoldsSecret patterns line
  /-- the text written over a line holds no pattern, if it is written at all -/
  replacement : (∃ line ∈ lines text, HoldsSecret patterns line) → SecretFree patterns REDACTED_LINE
  /-- no pattern is read across the breaks, with the fixed text in place of the lines that hold one -/
  across : ∀ p ∈ patterns, ¬ ReadsAcross '\n' p ((lines text).map (fun line =>
    toAsciiLowercase (if HoldsSecret patterns line then REDACTED_LINE else line)))
  /-- no line before the last keeps a carriage return at its end -/
  returns : ∀ line ∈ (lines text).dropLast, SecretFree patterns line → line.getLast? ≠ some '\r'
  /-- of several lines the last is not empty -/
  last : (lines text).length ≤ 1 ∨ (lines text).getLast? ≠ some []

/-! ## Patterns of a policy -/

/-- Patterns as `SensitiveContextPolicy::new` leaves them: not empty, and no white space last. -/
def TrimmedPatterns (patterns : List Str) : Prop :=
  ∀ p ∈ patterns, p ≠ [] ∧ p.getLast? ≠ some '\r'

theorem trimmedPatterns_normalizeWord (entries : List Str) :
    TrimmedPatterns (normalizeWord entries) := by
  intro p hp
  obtain ⟨hmem, hne⟩ := List.mem_filter.1 hp
  obtain ⟨e, -, rfl⟩ := List.mem_map.1 hmem
  refine ⟨by simpa using hne, fun hlast => ?_⟩
  rw [toAsciiLowercase, List.getLast?_map, Option.map_eq_some_iff] at hlast
  obtain ⟨c, hc, hlower⟩ := hlast
  have hspace := isWhitespace_getLast?_trim e c hc
  rw [← isWhitespace_toLower, hlower] at hspace
  exact absurd hspace (by decide)

theorem holdsSecret_iff (patterns : List Str) (text : Str) :
    HoldsSecret patterns text ↔ ∃ p ∈ patterns, p <:+: toAsciiLowercase text := by
  rw [HoldsSecret, containsSecretPattern, List.any_eq_true]
  exact exists_congr (fun p => and_congr_right (fun _ => decide_eq_true_iff))

/-- The whole text holds a pattern when one of its lines does or one is read across its breaks. -/
theorem holdsSecret_text_iff {patterns : List Str} (h : TrimmedPatterns patterns) (text : Str) :
    HoldsSecret patterns text ↔ (∃ line ∈ lines text, HoldsSecret patterns line) ∨
      ∃ p ∈ patterns, ReadsAcross '\n' p ((split (· == '\n') text).map toAsciiLowercase) := by
  have hpattern : ∀ p ∈ patterns, (p <:+: toAsciiLowercase text ↔
      (∃ line ∈ lines text, p <:+: toAsciiLowercase line) ∨
        ReadsAcross '\n' p ((split (· == '\n') text).map toAsciiLowercase)) := by
    intro p hp
    obtain ⟨hne, hlast⟩ := h p hp
    conv_lhs => rw [← join_split '\n' text, toAsciiLowercase, map_join _ (by decide)]
    rw [infix_join_iff hne]
    refine or_congr ?_ Iff.rfl
    simp only [List.mem_map, exists_exists_and_eq_and]
    exact (exists_mem_lines_infix_iff hne Char.toLower hlast text).symm
  simp only [holdsSecret_iff]
  constructor
  · rintro ⟨p, hp, hin⟩
    rcases (hpattern p hp).1 hin with ⟨line, hline, hin⟩ | hacross
    · exact Or.inl ⟨line, hline, p, hp, hin⟩
    · exact Or.inr ⟨p, hp, hacross⟩
  · rintro (⟨line, hline, p, hp, hin⟩ | ⟨p, hp, hacross⟩)
    · exact ⟨p, hp, (hpattern p hp).2 (Or.inl ⟨line, hline, hin⟩)⟩
    · exact ⟨p, hp, (hpattern p hp).2 (Or.inr hacross)⟩

/-! ## The redacted lines -/

/-- The lines as redaction leaves them. -/
def redactedLines (patterns : List Str) (text : Str) : List Str :=
  (lines text).map (redactLine patterns)

theorem redactLine_of_secretFree {patterns : List Str} {line : Str} (h : SecretFree patterns line) :
    redactLine patterns line = line := by
  rw [redactLine, if_neg]
  exact (not_holdsSecret_iff patterns line).2 h

theorem redactLine_of_holdsSecret {patterns : List Str} {line : Str}
    (h : HoldsSecret patterns line) : redactLine patterns line = REDACTED_LINE := if_pos h

theorem not_mem_redactedLines {patterns : List Str} {text : Str} :
    ∀ line ∈ redactedLines patterns text, '\n' ∉ line := by
  intro line hline
  obtain ⟨original, horiginal, rfl⟩ := List.mem_map.1 hline
  unfold redactLine
  split
  · decide
  · exact not_mem_of_mem_lines horiginal

theorem redactSecretLinesMatching_fst (text : Str) (patterns : List Str) :
    (redactSecretLinesMatching text patterns).1 = join ['\n'] (redactedLines patterns text) := rfl

/-- The count is positive when a line holds a pattern. -/
theorem count_pos_iff (text : Str) (patterns : List Str) :
    0 < (redactSecretLinesMatching text patterns).2 ↔
      ∃ line ∈ lines text, HoldsSecret patterns line := List.countP_pos_iff

/-- What remains holds no pattern when neither the lines nor their breaks show one. -/
theorem secretFree_redacted_iff {patterns : List Str} (h : TrimmedPatterns patterns) (text : Str) :
    SecretFree patterns (redactSecretLinesMatching text patterns).1 ↔
      ((∃ line ∈ lines text, HoldsSecret patterns line) → SecretFree patterns REDACTED_LINE) ∧
      ∀ p ∈ patterns, ¬ ReadsAcross '\n' p
        ((lines text).map (fun line => toAsciiLowercase (redactLine patterns line))) := by
  -- a pattern in the joined lines is in one line or across their ends
  have hpattern : ∀ p ∈ patterns,
      (Avoids Char.toLower p (join ['\n'] (redactedLines patterns text)) ↔
        (∀ line ∈ lines text, Avoids Char.toLower p (redactLine patterns line)) ∧
          ¬ ReadsAcross '\n' p
            ((lines text).map (fun line => toAsciiLowercase (redactLine patterns line)))) := by
    intro p hp
    rw [Avoids, map_join _ (by decide), infix_join_iff (h p hp).1, not_or, redactedLines,
      List.map_map]
    refine and_congr ?_ Iff.rfl
    simp only [List.mem_map, exists_exists_and_eq_and, not_exists, not_and]
    exact Iff.rfl
  -- a line that holds a pattern is the fixed one, and every other line is free of them
  have hlines : (∀ line ∈ lines text, SecretFree patterns (redactLine patterns line)) ↔
      ((∃ line ∈ lines text, HoldsSecret patterns line) → SecretFree patterns REDACTED_LINE) := by
    constructor
    · rintro hfree ⟨line, hline, hholds⟩
      exact redactLine_of_holdsSecret hholds ▸ hfree line hline
    · intro hreplacement line hline
      by_cases hholds : HoldsSecret patterns line
      · rw [redactLine_of_holdsSecret hholds]
        exact hreplacement ⟨line, hline, hholds⟩
      · have hfree := (not_holdsSecret_iff patterns line).1 hholds
        rwa [redactLine_of_secretFree hfree]
  rw [redactSecretLinesMatching_fst, ← hlines]
  constructor
  · intro hclean
    exact ⟨fun line hline p hp => ((hpattern p hp).1 (hclean p hp)).1 line hline,
      fun p hp => ((hpattern p hp).1 (hclean p hp)).2⟩
  · rintro ⟨hfree, hacross⟩ p hp
    exact (hpattern p hp).2 ⟨fun line hline => hfree line hline p hp, hacross p hp⟩

/-- A clean output is redacted to the lines read back from it. -/
theorem redact_of_secretFree {patterns : List Str} {text : Str} (h : SecretFree patterns text) :
    redactSecretLinesMatching text patterns = (join ['\n'] (lines text), 0) := by
  have hline : ∀ line ∈ lines text, SecretFree patterns line := fun line hline =>
    h.of_isInfix (infix_of_mem_lines hline)
  have hsame : (lines text).map (redactLine patterns) = lines text := by
    conv_rhs => rw [← List.map_id (lines text)]
    exact List.map_congr_left (fun line hmem => redactLine_of_secretFree (hline line hmem))
  rw [redactSecretLinesMatching, hsame, List.countP_eq_zero.2]
  · rfl
  · exact fun line hmem => (not_holdsSecret_iff patterns line).2 (hline line hmem)

theorem redactLine_eq_nil_iff {patterns : List Str} (h : TrimmedPatterns patterns) (line : Str) :
    redactLine patterns line = [] ↔ line = [] := by
  constructor
  · intro hnil
    by_cases hholds : HoldsSecret patterns line
    · rw [redactLine_of_holdsSecret hholds] at hnil
      exact absurd hnil (by decide)
    · rwa [redactLine_of_secretFree ((not_holdsSecret_iff patterns line).1 hholds)] at hnil
  · rintro rfl
    exact redactLine_of_secretFree (fun p hp => avoids_nil (h p hp).1)

/-- A second pass keeps a clean output when no carriage return and no empty last line is lost. -/
theorem settled_iff {patterns : List Str} (h : TrimmedPatterns patterns) {text : Str}
    (hclean : SecretFree patterns (redactSecretLinesMatching text patterns).1) :
    redactSecretLinesMatching (redactSecretLinesMatching text patterns).1 patterns
        = ((redactSecretLinesMatching text patterns).1, 0) ↔
      (∀ line ∈ (lines text).dropLast, SecretFree patterns line → line.getLast? ≠ some '\r') ∧
        ((lines text).length ≤ 1 ∨ (lines text).getLast? ≠ some []) := by
  rw [redact_of_secretFree hclean, Prod.mk.injEq, redactSecretLinesMatching_fst, eq_self_iff_true,
    and_true, join_lines_join_eq_iff not_mem_redactedLines, redactedLines, List.length_map,
    ← List.map_dropLast, List.getLast?_map]
  refine and_congr ?_ (or_congr Iff.rfl (not_congr ?_))
  · simp only [List.mem_map, forall_exists_index, and_imp, forall_apply_eq_imp_iff₂]
    refine forall₂_congr (fun line _ => ?_)
    by_cases hholds : HoldsSecret patterns line
    · rw [redactLine_of_holdsSecret hholds]
      exact iff_of_true (by decide) (fun hfree => absurd hholds ((not_holdsSecret_iff _ _).2 hfree))
    · have hfree := (not_holdsSecret_iff patterns line).1 hholds
      rw [redactLine_of_secretFree hfree]
      exact ⟨fun hlast _ => hlast, fun hlast => hlast hfree⟩
  · rw [Option.map_eq_some_iff]
    constructor
    · rintro ⟨line, hlast, hnil⟩
      rwa [(redactLine_eq_nil_iff h line).1 hnil] at hlast
    · exact fun hlast => ⟨[], hlast, (redactLine_eq_nil_iff h []).2 rfl⟩

/-- A line without a pattern stays where it is. -/
theorem kept_in_place {patterns : List Str} {text line : Str} {i : ℕ}
    (hline : (lines text)[i]? = some line) (hfree : SecretFree patterns line) :
    (split (· == '\n') (redactSecretLinesMatching text patterns).1)[i]? = some line := by
  have hne : redactedLines patterns text ≠ [] := by
    intro hnil
    rw [List.map_eq_nil_iff.1 hnil] at hline
    cases hline
  rw [redactSecretLinesMatching_fst, split_join not_mem_redactedLines hne, redactedLines,
    List.getElem?_map, hline, Option.map_some, redactLine_of_secretFree hfree]

/-! ## When redaction finishes -/

section Policy

variable [UnicodeTables] [UrlCrate]

/-- Once the metadata allows a capture, the gate answers `Redact` for a text with a pattern. -/
theorem evaluateWithPolicy_redact_iff {context : SafetyContext} {blocklist : Blocklist}
    {policy : SensitiveContextPolicy} (text : Str)
    (hallow : evaluateWithPolicy { context with ocrText := none } blocklist policy = .allow) :
    evaluateWithPolicy (context.withText text) blocklist policy = .redact .secretPattern ↔
      containsSecretPattern text policy.secretPatterns = true := by
  have hthen : evaluateWithPolicy (context.withText text) blocklist policy =
      (evaluateWithPolicy { context with ocrText := none } blocklist policy).thenText
        (if containsSecretPattern text policy.secretPatterns then .redact .secretPattern
          else .allow) :=
    evaluateCore_with_text { context with ocrText := none } blocklist text rfl _ _ _ _ _
  rw [hthen, hallow]
  show (if _ then _ else _) = _ ↔ _
  by_cases hholds : containsSecretPattern text policy.secretPatterns = true
  · rw [if_pos hholds]
    exact iff_of_true rfl hholds
  · rw [if_neg hholds]
    exact iff_of_false (fun heq => by cases heq) hholds

/-- **Redaction finishes on exactly the texts that are redacted by lines.** -/
theorem redactionFinishes_iff (pm fd md auth pats : List Str) (text : Str) :
    RedactionFinishes (.new pm fd md auth pats) text ↔
      RedactsByLine (SensitiveContextPolicy.new pm fd md auth pats).secretPatterns text := by
  have htrimmed : TrimmedPatterns (SensitiveContextPolicy.new pm fd md auth pats).secretPatterns :=
    trimmedPatterns_normalizeWord pats
  constructor
  · intro h
    have hclean := (secretFree_redacted_iff htrimmed text).1 h.clean
    have hsettled := (settled_iff htrimmed h.clean).1 h.settled
    refine ⟨fun hacross => ?_, hclean.1, hclean.2, hsettled.1, hsettled.2⟩
    exact (count_pos_iff _ _).1 (h.counts.2 ((holdsSecret_text_iff htrimmed text).2
      (Or.inr hacross)))
  · intro h
    have hclean := (secretFree_redacted_iff htrimmed text).2 ⟨h.replacement, h.across⟩
    have hcounts : 0 < (redactSecretLinesWithPolicy text (.new pm fd md auth pats)).2 ↔
        containsSecretPattern text
          (SensitiveContextPolicy.new pm fd md auth pats).secretPatterns = true := by
      refine (count_pos_iff _ _).trans (Iff.trans ?_ (holdsSecret_text_iff htrimmed text).symm)
      exact ⟨Or.inl, fun hor => hor.elim id h.within⟩
    exact {
      counts := hcounts
      answers := fun context blocklist hallow =>
        hcounts.trans (evaluateWithPolicy_redact_iff text hallow).symm
      clean := hclean
      settled := (settled_iff htrimmed hclean).2 ⟨h.returns, h.last⟩
      kept := fun i line hline hfree => kept_in_place hline hfree }

omit [UnicodeTables] [UrlCrate] in
/-- For patterns of one line outside the replacement, only the ends of the lines matter. -/
theorem redactsByLine_iff_of_redactable {patterns : List Str} (h : Redactable patterns)
    (text : Str) :
    RedactsByLine patterns text ↔
      (∀ line ∈ (lines text).dropLast, SecretFree patterns line → line.getLast? ≠ some '\r') ∧
        ((lines text).length ≤ 1 ∨ (lines text).getLast? ≠ some []) :=
  ⟨fun hby => ⟨hby.returns, hby.last⟩, fun hends => {
    within := fun ⟨p, hp, hacross⟩ => absurd hacross.mem (h.oneLine p hp)
    replacement := fun _ => h.replacement
    across := fun p hp hacross => h.oneLine p hp hacross.mem
    returns := hends.1
    last := hends.2 }⟩

/-- The built-in patterns are of this kind. -/
theorem redactionFinishes_default_iff (text : Str) :
    RedactionFinishes .default text ↔
      (∀ line ∈ (lines text).dropLast, SecretFree SECRET_PATTERNS line →
          line.getLast? ≠ some '\r') ∧
        ((lines text).length ≤ 1 ∨ (lines text).getLast? ≠ some []) := by
  have hpatterns : SensitiveContextPolicy.default.secretPatterns = SECRET_PATTERNS := by
    show normalizeWord SECRET_PATTERNS = SECRET_PATTERNS
    decide
  rw [SensitiveContextPolicy.default, redactionFinishes_iff, ← SensitiveContextPolicy.default,
    hpatterns, redactsByLine_iff_of_redactable redactable_secretPatterns]

end Policy

/-! ## A pattern that the replacement contains -/

section Secret

attribute [local instance] asciiTables noUrls

/-- The owner added the word `secret`. -/
def secretPolicy : SensitiveContextPolicy := .new [] [] [] [] ["Secret".toList]

theorem redaction_of_secret_unfinished :
    ¬ ∀ (pm fd md auth pats : List Str) (text : Str),
      RedactionFinishes (.new pm fd md auth pats) text := by
  intro h
  have hclean := (h [] [] [] [] ["Secret".toList] "a\nmy secret".toList).clean
  exact absurd hclean (by decide)

example : (redactSecretLinesWithPolicy
    (redactSecretLinesWithPolicy "my secret".toList secretPolicy).1 secretPolicy).2 = 1 := by decide

end Secret

end Fndr
