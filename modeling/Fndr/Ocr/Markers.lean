import Fndr.Ocr.Vision

set_option autoImplicit false

/-! # The confidence marker in the noise filter

The marker that the preprocessing writes before a line of low confidence is text to the filter
behind it. The length floor, the word list, the two patterns, the percentage and the date prefixes
never apply to a marked line, and the ratio of special characters and the length of a date change
(`passes_marked`): noise that is marked is kept. A marked and an unmarked line with the same text
are no repeats of each other and take two of the places, and a captured line may be spelled like a
marked one.

Which lines survive, up to repeats, is the same for all confidences exactly when none of this
matters (`survivors_same_iff`). -/

namespace Fndr

open RustStd

/-! ## What becomes of a marked line -/

/-- What is documented of the two tables for ASCII. -/
class LawfulNumerals [NumeralTables] : Prop where
  isNumeric_ascii : ∀ c : Char, c.toNat < 128 → isNumeric c = c.isDigit
  isDecimal_ascii : ∀ c : Char, c.toNat < 128 → isDecimal c = c.isDigit

theorem lawful_asciiNumerals : @LawfulNumerals asciiNumerals :=
  @LawfulNumerals.mk asciiNumerals (fun _ _ => rfl) (fun _ _ => rfl)

theorem marker_append (text : Str) :
    LOW_CONF_MARKER ++ text = "[LOW_CONF".toList ++ ']' :: (' ' :: text) := rfl

theorem tidy_marked {text : Str} (htidy : Tidy text) : Tidy (LOW_CONF_MARKER ++ text) :=
  @Tidy.render (true, text) htidy

theorem byteLen_marked (text : Str) : byteLen (LOW_CONF_MARKER ++ text) = 11 + byteLen text := by
  rw [byteLen, List.map_append, List.sum_append, byteLen]
  congr 1

/-- A pattern that the marker neither has nor begins stands in the text. -/
theorem contains_marked {pattern : Str} (hhead : ∀ c ∈ pattern.head?, c ≠ ' ')
    (hne : pattern ≠ []) (hbracket : ']' ∉ pattern)
    (hmarker : contains "[LOW_CONF".toList pattern = false) (text : Str) :
    contains (LOW_CONF_MARKER ++ text) pattern = contains text pattern := by
  rw [contains, contains, decide_eq_decide, marker_append]
  rw [contains, decide_eq_false_iff_not] at hmarker
  constructor
  · intro h
    rcases infix_append_cons hbracket h with h | h
    · exact absurd h hmarker
    · rcases List.infix_cons_iff.1 h with h | h
      · obtain ⟨c, cs, rfl⟩ := List.exists_cons_of_ne_nil hne
        rw [List.cons_prefix_cons] at h
        exact absurd h.1 (hhead c rfl)
      · exact h
  · intro h
    exact h.trans (List.suffix_append LOW_CONF_MARKER text).isInfix

theorem any_congr_mem {α : Type} {l : List α} {p q : α → Bool} (h : ∀ a ∈ l, p a = q a) :
    l.any p = l.any q := by
  rw [Bool.eq_iff_iff, List.any_eq_true, List.any_eq_true]
  exact exists_congr (fun a => and_congr_right (fun ha => by rw [h a ha]))

theorem base_contains_marked (text : Str) :
    ∀ pattern ∈ BASE_PATTERNS, contains (LOW_CONF_MARKER ++ text) pattern = contains text pattern := by
  have h : ∀ pattern ∈ BASE_PATTERNS, (∀ c ∈ pattern.head?, c ≠ ' ') ∧ pattern ≠ [] ∧
      ']' ∉ pattern ∧ contains "[LOW_CONF".toList pattern = false := by decide +kernel
  intro pattern hpattern
  obtain ⟨hhead, hne, hbracket, hmarker⟩ := h pattern hpattern
  exact contains_marked hhead hne hbracket hmarker text

theorem month_contains_marked (text : Str) :
    ∀ month ∈ MONTH_NAMES, contains (LOW_CONF_MARKER ++ text) month = contains text month := by
  have h : ∀ month ∈ MONTH_NAMES, (∀ c ∈ month.head?, c ≠ ' ') ∧ month ≠ [] ∧
      ']' ∉ month ∧ contains "[LOW_CONF".toList month = false := by decide +kernel
  intro month hmonth
  obtain ⟨hhead, hne, hbracket, hmarker⟩ := h month hmonth
  exact contains_marked hhead hne hbracket hmarker text

section Marked

variable [UnicodeTables] [NumeralTables] [LawfulNumerals]

omit [UnicodeTables] [LawfulNumerals] in
theorem takeWhile_decimal_marked [LawfulNumerals] (text : Str) :
    (LOW_CONF_MARKER ++ text).takeWhile isDecimal = [] := by
  rw [show LOW_CONF_MARKER ++ text = '[' :: ("LOW_CONF] ".toList ++ text) from rfl,
    List.takeWhile_cons_of_neg]
  rw [LawfulNumerals.isDecimal_ascii '[' (by decide)]
  decide

omit [UnicodeTables] in
theorem not_time_marked (text : Str) : timeRegexIsMatch (LOW_CONF_MARKER ++ text) = false := by
  rw [timeRegexIsMatch, takeWhile_decimal_marked]
  rfl

omit [UnicodeTables] in
theorem not_size_marked (text : Str) : sizeRegexIsMatch (LOW_CONF_MARKER ++ text) = false := by
  rw [sizeRegexIsMatch, takeWhile_decimal_marked]
  rfl

omit [NumeralTables] [LawfulNumerals] in
/-- The marker is a word of its own. -/
theorem not_uiWord_marked {text : Str} (htidy : Tidy text) :
    isUiWord (LOW_CONF_MARKER ++ text) = false := by
  have hmarker : fields isWhitespace "[LOW_CONF]".toList = ["[LOW_CONF]".toList] := by decide
  have hwords : splitWhitespace (LOW_CONF_MARKER ++ text)
      = "[LOW_CONF]".toList :: splitWhitespace text := by
    rw [splitWhitespace_eq_fields, splitWhitespace_eq_fields,
      show LOW_CONF_MARKER ++ text = "[LOW_CONF]".toList ++ ' ' :: text from rfl,
      fields_append_cons _ _ (by decide), hmarker]
    rfl
  have hne : splitWhitespace text ≠ [] := by
    rw [splitWhitespace_eq_fields, ne_eq, fields_eq_nil_iff]
    intro hall
    obtain ⟨c, cs, rfl⟩ := List.exists_cons_of_ne_nil htidy.ne_nil
    have := htidy.head c rfl
    rw [hall c List.mem_cons_self] at this
    cases this
  obtain ⟨w, ws, hcons⟩ := List.exists_cons_of_ne_nil hne
  rw [isUiWord, hwords, hcons]

omit [UnicodeTables] in
theorem not_percentage_marked {text : Str} (htidy : Tidy text) :
    isPercentage (LOW_CONF_MARKER ++ text) = false := by
  have htrim : trim (LOW_CONF_MARKER ++ text) = LOW_CONF_MARKER ++ text :=
    (tidy_marked htidy).trim_eq
  have hbracket : (isNumeric '[' || '[' == '%' || '[' == '.') = false := by
    rw [LawfulNumerals.isNumeric_ascii '[' (by decide)]
    decide
  rw [isPercentage, htrim, Bool.and_eq_false_iff]
  refine Or.inr ?_
  rw [show LOW_CONF_MARKER ++ text = '[' :: ("LOW_CONF] ".toList ++ text) from rfl, List.all_cons,
    hbracket, Bool.false_and]

omit [UnicodeTables] [NumeralTables] [LawfulNumerals] in
/-- A marked line begins with no day, and is short only if it is the month alone. -/
theorem isDate_marked (text : Str) :
    isDate (LOW_CONF_MARKER ++ text)
      = MONTH_NAMES.any (fun month => contains text month && byteLen text < 4) := by
  have hday : DATE_PREFIXES.any (fun name =>
      startsWith (LOW_CONF_MARKER ++ text) name && byteLen (LOW_CONF_MARKER ++ text) < 20)
        = false := by
    rw [List.any_eq_false]
    intro name hname hstarts
    rw [Bool.and_eq_true, startsWith, decide_eq_true_iff] at hstarts
    have hhead : ∀ name ∈ DATE_PREFIXES, name ≠ [] ∧ name.head? ≠ some '[' := by decide
    obtain ⟨hne, hother⟩ := hhead name hname
    obtain ⟨c, cs, rfl⟩ := List.exists_cons_of_ne_nil hne
    have hpre : c :: cs <+: '[' :: ("LOW_CONF] ".toList ++ text) := hstarts.1
    rw [List.cons_prefix_cons] at hpre
    exact hother (congrArg some hpre.1)
  rw [isDate, hday, Bool.false_or, byteLen_marked]
  refine any_congr_mem (fun month hmonth => ?_)
  rw [month_contains_marked text month hmonth]
  congr 1
  rw [decide_eq_decide]
  omega

omit [LawfulNumerals] in
/-- The default verdict on a line. -/
theorem passes_default (F : Type) [ScoreArith F] (line : Str) :
    (OcrEngine.withConfig .ofDefault).passes F line =
      !(decide (byteLen line < 7) || (BASE_PATTERNS.any (fun pattern => contains line pattern) ||
        (mostlySpecial F line || isUiWord line || timeRegexIsMatch line || isPercentage line ||
          sizeRegexIsMatch (trim line) || isDate line))) := rfl

/-- **What makes a marked line noise.** -/
theorem passes_marked (F : Type) [ScoreArith F] {text : Str} (htidy : Tidy text) :
    (OcrEngine.withConfig .ofDefault).passes F (render (true, text)) =
      !(BASE_PATTERNS.any (fun pattern => contains text pattern) ||
        mostlySpecial F (LOW_CONF_MARKER ++ text) ||
        MONTH_NAMES.any (fun month => contains text month && byteLen text < 4)) := by
  have htrim : trim (LOW_CONF_MARKER ++ text) = LOW_CONF_MARKER ++ text :=
    (tidy_marked htidy).trim_eq
  have hlong : ¬ byteLen (LOW_CONF_MARKER ++ text) < 7 := by
    rw [byteLen_marked]
    omega
  have hbase : BASE_PATTERNS.any (fun pattern => contains (LOW_CONF_MARKER ++ text) pattern)
      = BASE_PATTERNS.any (fun pattern => contains text pattern) :=
    any_congr_mem (base_contains_marked text)
  rw [show render (true, text) = LOW_CONF_MARKER ++ text from rfl, passes_default, htrim, hbase,
    not_uiWord_marked htidy, not_time_marked, not_percentage_marked htidy, not_size_marked,
    isDate_marked, decide_eq_false hlong]
  simp only [Bool.false_or, Bool.or_false, Bool.or_assoc]

/-- What the filter finds in an unmarked line, beside the patterns. -/
def noisyAlone (F : Type) [ScoreArith F] (text : Str) : Bool :=
  byteLen text < 7 || mostlySpecial F text || isUiWord text || timeRegexIsMatch text ||
    isPercentage text || sizeRegexIsMatch text || isDate text

omit [NumeralTables] [LawfulNumerals] in
/-- What it finds in the line with the marker. -/
def noisyMarked (F : Type) [ScoreArith F] (text : Str) : Bool :=
  mostlySpecial F (LOW_CONF_MARKER ++ text) ||
    MONTH_NAMES.any (fun month => contains text month && byteLen text < 4)

/-- A pattern stands in the line, or the filter finds the same with and without the marker. -/
def MarkerBlind (F : Type) [ScoreArith F] (text : Str) : Prop :=
  BASE_PATTERNS.any (fun pattern => contains text pattern) = true ∨
    noisyMarked F text = noisyAlone F text

omit [LawfulNumerals] in
theorem passes_alone (F : Type) [ScoreArith F] {text : Str} (htidy : Tidy text) :
    (OcrEngine.withConfig .ofDefault).passes F (render (false, text)) =
      !(BASE_PATTERNS.any (fun pattern => contains text pattern) || noisyAlone F text) := by
  rw [show render (false, text) = text from rfl, passes_default, htidy.trim_eq, noisyAlone,
    Bool.or_left_comm]
  simp only [Bool.or_assoc]

theorem passes_marked_eq_iff (F : Type) [ScoreArith F] {text : Str} (htidy : Tidy text) :
    (markerPass F).passes true text = (markerPass F).passes false text ↔ MarkerBlind F text := by
  have hpasses : ∀ lowConf, (markerPass F).passes lowConf text
      = (OcrEngine.withConfig .ofDefault).passes F (render (lowConf, text)) := fun _ => rfl
  rw [hpasses, hpasses, passes_marked F htidy, passes_alone F htidy, Bool.or_assoc, ← noisyMarked,
    MarkerBlind, Bool.not_inj_iff]
  generalize BASE_PATTERNS.any (fun pattern => contains text pattern) = base
  cases base with
  | true => simp
  | false => simp

end Marked

/-! ## Which lines survive -/

section Law

variable [UnicodeTables] [NumeralTables] {F : Type} [ScoreArith F]

/-- The same texts, and the same of them below 0.40. -/
def SameLines (rawLines other : List (Str × F)) : Prop :=
  List.Forall₂ (fun a b => a.1 = b.1 ∧ (a.2 < 0.40 ↔ b.2 < 0.40)) rawLines other

instance (rawLines other : List (Str × F)) : Decidable (SameLines rawLines other) :=
  inferInstanceAs (Decidable (List.Forall₂ _ _ _))

/-- The lines of the text, each with the flag that says whether it bears the marker. -/
def survivors (rawLines : List (Str × F)) : List (Bool × Str) :=
  (markerPass F).keep ∅ (outputs none rawLines)

/-- The lines without the markers, the first of each text, whatever its letter case. -/
def distinctSurvivors (rawLines : List (Str × F)) : List Str :=
  (markerPass F).distinct ∅ ((survivors rawLines).map Prod.snd)

/-- Which lines survive depends on the confidences only below 0.40. -/
def SurvivorsSame (rawLines : List (Str × F)) : Prop :=
  ∀ other, SameLines rawLines other → distinctSurvivors rawLines = distinctSurvivors other

omit [NumeralTables] in
/-- Which texts come out of the preprocessing does not depend on the marked ones. -/
theorem outputs_sameLines {rawLines other : List (Str × F)} (h : SameLines rawLines other)
    (prevKey : Option Str) :
    (outputs prevKey other).map Prod.snd = (outputs prevKey rawLines).map Prod.snd := by
  induction h generalizing prevKey with
  | nil => rfl
  | @cons a b rest rest' hab _ ih =>
      obtain ⟨htext, hbelow⟩ := hab
      rw [outputs, outputs, ← htext]
      by_cases hdrop : a.2 < 0.40 ∨ join " ".toList (splitWhitespace a.1) = [] ∨
          prevKey = some (toLowercase (join " ".toList (splitWhitespace a.1)))
      · rw [if_pos hdrop, if_pos (hdrop.imp_left hbelow.1)]
        exact ih prevKey
      · rw [if_neg hdrop, if_neg (fun h => hdrop (h.imp_left hbelow.2)), List.map_cons,
          List.map_cons, ih]

omit [NumeralTables] in
/-- With a confidence below and one above 0.65 any of the lines can be the marked ones. -/
theorem exists_outputs {low high : F} (hlow : ¬ low < 0.40 ∧ low < 0.65)
    (hhigh : ¬ high < 0.40 ∧ ¬ high < 0.65) (rawLines : List (Str × F)) (prevKey : Option Str)
    (items : List (Bool × Str))
    (hitems : items.map Prod.snd = (outputs prevKey rawLines).map Prod.snd) :
    ∃ other, SameLines rawLines other ∧ outputs prevKey other = items := by
  induction rawLines generalizing prevKey items with
  | nil =>
      rw [outputs, List.map_nil, List.map_eq_nil_iff] at hitems
      exact ⟨[], List.Forall₂.nil, hitems.symm⟩
  | cons line rest ih =>
      rw [outputs] at hitems
      by_cases hdrop : line.2 < 0.40 ∨ join " ".toList (splitWhitespace line.1) = [] ∨
          prevKey = some (toLowercase (join " ".toList (splitWhitespace line.1)))
      · rw [if_pos hdrop] at hitems
        obtain ⟨other, hsame, houtputs⟩ := ih prevKey items hitems
        refine ⟨line :: other, List.Forall₂.cons ⟨rfl, Iff.rfl⟩ hsame, ?_⟩
        rw [outputs, if_pos hdrop, houtputs]
      · rw [if_neg hdrop, List.map_cons] at hitems
        obtain ⟨hkept, hrest⟩ := not_or.1 hdrop
        cases items with
        | nil => cases hitems
        | cons item items =>
            obtain ⟨htext, htail⟩ := List.cons.inj hitems
            obtain ⟨other, hsame, houtputs⟩ := ih _ items htail
            -- of the two confidences one gives the mark that is asked for
            obtain ⟨confidence, hband, hflag⟩ : ∃ confidence : F, ¬ confidence < 0.40 ∧
                decide (confidence < 0.65) = item.1 := by
              cases hitem : item.1 with
              | true => exact ⟨low, hlow.1, decide_eq_true hlow.2⟩
              | false => exact ⟨high, hhigh.1, decide_eq_false hhigh.2⟩
            refine ⟨(line.1, confidence) :: other,
              List.Forall₂.cons ⟨rfl, iff_of_false hkept hband⟩ hsame, ?_⟩
            rw [outputs, if_neg (not_or.2 ⟨hband, hrest⟩), houtputs, hflag]
            exact congrArg (· :: items) (Prod.ext rfl htext.symm)

/-- **The text is made of the surviving lines, and these do not depend on the confidences from 0.40
on exactly when the filter is indifferent to the markers.** What this asks of one line is that it is
blind to its marker. -/
theorem survivors_same_iff [LawfulUnicode] [LawfulNumerals] {low high : F}
    (hlow : ¬ low < 0.40 ∧ low < 0.65) (hhigh : ¬ high < 0.40 ∧ ¬ high < 0.65)
    (rawLines : List (Str × F)) :
    ((OcrEngine.withConfig .ofDefault).recognizeLines rawLines).1.text
        = join ['\n'] ((survivors rawLines).map render) ∧
      (SurvivorsSame rawLines ↔
        (markerPass F).Indifferent ∅ ∅ ((outputs none rawLines).map Prod.snd)) ∧
      ∀ line ∈ outputs none rawLines,
        ((markerPass F).passes true line.2 = (markerPass F).passes false line.2 ↔
          MarkerBlind F line.2) := by
  refine ⟨normalizeText_preprocessed F rawLines, ?_,
    fun line hline => passes_marked_eq_iff F (tidy_outputs rawLines none line hline)⟩
  have hcap : 0 < (markerPass F).cap := Nat.succ_pos 219
  rw [← FirstSeen.indifferent_iff hcap]
  constructor
  · intro h items items' hitems hitems'
    obtain ⟨other, hsame, rfl⟩ := exists_outputs hlow hhigh rawLines none items hitems
    obtain ⟨other', hsame', rfl⟩ := exists_outputs hlow hhigh rawLines none items' hitems'
    exact (h other hsame).symm.trans (h other' hsame')
  · intro h other hsame
    exact h _ _ rfl (outputs_sameLines hsame none)

end Law

section Frame

attribute [local instance] asciiTables asciiNumerals lawful_asciiTables lawful_asciiNumerals

/-- A title and a sentence. -/
def windowLines : List (Str × ℚ) :=
  [("Quarterly planning notes".toList, 0.5), ("The review is on the third floor".toList, 0.9)]

theorem low_band : ¬ (0.5 : ℚ) < 0.40 ∧ (0.5 : ℚ) < 0.65 := by decide +kernel

theorem high_band : ¬ (0.9 : ℚ) < 0.40 ∧ ¬ (0.9 : ℚ) < 0.65 := by decide +kernel

theorem windowLines_survive : SurvivorsSame windowLines := by
  refine (survivors_same_iff (F := ℚ) low_band high_band windowLines).2.1.2 ?_
  decide +kernel

/-- The menu entry `Settings` is noise with a confidence of 0.9 and survives with one of 0.5. -/
theorem marked_noise_survives :
    SameLines [("Settings".toList, (0.5 : ℚ))] [("Settings".toList, 0.9)] ∧
      distinctSurvivors [("Settings".toList, (0.5 : ℚ))] = ["Settings".toList] ∧
      distinctSurvivors [("Settings".toList, (0.9 : ℚ))] = [] := by
  decide +kernel

end Frame

end Fndr
