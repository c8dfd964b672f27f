import Fndr.Library.FirstSeen
import Fndr.Library.Words
import Fndr.Memory.Continuity

set_option autoImplicit false

/-! # From recognized lines to text

`vision.rs` behind the recognizer: `preprocess_ocr_for_qwen` drops and marks lines by their
confidence, and `OcrEngine::normalize_text` filters what it made of them. Confidences are `f32` in
the source; here they are over any `ScoreArith`. An output line of the first step is kept with the
flag that says whether the marker was written before it.

The lines of the joined text are the output lines (`lines_preprocessed`), so the filter is a pass
over them that keeps first occurrences (`normalizeText_preprocessed`). -/

namespace Fndr

open RustStd

/-- The Unicode tables behind `char::is_numeric` and the digit class of a pattern. -/
class NumeralTables where
  isNumeric : Char → Bool
  isDecimal : Char → Bool

export NumeralTables (isNumeric isDecimal)

/-- The tables restricted to ASCII. -/
@[reducible] def asciiNumerals : NumeralTables where
  isNumeric := Char.isDigit
  isDecimal := Char.isDigit

/-! ## The noise filter -/

/-- Texts of menus, systems and legal lines; a line with one of them is noise. -/
def BASE_PATTERNS : List Str :=
  ["File Edit View Window Help", "Apple Inc.", "System Settings", "System Preferences", "Finder",
    "com.apple.", "com.google.", "com.microsoft.", "AM", "PM", "Version", "Build", "Copyright ©",
    "All Rights Reserved", "Sign in", "Sign up", "Log in", "Log out", "Forgot password",
    "Loading...", "Please wait", "OK", "Cancel"].map String.toList

/-- Words of menus and buttons; a line that is one of them is noise to the aggressive filter. -/
def UI_WORDS : List Str :=
  ["close", "minimize", "maximize", "menu", "settings", "preferences", "about", "help", "quit",
    "exit", "new", "open", "save", "print", "copy", "paste", "cut", "undo", "redo", "search",
    "find"].map String.toList

/-- The days of the week, as a date line begins. -/
def DATE_PREFIXES : List Str :=
  ["Mon", "Tue", "Wed", "Thu", "Fri", "Sat", "Sun"].map String.toList

/-- The months, as a date line names them. -/
def MONTH_NAMES : List Str :=
  ["Jan", "Feb", "Mar", "Apr", "May", "Jun", "Jul", "Aug", "Sep", "Oct", "Nov", "Dec"].map
    String.toList

/-- Which lines of a recognized text are noise: the built-in patterns, the owner's, and the
    aggressive tests on top. -/
structure NoiseFilter where
  aggressive : Bool
  basePatterns : List Str
  customPatterns : List Str

/-- The built-in patterns beside the owner's. -/
def NoiseFilter.new (aggressive : Bool) (customPatterns : List Str) : NoiseFilter :=
  ⟨aggressive, BASE_PATTERNS, customPatterns⟩

section Noise

variable [UnicodeTables] [NumeralTables]

/-- `^\d{1,2}:\d{2}(\s*(AM|PM))?$` -/
def timeRegexIsMatch (text : Str) : Bool :=
  let hours := text.takeWhile isDecimal
  (hours.length == 1 || hours.length == 2) &&
    match text.drop hours.length with
    | ':' :: tens :: ones :: rest =>
        isDecimal tens && isDecimal ones &&
          (rest == [] || ["AM".toList, "PM".toList].contains (rest.dropWhile isWhitespace))
    | _ => false

/-- `^\d+(\.\d+)?\s*(B|KB|MB|GB|TB)$` -/
def sizeRegexIsMatch (text : Str) : Bool :=
  let rest := text.dropWhile isDecimal
  let unit :=
    match rest with
    | '.' :: fraction =>
        if fraction.takeWhile isDecimal = [] then rest else fraction.dropWhile isDecimal
    | _ => rest
  text.takeWhile isDecimal ≠ [] &&
    (["B", "KB", "MB", "GB", "TB"].map String.toList).contains (unit.dropWhile isWhitespace)

/-- Mostly special characters. -/
def mostlySpecial (F : Type) [ScoreArith F] (text : Str) : Bool :=
  let alnumCount := (text.filter isAlphanumeric).length
  let totalCount := text.length
  0 < totalCount && decide ((ScoreArith.ofCount alnumCount : F) / ScoreArith.ofCount totalCount < 0.5)

/-- A single word that is a common UI element. -/
def isUiWord (text : Str) : Bool :=
  match splitWhitespace text with
  | [word] => UI_WORDS.contains (toLowercase word)
  | _ => false

/-- Digits and points with a percent sign at the end. -/
def isPercentage (text : Str) : Bool :=
  endsWith (trim text) "%".toList &&
    (trim text).all (fun c => isNumeric c || c == '%' || c == '.')

/-- A common date pattern alone. -/
def isDate (text : Str) : Bool :=
  DATE_PREFIXES.any (fun name => startsWith text name && byteLen text < 20) ||
    MONTH_NAMES.any (fun month => contains text month && byteLen text < 15)

/-- A line that holds a pattern, or that an aggressive filter finds to be interface and no content.
    -/
def NoiseFilter.isNoise (F : Type) [ScoreArith F] (filter : NoiseFilter) (text : Str) : Bool :=
  filter.customPatterns.any (fun pattern => contains text pattern) ||
    filter.basePatterns.any (fun pattern => contains text pattern) ||
    (filter.aggressive &&
      (mostlySpecial F text || isUiWord text || timeRegexIsMatch text || isPercentage text ||
        sizeRegexIsMatch (trim text) || isDate text))

end Noise

/-! ## The engine -/

/-- The fields that the steps behind the recognizer read. -/
structure OcrConfig where
  aggressiveFiltering : Bool
  minLineLength : ℕ
  customNoisePatterns : List Str
  removeDuplicates : Bool
  preserveFormatting : Bool

/-- `OcrConfig::default`. -/
def OcrConfig.ofDefault : OcrConfig where
  aggressiveFiltering := true
  minLineLength := 7
  customNoisePatterns := []
  removeDuplicates := true
  preserveFormatting := false

/-- A configuration and the filter built from it. -/
structure OcrEngine where
  config : OcrConfig
  noiseFilter : NoiseFilter

/-- The filter is the one that the configuration asks for. -/
def OcrEngine.withConfig (config : OcrConfig) : OcrEngine :=
  ⟨config, .new config.aggressiveFiltering config.customNoisePatterns⟩

/-- The lines that a normalized text keeps at most. -/
def MAX_LINES : ℕ := 220

section Engine

variable [UnicodeTables] [NumeralTables] (F : Type) [ScoreArith F]

/-- The loop of `normalize_text`. -/
structure NormalizeLoop where
  result : Str
  lastLine : Str
  seen : Finset Str
  kept : ℕ

/-- A line is left out when it is too short, noise, the last line again, or one seen before. -/
def OcrEngine.skips (engine : OcrEngine) (loop : NormalizeLoop) (trimmed : Str) : Bool :=
  byteLen trimmed < engine.config.minLineLength || engine.noiseFilter.isNoise F trimmed ||
    (engine.config.removeDuplicates && trimmed == loop.lastLine) ||
    (engine.config.removeDuplicates && toLowercase trimmed ∈ loop.seen)

/-- Keep a line, and remember it if duplicates go. -/
def OcrEngine.push (engine : OcrEngine) (loop : NormalizeLoop) (trimmed : Str) : NormalizeLoop where
  result := (if loop.result = [] then [] else loop.result ++ ['\n']) ++ trimmed
  lastLine := trimmed
  seen := if engine.config.removeDuplicates then insert (toLowercase trimmed) loop.seen
    else loop.seen
  kept := loop.kept + 1

/-- The loop over the lines, which ends at `MAX_LINES`. -/
def OcrEngine.normalizeLines (engine : OcrEngine) (loop : NormalizeLoop) :
    List Str → NormalizeLoop
  | [] => loop
  | line :: rest =>
      if engine.skips F loop (trim line) then normalizeLines engine loop rest
      else
        let next := engine.push loop (trim line)
        if MAX_LINES ≤ next.kept then next else normalizeLines engine next rest

/-- The text without noise and duplicates, or as it is where formatting is preserved. -/
def OcrEngine.normalizeText (engine : OcrEngine) (text : Str) : Str :=
  if engine.config.preserveFormatting then text
  else (engine.normalizeLines F ⟨[], [], ∅, 0⟩ (lines text)).result

/-- Aggregate stats of the preprocessing. -/
structure OcrAggregateStats where
  avgConfidenceAll : F
  avgConfidenceKept : F
  linesUsed : ℕ
  linesDropped : ℕ
  lowConfCount : ℕ

/-- What stands before a line of low confidence. -/
def LOW_CONF_MARKER : Str := "[LOW_CONF] ".toList

/-- An output line, with the marker if it was written. -/
def render (line : Bool × Str) : Str := if line.1 then LOW_CONF_MARKER ++ line.2 else line.2

/-- The loop of `preprocess_ocr_for_qwen`. -/
structure PreprocessLoop where
  output : List (Bool × Str)
  linesDropped : ℕ
  lowConfCount : ℕ
  keptConfSum : F
  keptCount : ℕ
  prevKey : Option Str

variable {F}

/-- One line: below a confidence of 0.40, empty or seen before it is dropped; else it is kept,
    marked if its confidence is low. -/
def PreprocessLoop.step (loop : PreprocessLoop F) (line : Str × F) : PreprocessLoop F :=
  if line.2 < 0.40 then { loop with linesDropped := loop.linesDropped + 1 }
  else
    let normalized := join " ".toList (splitWhitespace line.1)
    if normalized = [] then { loop with linesDropped := loop.linesDropped + 1 }
    else
      let key := toLowercase normalized
      -- a line that repeats the one before is not counted as dropped
      if loop.prevKey = some key then loop
      else
        let low := decide (line.2 < 0.65)
        { output := loop.output ++ [(low, normalized)]
          linesDropped := loop.linesDropped
          lowConfCount := loop.lowConfCount + if low then 1 else 0
          keptConfSum := loop.keptConfSum + line.2
          keptCount := loop.keptCount + 1
          prevKey := some key }

/-- The mean, and zero of nothing. -/
def average (sum : F) (count : ℕ) : F := if count = 0 then 0.0 else sum / ScoreArith.ofCount count

/-- All lines from the start. -/
def preprocessLoop (rawLines : List (Str × F)) : PreprocessLoop F :=
  rawLines.foldl PreprocessLoop.step ⟨[], 0, 0, 0.0, 0, none⟩

/-- The kept lines as one text, and what the confidences were over all lines and over the kept ones.
    -/
def preprocessOcrForQwen (rawLines : List (Str × F)) : Str × OcrAggregateStats F :=
  let loop := preprocessLoop rawLines
  let allConfSum := (rawLines.map Prod.snd).foldl (· + ·) 0.0
  (join "\n".toList (loop.output.map render),
    { avgConfidenceAll := average allConfSum rawLines.length
      avgConfidenceKept := average loop.keptConfSum loop.keptCount
      linesUsed := loop.output.length
      linesDropped := loop.linesDropped
      lowConfCount := loop.lowConfCount })

/-- Recognized text with its metadata. -/
structure RecognizedText (F : Type) where
  text : Str
  confidence : F
  blockCount : ℕ
  ocrStats : OcrAggregateStats F

/-- `recognize_with_metadata` after the recognizer, with the transient text. -/
def OcrEngine.recognizeLines (engine : OcrEngine) (rawLines : List (Str × F)) :
    RecognizedText F × Str :=
  let cleaned := preprocessOcrForQwen rawLines
  ({ text := engine.normalizeText F cleaned.1
     confidence := average ((rawLines.map Prod.snd).foldl (· + ·) 0.0) rawLines.length
     blockCount := cleaned.2.linesUsed
     ocrStats := cleaned.2 }, cleaned.1)

end Engine

/-! ## Output lines -/

/-- A line without white space at its ends and without any but spaces inside. -/
structure Tidy (s : Str) : Prop where
  ne_nil : s ≠ []
  head : ∀ c ∈ s.head?, isWhitespace c = false
  last : ∀ c ∈ s.getLast?, isWhitespace c = false
  inner : ∀ c ∈ s, isWhitespace c = true → c = ' '

theorem Tidy.trim_eq {s : Str} (h : Tidy s) : trim s = s := (trim_eq_self_iff s).2 ⟨h.head, h.last⟩

theorem Tidy.no_break {s : Str} (h : Tidy s) : ∀ c ∈ s, c ≠ '\n' ∧ c ≠ '\r' := by
  intro c hc
  constructor
  · rintro rfl
    exact absurd (h.inner _ hc (by decide)) (by decide)
  · rintro rfl
    exact absurd (h.inner _ hc (by decide)) (by decide)

theorem tidy_word {w : Str} (hne : w ≠ []) (hw : ∀ c ∈ w, isWhitespace c = false) : Tidy w where
  ne_nil := hne
  head := fun c hc => hw c (List.mem_of_mem_head? hc)
  last := fun c hc => hw c (List.mem_of_mem_getLast? hc)
  inner := fun c hc hspace => by
    rw [hw c hc] at hspace
    cases hspace

theorem tidy_join_words {words : List Str} (hne : words ≠ [])
    (h : ∀ w ∈ words, w ≠ [] ∧ ∀ c ∈ w, isWhitespace c = false) : Tidy (join [' '] words) := by
  induction words with
  | nil => exact absurd rfl hne
  | cons w rest ih =>
      obtain ⟨⟨hw, hchars⟩, hrest⟩ := List.forall_mem_cons.1 h
      have hword := tidy_word hw hchars
      cases rest with
      | nil => simpa [join] using hword
      | cons w' rest =>
          have htail := ih (List.cons_ne_nil w' rest) hrest
          rw [join_char_cons_cons]
          constructor
          · exact List.append_ne_nil_of_left_ne_nil hw _
          · rw [List.head?_append_of_ne_nil _ hw]
            exact hword.head
          · obtain ⟨d, ds, hcons⟩ := List.exists_cons_of_ne_nil htail.ne_nil
            rw [List.getLast?_append_of_ne_nil _ (List.cons_ne_nil _ _), hcons,
              List.getLast?_cons_cons, ← hcons]
            exact htail.last
          · intro c hc hspace
            rcases List.mem_append.1 hc with hc | hc
            · exact hword.inner c hc hspace
            · rcases List.mem_cons.1 hc with rfl | hc
              · rfl
              · exact htail.inner c hc hspace

theorem tidy_normalized {text : Str} (hne : join " ".toList (splitWhitespace text) ≠ []) :
    Tidy (join " ".toList (splitWhitespace text)) := by
  refine tidy_join_words ?_ (fun w hw => of_mem_fields hw)
  intro hnil
  rw [hnil] at hne
  exact hne rfl

theorem Tidy.render {line : Bool × Str} (h : Tidy line.2) : Tidy (render line) := by
  rw [Fndr.render]
  split
  · constructor
    · exact List.append_ne_nil_of_left_ne_nil (by decide) _
    · rw [List.head?_append_of_ne_nil _ (by decide)]
      decide
    · rw [List.getLast?_append_of_ne_nil _ h.ne_nil]
      exact h.last
    · intro c hc
      rcases List.mem_append.1 hc with hc | hc
      · have hmarker : ∀ c ∈ LOW_CONF_MARKER, isWhitespace c = true → c = ' ' := by decide
        exact hmarker c hc
      · exact h.inner c hc
  · exact h

section Output

variable [UnicodeTables] {F : Type} [ScoreArith F]

/-- The output lines after one with this key. -/
def outputs (prevKey : Option Str) : List (Str × F) → List (Bool × Str)
  | [] => []
  | line :: rest =>
      let normalized := join " ".toList (splitWhitespace line.1)
      if line.2 < 0.40 ∨ normalized = [] ∨ prevKey = some (toLowercase normalized) then
        outputs prevKey rest
      else
        (decide (line.2 < 0.65), normalized) :: outputs (some (toLowercase normalized)) rest

theorem foldl_step_output (rawLines : List (Str × F)) (loop : PreprocessLoop F) :
    (rawLines.foldl PreprocessLoop.step loop).output
      = loop.output ++ outputs loop.prevKey rawLines := by
  induction rawLines generalizing loop with
  | nil => rw [List.foldl_nil, outputs, List.append_nil]
  | cons line rest ih =>
      rw [List.foldl_cons, ih, outputs, PreprocessLoop.step]
      by_cases hdrop : line.2 < 0.40
      · simp [hdrop]
      · by_cases hempty : join " ".toList (splitWhitespace line.1) = []
        · rw [if_neg hdrop, if_pos hempty, if_pos (Or.inr (Or.inl hempty))]
        · by_cases hrepeat : loop.prevKey
              = some (toLowercase (join " ".toList (splitWhitespace line.1)))
          · rw [if_neg hdrop, if_neg hempty, if_pos hrepeat, if_pos (Or.inr (Or.inr hrepeat))]
          · rw [if_neg hdrop, if_neg hempty, if_neg hrepeat,
              if_neg (fun h => h.elim hdrop (fun h => h.elim hempty hrepeat)), List.append_assoc]
            rfl

theorem output_eq (rawLines : List (Str × F)) :
    (preprocessLoop rawLines).output = outputs none rawLines := foldl_step_output rawLines _

theorem tidy_outputs (rawLines : List (Str × F)) (prevKey : Option Str) :
    ∀ line ∈ outputs prevKey rawLines, Tidy line.2 := by
  induction rawLines generalizing prevKey with
  | nil => exact fun _ h => absurd h List.not_mem_nil
  | cons line rest ih =>
      rw [outputs]
      split
      · exact ih prevKey
      · next hkept =>
        rw [not_or, not_or] at hkept
        exact List.forall_mem_cons.2 ⟨tidy_normalized hkept.2.1, ih _⟩

/-- The lines of the cleaned text are the output lines. -/
theorem lines_preprocessed (rawLines : List (Str × F)) :
    lines (preprocessOcrForQwen rawLines).1 = (outputs none rawLines).map render := by
  rw [preprocessOcrForQwen, output_eq]
  refine lines_join (fun part hpart => ?_)
  obtain ⟨line, hline, rfl⟩ := List.mem_map.1 hpart
  have htidy := (tidy_outputs rawLines none line hline).render
  exact ⟨htidy.ne_nil, htidy.no_break⟩

end Output

/-! ## The filter keeps first occurrences -/

/-- Lines pushed one after the other. -/
def appendLine (result line : Str) : Str := (if result = [] then [] else result ++ ['\n']) ++ line

theorem foldl_appendLine (lines : List Str) (h : ∀ line ∈ lines, line ≠ []) {result : Str}
    (hresult : result ≠ []) : lines.foldl appendLine result = join ['\n'] (result :: lines) := by
  induction lines generalizing result with
  | nil => simp [join]
  | cons line rest ih =>
      obtain ⟨hline, hrest⟩ := List.forall_mem_cons.1 h
      rw [List.foldl_cons, ih hrest, appendLine, if_neg hresult]
      · cases rest with
        | nil => simp [join]
        | cons next rest => simp [join_char_cons_cons]
      · rw [appendLine]
        exact List.append_ne_nil_of_right_ne_nil _ hline

section Pass

variable [UnicodeTables] [NumeralTables] (F : Type) [ScoreArith F]

/-- Long enough, and no noise. -/
def OcrEngine.passes (engine : OcrEngine) (line : Str) : Bool :=
  !(byteLen line < engine.config.minLineLength || engine.noiseFilter.isNoise F line)

/-- `normalize_text` with the default configuration, as a pass over the output lines. -/
def markerPass : FirstSeen.Spelled Str Str where
  key := toLowercase
  mark := fun k => "[low_conf] ".toList ++ k
  passes := fun lowConf text => (OcrEngine.withConfig .ofDefault).passes F (render (lowConf, text))
  cap := MAX_LINES
  mark_injective := List.append_right_injective _
  mark_ne := fun k h => by
    have := congrArg List.length h
    rw [List.length_append] at this
    have hpos : 0 < "[low_conf] ".toList.length := by decide
    omega

theorem spell_markerPass [LawfulUnicode] (line : Bool × Str) :
    (markerPass F).spell line.1 ((markerPass F).key line.2) = toLowercase (render line) := by
  obtain ⟨lowConf, text⟩ := line
  cases lowConf with
  | false => rfl
  | true =>
      have hascii : toLowercase "[LOW_CONF]".toList = "[low_conf]".toList :=
        toLowercase_ascii (by decide +kernel)
      show "[low_conf] ".toList ++ toLowercase text = toLowercase (LOW_CONF_MARKER ++ text)
      rw [show LOW_CONF_MARKER ++ text = "[LOW_CONF]".toList ++ ' ' :: text from rfl,
        LawfulUnicode.toLowercase_append_cons _ _ _ (by decide), hascii]
      rfl

/-- The loop goes past a line that the pass does not take. -/
theorem skips_eq_false_iff [LawfulUnicode] {item : Bool × Str} (htidy : Tidy item.2)
    {loop : NormalizeLoop} (hkept : loop.kept = loop.seen.card) (hplace : loop.kept < MAX_LINES)
    (hlast : loop.lastLine = [] ∨ toLowercase loop.lastLine ∈ loop.seen) :
    (OcrEngine.withConfig .ofDefault).skips F loop (render item) = false ↔
      (markerPass F).Takes loop.seen item := by
  have hrepeat : toLowercase (render item) ∉ loop.seen → render item ≠ loop.lastLine := by
    rintro hnew heq
    rcases hlast with hnil | hseen
    · exact htidy.render.ne_nil (heq.trans hnil)
    · exact hnew (heq ▸ hseen)
  have hpasses : (markerPass F).passes item.1 item.2
      = (OcrEngine.withConfig .ofDefault).passes F (render item) := rfl
  rw [FirstSeen.Spelled.Takes, spell_markerPass, hpasses, OcrEngine.passes, OcrEngine.skips]
  have hcard : loop.seen.card < (markerPass F).cap := hkept ▸ hplace
  simp only [OcrEngine.withConfig, OcrConfig.ofDefault, Bool.true_and, Bool.or_eq_false_iff,
    Bool.not_eq_true', beq_eq_false_iff_ne, decide_eq_false_iff_not, hcard, true_and, and_assoc]
  exact ⟨fun ⟨hlong, hquiet, _, hnew⟩ => ⟨hlong, hquiet, hnew⟩,
    fun ⟨hlong, hquiet, hnew⟩ => ⟨hlong, hquiet, hrepeat hnew, hnew⟩⟩

theorem normalizeLines_eq [LawfulUnicode] (items : List (Bool × Str))
    (htidy : ∀ item ∈ items, Tidy item.2) (loop : NormalizeLoop)
    (hkept : loop.kept = loop.seen.card) (hplace : loop.kept < MAX_LINES)
    (hlast : loop.lastLine = [] ∨ toLowercase loop.lastLine ∈ loop.seen) :
    ((OcrEngine.withConfig .ofDefault).normalizeLines F loop (items.map render)).result
      = (((markerPass F).keep loop.seen items).map render).foldl appendLine loop.result := by
  induction items generalizing loop with
  | nil => rfl
  | cons item rest ih =>
      obtain ⟨hitem, hrest⟩ := List.forall_mem_cons.1 htidy
      have hskips := skips_eq_false_iff F hitem hkept hplace hlast
      rw [List.map_cons, OcrEngine.normalizeLines, hitem.render.trim_eq, FirstSeen.Spelled.keep]
      by_cases htakes : (markerPass F).Takes loop.seen item
      · have hnew : toLowercase (render item) ∉ loop.seen := spell_markerPass F item ▸ htakes.2.2
        let next := (OcrEngine.withConfig .ofDefault).push loop (render item)
        have hcard : next.kept = next.seen.card := by
          show loop.kept + 1 = (insert (toLowercase (render item)) loop.seen).card
          rw [Finset.card_insert_of_notMem hnew, hkept]
        rw [if_neg (by rw [hskips.2 htakes]; exact Bool.false_ne_true), if_pos htakes,
          spell_markerPass, List.map_cons, List.foldl_cons]
        by_cases hfull : MAX_LINES ≤ next.kept
        · have hnone : (markerPass F).keep (insert (toLowercase (render item)) loop.seen) rest = [] :=
            FirstSeen.keep_of_full (show MAX_LINES ≤ next.seen.card from hcard ▸ hfull) rest
          rw [if_pos hfull, hnone]
          rfl
        · rw [if_neg hfull]
          exact ih hrest next hcard (not_le.1 hfull) (Or.inr (Finset.mem_insert_self _ _))
      · have hskip : (OcrEngine.withConfig .ofDefault).skips F loop (render item) = true := by
          rw [← Bool.not_eq_false, hskips]
          exact htakes
        rw [if_pos hskip, if_neg htakes]
        exact ih hrest loop hkept hplace hlast

/-- **`normalize_text` after the preprocessing joins the lines that the pass keeps.** -/
theorem normalizeText_preprocessed [LawfulUnicode] (rawLines : List (Str × F)) :
    (OcrEngine.withConfig .ofDefault).normalizeText F (preprocessOcrForQwen rawLines).1
      = join ['\n'] (((markerPass F).keep ∅ (outputs none rawLines)).map render) := by
  have htidy := tidy_outputs rawLines none
  rw [OcrEngine.normalizeText, if_neg (by decide), lines_preprocessed,
    normalizeLines_eq F _ htidy _ rfl (by decide) (Or.inl rfl)]
  have hne : ∀ line ∈ ((markerPass F).keep ∅ (outputs none rawLines)).map render, line ≠ [] := by
    intro line hline
    obtain ⟨item, hitem, rfl⟩ := List.mem_map.1 hline
    exact (htidy item (FirstSeen.keep_subset hitem)).render.ne_nil
  generalize ((markerPass F).keep ∅ (outputs none rawLines)).map render = kept at hne
  cases kept with
  | nil => rfl
  | cons line rest =>
      obtain ⟨hline, hrest⟩ := List.forall_mem_cons.1 hne
      exact foldl_appendLine rest hrest hline

end Pass

end Fndr
