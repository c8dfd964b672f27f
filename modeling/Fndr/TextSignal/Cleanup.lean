import Fndr.Library.Collapse
import Fndr.Library.FirstByKey
import Fndr.Library.Lines
import Fndr.Memory.Continuity
import Fndr.TextSignal.App

set_option autoImplicit false

/-! # Chrome noise

`cleanup.rs`: the heuristics that tell browser chrome from content line by line, and
`reduce_chrome_noise_for_app`, which keeps the first of the lines that pass them. Ratios are `f32`
in the source; here they are over any `ScoreArith`.

A line is normalized before it is tested, and the tests and the key read nothing else, so the text
is the join of the first passing lines (`reduceChromeNoiseForApp_eq`). Its lines are those lines
(`lines_reduceChromeNoiseForApp`), each is its own normal form, and a second pass keeps them all. -/

namespace Fndr

open RustStd

/-- The default minimum line length of the recognizer. -/
def MIN_LINE_LEN : ℕ := 7

/-- Labels that browsers and feeds show everywhere. -/
def GENERIC_BROWSER_LABELS : List Str :=
  ["new tab", "home", "trending", "for you", "shorts", "explore", "discover", "notifications",
    "inbox", "starred", "settings", "untitled"].map String.toList

/-! ## Heuristics of one line -/

/-- `segments.iter().max().unwrap_or(&0)`. -/
def maxSegment (segments : List ℕ) : ℕ := segments.max?.getD 0

/-- The byte lengths of the trimmed pieces between separators. -/
def segmentLens (separator : Char) (line : Str) : List ℕ :=
  (split (· == separator) line).map (fun s => byteLen (trim s))

/-- Short titles with dots between them. -/
def looksLikeTabStripLine (line : Str) : Bool :=
  if line.count '·' < 2 then false
  else
    let segments := segmentLens '·' line
    if segments = [] then false else maxSegment segments ≤ 42 && byteLen line ≤ 220

/-- Three or more short titles with bars between them. -/
def looksLikePipeTabRow (line : Str) : Bool :=
  if line.count '|' < 2 then false
  else
    let segments := segmentLens '|' line
    if segments.length < 3 then false else maxSegment segments ≤ 36 && byteLen line ≤ 220

/-- A line drawn of dashes, dots or the like. -/
def isSeparatorLine (line : Str) : Bool :=
  line ≠ [] && line.all (fun c => c == '-' || c == '_' || c == '=' || c == '.' || c == ' ')

/-- The endings that make a name with a dot a path. -/
def SOURCE_SUFFIXES : List Str := [".rs", ".ts", ".json", ".md"].map String.toList

/-- A token of a file listing. -/
def isPathish (token : Str) : Bool :=
  let punctuation (c : Char) : Bool := ",;:()[]\x7b\x7d".toList.contains c
  let token := trimEndMatches punctuation (trimStartMatches punctuation token)
  token.contains '/' || token.contains '\\' ||
    (token.contains '.' &&
      (token.contains '_' || token.contains '-' || SOURCE_SUFFIXES.any (endsWith token ·)))

/-- Four or more words, three of which look like paths. -/
def looksLikeFileInventory (line : Str) : Bool :=
  let tokens := splitWhitespace line
  if tokens.length < 4 then false else 3 ≤ tokens.countP isPathish

section Heuristics

variable [UnicodeTables]

/-- The navigation buttons of a browser run together. -/
def isCompactChromeCaption (line : Str) : Bool :=
  if 64 < byteLen line then false
  else
    let lower := toLowercase line
    if lower = "backforward".toList ∨ lower = "forwardback".toList then true
    else
      contains lower "back".toList && contains lower "forward".toList && byteLen lower < 42 &&
        (contains lower "reload".toList || contains lower "refresh".toList)

/-- A long bracketed line, or one with the keys of a file listing. -/
def looksLikeJsonInventory (line : Str) : Bool :=
  let trimmed := trim line
  let lower := toLowercase trimmed
  if (startsWith trimmed "\x7b".toList ∧ endsWith trimmed "\x7d".toList) ∨
      (startsWith trimmed "[".toList ∧ endsWith trimmed "]".toList) then
    50 < byteLen trimmed
  else
    (["\"files\"", "\"path\"", "\"nodes\"", "\"items\""].map String.toList).any (contains lower ·)

/-- A line of a notification. -/
def looksLikeNotificationFragment (line : Str) : Bool :=
  let lower := toLowercase line
  ([" minutes ago", " hours ago", " liked this", " replied", "suggested for you"].map
      String.toList).any (contains lower ·) ||
    startsWith lower "breaking:".toList

/-- A short line of a feed: a word or two, an advertisement, a button. -/
def looksLikeFeedFragment (line : Str) : Bool :=
  if 90 < byteLen line then false
  else if (splitWhitespace line).length ≤ 2 then true
  else
    let lower := toLowercase line
    startsWith lower "sponsored".toList ||
      (["watch now", "learn more", "follow", "share", "like"].map String.toList).contains lower

/-- What a page shows while it loads. -/
def looksLikeAnimationFragment (line : Str) : Bool :=
  (["loading", "loading...", "please wait", "retry", "refresh", "updated just now"].map
    String.toList).contains (toLowercase line)

/-- A header field of a mail. -/
def looksLikeEmailHeader (line : Str) : Bool :=
  let lower := toLowercase line
  (["from:", "to:", "subject:", "cc:", "bcc:"].map String.toList).any (startsWith lower ·)

/-- A web address. -/
def looksLikeUrlLine (line : Str) : Bool :=
  let lower := toLowercase (trim line)
  startsWith lower "http://".toList || startsWith lower "https://".toList ||
    contains lower "www.".toList

/-- A generic label, alone or at the start of the line. -/
def isGenericBrowserLabel (line : Str) : Bool :=
  let lower := toLowercase line
  GENERIC_BROWSER_LABELS.any (fun label => lower == label || startsWith lower (label ++ [' ']))

variable (F : Type) [ScoreArith F]

/-- The share of characters that are neither letters, digits nor white space. -/
def symbolRatio (line : Str) : F :=
  if line = [] then 1.0
  else
    ScoreArith.ofCount (line.countP (fun c => !isAlphanumeric c && !isWhitespace c)) /
      ScoreArith.ofCount line.length

/-- The line is chrome of this app and no content. -/
def shouldDropLine (app : AppIdentity) (line : Str) : Bool :=
  if isSeparatorLine line then true
  else if looksLikeTabStripLine line || looksLikePipeTabRow line || isCompactChromeCaption line then
    true
  else if app.isBrowser && isGenericBrowserLabel line then true
  -- mail sidebars reuse the short labels of browser chrome
  else if app.isMail && isGenericBrowserLabel line then true
  else if looksLikeUrlLine line then false
  else if app.isBrowser && (looksLikeNotificationFragment line || looksLikeFeedFragment line) then
    true
  else if looksLikeAnimationFragment line then true
  else if !app.isCode && (looksLikeFileInventory line || looksLikeJsonInventory line) then true
  else if app.isMail && looksLikeEmailHeader line then false
  else
    let ratio := symbolRatio F line
    if app.isBrowser && decide ((0.38 : F) < ratio) then true
    else if !app.isCode && decide ((0.58 : F) < ratio) then true
    else false

/-! ## Normal forms -/

/-- The words with one space between them. -/
def normalizeInline (line : Str) : Str := join " ".toList (splitWhitespace line)

/-- What two spellings of a line have in common. -/
def snippetDedupKey (value : Str) : Str := toLowercase (normalizeInline value)

/-! ## The reduction -/

/-- The loop of `reduce_chrome_noise_for_app`. -/
structure ReduceLoop where
  out : Str
  seen : List Str

/-- One line: too short, chrome or seen before it is dropped, else kept. -/
def ReduceLoop.step (app : AppIdentity) (loop : ReduceLoop) (line : Str) : ReduceLoop :=
  let trimmed := normalizeInline (trim line)
  if byteLen trimmed < MIN_LINE_LEN then loop
  else if shouldDropLine F app trimmed then loop
  else
    let dedupKey := snippetDedupKey trimmed
    if loop.seen.contains dedupKey then loop
    else
      { out := (if loop.out = [] then [] else loop.out ++ "\n".toList) ++ trimmed
        seen := dedupKey :: loop.seen }

/-- Remove noisy lines. -/
def reduceChromeNoiseForApp (app : AppIdentity) (text : Str) : Str :=
  ((lines text).foldl (ReduceLoop.step F app) ⟨[], []⟩).out

/-- The wrapper for callers without an app context. -/
def reduceChromeNoise (text : Str) : Str := reduceChromeNoiseForApp F (AppIdentity.fromName []) text

end Heuristics

/-! ## What normalization gives -/

theorem normalizeInline_eq (line : Str) : normalizeInline line = collapse line := rfl

@[simp] theorem normalizeInline_trim (line : Str) :
    normalizeInline (trim line) = normalizeInline line := collapse_trim line

@[simp] theorem normalizeInline_normalizeInline (line : Str) :
    normalizeInline (normalizeInline line) = normalizeInline line := collapse_collapse line

theorem snippetDedupKey_normalizeInline [UnicodeTables] (line : Str) :
    snippetDedupKey (normalizeInline line) = toLowercase (normalizeInline line) := by
  rw [snippetDedupKey, normalizeInline_normalizeInline]

theorem no_break_normalizeInline {line : Str} {c : Char} (h : c ∈ normalizeInline line) :
    c ≠ '\n' ∧ c ≠ '\r' := by
  constructor
  · rintro rfl
    exact absurd (eq_space_of_mem_collapse h (by decide)) (by decide)
  · rintro rfl
    exact absurd (eq_space_of_mem_collapse h (by decide)) (by decide)

theorem ne_nil_of_minLineLen {line : Str} (h : ¬ byteLen line < MIN_LINE_LEN) : line ≠ [] := by
  rintro rfl
  exact h (by decide)

/-- Normalized lines that are not empty are the lines of their join. -/
theorem lines_join_normalized {kept : List Str}
    (h : ∀ line ∈ kept, line ≠ [] ∧ normalizeInline line = line) :
    lines (join ['\n'] kept) = kept := by
  refine lines_join (fun line hline => ⟨(h line hline).1, fun c hc => ?_⟩)
  rw [← (h line hline).2] at hc
  exact no_break_normalizeInline hc

section Reduction

variable [UnicodeTables] (F : Type) [ScoreArith F]

/-- Long enough, and no noise. -/
def keepsLine (app : AppIdentity) (line : Str) : Bool :=
  !decide (byteLen line < MIN_LINE_LEN) && !shouldDropLine F app line

theorem keepsLine_iff (app : AppIdentity) (line : Str) :
    keepsLine F app line = true ↔
      shouldDropLine F app line = false ∧ MIN_LINE_LEN ≤ byteLen line := by
  rw [keepsLine, Bool.and_eq_true, Bool.not_eq_true', Bool.not_eq_true', decide_eq_false_iff_not,
    Nat.not_lt, and_comm]

/-- The lines that the reduction keeps. -/
def reducedLines (app : AppIdentity) (text : Str) : List Str :=
  FirstByKey.firsts snippetDedupKey [] (((lines text).map normalizeInline).filter (keepsLine F app))

theorem reducedLines_sublist (app : AppIdentity) (text : Str) :
    (reducedLines F app text).Sublist
      (((lines text).map normalizeInline).filter (keepsLine F app)) := FirstByKey.firsts_sublist _ _

theorem of_mem_reducedLines {app : AppIdentity} {text line : Str}
    (h : line ∈ reducedLines F app text) :
    keepsLine F app line = true ∧ normalizeInline line = line := by
  obtain ⟨hmem, hkeeps⟩ := List.mem_filter.1 ((reducedLines_sublist F app text).subset h)
  obtain ⟨source, -, rfl⟩ := List.mem_map.1 hmem
  exact ⟨hkeeps, normalizeInline_normalizeInline source⟩

variable {F} in
theorem step_of_not_keepsLine {app : AppIdentity} {line : Str}
    (h : ¬ keepsLine F app (normalizeInline line) = true) (loop : ReduceLoop) :
    loop.step F app line = loop := by
  rw [keepsLine_iff, not_and_or, Bool.not_eq_false, Nat.not_le] at h
  rw [ReduceLoop.step, normalizeInline_trim]
  rcases h with hdrop | hlen
  · rw [if_pos hdrop, ite_self]
  · rw [if_pos hlen]

variable {F} in
theorem step_of_keepsLine {app : AppIdentity} {line : Str}
    (h : keepsLine F app (normalizeInline line) = true) (loop : ReduceLoop) :
    loop.step F app line =
      if snippetDedupKey (normalizeInline line) ∈ loop.seen then loop
      else ⟨joinNext ['\n'] loop.out (normalizeInline line),
        snippetDedupKey (normalizeInline line) :: loop.seen⟩ := by
  obtain ⟨hdrop, hlen⟩ := (keepsLine_iff F app _).1 h
  rw [ReduceLoop.step, normalizeInline_trim, if_neg (Nat.not_lt.2 hlen),
    if_neg (by rw [hdrop]; exact Bool.false_ne_true)]
  exact if_congr List.contains_iff_mem rfl rfl

/-- The loop writes the first of the lines that it keeps. -/
theorem foldl_step (app : AppIdentity) (source : List Str) (loop : ReduceLoop) :
    (source.foldl (ReduceLoop.step F app) loop).out =
      (FirstByKey.firsts snippetDedupKey loop.seen
        ((source.map normalizeInline).filter (keepsLine F app))).foldl
          (joinNext ['\n']) loop.out := by
  induction source generalizing loop with
  | nil => rfl
  | cons line rest ih =>
      rw [List.foldl_cons, ih, List.map_cons]
      by_cases hkeeps : keepsLine F app (normalizeInline line) = true
      · rw [List.filter_cons_of_pos hkeeps, FirstByKey.firsts, step_of_keepsLine hkeeps]
        split
        · rfl
        · rfl
      · rw [List.filter_cons_of_neg hkeeps, step_of_not_keepsLine hkeeps]

theorem reduceChromeNoiseForApp_eq (app : AppIdentity) (text : Str) :
    reduceChromeNoiseForApp F app text = join ['\n'] (reducedLines F app text) := by
  rw [reduceChromeNoiseForApp, foldl_step]
  refine foldl_joinNext (fun line hline => ?_)
  have hkeeps := (keepsLine_iff F app line).1 (of_mem_reducedLines F hline).1
  exact ne_nil_of_minLineLen (Nat.not_lt.2 hkeeps.2)

/-- The lines of the reduced text are the lines kept. -/
theorem lines_reduceChromeNoiseForApp (app : AppIdentity) (text : Str) :
    lines (reduceChromeNoiseForApp F app text) = reducedLines F app text := by
  rw [reduceChromeNoiseForApp_eq]
  refine lines_join_normalized (fun line hline => ?_)
  obtain ⟨hkeeps, hnormal⟩ := of_mem_reducedLines F hline
  exact ⟨ne_nil_of_minLineLen (Nat.not_lt.2 ((keepsLine_iff F app line).1 hkeeps).2), hnormal⟩

/-- Kept lines are kept again, in the same order. -/
theorem reducedLines_reduceChromeNoiseForApp (app : AppIdentity) (text : Str) :
    reducedLines F app (reduceChromeNoiseForApp F app text) = reducedLines F app text := by
  have hmap : (reducedLines F app text).map normalizeInline = reducedLines F app text := by
    conv_rhs => rw [← List.map_id (reducedLines F app text)]
    exact List.map_congr_left (fun line hline => (of_mem_reducedLines F hline).2)
  have hfilter : (reducedLines F app text).filter (keepsLine F app) = reducedLines F app text :=
    List.filter_eq_self.2 (fun line hline => (of_mem_reducedLines F hline).1)
  rw [reducedLines, lines_reduceChromeNoiseForApp, hmap, hfilter]
  exact FirstByKey.firsts_firsts _

/-- What is promised of a reduced text: only lines are removed, and none that is content but for
    repeats. -/
structure OnlyRemovesNoise (app : AppIdentity) (text out : Str) : Prop where
  subsequence : (lines out).Sublist ((lines text).map normalizeInline)
  passes : ∀ line ∈ lines out, shouldDropLine F app line = false ∧ MIN_LINE_LEN ≤ byteLen line
  distinct : ((lines out).map toLowercase).Nodup
  complete : ∀ line ∈ (lines text).map normalizeInline, shouldDropLine F app line = false →
    MIN_LINE_LEN ≤ byteLen line → ∃ kept ∈ lines out, toLowercase kept = toLowercase line

/-- **Reducing twice is reducing once, and the reduction only removes noise and repeats.** -/
theorem reduceChromeNoiseForApp_idem (app : AppIdentity) (text : Str) :
    reduceChromeNoiseForApp F app (reduceChromeNoiseForApp F app text)
        = reduceChromeNoiseForApp F app text ∧
      OnlyRemovesNoise F app text (reduceChromeNoiseForApp F app text) := by
  have hfirsts : FirstByKey.IsFirsts snippetDedupKey
      (((lines text).map normalizeInline).filter (keepsLine F app)) (reducedLines F app text) :=
    FirstByKey.isFirsts_firsts _
  have hkey : ∀ line ∈ reducedLines F app text, snippetDedupKey line = toLowercase line := by
    intro line hline
    rw [snippetDedupKey, (of_mem_reducedLines F hline).2]
  refine ⟨?_, ?_, ?_, ?_, ?_⟩
  · rw [reduceChromeNoiseForApp_eq F app (reduceChromeNoiseForApp F app text),
      reducedLines_reduceChromeNoiseForApp, ← reduceChromeNoiseForApp_eq]
  all_goals rw [lines_reduceChromeNoiseForApp]
  · exact hfirsts.inOrder.trans List.filter_sublist
  · exact fun line hline => (keepsLine_iff F app line).1 (of_mem_reducedLines F hline).1
  · rw [← List.map_congr_left hkey]
    exact hfirsts.nodup
  · intro line hline hdrop hlen
    obtain ⟨kept, hkept, heq⟩ := hfirsts.covers line
      (List.mem_filter.2 ⟨hline, (keepsLine_iff F app line).2 ⟨hdrop, hlen⟩⟩)
    obtain ⟨source, -, rfl⟩ := List.mem_map.1 hline
    refine ⟨kept, hkept, ?_⟩
    rw [← hkey kept hkept, heq, snippetDedupKey_normalizeInline]

end Reduction

section Tests

attribute [local instance] asciiTables

example : reduceChromeNoiseForApp ℚ (AppIdentity.fromName "Safari".toList)
    "Plan for Q2\nGmail · Calendar · Drive\nplan  for Q2\nActual paragraph here".toList
      = "Plan for Q2\nActual paragraph here".toList := by decide +kernel

end Tests

end Fndr
