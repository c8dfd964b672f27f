import Fndr.TextSignal.Cleanup

set_option autoImplicit false

/-! # Fallback snippets

`concise_fallback_snippet`: the window title, two detail lines, or both, or else the name of the
app. The paths but the last put normalized texts together and truncate them, so they stay within
`MAX_FALLBACK_SNIPPET_CHARS` on one line. The last one writes the name as it is. -/

namespace Fndr

open RustStd

/-- The characters that a fallback snippet has at most. -/
def MAX_FALLBACK_SNIPPET_CHARS : ℕ := 220

/-- The text, or its head with three dots. -/
def truncateSnippet (text : Str) (maxChars : ℕ) : Str :=
  if text.length ≤ maxChars then text else text.take (maxChars - 3) ++ "...".toList

section Snippet

variable [UnicodeTables]

/-- The title says no more than the app's name does. -/
def titleIsGenericForApp (app : AppIdentity) (title : Str) : Bool :=
  let titleLower := toLowercase title
  let appLower := toLowercase app.name
  if appLower ≠ [] ∧ titleLower = appLower then true
  else
    (["new tab", "untitled", "home", "settings", "preferences", "dashboard", "start page"].map
      String.toList).contains titleLower

variable (F : Type) [ScoreArith F]

/-- The line may stand in a snippet. -/
def isUsefulSnippetLine (app : AppIdentity) (line : Str) : Bool :=
  let normalized := normalizeInline line
  if byteLen normalized < MIN_LINE_LEN then false
  else if 240 < byteLen normalized then false
  else if shouldDropLine F app normalized then false
  else if titleIsGenericForApp app normalized then false
  else true

/-- `if seen.insert(key) { details.push(normalized) }`, for the details. -/
def pushDetail (seen details : List Str) (normalized : Str) : List Str :=
  if seen.contains (snippetDedupKey normalized) then details else details ++ [normalized]

/-- The loop over the lines, until there are two details. -/
def collectDetails (app : AppIdentity) (seen details : List Str) : List Str → List Str
  | [] => details
  | line :: rest =>
      if isUsefulSnippetLine F app line then
        let normalized := normalizeInline line
        if normalized = [] then collectDetails app seen details rest
        else if looksLikeFileInventory normalized || looksLikeJsonInventory normalized then
          collectDetails app seen details rest
        else
          let details := pushDetail seen details normalized
          -- two lines are enough
          if 2 ≤ details.length then details
          else collectDetails app (snippetDedupKey normalized :: seen) details rest
      else collectDetails app seen details rest

/-- The title with its first two details. -/
def titledSnippet (normalizedTitle : Str) : List Str → Str
  | [] => normalizedTitle
  | [first] => normalizedTitle ++ ": ".toList ++ first
  | first :: second :: _ => normalizedTitle ++ ": ".toList ++ first ++ " | ".toList ++ second

/-- A compact snippet for a record without a model summary. -/
def conciseFallbackSnippet (app : AppIdentity) (windowTitle text : Str) : Str :=
  let normalizedTitle := normalizeInline (trim windowTitle)
  let titleIsUseful := normalizedTitle ≠ [] ∧ isUsefulSnippetLine F app normalizedTitle
  let seen := if titleIsUseful then [snippetDedupKey normalizedTitle] else []
  let details := collectDetails F app seen [] (lines text)
  if titleIsUseful then
    truncateSnippet (titledSnippet normalizedTitle details) MAX_FALLBACK_SNIPPET_CHARS
  else if details ≠ [] then truncateSnippet (join " | ".toList details) MAX_FALLBACK_SNIPPET_CHARS
  else if normalizedTitle ≠ [] then truncateSnippet normalizedTitle MAX_FALLBACK_SNIPPET_CHARS
  else if trim app.name ≠ [] then "Using ".toList ++ trim app.name
  else []

end Snippet

/-! ## One line -/

/-- The characters that end a line: line feed to carriage return, next line, the separators. -/
def isLineBreak (c : Char) : Bool :=
  let n := c.toNat
  (10 ≤ n && n ≤ 13) || n == 0x85 || n == 0x2028 || n == 0x2029

/-- The text holds no line break. -/
def SingleLine (s : Str) : Prop := ∀ c ∈ s, isLineBreak c = false

instance (s : Str) : Decidable (SingleLine s) :=
  inferInstanceAs (Decidable (∀ c ∈ s, isLineBreak c = false))

theorem SingleLine.append {s t : Str} (hs : SingleLine s) (ht : SingleLine t) :
    SingleLine (s ++ t) := List.forall_mem_append.2 ⟨hs, ht⟩

theorem SingleLine.of_subset {s t : Str} (ht : SingleLine t) (h : s ⊆ t) : SingleLine s :=
  fun c hc => ht c (h hc)

theorem singleLine_normalizeInline (line : Str) : SingleLine (normalizeInline line) := by
  intro c hc
  by_contra hbreak
  rw [Bool.not_eq_false] at hbreak
  have hspace : isWhitespace c = true := by
    simp only [isLineBreak, isWhitespace] at hbreak ⊢
    grind
  rw [eq_space_of_mem_collapse hc hspace] at hbreak
  exact absurd hbreak (by decide)

theorem SingleLine.join {sep : Str} {parts : List Str} (hsep : SingleLine sep)
    (h : ∀ part ∈ parts, SingleLine part) : SingleLine (join sep parts) := by
  induction parts with
  | nil => exact fun c hc => absurd hc List.not_mem_nil
  | cons s rest ih =>
      obtain ⟨hs, hrest⟩ := List.forall_mem_cons.1 h
      cases rest with
      | nil => simpa [RustStd.join] using hs
      | cons t rest =>
          rw [join_cons_cons]
          exact hs.append (hsep.append (ih hrest))

theorem singleLine_titledSnippet {title : Str} {details : List Str} (htitle : SingleLine title)
    (h : ∀ detail ∈ details, SingleLine detail) : SingleLine (titledSnippet title details) := by
  have hcolon : SingleLine ": ".toList := by decide
  have hbar : SingleLine " | ".toList := by decide
  cases details with
  | nil => exact htitle
  | cons first rest =>
      obtain ⟨hfirst, hrest⟩ := List.forall_mem_cons.1 h
      have hone := (htitle.append hcolon).append hfirst
      cases rest with
      | nil => exact hone
      | cons second rest => exact (hone.append hbar).append (hrest second List.mem_cons_self)

/-- Short enough for a snippet, and on one line. -/
structure IsShortLine (s : Str) : Prop where
  short : s.length ≤ MAX_FALLBACK_SNIPPET_CHARS
  single : SingleLine s

theorem length_truncateSnippet (text : Str) {maxChars : ℕ} (h : 3 ≤ maxChars) :
    (truncateSnippet text maxChars).length ≤ maxChars := by
  rw [truncateSnippet]
  split
  · assumption
  · rw [List.length_append, List.length_take]
    have hdots : "...".toList.length = 3 := rfl
    omega

theorem isShortLine_truncateSnippet {text : Str} (h : SingleLine text) :
    IsShortLine (truncateSnippet text MAX_FALLBACK_SNIPPET_CHARS) where
  short := length_truncateSnippet text (by decide)
  single := by
    rw [truncateSnippet]
    split
    · exact h
    · exact (h.of_subset (List.take_subset _ _)).append (by decide)

section Bounded

variable [UnicodeTables] {F : Type} [ScoreArith F] {app : AppIdentity}

/-! ## Details -/

variable (F app) in
/-- Useful, and no listing of files or data. -/
def isDetailLine (line : Str) : Bool :=
  isUsefulSnippetLine F app line &&
    !(looksLikeFileInventory (normalizeInline line) ||
      looksLikeJsonInventory (normalizeInline line))

theorem ne_nil_of_isUsefulSnippetLine {line : Str} (h : isUsefulSnippetLine F app line = true) :
    normalizeInline line ≠ [] := by
  rw [isUsefulSnippetLine] at h
  split at h
  · cases h
  · next hlen => exact ne_nil_of_minLineLen hlen

/-- One line of the loop: another line, or a detail that is taken when its key is new. -/
theorem collectDetails_cons (seen details : List Str) (line : Str) (rest : List Str) :
    collectDetails F app seen details (line :: rest) =
      if isDetailLine F app line then
        if 2 ≤ (pushDetail seen details (normalizeInline line)).length then
          pushDetail seen details (normalizeInline line)
        else
          collectDetails F app (snippetDedupKey (normalizeInline line) :: seen)
            (pushDetail seen details (normalizeInline line)) rest
      else collectDetails F app seen details rest := by
  rw [collectDetails, isDetailLine]
  by_cases huseful : isUsefulSnippetLine F app line = true
  · dsimp only
    rw [if_pos huseful, if_neg (ne_nil_of_isUsefulSnippetLine huseful), huseful, Bool.true_and]
    cases looksLikeFileInventory (normalizeInline line) ||
      looksLikeJsonInventory (normalizeInline line)
    · rfl
    · rfl
  · rw [if_neg huseful, if_neg (by simp [huseful])]

theorem subset_pushDetail (seen details : List Str) (normalized : Str) :
    details ⊆ pushDetail seen details normalized := by
  rw [pushDetail]
  split
  · exact List.Subset.refl _
  · exact List.subset_append_left _ _

theorem singleLine_of_mem_pushDetail {seen details : List Str} (line : Str)
    (h : ∀ detail ∈ details, SingleLine detail) :
    ∀ detail ∈ pushDetail seen details (normalizeInline line), SingleLine detail := by
  rw [pushDetail]
  split
  · exact h
  · exact List.forall_mem_append.2
      ⟨h, List.forall_mem_singleton.2 (singleLine_normalizeInline line)⟩

/-- What holds of the details, however a line changes them, holds of those collected. -/
theorem collectDetails_induction {motive : List Str → Prop}
    (hpush : ∀ seen details line, motive details →
      motive (pushDetail seen details (normalizeInline line)))
    {seen details : List Str} (source : List Str) (h : motive details) :
    motive (collectDetails F app seen details source) := by
  induction source generalizing seen details with
  | nil => exact h
  | cons line rest ih =>
      rw [collectDetails_cons]
      split
      · split
        · exact hpush seen details line h
        · exact ih (hpush seen details line h)
      · exact ih h

theorem singleLine_of_mem_collectDetails (seen source : List Str) :
    ∀ detail ∈ collectDetails F app seen [] source, SingleLine detail :=
  collectDetails_induction (motive := fun details => ∀ detail ∈ details, SingleLine detail)
    (fun _ _ line h => singleLine_of_mem_pushDetail line h) source
    (fun _ hmem => absurd hmem List.not_mem_nil)

/-- Without a title there are details when a line is one. -/
theorem collectDetails_eq_nil_iff (source : List Str) :
    collectDetails F app [] [] source = [] ↔ ∀ line ∈ source, isDetailLine F app line = false := by
  induction source with
  | nil => simp [collectDetails]
  | cons line rest ih =>
      rw [collectDetails_cons, List.forall_mem_cons]
      by_cases hdetail : isDetailLine F app line = true
      · rw [if_pos hdetail, hdetail]
        have hpush : pushDetail [] [] (normalizeInline line) = [normalizeInline line] := rfl
        rw [hpush, if_neg (by simp)]
        refine iff_of_false ?_ (fun h => absurd h.1 (by decide))
        exact List.ne_nil_of_mem (collectDetails_induction
          (motive := fun details => normalizeInline line ∈ details)
          (fun seen details _ h => subset_pushDetail seen details _ h) rest List.mem_cons_self)
      · rw [if_neg hdetail, ih]
        simp [hdetail]

/-! ## The paths -/

omit [UnicodeTables] in
theorem isShortLine_using_iff (name : Str) :
    IsShortLine ("Using ".toList ++ name) ↔
      name.length ≤ MAX_FALLBACK_SNIPPET_CHARS - 6 ∧ SingleLine name := by
  have hlen : ("Using ".toList ++ name).length = 6 + name.length := List.length_append
  constructor
  · rintro ⟨hshort, hsingle⟩
    rw [hlen] at hshort
    exact ⟨by omega, hsingle.of_subset (List.subset_append_right _ _)⟩
  · rintro ⟨hshort, hsingle⟩
    refine ⟨?_, SingleLine.append (by decide) hsingle⟩
    rw [hlen]
    simp only [MAX_FALLBACK_SNIPPET_CHARS] at hshort ⊢
    omega

/-- **A snippet is short and on one line exactly when the title or the text gives one, or else the
    name does.** -/
theorem isShortLine_conciseFallbackSnippet_iff (windowTitle text : Str) :
    IsShortLine (conciseFallbackSnippet F app windowTitle text) ↔
      (∃ c ∈ windowTitle, isWhitespace c = false) ∨
        (∃ line ∈ lines text, isDetailLine F app line = true) ∨
          (trim app.name).length ≤ MAX_FALLBACK_SNIPPET_CHARS - 6 ∧ SingleLine (trim app.name) := by
  have htitle : normalizeInline windowTitle ≠ [] ↔ ∃ c ∈ windowTitle, isWhitespace c = false := by
    rw [normalizeInline_eq, Ne, collapse_eq_nil_iff]
    simp
  have hdetails : collectDetails F app [] [] (lines text) ≠ [] ↔
      ∃ line ∈ lines text, isDetailLine F app line = true := by
    rw [Ne, collectDetails_eq_nil_iff]
    simp
  have hsingle := singleLine_normalizeInline windowTitle
  rw [← htitle, ← hdetails, conciseFallbackSnippet]
  simp only [normalizeInline_trim]
  by_cases huseful : normalizeInline windowTitle ≠ [] ∧
      isUsefulSnippetLine F app (normalizeInline windowTitle) = true
  · -- the title with its details
    rw [if_pos huseful]
    refine iff_of_true (isShortLine_truncateSnippet ?_) (Or.inl huseful.1)
    exact singleLine_titledSnippet hsingle (singleLine_of_mem_collectDetails _ _)
  · rw [if_neg huseful, if_neg huseful]
    -- the details alone, the title as it is, or the name of the app
    by_cases hfound : collectDetails F app [] [] (lines text) ≠ []
    · rw [if_pos hfound]
      refine iff_of_true (isShortLine_truncateSnippet ?_) (Or.inr (Or.inl hfound))
      exact SingleLine.join (by decide) (singleLine_of_mem_collectDetails [] _)
    · rw [if_neg hfound]
      by_cases hne : normalizeInline windowTitle ≠ []
      · rw [if_pos hne]
        exact iff_of_true (isShortLine_truncateSnippet hsingle) (Or.inl hne)
      · rw [if_neg hne, or_iff_right hne, or_iff_right hfound]
        split
        · exact isShortLine_using_iff _
        · next hblank =>
          rw [not_not] at hblank
          rw [hblank]
          refine iff_of_true ⟨Nat.zero_le _, ?_⟩ ⟨Nat.zero_le _, ?_⟩
          all_goals exact fun c hc => absurd hc List.not_mem_nil

end Bounded

section Tests

attribute [local instance] asciiTables

example : conciseFallbackSnippet ℚ (AppIdentity.fromName "Chrome".toList) "New Tab".toList
    "src/app.tsx src/lib.rs src/main.rs src/schema.rs\nFix memory summarization".toList
      = "Fix memory summarization".toList := by decide +kernel

/-- Nothing cuts the name of the app. -/
theorem snippet_of_long_name_too_long :
    ¬ ∀ (app : AppIdentity) (windowTitle text : Str),
      IsShortLine (conciseFallbackSnippet ℚ app windowTitle text) := by
  intro h
  have hshort := (h (AppIdentity.fromName (List.replicate 215 'a')) [] []).short
  revert hshort
  decide +kernel

end Tests

end Fndr
