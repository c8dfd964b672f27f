import Fndr.Privacy.Blocklist
import Fndr.Library.Words

set_option autoImplicit false

/-! # App rules are runs of whole tokens

`normalize_app` joins the lower-cased words of an entry with single spaces and `blocks_app` splits
them again, so an entry is compared as its list of tokens (`split_normalizeApp`) and the windows of
the name decide whether the list occurs in it (`blocksApp_new_iff`). -/

namespace Fndr

open RustStd

section Rules

variable [UnicodeTables]

/-- The lower-cased words of an app name or entry. -/
def appTokens (s : Str) : List Str := (splitWhitespace s).map toLowercase

/-- Two spellings of a name that differ in letter case, or in the white space between words. Letter
    case is what `str::to_lowercase` takes away, so 'straße' and 'STRASSE' are different names. -/
inductive Respelled (s t : Str) : Prop
  | letterCase (h : toLowercase s = toLowercase t)
  | whitespace (h : splitWhitespace s = splitWhitespace t)

variable [LawfulUnicode]

theorem appTokens_eq_fields (s : Str) : appTokens s = fields isWhitespace (toLowercase s) :=
  (splitWhitespace_toLowercase s).symm

theorem Respelled.appTokens_eq {s t : Str} (h : Respelled s t) : appTokens s = appTokens t := by
  cases h with
  | letterCase h => rw [appTokens_eq_fields, appTokens_eq_fields, h]
  | whitespace h => rw [appTokens, appTokens, h]

theorem normalizeApp_eq_join (s : Str) : normalizeApp s = join " ".toList (appTokens s) :=
  toLowercase_join (by decide) _

theorem normalizeApp_eq_nil_iff (s : Str) : normalizeApp s = [] ↔ appTokens s = [] := by
  rw [normalizeApp_eq_join]
  constructor
  · intro h
    have hfields := fields_join (p := isWhitespace) (c := ' ') (by decide) (appTokens s)
    change join [' '] (appTokens s) = [] at h
    rw [h, fields_nil, eq_comm, List.flatMap_eq_nil_iff] at hfields
    by_contra hne
    obtain ⟨w, ws, hw⟩ := List.exists_cons_of_ne_nil hne
    have hmem : w ∈ fields isWhitespace (toLowercase s) := by
      rw [← appTokens_eq_fields, hw]
      exact List.mem_cons_self
    obtain ⟨hwne, hfree⟩ := of_mem_fields hmem
    have := hfields w (hw ▸ List.mem_cons_self)
    rw [fields_of_forall hwne hfree] at this
    cases this
  · intro h
    rw [h]
    rfl

/-- Splitting a normalized name at its spaces gives the tokens back. -/
theorem split_normalizeApp {s : Str} (hne : appTokens s ≠ []) :
    split (· == ' ') (normalizeApp s) = appTokens s := by
  rw [normalizeApp_eq_join, appTokens_eq_fields]
  rw [appTokens_eq_fields] at hne
  exact split_join_fields (toLowercase s) (by decide) hne

variable [UrlCrate]

theorem mem_apps_new {entries domains : List Str} {app : Str} :
    app ∈ (Blocklist.new entries domains).apps ↔
      ∃ entry ∈ entries, normalizeApp entry = app ∧ appTokens entry ≠ [] := by
  simp only [Blocklist.new, List.mem_filter, List.mem_map, decide_eq_true_eq]
  constructor
  · rintro ⟨⟨entry, hentry, rfl⟩, hne⟩
    exact ⟨entry, hentry, rfl, fun h => hne ((normalizeApp_eq_nil_iff entry).2 h)⟩
  · rintro ⟨entry, hentry, rfl, hne⟩
    exact ⟨⟨entry, hentry, rfl⟩, fun h => hne ((normalizeApp_eq_nil_iff entry).1 h)⟩

/-- An entry blocks a name when its tokens are a run of the name's tokens. -/
theorem blocksApp_new_iff (entries domains : List Str) (name : Str) :
    (Blocklist.new entries domains).blocksApp name = true ↔
      ∃ entry ∈ entries, appTokens entry ≠ [] ∧ appTokens entry <:+: appTokens name := by
  unfold Blocklist.blocksApp
  by_cases hname : appTokens name = []
  · rw [if_pos ((normalizeApp_eq_nil_iff name).2 hname), hname]
    simp
  rw [if_neg (fun h => hname ((normalizeApp_eq_nil_iff name).1 h)), List.any_eq_true,
    split_normalizeApp hname]
  constructor
  · rintro ⟨app, happ, hmatch⟩
    obtain ⟨entry, hentry, rfl, hne⟩ := mem_apps_new.1 happ
    refine ⟨entry, hentry, hne, ?_⟩
    rw [Bool.or_eq_true, split_normalizeApp hne, any_windows_eq_true] at hmatch
    rcases hmatch with hwhole | hrun
    · -- an entry equal to the whole name has the name's tokens
      have := congrArg (split (· == ' ')) (beq_iff_eq.1 hwhole)
      rw [split_normalizeApp hne, split_normalizeApp hname] at this
      exact this ▸ List.infix_refl _
    · exact hrun
  · rintro ⟨entry, hentry, hne, hrun⟩
    refine ⟨normalizeApp entry, mem_apps_new.2 ⟨entry, hentry, rfl, hne⟩, ?_⟩
    rw [Bool.or_eq_true, split_normalizeApp hne, any_windows_eq_true]
    exact Or.inr hrun

/-- The answer depends on the token lists of the entries and of the name only. -/
theorem blocksApp_congr {entries entries' domains : List Str} {name name' : Str}
    (hentries : ∀ tokens,
      (∃ e ∈ entries, appTokens e = tokens) ↔ ∃ e ∈ entries', appTokens e = tokens)
    (hname : appTokens name = appTokens name') :
    (Blocklist.new entries domains).blocksApp name
      = (Blocklist.new entries' domains).blocksApp name' := by
  rw [Bool.eq_iff_iff, blocksApp_new_iff, blocksApp_new_iff, ← hname]
  constructor
  · rintro ⟨entry, hentry, hmatch⟩
    obtain ⟨entry', hentry', heq⟩ := (hentries _).1 ⟨entry, hentry, rfl⟩
    exact ⟨entry', hentry', heq ▸ hmatch⟩
  · rintro ⟨entry', hentry', hmatch⟩
    obtain ⟨entry, hentry, heq⟩ := (hentries _).2 ⟨entry', hentry', rfl⟩
    exact ⟨entry, hentry, heq ▸ hmatch⟩

omit [UrlCrate] in
theorem appTokens_of_forall₂ {entries entries' : List Str}
    (h : List.Forall₂ Respelled entries entries') :
    entries.map appTokens = entries'.map appTokens := by
  induction h with
  | nil => rfl
  | cons hhead _ ih => rw [List.map_cons, List.map_cons, hhead.appTokens_eq, ih]

/-- **App blocking is contiguous containment of whole tokens**: no entry has zero tokens, the size
    for which `windows` panics, and the answer is blind to the order of the entries, to letter case
    and to the amount of white space. -/
theorem blocksApp_is_token_containment (entries domains : List Str) (name : Str) :
    ((Blocklist.new entries domains).blocksApp name = true ↔
      ∃ entry ∈ entries, appTokens entry ≠ [] ∧ appTokens entry <:+: appTokens name) ∧
    (∀ app ∈ (Blocklist.new entries domains).apps, (split (· == ' ') app).length ≠ 0) ∧
    (∀ reordered entries' name', entries.Perm reordered →
      List.Forall₂ Respelled reordered entries' → Respelled name name' →
      (Blocklist.new entries' domains).blocksApp name'
        = (Blocklist.new entries domains).blocksApp name) := by
  refine ⟨blocksApp_new_iff entries domains name, fun app _ => ?_, ?_⟩
  · exact fun h => List.splitOnP_ne_nil _ app (List.length_eq_zero_iff.1 h)
  · intro reordered entries' name' hperm hspelled hname
    refine blocksApp_congr (fun tokens => ?_) hname.appTokens_eq.symm
    have hmem : ∀ es : List Str, (∃ e ∈ es, appTokens e = tokens) ↔ tokens ∈ es.map appTokens :=
      fun _ => List.mem_map.symm
    rw [hmem, hmem, ← appTokens_of_forall₂ hspelled]
    exact (hperm.map appTokens).mem_iff.symm

end Rules

/-! ## A browser entry -/

section Browser

attribute [local instance] asciiTables noUrls lawful_asciiTables

theorem google_chrome_is_blocked :
    (Blocklist.new ["  ".toList, " Google   CHROME ".toList] []).blocksApp
      "google chrome Beta".toList = true :=
  (blocksApp_is_token_containment _ [] _).1.2
    ⟨" Google   CHROME ".toList, by simp, by decide, by decide⟩

end Browser

end Fndr
