import Fndr.Capture.Admission
import Fndr.Library.Separators

set_option autoImplicit false

/-! # Surface parsing and the URL grammar

`UrlSurface::from_url` takes the text between the first `://` and the next one, wherever they stand,
then cuts it at the first `#`, `/` and `?`. So a `://` inside the path or the query cuts the URL
short, and without a path the query is searched for one. Fragments do no harm
(`withoutScheme_text`). `Undisturbed` is what the other parts must be for the segments and keys of
the surface to be those of the path and the query (`followsGrammar_iff`); the policy depends on
nothing else (`classify_of_segments_keys`). -/

namespace Fndr

open RustStd

/-- A URL by its grammar. -/
structure UrlParts where
  scheme : Str
  authority : Str
  path : Str
  query : Option Str
  fragment : Option Str
  scheme_plain : ¬"://".toList <:+: scheme
  authority_plain : '/' ∉ authority ∧ '?' ∉ authority ∧ '#' ∉ authority
  path_rooted : path = [] ∨ ∃ rest, path = '/' :: rest
  path_plain : '?' ∉ path ∧ '#' ∉ path
  query_plain : ∀ q ∈ query, '#' ∉ q

namespace UrlParts

/-- The query with its mark, if there is one. -/
def queryPart (url : UrlParts) : Str := (url.query.map ('?' :: ·)).getD []

/-- The fragment with its mark, if there is one. -/
def fragmentPart (url : UrlParts) : Str := (url.fragment.map ('#' :: ·)).getD []

/-- Everything between the scheme and the fragment. -/
def target (url : UrlParts) : Str := url.authority ++ url.path ++ url.queryPart

/-- The URL as it is written. -/
def text (url : UrlParts) : Str :=
  url.scheme ++ ("://".toList ++ (url.target ++ url.fragmentPart))

/-- The query, empty when there is none. -/
def queryText (url : UrlParts) : Str := url.query.getD []

/-- The segments and the keys of the surface are those of the grammar. -/
structure FollowsGrammar (url : UrlParts) : Prop where
  pathSegments : (UrlSurface.fromUrl url.text).pathSegments =
    fields (· == '/') (toAsciiLowercase url.path)
  queryKeys : (UrlSurface.fromUrl url.text).queryKeys =
    keys '&' '=' (toAsciiLowercase url.queryText)

end UrlParts

/-! ## Lower case -/

theorem toLower_eq_iff {c d : Char} (hd : d.toNat < 65) : c.toLower = d ↔ c = d := by
  refine ⟨eq_of_toLower_eq (by omega), ?_⟩
  rintro rfl
  exact toLower_of_not_letter (by omega)

/-- Lower-casing leaves the separators of a URL where they are. -/
theorem infix_toAsciiLowercase_iff {pattern s : Str} (h : ∀ c ∈ pattern, c.toNat < 65) :
    pattern <:+: toAsciiLowercase s ↔ pattern <:+: s := by
  have hmap (t : Str) : pattern = t.map Char.toLower ↔ t = pattern := by
    induction pattern generalizing t with
    | nil => cases t <;> simp
    | cons d pattern ih =>
        cases t with
        | nil => simp
        | cons c t =>
            have hd := toLower_eq_iff (c := c) (h d List.mem_cons_self)
            rw [List.map_cons, List.cons.injEq, List.cons.injEq,
              ih (fun c hc => h c (List.mem_cons_of_mem d hc)), eq_comm, hd]
  rw [toAsciiLowercase, List.infix_map_iff]
  constructor
  · rintro ⟨t, ht, hpattern⟩
    rwa [(hmap t).1 hpattern] at ht
  · exact fun hin => ⟨pattern, hin, (hmap pattern).2 rfl⟩

theorem mem_toAsciiLowercase_iff {d : Char} (hd : d.toNat < 65) {s : Str} :
    d ∈ toAsciiLowercase s ↔ d ∈ s := by
  rw [toAsciiLowercase, List.mem_map]
  constructor
  · rintro ⟨c, hc, hlower⟩
    rwa [(toLower_eq_iff hd).1 hlower] at hc
  · exact fun hmem => ⟨d, hmem, (toLower_eq_iff hd).2 rfl⟩

/-- The same URL in lower case. -/
def UrlParts.lower (url : UrlParts) : UrlParts where
  scheme := toAsciiLowercase url.scheme
  authority := toAsciiLowercase url.authority
  path := toAsciiLowercase url.path
  query := url.query.map toAsciiLowercase
  fragment := url.fragment.map toAsciiLowercase
  scheme_plain := by
    rw [infix_toAsciiLowercase_iff (by decide)]
    exact url.scheme_plain
  authority_plain := by
    simp only [mem_toAsciiLowercase_iff (show ('/').toNat < 65 by decide),
      mem_toAsciiLowercase_iff (show ('?').toNat < 65 by decide),
      mem_toAsciiLowercase_iff (show ('#').toNat < 65 by decide)]
    exact url.authority_plain
  path_rooted := by
    rcases url.path_rooted with h | ⟨rest, h⟩ <;> rw [h]
    · exact Or.inl rfl
    · exact Or.inr ⟨toAsciiLowercase rest, rfl⟩
  path_plain := by
    simp only [mem_toAsciiLowercase_iff (show ('?').toNat < 65 by decide),
      mem_toAsciiLowercase_iff (show ('#').toNat < 65 by decide)]
    exact url.path_plain
  query_plain := by
    intro q hq
    obtain ⟨query, hquery, rfl⟩ := Option.map_eq_some_iff.1 hq
    rw [mem_toAsciiLowercase_iff (by decide)]
    exact url.query_plain query hquery

theorem UrlParts.queryText_lower (url : UrlParts) :
    url.lower.queryText = toAsciiLowercase url.queryText := by
  cases hquery : url.query <;> simp [queryText, lower, hquery, toAsciiLowercase]

theorem UrlParts.text_lower (url : UrlParts) : url.lower.text = toAsciiLowercase url.text := by
  have hquery : url.lower.queryPart = toAsciiLowercase url.queryPart := by
    cases hquery : url.query <;> simp [queryPart, lower, hquery, toAsciiLowercase]
  have hfragment : url.lower.fragmentPart = toAsciiLowercase url.fragmentPart := by
    cases hfragment : url.fragment <;> simp [fragmentPart, lower, hfragment, toAsciiLowercase]
  have hmark : toAsciiLowercase "://".toList = "://".toList := by decide
  rw [text, text, target, target, hquery, hfragment]
  conv_lhs => rw [← hmark]
  simp only [toAsciiLowercase, List.map_append, lower]

/-! ## What the parser cuts out -/

theorem schemeMark_eq : "://".toList = [':', '/', '/'] := by simp

/-- The text before the next `://`, whatever follows a `#`. -/
theorem takeWhile_textBefore {s : Str} (h : '#' ∉ s) (fragment : Str) :
    (textBefore "://".toList (s ++ '#' :: fragment)).takeWhile (fun c => !(c == '#')) =
      textBefore "://".toList s := by
  have hstop {front : Str} (hfront : '#' ∉ front) (tail : Str) :
      (front ++ tail).takeWhile (fun c => !(c == '#')) =
        front ++ tail.takeWhile (fun c => !(c == '#')) :=
    List.takeWhile_append_of_pos (fun c hc => by
      simpa using fun heq : c = '#' => hfront (heq ▸ hc))
  rw [schemeMark_eq]
  rcases exists_first_occurrence (List.cons_ne_nil ':' ['/', '/']) s with
    hs | ⟨front, rest, rfl, hfront⟩
  · rw [textBefore_append_cons (by decide) (by decide) hs,
      textBefore_of_not (List.cons_ne_nil _ _) hs, hstop h]
    simp
  · have hmem : '#' ∉ front := fun hmem => h (List.mem_append_left _ hmem)
    have hnil := hstop hmem []
    rw [List.append_nil, List.takeWhile_nil, List.append_nil] at hnil
    rw [List.append_assoc, List.append_assoc, textBefore_append (by decide) hfront,
      textBefore_append (by decide) hfront, hnil]

theorem UrlParts.hash_notMem_target (url : UrlParts) : '#' ∉ url.target := by
  have hquery : '#' ∉ url.queryPart := by
    cases hquery : url.query with
    | none => simp [queryPart, hquery]
    | some q => simpa [queryPart, hquery] using url.query_plain q hquery
  simp [target, url.authority_plain.2.2, url.path_plain.2, hquery]

theorem UrlParts.splitSecond_text (url : UrlParts) :
    splitSecond "://".toList url.text =
      some (textBefore "://".toList (url.target ++ url.fragmentPart)) := by
  have hscheme := url.scheme_plain
  rw [schemeMark_eq] at hscheme
  rw [text, schemeMark_eq]
  exact splitSecond_eq (splitOnce_append (by decide) hscheme _)

/-- Neither the scheme nor the fragment reaches the parser. -/
theorem UrlParts.withoutScheme_text (url : UrlParts) :
    ((split (· == '#') ((splitSecond "://".toList url.text).getD url.text)).head?).getD [] =
      textBefore "://".toList url.target := by
  rw [url.splitSecond_text, Option.getD_some, head?_split, Option.getD_some]
  cases hfragment : url.fragment with
  | none =>
      simp only [fragmentPart, hfragment, Option.map_none, Option.getD_none, List.append_nil]
      have hprefix : textBefore "://".toList url.target <+: url.target := by
        rw [schemeMark_eq]
        exact textBefore_isFront (by decide) url.target
      refine List.takeWhile_eq_self_iff.2 fun c hc => ?_
      have hne : c ≠ '#' := fun heq => url.hash_notMem_target (heq ▸ hprefix.subset hc)
      simpa using hne
  | some fragment =>
      simp only [fragmentPart, hfragment, Option.map_some, Option.getD_some]
      exact takeWhile_textBefore url.hash_notMem_target fragment

/-- The path and the query in what is left of a URL without its scheme. -/
def pathAndQuery (withoutScheme : Str) : Str × Str :=
  let rooted := ((splitOnce "/".toList withoutScheme).map fun r => '/' :: r.2).getD "/".toList
  (splitOnce "?".toList rooted).getD (rooted, [])

theorem pathAndQuery_of_not_mem {s : Str} (h : '/' ∉ s) : pathAndQuery s = (['/'], []) := by
  have hslash : "/".toList = ['/'] := by simp
  rw [pathAndQuery, hslash, splitOnce_char_eq_none h]
  decide

theorem pathAndQuery_append {authority rest : Str} (h : '/' ∉ authority) :
    pathAndQuery (authority ++ '/' :: rest) =
      ((splitOnce ['?'] rest).map fun r => ('/' :: r.1, r.2)).getD ('/' :: rest, []) := by
  have hslash : "/".toList = ['/'] := by simp
  have hmark : "?".toList = ['?'] := by simp
  have hhere : ¬['?'] <+: '/' :: rest := by simp
  simp only [pathAndQuery, hslash, hmark, splitOnce_char h, Option.map_some, Option.getD_some,
    splitOnce, if_neg hhere]

/-- The path that is cut out begins with a slash. -/
theorem pathAndQuery_rooted (s : Str) : ∃ rest, (pathAndQuery s).1 = '/' :: rest := by
  by_cases h : '/' ∈ s
  · obtain ⟨front, rest, rfl, hfront⟩ :=
      (exists_first_occurrence (List.cons_ne_nil '/' []) s).resolve_left
        fun hno => hno ((List.singleton_infix_iff _ _).2 h)
    rw [List.singleton_infix_iff] at hfront
    rw [List.singleton_append, pathAndQuery_append hfront]
    cases splitOnce ['?'] rest <;> exact ⟨_, rfl⟩
  · exact ⟨[], by rw [pathAndQuery_of_not_mem h]⟩

/-- What the surface of a URL is made from. -/
theorem UrlParts.fromUrl_text (url : UrlParts) :
    let parts := pathAndQuery (textBefore "://".toList url.lower.target)
    UrlSurface.fromUrl url.text = ⟨extractDomain url.text, parts.1, fields (· == '/') parts.1,
      keys '&' '=' parts.2⟩ := by
  intro parts
  obtain ⟨rest, hrooted⟩ := pathAndQuery_rooted (textBefore "://".toList url.lower.target)
  have hcut := url.lower.withoutScheme_text
  rw [url.text_lower] at hcut
  have hne : parts.1 ≠ [] := by rw [hrooted]; exact List.cons_ne_nil _ _
  have heq : "=".toList = ['='] := by simp
  have hparts : parts = pathAndQuery (textBefore "://".toList url.lower.target) := rfl
  rw [pathAndQuery] at hparts
  simp only [UrlSurface.fromUrl, hcut, heq, ← hparts, if_neg hne]
  rfl

/-! ## When the surface is that of the grammar -/

/-- The text is made of slashes. -/
def OnlySlashes (s : Str) : Prop := ∀ c ∈ s, c = '/'

theorem fields_eq_nil_iff_onlySlashes (s : Str) : fields (· == '/') s = [] ↔ OnlySlashes s := by
  simp [fields_eq_nil_iff, OnlySlashes]

namespace UrlParts

/-- What the other parts of a URL in lower case must be for the parser to find the path and the
query. A `://` in the authority or the path ends the URL there; in the query it ends the query; and
when the path is empty the parser looks for it in the query. -/
def Undisturbed (url : UrlParts) : Prop :=
  let part := textBefore "://".toList url.queryText
  let behind := textFrom "://".toList url.queryText
  if "://".toList <:+: url.authority ++ url.path then OnlySlashes url.path ∧ '=' ∉ url.queryText
  else if url.path ≠ [] then KeptBehind '&' '=' part behind
  else
    match splitOnce ['/'] part with
    | none => '=' ∉ url.queryText
    | some (front, rest) =>
        match splitOnce ['?'] rest with
        | none => OnlySlashes rest ∧ '=' ∉ url.queryText
        | some (path, part) =>
            OnlySlashes path ∧ KeptBehind '&' '=' part behind ∧
              KeptBefore '&' '=' (front ++ '/' :: path ++ ['?']) (part ++ behind)

/-- The parser finds the segments and the keys of a URL in lower case. -/
def Finds (url : UrlParts) (parts : Str × Str) : Prop :=
  fields (· == '/') parts.1 = fields (· == '/') url.path ∧
    keys '&' '=' parts.2 = keys '&' '=' url.queryText

theorem finds_nothing_iff (url : UrlParts) :
    url.Finds (['/'], []) ↔ OnlySlashes url.path ∧ '=' ∉ url.queryText := by
  have hfields : fields (· == '/') ['/'] = [] := by decide
  have hkeys : keys '&' '=' [] = [] := by decide
  have hpath := fields_eq_nil_iff_onlySlashes url.path
  have hquery := keys_eq_nil_iff (show '=' ≠ '&' by decide) (s := url.queryText)
  simp only [Finds, hfields, hkeys]
  rw [eq_comm, hpath, eq_comm, hquery]

/-- Segments that are cut off are missed. -/
theorem fields_ne_of_cut (front rest : Str) :
    fields (· == '/') front ≠ fields (· == '/') (front ++ ':' :: rest) := by
  intro h
  have hlength := congrArg (fun l => l.flatten.length) h
  simp only [flatten_fields, List.filter_append, List.length_append] at hlength
  simp at hlength

/-- A `://` in the authority or the path ends the URL. -/
theorem finds_iff_of_mark (url : UrlParts) (h : "://".toList <:+: url.authority ++ url.path) :
    url.Finds (pathAndQuery (textBefore "://".toList url.target)) ↔
      OnlySlashes url.path ∧ '=' ∉ url.queryText := by
  rw [schemeMark_eq] at h
  obtain ⟨front, rest, hsplit, hfront⟩ :=
    (exists_first_occurrence (List.cons_ne_nil ':' ['/', '/']) _).resolve_left (· h)
  have hcut : textBefore "://".toList url.target = front := by
    rw [target, hsplit, schemeMark_eq, List.append_assoc, List.append_assoc]
    exact textBefore_append (by decide) hfront _
  rw [hcut]
  rcases List.append_eq_append_iff.1 hsplit with ⟨mid, rfl, hpath⟩ | ⟨mid, hauthority, -⟩
  · -- the separator lies in the path
    obtain ⟨path, rfl⟩ : ∃ path, mid = '/' :: path := by
      rcases url.path_rooted with hnil | ⟨tail, htail⟩
      · rw [hnil] at hpath
        simp at hpath
      · rw [htail] at hpath
        cases mid with
        | nil => simp at hpath
        | cons c mid => exact ⟨mid, by rw [(List.cons.inj hpath).1]⟩
    have hquery : '?' ∉ path := fun hmem => url.path_plain.1 (by simp [hpath, hmem])
    rw [pathAndQuery_append url.authority_plain.1, splitOnce_char_eq_none hquery]
    refine iff_of_false (fun hfinds => ?_) (fun hnone => ?_)
    · have hfields : fields (· == '/') ('/' :: path) = fields (· == '/') url.path := hfinds.1
      rw [hpath] at hfields
      exact fields_ne_of_cut ('/' :: path) ('/' :: '/' :: rest) hfields
    · have hcolon := hnone.1 ':' (by simp [hpath])
      exact absurd hcolon (by decide)
  · -- it begins in the authority
    have hslash : '/' ∉ front := fun hmem => url.authority_plain.1 (by simp [hauthority, hmem])
    rw [pathAndQuery_of_not_mem hslash, finds_nothing_iff]

/-- With a path, the path is found, and so is the query up to its first `://`. -/
theorem pathAndQuery_of_path (url : UrlParts) (h : ¬"://".toList <:+: url.authority ++ url.path)
    (hpath : url.path ≠ []) :
    pathAndQuery (textBefore "://".toList url.target) =
      (url.path, textBefore "://".toList url.queryText) := by
  rw [schemeMark_eq] at h ⊢
  obtain ⟨path, heq⟩ := url.path_rooted.resolve_left hpath
  have hquery : '?' ∉ path := fun hmem => url.path_plain.1 (by simp [heq, hmem])
  cases hq : url.query with
  | none =>
      have htarget : url.target = url.authority ++ '/' :: path := by
        simp [target, queryPart, hq, heq]
      rw [heq, ← htarget] at h
      rw [textBefore_of_not (List.cons_ne_nil _ _) h, htarget,
        pathAndQuery_append url.authority_plain.1, splitOnce_char_eq_none hquery, heq,
        queryText, hq]
      rfl
  | some q =>
      have htarget : url.target = (url.authority ++ url.path) ++ '?' :: q := by
        simp [target, queryPart, hq]
      rw [htarget, textBefore_append_cons (by decide) (by decide) h, heq, List.append_assoc,
        List.cons_append, pathAndQuery_append url.authority_plain.1, splitOnce_char hquery,
        queryText, hq]
      rfl

theorem finds_iff_of_path (url : UrlParts) (h : ¬"://".toList <:+: url.authority ++ url.path)
    (hpath : url.path ≠ []) :
    url.Finds (pathAndQuery (textBefore "://".toList url.target)) ↔
      KeptBehind '&' '=' (textBefore "://".toList url.queryText)
        (textFrom "://".toList url.queryText) := by
  have hquery : textBefore "://".toList url.queryText ++ textFrom "://".toList url.queryText =
      url.queryText := by
    rw [schemeMark_eq]
    exact textBefore_append_textFrom (by decide) _
  rw [url.pathAndQuery_of_path h hpath, Finds, ← keys_eq_keys_append_iff, hquery]
  simp

/-- Without a path, the parser looks for one behind the first slash of the query. -/
theorem finds_iff_of_slash (url : UrlParts) (hpath : url.path = []) {front rest behind : Str}
    (hquery : url.queryText = front ++ '/' :: rest ++ behind) (hfront : '/' ∉ front) :
    url.Finds (pathAndQuery (url.authority ++ '?' :: (front ++ '/' :: rest))) ↔
      match splitOnce ['?'] rest with
      | none => OnlySlashes rest ∧ '=' ∉ url.queryText
      | some (path, part) =>
          OnlySlashes path ∧ KeptBehind '&' '=' part behind ∧
            KeptBefore '&' '=' (front ++ '/' :: path ++ ['?']) (part ++ behind) := by
  have hslash : '/' ∉ url.authority ++ '?' :: front := by
    simp [url.authority_plain.1, hfront]
  have hshape : url.authority ++ '?' :: (front ++ '/' :: rest) =
      url.authority ++ '?' :: front ++ '/' :: rest := by simp
  have honly (s : Str) : fields (· == '/') ('/' :: s) = fields (· == '/') [] ↔ OnlySlashes s := by
    rw [fields_nil, fields_eq_nil_iff_onlySlashes]
    exact List.forall_mem_cons.trans (and_iff_right rfl)
  rw [hshape, pathAndQuery_append hslash, Finds, hpath]
  by_cases hmark : '?' ∈ rest
  · obtain ⟨path, part, rfl, hpart⟩ := List.eq_append_cons_of_mem hmark
    have hwhole : url.queryText = (front ++ '/' :: path ++ ['?']) ++ (part ++ behind) := by
      rw [hquery]
      simp
    rw [splitOnce_char hpart]
    simp only [Option.map_some, Option.getD_some, honly]
    rw [hwhole, keys_window_iff (lastEntry_concat_ne_nil _ (by decide))]
  · have hkeys : keys '&' '=' [] = [] := by decide
    rw [splitOnce_char_eq_none hmark]
    simp only [Option.map_none, Option.getD_none, honly, hkeys]
    rw [eq_comm (a := []), keys_eq_nil_iff (by decide)]

theorem finds_iff_of_no_path (url : UrlParts) (h : ¬"://".toList <:+: url.authority ++ url.path)
    (hpath : url.path = []) :
    url.Finds (pathAndQuery (textBefore "://".toList url.target)) ↔
      match splitOnce ['/'] (textBefore "://".toList url.queryText) with
      | none => '=' ∉ url.queryText
      | some (front, rest) =>
          match splitOnce ['?'] rest with
          | none => OnlySlashes rest ∧ '=' ∉ url.queryText
          | some (path, part) =>
              OnlySlashes path ∧
                KeptBehind '&' '=' part (textFrom "://".toList url.queryText) ∧
                KeptBefore '&' '=' (front ++ '/' :: path ++ ['?'])
                  (part ++ textFrom "://".toList url.queryText) := by
  have hnothing : url.Finds (['/'], []) ↔ '=' ∉ url.queryText := by
    rw [finds_nothing_iff, hpath]
    simp [OnlySlashes]
  rw [schemeMark_eq] at h ⊢
  rw [hpath, List.append_nil] at h
  -- without a path the first slash is in the query, if there is one
  cases hq : url.query with
  | none =>
      have htarget : url.target = url.authority := by simp [target, queryPart, hq, hpath]
      have hquery : url.queryText = [] := by rw [queryText, hq]; rfl
      rw [htarget, textBefore_of_not (List.cons_ne_nil _ _) h,
        pathAndQuery_of_not_mem url.authority_plain.1, hnothing, hquery,
        textBefore_of_not (List.cons_ne_nil _ _) (by simp)]
      rfl
  | some q =>
      have htarget : url.target = url.authority ++ '?' :: q := by
        simp [target, queryPart, hq, hpath]
      have hquery : url.queryText = q := by rw [queryText, hq]; rfl
      rw [htarget, textBefore_append_cons (by decide) (by decide) h, ← hquery]
      have hwhole := textBefore_append_textFrom (show ':' ∉ ['/', '/'] by decide) url.queryText
      by_cases hslash : '/' ∈ textBefore [':', '/', '/'] url.queryText
      · obtain ⟨front, rest, hsplit, hfront⟩ := List.eq_append_cons_of_mem hslash
        rw [hsplit] at hwhole
        rw [hsplit, splitOnce_char hfront]
        exact url.finds_iff_of_slash hpath hwhole.symm hfront
      · rw [splitOnce_char_eq_none hslash,
          pathAndQuery_of_not_mem (by simp [url.authority_plain.1, hslash]), hnothing]

/-- The parser finds the segments and the keys exactly when no other part disturbs it. -/
theorem finds_iff (url : UrlParts) :
    url.Finds (pathAndQuery (textBefore "://".toList url.target)) ↔ url.Undisturbed := by
  unfold Undisturbed
  split
  · next h => exact url.finds_iff_of_mark h
  · next h =>
    split
    · next hpath => exact url.finds_iff_of_path h hpath
    · next hpath => exact url.finds_iff_of_no_path h (not_not.1 hpath)

/-- The surface is read as the grammar says exactly when nothing disturbs the parser. -/
theorem followsGrammar_iff (url : UrlParts) : url.FollowsGrammar ↔ url.lower.Undisturbed := by
  have hfrom := url.fromUrl_text
  rw [← finds_iff, Finds, url.queryText_lower]
  constructor
  · rintro ⟨hsegments, hkeys⟩
    rw [hfrom] at hsegments hkeys
    exact ⟨hsegments, hkeys⟩
  · rintro ⟨hsegments, hkeys⟩
    exact ⟨by rw [hfrom]; exact hsegments, by rw [hfrom]; exact hkeys⟩

end UrlParts

/-! ## What the policy depends on -/

theorem fields_append_slash (s t : Str) :
    fields (· == '/') (s ++ '/' :: t) = fields (· == '/') s ++ fields (· == '/') t :=
  fields_append_cons s t rfl

theorem slash_infix_iff_of_plain {word : Str} (hword : word ≠ []) {s : Str}
    (hs : ∀ c ∈ s, (c == '/') = false) :
    '/' :: word <:+: '/' :: s ↔ ∃ segment ∈ fields (· == '/') s, word <+: segment := by
  have hnone : ¬ '/' :: word <:+: s := fun h => by
    have hmem := hs '/' (h.subset List.mem_cons_self)
    cases hmem
  rw [List.infix_cons_iff, List.cons_prefix_cons, or_iff_left hnone, and_iff_right rfl]
  constructor
  · intro hprefix
    have hne : s ≠ [] := fun hnil => hword (List.prefix_nil.1 (hnil ▸ hprefix))
    exact ⟨s, (mem_fields_word hs).2 ⟨rfl, hne⟩, hprefix⟩
  · rintro ⟨segment, hsegment, hprefix⟩
    rwa [((mem_fields_word hs).1 hsegment).1] at hprefix

/-- A word behind a slash begins a segment. -/
theorem slash_infix_iff {word : Str} (hword : word ≠ []) (hslash : '/' ∉ word) (s : Str) :
    '/' :: word <:+: '/' :: s ↔ ∃ segment ∈ fields (· == '/') s, word <+: segment := by
  induction s using fields_induction (· == '/') with
  | word s hs => exact slash_infix_iff_of_plain hword hs
  | separator v c t hv hc ih =>
      obtain rfl : c = '/' := beq_iff_eq.1 hc
      rw [← List.cons_append, cons_infix_append_cons_iff hslash, ih,
        slash_infix_iff_of_plain hword hv, fields_append_slash]
      simp only [List.mem_append, or_and_right, exists_or]

/-- What the policy looks for in the path is decided by the segments. -/
theorem UrlParts.contains_path_eq (url : UrlParts) {word : Str} (hword : word ≠ [])
    (hslash : '/' ∉ word) :
    contains (UrlSurface.fromUrl url.text).path ('/' :: word) =
      (UrlSurface.fromUrl url.text).pathSegments.any (fun segment => startsWith segment word) := by
  have hrooted : ∃ rest, (UrlSurface.fromUrl url.text).path = '/' :: rest ∧
      (UrlSurface.fromUrl url.text).pathSegments = fields (· == '/') rest := by
    obtain ⟨rest, hrest⟩ := pathAndQuery_rooted (textBefore "://".toList url.lower.target)
    refine ⟨rest, by rw [url.fromUrl_text]; exact hrest, ?_⟩
    rw [url.fromUrl_text, hrest]
    exact fields_append_slash [] rest
  obtain ⟨rest, hpath, hsegments⟩ := hrooted
  rw [hpath, hsegments, Bool.eq_iff_iff]
  simp only [contains, startsWith, decide_eq_true_eq, List.any_eq_true]
  exact slash_infix_iff hword hslash rest

/-- The authority is the domain, where the parser reaches the path. -/
theorem UrlParts.extractDomain_text (url : UrlParts)
    (h : ¬"://".toList <:+: url.authority ++ url.path) (hpath : url.path ≠ []) :
    extractDomain url.text = toAsciiLowercase (trim url.authority) := by
  -- authority and path come before the first mark, wherever that stands
  have hprefix : url.authority ++ url.path <+:
      textBefore "://".toList (url.target ++ url.fragmentPart) := by
    rw [schemeMark_eq] at h ⊢
    cases hq : url.query with
    | none =>
        cases hf : url.fragment with
        | none =>
            simp only [target, queryPart, fragmentPart, hq, hf, Option.map_none, Option.getD_none,
              List.append_nil]
            rw [textBefore_of_not (List.cons_ne_nil _ _) h]
        | some fragment =>
            simp only [target, queryPart, fragmentPart, hq, hf, Option.map_none, Option.map_some,
              Option.getD_none, Option.getD_some, List.append_nil]
            rw [textBefore_append_cons (by decide) (by decide) h]
            exact List.prefix_append _ _
    | some q =>
        simp only [target, queryPart, hq, Option.map_some, Option.getD_some, List.append_assoc,
          List.cons_append]
        rw [← List.append_assoc, textBefore_append_cons (by decide) (by decide) h]
        exact List.prefix_append _ _
  obtain ⟨tail, htail⟩ := hprefix
  obtain ⟨path, hrooted⟩ := url.path_rooted.resolve_left hpath
  have hfirst : (textBefore "://".toList (url.target ++ url.fragmentPart)).takeWhile
      (fun c => !(c == '/')) = url.authority := by
    rw [← htail, hrooted, List.append_assoc, List.takeWhile_append_of_pos]
    · simp
    · intro c hc
      have hne : c ≠ '/' := fun heq => url.authority_plain.1 (heq ▸ hc)
      simpa using hne
  rw [extractDomain, url.splitSecond_text, Option.getD_some, head?_split, Option.getD_some, hfirst]

section Policy

variable {url other : UrlParts}

theorem isNavigationSurface_congr
    (hsegments : (UrlSurface.fromUrl url.text).pathSegments =
      (UrlSurface.fromUrl other.text).pathSegments)
    (hkeys : (UrlSurface.fromUrl url.text).queryKeys =
      (UrlSurface.fromUrl other.text).queryKeys) :
    isNavigationSurface (UrlSurface.fromUrl url.text) =
      isNavigationSurface (UrlSurface.fromUrl other.text) := by
  have hpath (word : Str) (hword : word ≠ []) (hslash : '/' ∉ word) :
      contains (UrlSurface.fromUrl url.text).path ('/' :: word) =
        contains (UrlSurface.fromUrl other.text).path ('/' :: word) := by
    rw [url.contains_path_eq hword hslash, other.contains_path_eq hword hslash, hsegments]
  have hsearch : "/search".toList = '/' :: "search".toList := by simp
  have hresults : "/results".toList = '/' :: "results".toList := by simp
  simp only [isNavigationSurface, containsSearchQueryKey, containsPathSegment, hsegments, hkeys,
    hsearch, hresults, hpath "search".toList (by decide) (by decide),
    hpath "results".toList (by decide) (by decide)]

/-- The domain matters for the pages below `c` only. -/
theorem isListingSurface_congr {surface other : UrlSurface}
    (hsegments : surface.pathSegments = other.pathSegments)
    (hdomain : surface.pathSegments ≠ [] → surface.domain = other.domain) (title : Str) :
    isListingSurface surface title = isListingSurface other title := by
  by_cases hnil : surface.pathSegments = []
  · rw [hnil] at hsegments
    simp [isListingSurface, containsPathSegment, hnil, ← hsegments]
  · simp only [isListingSurface, containsPathSegment, hsegments, hdomain hnil]

/-- Two URLs with the same authority and path, and the same keys in their queries. -/
structure UrlParts.SamePage (url other : UrlParts) : Prop where
  authority : url.authority = other.authority
  path : url.path = other.path
  keys : keys '&' '=' (toAsciiLowercase url.queryText) =
    keys '&' '=' (toAsciiLowercase other.queryText)

/-- Where there are segments, the parser reached the path. -/
theorem UrlParts.Undisturbed.domain_eq (h : url.lower.Undisturbed)
    (hsegments : fields (· == '/') url.lower.path ≠ []) :
    extractDomain url.text = toAsciiLowercase (trim url.authority) := by
  rw [ne_eq, fields_eq_nil_iff_onlySlashes] at hsegments
  have hpath : url.path ≠ [] := by
    intro hnil
    refine hsegments fun c hc => ?_
    simp [lower, hnil, toAsciiLowercase] at hc
  refine url.extractDomain_text (fun hmark => ?_) hpath
  have hlower : "://".toList <:+: url.lower.authority ++ url.lower.path := by
    have happend : url.lower.authority ++ url.lower.path =
        toAsciiLowercase (url.authority ++ url.path) := by
      simp [lower, toAsciiLowercase]
    rw [happend, infix_toAsciiLowercase_iff (by decide)]
    exact hmark
  rw [Undisturbed, if_pos hlower] at h
  exact hsegments h.1

/-- Where nothing disturbs the parser, the surface policy depends on nothing but the authority, the
path and the keys of the query. -/
theorem classify_eq_of_samePage (hurl : url.lower.Undisturbed) (hother : other.lower.Undisturbed)
    (h : url.SamePage other) (appName windowTitle : Str) :
    classifyCaptureSurfacePolicy appName windowTitle (some url.text) =
      classifyCaptureSurfacePolicy appName windowTitle (some other.text) := by
  obtain ⟨hsegments, hkeys⟩ := url.followsGrammar_iff.2 hurl
  obtain ⟨hsegments', hkeys'⟩ := other.followsGrammar_iff.2 hother
  rw [h.path, ← hsegments'] at hsegments
  rw [h.keys, ← hkeys'] at hkeys
  have hdomain : (UrlSurface.fromUrl url.text).pathSegments ≠ [] →
      (UrlSurface.fromUrl url.text).domain = (UrlSurface.fromUrl other.text).domain := by
    intro hne
    rw [hsegments, hsegments'] at hne
    have hlower : url.lower.path = other.lower.path := congrArg toAsciiLowercase h.path
    have hurlDomain := hurl.domain_eq (by rw [hlower]; exact hne)
    have hotherDomain := hother.domain_eq hne
    rw [← h.authority, ← hurlDomain] at hotherDomain
    exact hotherDomain.symm
  simp only [classifyCaptureSurfacePolicy, isNavigationSurface_congr hsegments hkeys,
    isListingSurface_congr hsegments hdomain]

end Policy

/-- **Surface parsing follows the URL grammar exactly where nothing disturbs it**, and there the
values of the query and the fragment do not change the policy. -/
theorem fromUrl_followsGrammar_iff (url : UrlParts) :
    (url.FollowsGrammar ↔ url.lower.Undisturbed) ∧
      (url.lower.Undisturbed → ∀ other : UrlParts, other.lower.Undisturbed →
        url.SamePage other → ∀ appName windowTitle : Str,
          classifyCaptureSurfacePolicy appName windowTitle (some url.text) =
            classifyCaptureSurfacePolicy appName windowTitle (some other.text)) :=
  ⟨url.followsGrammar_iff, fun hurl _ hother h => classify_eq_of_samePage hurl hother h⟩

/-- `HTTPS://www.google.com/search?q=…`, perhaps with a fragment. -/
def searchUrl (terms : Str) (fragment : Option Str) (h : '#' ∉ terms) : UrlParts where
  scheme := "HTTPS".toList
  authority := "www.google.com".toList
  path := "/search".toList
  query := some ("q=".toList ++ terms)
  fragment := fragment
  scheme_plain := by decide
  authority_plain := by decide
  path_rooted := Or.inr ⟨_, rfl⟩
  path_plain := by decide
  query_plain := by
    rintro q ⟨⟩
    exact fun hmem => (List.mem_append.1 hmem).elim (by decide) h

/-- Two searches, one of them with a fragment that looks like a path. -/
theorem fromUrl_followsGrammar_iff_searches :
    let one := searchUrl "fndr".toList none (by decide)
    let other := searchUrl "lean+proofs".toList (some "/top?a=b".toList) (by decide)
    one.FollowsGrammar ∧ other.FollowsGrammar ∧
      ∀ appName windowTitle : Str,
        classifyCaptureSurfacePolicy appName windowTitle (some one.text) =
          classifyCaptureSurfacePolicy appName windowTitle (some other.text) := by
  intro one other
  have hone : one.FollowsGrammar := ⟨by decide, by decide⟩
  have hother : other.FollowsGrammar := ⟨by decide, by decide⟩
  exact ⟨hone, hother, (fromUrl_followsGrammar_iff one).2 ((fromUrl_followsGrammar_iff one).1.1 hone)
    other ((fromUrl_followsGrammar_iff other).1.1 hother) ⟨rfl, rfl, by decide⟩⟩

/-- `https://example.com?next=…`. -/
def landingUrl (next : Str) (h : '#' ∉ next) : UrlParts where
  scheme := "https".toList
  authority := "example.com".toList
  path := []
  query := some ("next=".toList ++ next)
  fragment := none
  scheme_plain := by decide
  authority_plain := by decide
  path_rooted := Or.inl rfl
  path_plain := by decide
  query_plain := by
    rintro q ⟨⟩
    exact fun hmem => (List.mem_append.1 hmem).elim (by decide) h

/-- Without a path, the value of the query is read as one and changes the policy. -/
theorem fromUrl_not_followsGrammar :
    ¬(landingUrl "/home".toList (by decide)).FollowsGrammar ∧
    classifyCaptureSurfacePolicy "Safari".toList "Example".toList
      (some (landingUrl "/home".toList (by decide)).text) = .skipFrame ∧
    classifyCaptureSurfacePolicy "Safari".toList "Example".toList
      (some (landingUrl "home".toList (by decide)).text) = .normal := by
  refine ⟨fun h => ?_, by decide, by decide⟩
  have hsegments := h.pathSegments
  revert hsegments
  decide

end Fndr
