import Fndr.Privacy.Blocklist
import Fndr.Library.Words

set_option autoImplicit false

/-! # Domain rules and the spelling of a host

A `Writing` is a DNS name with everything a person or a browser may put around it. Hosts are read on
two routes, by the `url` crate and by a split at `/` and `:`; `Writing.effectiveHost` is what both
find (`normalizeDomain_text`, `hostFromUrl_text`). It is the name exactly when the writing is
`Clean`: the root dot is never removed, and a query or fragment that follows a bare name directly
stays in the host. -/

namespace Fndr

open RustStd

/-! ## Writings of a DNS name -/

/-- A DNS name as it is written: `[scheme://]name[.][:port][/path][?query][#fragment]`, with white
    space around it. -/
structure Writing where
  before : Str
  scheme : Option Str
  name : Str
  rootDot : Bool
  port : Option Str
  path : Option Str
  query : Option Str
  fragment : Option Str
  after : Str

/-- The name, perhaps with a dot at its end. -/
def Writing.hostPart (w : Writing) : Str := w.name ++ (if w.rootDot then ['.'] else [])

/-- The port with its colon. -/
def Writing.portPart (w : Writing) : Str := (w.port.map (':' :: ·)).getD []

/-- What follows the authority. -/
def Writing.tail (w : Writing) : Str :=
  (w.path.map ('/' :: ·)).getD [] ++
    ((w.query.map ('?' :: ·)).getD [] ++ (w.fragment.map ('#' :: ·)).getD [])

/-- The writing without the white space around it. -/
def Writing.core (w : Writing) : Str :=
  (w.scheme.map (· ++ "://".toList)).getD [] ++ (w.hostPart ++ (w.portPart ++ w.tail))

/-- The writing as the owner typed it. -/
def Writing.text (w : Writing) : Str := w.before ++ w.core ++ w.after

/-- The name alone, in lower case. -/
def Writing.plainName (w : Writing) : Str := toAsciiLowercase w.name

/-- A character of a host name. -/
def isNameChar (c : Char) : Bool := c.isAlphanum || c == '-' || c == '_' || c == '.'

/-- A visible ASCII character. -/
def isUrlChar (c : Char) : Bool := decide (33 ≤ c.toNat ∧ c.toNat ≤ 126)

/-- The schemes that the URL standard treats specially: followed by `:`, each begins a URL. -/
def SPECIAL_SCHEMES : List Str := ["http", "https", "ws", "wss", "ftp", "file"].map String.toList

/-- The number that the digits write. -/
def portValue (digits : Str) : ℕ := digits.foldl (fun n d => 10 * n + (d.toNat - 48)) 0

/-- Each part is of the characters it may have. -/
structure Writing.WellFormed (w : Writing) : Prop where
  before : ∀ c ∈ w.before, isWhitespace c = true
  after : ∀ c ∈ w.after, isWhitespace c = true
  scheme : ∀ s ∈ w.scheme, toAsciiLowercase s ∈ ["http".toList, "https".toList]
  nameChars : ∀ c ∈ w.name, isNameChar c = true
  nameEnds : w.name ≠ [] ∧ w.name.head? ≠ some '.' ∧ w.name.getLast? ≠ some '.'
  port : ∀ p ∈ w.port, p ≠ [] ∧ (∀ c ∈ p, c.isDigit = true) ∧ portValue p < 2 ^ 16
  path : ∀ p ∈ w.path, ∀ c ∈ p, isUrlChar c = true ∧ c ≠ '?' ∧ c ≠ '#'
  query : ∀ q ∈ w.query, ∀ c ∈ q, isUrlChar c = true ∧ c ≠ '#'
  fragment : ∀ f ∈ w.fragment, ∀ c ∈ f, isUrlChar c = true
  /-- A name such as `http` with a port would be read as a scheme. -/
  bare : w.scheme = none → w.port.isSome → w.plainName ∉ SPECIAL_SCHEMES

/-- What a query or fragment directly after a bare name leaves of itself in the host. -/
def Writing.glued (w : Writing) : Str :=
  if w.scheme.isNone && w.port.isNone && w.path.isNone then
    w.tail.takeWhile (fun c => !(c == '/' || c == ':'))
  else []

/-- The host that both routes read. -/
def Writing.effectiveHost (w : Writing) : Option Str :=
  if w.scheme.isNone && contains w.core "://".toList then none
  else some (toAsciiLowercase (w.hostPart ++ w.glued))

/-- No root dot; and without a scheme no `://` further on, and no query or fragment directly after
    the name. -/
def Writing.Clean (w : Writing) : Prop :=
  w.rootDot = false ∧ (w.scheme.isSome ∨ contains w.core "://".toList = false ∧
    (w.port.isSome ∨ w.path.isSome ∨ (w.query = none ∧ w.fragment = none)))

instance (w : Writing) : Decidable w.Clean := inferInstanceAs (Decidable (_ ∧ _))

/-- What is documented of the `url` crate: it finds the lower-cased host of an absolute web URL, in
    whatever letter case that is written, and no host in a name without a scheme; a host is ASCII
    text without `/`. -/
class LawfulUrl [UrlCrate] : Prop where
  host_of_absolute : ∀ (w : Writing) (t : Str), w.WellFormed → w.scheme.isSome →
    toAsciiLowercase t = toAsciiLowercase w.core →
    (UrlCrate.parse t).bind Url.host = some (toAsciiLowercase w.hostPart)
  host_of_bare : ∀ (w : Writing) (t : Str), w.WellFormed → w.scheme = none →
    toAsciiLowercase t = toAsciiLowercase w.core → (UrlCrate.parse t).bind Url.host = none
  slash_not_mem : ∀ s h, (UrlCrate.parse s).bind Url.host = some h → '/' ∉ h
  ascii : ∀ s h, (UrlCrate.parse s).bind Url.host = some h → ∀ c ∈ h, c.toNat < 128

/-! ## The characters of a writing -/

theorem isUrlChar_iff (c : Char) : isUrlChar c = true ↔ 33 ≤ c.toNat ∧ c.toNat ≤ 126 :=
  decide_eq_true_iff

theorem isUrlChar_of_isNameChar {c : Char} (h : isNameChar c = true) : isUrlChar c = true := by
  rw [isUrlChar_iff]
  simp only [isNameChar, Bool.or_eq_true, beq_iff_eq] at h
  rcases h with ((h | rfl) | rfl) | rfl
  · have := isAlphanum_range h
    omega
  · decide
  · decide
  · decide

theorem isNameChar_of_isDigit {c : Char} (h : c.isDigit = true) : isNameChar c = true := by
  simp [isNameChar, Char.isAlphanum, h]

theorem isNameChar_toLower (c : Char) : isNameChar c.toLower = isNameChar c := by
  have hletter : ∀ d : Char, 65 ≤ d.toNat ∧ d.toNat ≤ 90 ∨ 97 ≤ d.toNat ∧ d.toNat ≤ 122 →
      isNameChar d = true := by
    intro d hd
    have hcases : d.isUpper = true ∨ d.isLower = true := by
      rwa [isUpper_iff, isLower_iff]
    rcases hcases with h | h <;> simp [isNameChar, Char.isAlphanum, isAlpha_eq, h]
  by_cases hcapital : 65 ≤ c.toNat ∧ c.toNat ≤ 90
  · rw [hletter c (Or.inl hcapital), hletter c.toLower]
    rw [toNat_toLower, if_pos hcapital]
    omega
  · rw [toLower_of_not_letter hcapital]

/-- A name has no `/` and no `:`. -/
theorem not_delimiter_of_isNameChar {c : Char} (h : isNameChar c = true) :
    (c == '/' || c == ':') = false := by
  rw [← Bool.not_eq_true, Bool.or_eq_true, beq_iff_eq, beq_iff_eq]
  rintro (rfl | rfl)
  · exact absurd h (by decide)
  · exact absurd h (by decide)

theorem isUrlChar_toLower {c : Char} (h : isUrlChar c = true) : isUrlChar c.toLower = true := by
  rw [isUrlChar_iff] at *
  rw [toNat_toLower]
  split <;> omega

theorem not_whitespace_of_isUrlChar {c : Char} (h : isUrlChar c = true) : isWhitespace c = false := by
  rw [isUrlChar_iff] at h
  simp only [isWhitespace]
  grind

namespace Writing.WellFormed

variable {w : Writing} (h : w.WellFormed)

include h

theorem hostPart_chars : ∀ c ∈ w.hostPart, isNameChar c = true := by
  intro c hc
  rcases List.mem_append.1 hc with hc | hc
  · exact h.nameChars c hc
  · split at hc
    · rw [List.mem_singleton.1 hc]
      decide
    · exact absurd hc List.not_mem_nil

theorem portPart_chars : ∀ c ∈ w.portPart, isUrlChar c = true := by
  intro c hc
  cases hport : w.port with
  | none =>
      rw [Writing.portPart, hport] at hc
      exact absurd hc List.not_mem_nil
  | some p =>
      rw [Writing.portPart, hport] at hc
      rcases List.mem_cons.1 hc with rfl | hc
      · decide
      · exact isUrlChar_of_isNameChar (isNameChar_of_isDigit ((h.port p hport).2.1 c hc))

theorem tail_chars : ∀ c ∈ w.tail, isUrlChar c = true := by
  intro c hc
  have hpart : ∀ (part : Option Str) (d : Char), isUrlChar d = true →
      (∀ p ∈ part, ∀ c ∈ p, isUrlChar c = true) → c ∈ (part.map (d :: ·)).getD [] →
      isUrlChar c = true := by
    intro part d hd hall hmem
    cases part with
    | none => exact absurd hmem List.not_mem_nil
    | some p =>
        rcases List.mem_cons.1 hmem with rfl | hmem
        · exact hd
        · exact hall p rfl c hmem
  rcases List.mem_append.1 hc with hc | hc
  · exact hpart w.path '/' (by decide) (fun p hp c hc => (h.path p hp c hc).1) hc
  · rcases List.mem_append.1 hc with hc | hc
    · exact hpart w.query '?' (by decide) (fun p hp c hc => (h.query p hp c hc).1) hc
    · exact hpart w.fragment '#' (by decide) h.fragment hc

/-- The letters of a scheme are those of `http` and `https`, in some case. -/
theorem scheme_chars {s : Str} (hscheme : w.scheme = some s) :
    s ≠ [] ∧ ∀ c ∈ s, isUrlChar c = true ∧ c ≠ '.' := by
  have hletters : ∀ t ∈ ["http".toList, "https".toList],
      t ≠ [] ∧ ∀ d ∈ t, 97 ≤ d.toNat ∧ d.toNat ≤ 122 := by decide
  obtain ⟨hne, hlower⟩ := hletters _ (h.scheme s hscheme)
  refine ⟨fun hs => hne (by rw [hs]; rfl), fun c hc => ?_⟩
  have hrange := hlower c.toLower (List.mem_map_of_mem hc)
  rw [toNat_toLower] at hrange
  refine ⟨?_, fun hdot => ?_⟩
  · rw [isUrlChar_iff]
    split at hrange <;> omega
  · rw [hdot] at hrange
    exact absurd hrange (by decide)

theorem core_chars : ∀ c ∈ w.core, isUrlChar c = true := by
  intro c hc
  rcases List.mem_append.1 hc with hc | hc
  · cases hscheme : w.scheme with
    | none =>
        rw [hscheme] at hc
        exact absurd hc List.not_mem_nil
    | some s =>
        rw [hscheme] at hc
        rcases List.mem_append.1 hc with hc | hc
        · exact ((h.scheme_chars hscheme).2 c hc).1
        · have hsep : ∀ c ∈ "://".toList, isUrlChar c = true := by decide
          exact hsep c hc
  · rcases List.mem_append.1 hc with hc | hc
    · exact isUrlChar_of_isNameChar (h.hostPart_chars c hc)
    · rcases List.mem_append.1 hc with hc | hc
      · exact h.portPart_chars c hc
      · exact h.tail_chars c hc

theorem core_head : w.core.head? ≠ some '.' := by
  cases hscheme : w.scheme with
  | none =>
      rw [Writing.core, hscheme, Option.map_none, Option.getD_none, List.nil_append,
        Writing.hostPart, List.append_assoc, List.head?_append_of_ne_nil _ h.nameEnds.1]
      exact h.nameEnds.2.1
  | some s =>
      obtain ⟨hne, hchars⟩ := h.scheme_chars hscheme
      rw [Writing.core, hscheme, Option.map_some, Option.getD_some, List.append_assoc,
        List.head?_append_of_ne_nil _ hne]
      exact fun hhead => (hchars '.' (List.mem_of_mem_head? hhead)).2 rfl

end Writing.WellFormed

/-! ## Both routes read the effective host -/

theorem trimStart_dots_eq_self_iff (s : Str) :
    trimStartMatches (· == '.') s = s ↔ s.head? ≠ some '.' := by
  rw [trimStartMatches, List.dropWhile_eq_self_iff]
  cases s with
  | nil => simp
  | cons c cs => simp

theorem toLower_delimiter (c : Char) :
    (c.toLower == '/' || c.toLower == ':') = (c == '/' || c == ':') := by
  have hback : ∀ d : Char, d = '/' ∨ d = ':' → (c.toLower = d ↔ c = d) := by
    rintro d hd
    constructor
    · exact eq_of_toLower_eq (by rcases hd with rfl | rfl <;> decide)
    · rintro rfl
      exact toLower_of_not_letter (by rcases hd with rfl | rfl <;> decide)
  rw [Bool.eq_iff_iff]
  simp [hback '/' (Or.inl rfl), hback ':' (Or.inr rfl)]

theorem contains_toAsciiLowercase (s : Str) :
    contains (toAsciiLowercase s) "://".toList = contains s "://".toList := by
  have hkeep : toAsciiLowercase "://".toList = "://".toList := by decide
  rw [contains, contains, decide_eq_decide]
  constructor
  · intro h
    obtain ⟨l, hl, heq⟩ := List.infix_map_iff.1 h
    have : l = "://".toList := by
      have hmem : ∀ d ∈ "://".toList, ¬ (97 ≤ d.toNat ∧ d.toNat ≤ 122) := by decide
      have hid : l.map Char.toLower = l := by
        conv_rhs => rw [← List.map_id l]
        refine List.map_congr_left (fun c hc => ?_)
        exact (eq_of_toLower_eq (hmem _ (heq ▸ List.mem_map_of_mem hc)) rfl).symm
      rw [← hid, ← heq]
    rwa [this] at hl
  · intro h
    rw [← hkeep]
    exact h.map _

section

variable [UnicodeTables] [LawfulUnicode] {w : Writing}

namespace Writing.WellFormed

variable (h : w.WellFormed)

include h

omit [UnicodeTables] [LawfulUnicode] in
theorem trim_text : trim w.text = w.core :=
  trim_padded h.before (fun c hc => not_whitespace_of_isUrlChar (h.core_chars c hc)) h.after

theorem toLowercase_core : toLowercase w.core = toAsciiLowercase w.core :=
  toLowercase_ascii (fun c hc => by
    have := (isUrlChar_iff c).1 (h.core_chars c hc)
    omega)

omit [UnicodeTables] [LawfulUnicode] in
/-- The split at `/` and `:` stops after the host, and whatever is glued to it. -/
theorem takeWhile_core (hbare : w.scheme = none) :
    w.core.takeWhile (fun c => !(c == '/' || c == ':')) = w.hostPart ++ w.glued := by
  have hhost : ∀ c ∈ w.hostPart, (!(c == '/' || c == ':')) = true := fun c hc => by
    rw [not_delimiter_of_isNameChar (h.hostPart_chars c hc)]
    rfl
  rw [Writing.core, hbare, Option.map_none, Option.getD_none, List.nil_append,
    List.takeWhile_append_of_pos hhost, Writing.glued, hbare, Option.isNone_none, Bool.true_and]
  cases hport : w.port with
  | some p => simp [Writing.portPart, hport]
  | none =>
      cases hpath : w.path with
      | some p => simp [Writing.portPart, Writing.tail, hport, hpath]
      | none => simp [Writing.portPart, hport]

omit h [UnicodeTables] [LawfulUnicode] in
theorem contains_core {s : Str} (hscheme : w.scheme = some s) :
    contains w.core "://".toList = true := by
  rw [contains, decide_eq_true_iff, Writing.core, hscheme]
  exact ⟨s, _, rfl⟩

omit [UnicodeTables] [LawfulUnicode] in
theorem lower_hostPart_ne_nil (extra : Str) : toAsciiLowercase (w.hostPart ++ extra) ≠ [] := by
  intro hnil
  have := List.append_eq_nil_iff.1 (List.map_eq_nil_iff.1 hnil)
  exact h.nameEnds.1 (List.append_eq_nil_iff.1 this.1).1

variable [UrlCrate] [LawfulUrl]

theorem normalizeDomain_text : normalizeDomain w.text = w.effectiveHost := by
  rw [normalizeDomain, h.trim_text, (trimStart_dots_eq_self_iff w.core).2 h.core_head,
    h.toLowercase_core, contains_toAsciiLowercase, Writing.effectiveHost]
  cases hscheme : w.scheme with
  | some s =>
      have hhost := LawfulUrl.host_of_absolute w _ h (by rw [hscheme]; rfl)
        (toAsciiLowercase_idem w.core)
      have hglued : w.glued = [] := by simp [Writing.glued, hscheme]
      rw [contains_core hscheme, hhost, hglued]
      simpa using h.lower_hostPart_ne_nil []
  | none =>
      simp only [Option.isNone_none, Bool.true_and]
      by_cases hurl : contains w.core "://".toList = true
      · rw [if_pos hurl, if_pos hurl,
          LawfulUrl.host_of_bare w _ h hscheme (toAsciiLowercase_idem w.core)]
        rfl
      · have htake : (toAsciiLowercase w.core).takeWhile (fun c => !(c == '/' || c == ':'))
            = toAsciiLowercase (w.hostPart ++ w.glued) := by
          rw [toAsciiLowercase, List.takeWhile_map, ← h.takeWhile_core hscheme, toAsciiLowercase]
          congr 2
          funext c
          exact congrArg not (toLower_delimiter c)
        rw [if_neg hurl, if_neg hurl, head?_split, htake]
        simpa using h.lower_hostPart_ne_nil w.glued

theorem hostFromUrl_text : hostFromUrl w.text = w.effectiveHost := by
  rw [hostFromUrl, h.trim_text, h.normalizeDomain_text]
  cases hscheme : w.scheme with
  | none => rw [LawfulUrl.host_of_bare w _ h hscheme rfl]; rfl
  | some s =>
      have hglued : w.glued = [] := by simp [Writing.glued, hscheme]
      rw [LawfulUrl.host_of_absolute w _ h (by rw [hscheme]; rfl) rfl, Writing.effectiveHost, hglued,
        hscheme, List.append_nil, Option.map_some, Option.some_or]
      have hascii : toLowercase (toAsciiLowercase w.hostPart)
          = toAsciiLowercase (toAsciiLowercase w.hostPart) := by
        refine toLowercase_ascii (fun c hc => ?_)
        obtain ⟨d, hd, rfl⟩ := List.mem_map.1 hc
        have := (isUrlChar_iff _).1 (isUrlChar_toLower
          (isUrlChar_of_isNameChar (h.hostPart_chars d hd)))
        omega
      rw [hascii, toAsciiLowercase_idem]
      rfl

end Writing.WellFormed

end

/-! ## When the host is the name -/

/-- The host begins with the name. -/
theorem Writing.exists_extra {w : Writing} {host : Str} (hhost : w.effectiveHost = some host) :
    ∃ extra, host = w.plainName ++ extra := by
  rw [Writing.effectiveHost] at hhost
  split at hhost
  · cases hhost
  · rw [← Option.some.inj hhost, Writing.hostPart, List.append_assoc, toAsciiLowercase,
      List.map_append]
    exact ⟨_, rfl⟩

theorem Writing.glued_eq_nil_iff (w : Writing) :
    w.glued = [] ↔ w.scheme.isSome ∨ w.port.isSome ∨ w.path.isSome ∨
      (w.query = none ∧ w.fragment = none) := by
  rw [Writing.glued, Writing.tail]
  cases w.scheme <;> cases w.port <;> cases w.path <;> cases w.query <;> cases w.fragment <;> simp

/-- **Both routes read the name alone exactly when the writing is clean.** -/
theorem Writing.effectiveHost_eq_plainName_iff (w : Writing) :
    w.effectiveHost = some w.plainName ↔ w.Clean := by
  have hname : toAsciiLowercase (w.hostPart ++ w.glued) = w.plainName ↔
      w.rootDot = false ∧ w.glued = [] := by
    rw [Writing.hostPart, Writing.plainName]
    constructor
    · intro heq
      have hlen := congrArg List.length heq
      simp only [toAsciiLowercase, List.length_map, List.length_append] at hlen
      cases hdot : w.rootDot with
      | true =>
          simp only [hdot, if_true, List.length_singleton] at hlen
          omega
      | false => exact ⟨rfl, List.length_eq_zero_iff.1 (by omega)⟩
    · rintro ⟨hdot, hglued⟩
      simp [hdot, hglued]
  rw [Writing.effectiveHost, Writing.Clean]
  cases hscheme : w.scheme with
  | some s => simp [hname, w.glued_eq_nil_iff, hscheme]
  | none =>
      cases hurl : contains w.core "://".toList with
      | true => simp
      | false => simp [hname, w.glued_eq_nil_iff, hscheme]

/-! ## Rules and locations follow the name -/

theorem IsSubdomain.length_le {d host : Str} (h : IsSubdomain d host) : d.length ≤ host.length := by
  rcases h with rfl | ⟨label, rfl⟩
  · exact le_rfl
  · rw [List.length_append, List.length_cons]
    omega

/-- The name with nothing around it. -/
def Writing.plain (w : Writing) : Writing where
  before := []
  scheme := none
  name := w.plainName
  rootDot := false
  port := none
  path := none
  query := none
  fragment := none
  after := []

theorem Writing.plain_text (w : Writing) : w.plain.text = w.plainName := by
  simp [Writing.text, Writing.core, Writing.hostPart, Writing.portPart, Writing.tail, Writing.plain]

theorem Writing.WellFormed.plainName_chars {w : Writing} (h : w.WellFormed) :
    ∀ c ∈ w.plainName, isNameChar c = true := by
  intro c hc
  obtain ⟨d, hd, rfl⟩ := List.mem_map.1 hc
  rw [isNameChar_toLower]
  exact h.nameChars d hd

theorem Writing.WellFormed.plain {w : Writing} (h : w.WellFormed) : w.plain.WellFormed := by
  obtain ⟨hne, hfirst, hlast⟩ := h.nameEnds
  have hdot : ∀ o : Option Char, o ≠ some '.' → o.map Char.toLower ≠ some '.' := by
    intro o ho heq
    obtain ⟨c, rfl, hc⟩ := Option.map_eq_some_iff.1 heq
    exact ho (congrArg some (eq_of_toLower_eq (by decide) hc))
  constructor <;> simp only [Writing.plain]
  · simp
  · simp
  · simp
  · exact h.plainName_chars
  · simp only [Writing.plainName, toAsciiLowercase, List.head?_map, List.getLast?_map]
    exact ⟨fun hnil => hne (List.map_eq_nil_iff.1 hnil), hdot _ hfirst, hdot _ hlast⟩
  · simp
  · simp
  · simp
  · simp
  · simp

theorem Writing.WellFormed.plain_clean {w : Writing} (h : w.WellFormed) : w.plain.Clean := by
  have hcore : w.plain.core = w.plainName := by
    simp [Writing.core, Writing.hostPart, Writing.portPart, Writing.tail, Writing.plain]
  refine ⟨rfl, Or.inr ⟨?_, Or.inr (Or.inr ⟨rfl, rfl⟩)⟩⟩
  rw [hcore, contains, decide_eq_false_iff_not]
  intro hsep
  have hcolon := h.plainName_chars ':' (hsep.subset (by decide))
  exact absurd hcolon (by decide)

/-- A host that extends the name covers the name only when it is the name. -/
theorem Writing.clean_of_isSubdomain {w : Writing} {host : Str} (hhost : w.effectiveHost = some host)
    (h : IsSubdomain host w.plainName) : w.Clean := by
  obtain ⟨extra, rfl⟩ := Writing.exists_extra hhost
  have hlen := h.length_le
  rw [List.length_append] at hlen
  obtain rfl : extra = [] := List.length_eq_zero_iff.1 (by omega)
  rw [List.append_nil] at hhost
  exact w.effectiveHost_eq_plainName_iff.1 hhost

section

variable [UnicodeTables] [LawfulUnicode] [UrlCrate] [LawfulUrl]

theorem Writing.WellFormed.hosts_plainName {w : Writing} (h : w.WellFormed) :
    normalizeDomain w.plainName = some w.plainName ∧ hostFromUrl w.plainName = some w.plainName := by
  have hhost : w.plain.effectiveHost = some w.plainName := by
    rw [w.plain.effectiveHost_eq_plainName_iff.2 h.plain_clean]
    exact congrArg some (toAsciiLowercase_idem w.name)
  have hentry := h.plain.normalizeDomain_text
  have hurl := h.plain.hostFromUrl_text
  rw [w.plain_text, hhost] at hentry hurl
  exact ⟨hentry, hurl⟩

/-- A rule written as `e` acts as the rule that is the name alone. -/
def EntryFollowsName (e : Writing) : Prop :=
  ∀ apps front back url,
    (Blocklist.new apps (front ++ e.text :: back)).blocksUrl url
        = (Blocklist.new apps (front ++ e.plainName :: back)).blocksUrl url ∧
      urlMatchesDomainSuffix url e.text = urlMatchesDomainSuffix url e.plainName

/-- A location written as `u` is treated as the name alone is. -/
def UrlFollowsName (u : Writing) : Prop :=
  ∀ apps domains entry,
    (Blocklist.new apps domains).blocksUrl u.text
      = (Blocklist.new apps domains).blocksUrl u.plainName ∧
      urlMatchesDomainSuffix u.text entry = urlMatchesDomainSuffix u.plainName entry

theorem entryFollowsName_iff {e : Writing} (h : e.WellFormed) : EntryFollowsName e ↔ e.Clean := by
  obtain ⟨hentry, hurl⟩ := h.hosts_plainName
  constructor
  · intro hfollows
    -- the name alone is a location that the name alone matches
    have hmatch : urlMatchesDomainSuffix e.plainName e.text = true := by
      rw [(hfollows [] [] [] e.plainName).2]
      exact (urlMatchesDomainSuffix_iff hentry hurl).2 (Or.inl rfl)
    cases hhost : e.effectiveHost with
    | none =>
        rw [urlMatchesDomainSuffix, h.normalizeDomain_text, hhost] at hmatch
        cases hmatch
    | some host =>
        rw [urlMatchesDomainSuffix_iff (h.normalizeDomain_text.trans hhost) hurl] at hmatch
        exact Writing.clean_of_isSubdomain hhost hmatch
  · intro hclean apps front back url
    have hsame : normalizeDomain e.text = normalizeDomain e.plainName := by
      rw [h.normalizeDomain_text, e.effectiveHost_eq_plainName_iff.2 hclean, hentry]
    refine ⟨?_, by rw [urlMatchesDomainSuffix, hsame, urlMatchesDomainSuffix]⟩
    simp only [Blocklist.new, List.filterMap_append, List.filterMap_cons, hsame]

theorem urlFollowsName_iff {u : Writing} (h : u.WellFormed) : UrlFollowsName u ↔ u.Clean := by
  obtain ⟨hentry, hurl⟩ := h.hosts_plainName
  constructor
  · intro hfollows
    cases hhost : u.effectiveHost with
    | none =>
        have hmatch := (urlMatchesDomainSuffix_iff hentry hurl).2 (Or.inl rfl)
        rw [← (hfollows [] [] u.plainName).2, urlMatchesDomainSuffix, hentry, h.hostFromUrl_text,
          hhost] at hmatch
        cases hmatch
    | some host =>
        -- the location itself is an entry that matches it
        have hself := h.normalizeDomain_text.trans hhost
        have hmatch :=
          (urlMatchesDomainSuffix_iff hself (h.hostFromUrl_text.trans hhost)).2 (Or.inl rfl)
        rw [(hfollows [] [] u.text).2, urlMatchesDomainSuffix_iff hself hurl] at hmatch
        exact Writing.clean_of_isSubdomain hhost hmatch
  · intro hclean apps domains entry
    have hsame : hostFromUrl u.text = hostFromUrl u.plainName := by
      rw [h.hostFromUrl_text, u.effectiveHost_eq_plainName_iff.2 hclean, hurl]
    exact ⟨by rw [Blocklist.blocksUrl, hsame, Blocklist.blocksUrl],
      by rw [urlMatchesDomainSuffix, hsame, urlMatchesDomainSuffix]⟩

/-! ## Entries that stay as they are -/

/-- The entry without white space around it and without leading dots. -/
def entryBody (entry : Str) : Str := trimStartMatches (· == '.') (trim entry)

omit [UnicodeTables] [LawfulUnicode] [UrlCrate] [LawfulUrl] in
theorem entryBody_head (entry : Str) : (entryBody entry).head? ≠ some '.' :=
  (trimStart_dots_eq_self_iff _).1 (List.dropWhile_idempotent _ _)

/-- A pasted URL settles when its host is in lower case, without `:` and without a dot or white
    space at an end; any other entry when what it has before its first `/` or `:` has no white space
    at an end. -/
def EntrySettles (entry : Str) : Prop :=
  if contains (toLowercase (entryBody entry)) "://".toList then
    ∀ host ∈ (UrlCrate.parse (toLowercase (entryBody entry))).bind Url.host,
      toLowercase host = host ∧ ':' ∉ host ∧ host.head? ≠ some '.' ∧ trim host = host
  else
    let piece := (entryBody entry).takeWhile (fun c => !(c == '/' || c == ':'))
    trim piece = piece

omit [LawfulUrl] in
/-- A host without `/` is not read as a URL: it is cut at a port and what is left must be itself. -/
theorem normalizeDomain_eq_self_iff_takeWhile {host : Str} (hne : host ≠ [])
    (hslash : '/' ∉ host) : normalizeDomain host = some host ↔
      (toLowercase (entryBody host)).takeWhile (fun c => !(c == '/' || c == ':')) = host := by
  have hbody : entryBody host <:+ trim host := List.dropWhile_suffix _
  have hnoUrl : contains (toLowercase (entryBody host)) "://".toList = false := by
    rw [contains, decide_eq_false_iff_not]
    intro hsep
    have hmem := mem_of_mem_toLowercase (by decide) (by decide) (hsep.subset (a := '/') (by decide))
    exact hslash ((trim_isInfix host).subset (hbody.subset hmem))
  rw [normalizeDomain, ← entryBody, hnoUrl, head?_split]
  simp only [Bool.false_eq_true, if_false, Option.bind_eq_bind, Option.bind_some]
  split
  · next hnil =>
    rw [hnil]
    simp [Ne.symm hne]
  · exact Option.some_inj

omit [LawfulUrl] in
/-- When a host without `/` is read as itself. -/
theorem normalizeDomain_eq_self_iff {host : Str} (hne : host ≠ []) (hslash : '/' ∉ host)
    (hlen : ∀ t, (∀ c ∈ t, c ∈ host) → (toLowercase t).length = t.length) :
    normalizeDomain host = some host ↔
      toLowercase host = host ∧ ':' ∉ host ∧ host.head? ≠ some '.' ∧ trim host = host := by
  have htrim : (trim host).length ≤ host.length := (trim_isInfix host).length_le
  have hbody : entryBody host <:+ trim host := List.dropWhile_suffix _
  have hmem : ∀ c ∈ entryBody host, c ∈ host :=
    fun c hc => (trim_isInfix host).subset (hbody.subset hc)
  rw [normalizeDomain_eq_self_iff_takeWhile hne hslash]
  constructor
  · intro htake
    -- every step only shortens, and the result is as long as the host
    have hpre := List.takeWhile_prefix (fun c => !(c == '/' || c == ':'))
      (l := toLowercase (entryBody host))
    rw [htake] at hpre
    have hlong := hpre.length_le
    rw [hlen _ hmem] at hlong
    have hlower : host = toLowercase (entryBody host) :=
      hpre.eq_of_length_le (by rw [hlen _ hmem]; exact hbody.length_le.trans htrim)
    have hspace : trim host = host :=
      (trim_isInfix host).eq_of_length_le (hlong.trans hbody.length_le)
    have hdots : entryBody host = host := by
      rw [hbody.eq_of_length_le (htrim.trans hlong), hspace]
    rw [hdots] at hlower htake
    refine ⟨hlower.symm, fun hcolon => ?_, ?_, hspace⟩
    · rw [← htake] at hcolon
      simpa using List.mem_takeWhile_imp hcolon
    · rw [entryBody, hspace] at hdots
      exact (trimStart_dots_eq_self_iff host).1 hdots
  · rintro ⟨hlower, hcolon, hhead, hspace⟩
    rw [entryBody, hspace, (trimStart_dots_eq_self_iff host).2 hhead, hlower]
    refine List.takeWhile_eq_self_iff.2 (fun c hc => ?_)
    have hcolon : c ≠ ':' := fun heq => hcolon (heq ▸ hc)
    have hslash : c ≠ '/' := fun heq => hslash (heq ▸ hc)
    simp [hcolon, hslash]

omit [UrlCrate] [LawfulUrl] in
/-- What is cut off the body of an entry does not begin with a dot, as the body does not. -/
theorem head?_takeWhile_entryBody {entry host : Str} {p : Char → Bool}
    (h : (toLowercase (entryBody entry)).takeWhile p = host) : host.head? ≠ some '.' := by
  intro hdot
  obtain ⟨rest, hrest⟩ := h ▸ List.takeWhile_prefix p (l := toLowercase (entryBody entry))
  have hbody : (toLowercase (entryBody entry)).head? = some '.' := by
    rw [← hrest, List.head?_append, hdot, Option.some_or]
  exact entryBody_head entry (head?_of_head?_toLowercase (by decide) (by decide) hbody)

theorem normalizeDomain_settles_iff {entry host : Str} (h : normalizeDomain entry = some host) :
    normalizeDomain host = some host ↔ EntrySettles entry := by
  rw [normalizeDomain, ← entryBody] at h
  rw [EntrySettles]
  -- an entry with a scheme goes through the crate, any other is cut by hand
  by_cases hurl : contains (toLowercase (entryBody entry)) "://".toList = true
  · rw [if_pos hurl] at h
    obtain ⟨read, hread, hhost⟩ := Option.bind_eq_some_iff.1 h
    obtain ⟨hne, hsame⟩ := Option.ite_none_left_eq_some.1 hhost
    obtain rfl := Option.some.inj hsame
    have hascii := LawfulUrl.ascii _ _ hread
    rw [if_pos hurl, hread, normalizeDomain_eq_self_iff hne (LawfulUrl.slash_not_mem _ _ hread)]
    · simp
    · intro t ht
      rw [toLowercase_ascii (fun c hc => hascii c (ht c hc)), toAsciiLowercase, List.length_map]
  · rw [if_neg hurl, head?_split] at h
    obtain ⟨hne, htake⟩ := Option.ite_none_left_eq_some.1 h
    replace htake := Option.some.inj htake
    have hsettled : ∀ t, (∀ c ∈ t, c ∈ host) → toLowercase t = t := by
      intro t ht
      refine LawfulUnicode.toLowercase_settled (entryBody entry) t (fun c hc => ?_)
      exact (List.takeWhile_prefix _).subset (htake ▸ ht c hc)
    have hcut : ∀ c ∈ host, c ≠ '/' ∧ c ≠ ':' := by
      intro c hc
      rw [← htake] at hc
      simpa using List.mem_takeWhile_imp hc
    have hhead : host.head? ≠ some '.' := head?_takeWhile_entryBody htake
    rw [if_neg hurl, normalizeDomain_eq_self_iff (htake ▸ hne) (fun hc => (hcut _ hc).1 rfl)
      (fun t ht => by rw [hsettled t ht]), ← trim_takeWhile_toLowercase _ _ (entryBody entry), htake]
    · simp only [hsettled host (fun c hc => hc), hhead, ne_eq, not_false_eq_true, true_and,
        and_iff_right_iff_imp]
      exact fun _ hc => (hcut _ hc).2 rfl
    · intro c hc
      simp only [Bool.not_eq_false', Bool.or_eq_true, beq_iff_eq] at hc
      rcases hc with rfl | rfl <;> decide

/-- **A domain rule and a location depend on the name alone exactly when they are written cleanly,
and a normalized entry is settled exactly when the entry leaves nothing to trim.** -/
theorem domain_rules_follow_name :
    (∀ e : Writing, e.WellFormed → (EntryFollowsName e ↔ e.Clean)) ∧
      (∀ u : Writing, u.WellFormed → (UrlFollowsName u ↔ u.Clean)) ∧
      ∀ entry host, normalizeDomain entry = some host →
        (normalizeDomain host = some host ↔ EntrySettles entry) :=
  ⟨fun _ h => entryFollowsName_iff h, fun _ h => urlFollowsName_iff h,
    fun _ _ h => normalizeDomain_settles_iff h⟩

end

/-! ## A crate for web URLs -/

/-- The host of an `http` or `https` URL: what is up to the first character that is in no name. -/
def webHost (s : Str) : Option Str :=
  let t := toAsciiLowercase s
  if "http://".toList <+: t then some ((t.drop 7).takeWhile isNameChar)
  else if "https://".toList <+: t then some ((t.drop 8).takeWhile isNameChar)
  else none

/-- A `url` crate that knows the host of a web URL and nothing else of it. -/
@[reducible] def webUrls : UrlCrate :=
  .ofParts (fun s => (webHost s).map (fun host =>
    { scheme := [], username := [], password := none, host := some host, port := none, path := [],
      query := none, fragment := none })) (fun _ => [])

/-- What follows the host begins with no character of a name. -/
theorem Writing.takeWhile_afterHost (w : Writing) :
    (toAsciiLowercase (w.portPart ++ w.tail)).takeWhile isNameChar = [] := by
  rw [Writing.portPart, Writing.tail]
  cases w.port with
  | some p => exact List.takeWhile_cons_of_neg (by decide)
  | none =>
      cases w.path with
      | some p => exact List.takeWhile_cons_of_neg (by decide)
      | none =>
          cases w.query with
          | some q => exact List.takeWhile_cons_of_neg (by decide)
          | none =>
              cases w.fragment with
              | some f => exact List.takeWhile_cons_of_neg (by decide)
              | none => rfl

theorem Writing.WellFormed.takeWhile_host {w : Writing} (h : w.WellFormed) :
    (toAsciiLowercase (w.hostPart ++ (w.portPart ++ w.tail))).takeWhile isNameChar
      = toAsciiLowercase w.hostPart := by
  have hchars : ∀ c ∈ toAsciiLowercase w.hostPart, isNameChar c = true := by
    intro c hc
    obtain ⟨d, hd, rfl⟩ := List.mem_map.1 hc
    rw [isNameChar_toLower]
    exact h.hostPart_chars d hd
  rw [toAsciiLowercase, List.map_append, ← toAsciiLowercase, ← toAsciiLowercase,
    List.takeWhile_append_of_pos hchars, w.takeWhile_afterHost, List.append_nil]

/-- A name without a scheme does not begin as a URL. -/
theorem Writing.WellFormed.bare_not_url {w : Writing} (h : w.WellFormed) (hbare : w.scheme = none)
    (scheme : Str) (hscheme : ∀ c ∈ scheme, isNameChar c = true) :
    ¬ scheme ++ "://".toList <+: toAsciiLowercase w.core := by
  rintro ⟨rest, hrest⟩
  have hcore : w.core = w.hostPart ++ (w.portPart ++ w.tail) := by rw [Writing.core, hbare]; rfl
  have hstop : ("://".toList ++ rest).takeWhile isNameChar = [] :=
    List.takeWhile_cons_of_neg (by decide)
  have hhost : toAsciiLowercase w.hostPart = scheme := by
    rw [← h.takeWhile_host, ← hcore, ← hrest, List.append_assoc,
      List.takeWhile_append_of_pos hscheme, hstop, List.append_nil]
  rw [hcore, toAsciiLowercase, List.map_append, ← toAsciiLowercase, hhost, List.append_assoc,
    List.append_cancel_left_eq] at hrest
  -- what follows the name is a port, which has a digit after its colon, or begins with no colon
  cases hport : w.port with
  | some p =>
      obtain ⟨hne, hdigits, -⟩ := h.port p hport
      obtain ⟨d, ds, rfl⟩ := List.exists_cons_of_ne_nil hne
      have hslash : '/' = d.toLower := by
        rw [Writing.portPart, hport] at hrest
        exact (List.cons.inj (List.cons.inj hrest).2).1
      obtain rfl : d = '/' := eq_of_toLower_eq (by decide) hslash.symm
      exact absurd (hdigits '/' List.mem_cons_self) (by decide)
  | none =>
      have hcolon : (':' : Char) ∉ ((w.portPart ++ w.tail).map Char.toLower).head? := by
        rw [Writing.portPart, Writing.tail, hport]
        cases w.path <;> cases w.query <;> cases w.fragment <;> simp
      rw [← hrest] at hcolon
      exact hcolon rfl

theorem webUrls_host (s : Str) : ((@UrlCrate.parse webUrls) s).bind Url.host = webHost s := by
  show ((webHost s).map _).bind Url.host = webHost s
  cases webHost s <;> rfl

theorem webHost_chars {s host : Str} (h : webHost s = some host) :
    ∀ c ∈ host, isNameChar c = true := by
  rw [webHost] at h
  intro c hc
  split at h
  · rw [← Option.some.inj h] at hc
    exact List.mem_takeWhile_imp hc
  · split at h
    · rw [← Option.some.inj h] at hc
      exact List.mem_takeWhile_imp hc
    · cases h

theorem lawful_webUrls : @LawfulUrl webUrls := by
  refine @LawfulUrl.mk webUrls (fun w t h hscheme heq => ?_) (fun w t h hbare heq => ?_)
    (fun s host hhost hc => ?_) (fun s host hhost c hc => ?_)
  · obtain ⟨s, hs⟩ := Option.isSome_iff_exists.1 hscheme
    have hcore : toAsciiLowercase w.core = toAsciiLowercase s ++ "://".toList ++
        toAsciiLowercase (w.hostPart ++ (w.portPart ++ w.tail)) := by
      rw [Writing.core, hs]
      simp [toAsciiLowercase]
    rw [webUrls_host, webHost, heq, hcore]
    rcases List.mem_pair.1 (h.scheme s hs) with hs | hs
    · rw [hs, if_pos ⟨_, rfl⟩]
      exact congrArg some h.takeWhile_host
    · have hnot : ¬ "http://".toList <+: "https".toList ++ "://".toList ++
          toAsciiLowercase (w.hostPart ++ (w.portPart ++ w.tail)) := by
        rintro ⟨rest, hrest⟩
        simp at hrest
      rw [hs, if_neg hnot, if_pos ⟨_, rfl⟩]
      exact congrArg some h.takeWhile_host
  · rw [webUrls_host, webHost, heq, if_neg, if_neg]
    · exact h.bare_not_url hbare "https".toList (by decide)
    · exact h.bare_not_url hbare "http".toList (by decide)
  · rw [webUrls_host] at hhost
    exact absurd (webHost_chars hhost '/' hc) (by decide)
  · rw [webUrls_host] at hhost
    have := (isUrlChar_iff c).1 (isUrlChar_of_isNameChar (webHost_chars hhost c hc))
    omega

section Witness

attribute [local instance] asciiTables webUrls lawful_asciiTables lawful_webUrls

/-- A rule as it is pasted from a browser. -/
def bankRule : Writing where
  before := " ".toList
  scheme := some "HTTPS".toList
  name := "Bank.com".toList
  rootDot := false
  port := some "443".toList
  path := some "login".toList
  query := some "x=1".toList
  fragment := none
  after := []

theorem bankRule_wellFormed : bankRule.WellFormed := by
  constructor <;> simp only [bankRule, Option.mem_def]
  all_goals decide

/-- The rule ` HTTPS://Bank.com:443/login?x=1` acts as `bank.com`. -/
theorem bankRule_follows_name :
    EntryFollowsName bankRule ∧ UrlFollowsName bankRule ∧
      normalizeDomain "bank.com".toList = some "bank.com".toList := by
  obtain ⟨hentry, hurl, hsettles⟩ := domain_rules_follow_name
  refine ⟨(hentry bankRule bankRule_wellFormed).2 (by decide),
    (hurl bankRule bankRule_wellFormed).2 (by decide),
    (hsettles bankRule.text "bank.com".toList (by decide)).2 ?_⟩
  rw [EntrySettles, if_pos (by decide)]
  decide

/-- The root dot hides a location from the rule for its name, a query glued to a rule hides the
    name from the rule, and white space after a leading dot is normalized only the second time. -/
theorem domain_rules_miss :
    (Blocklist.new [] ["bank.com".toList]).blocksUrl "https://bank.com/".toList = true ∧
      (Blocklist.new [] ["bank.com".toList]).blocksUrl "https://bank.com./".toList = false ∧
      (Blocklist.new [] ["bank.com?x=1".toList]).blocksUrl "https://bank.com/".toList = false ∧
      normalizeDomain ". bank.com".toList = some " bank.com".toList ∧
      normalizeDomain " bank.com".toList = some "bank.com".toList := by
  decide

end Witness

end Fndr
