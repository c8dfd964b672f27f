import Fndr.Library.Strings

set_option autoImplicit false

/-! # Hosts, sanitized URLs and the owner blocklist

The `url` crate is outside the repository, so its parser, setters and serialization are the class
`UrlCrate`. Everything else is `blocklist.rs`: the one host normalization and
the one label-boundary match that the blocklist, the safety gate and owner deletion share. -/

namespace Fndr

open RustStd

/-- The parts of a parsed URL. `host` is `Url::host_str`, which keeps the brackets of an IPv6
    literal. -/
structure Url where
  scheme : Str
  username : Str
  password : Option Str
  host : Option Str
  port : Option ℕ
  path : Str
  query : Option Str
  fragment : Option Str
  deriving DecidableEq

/-- The `url` crate: `Url::parse(..).ok()`, the setters, `.ok()` of the two that can be refused, and
    `String::from(url)`. -/
class UrlCrate where
  parse : Str → Option Url
  setUsername : Url → Str → Option Url
  setPassword : Url → Option Str → Option Url
  setQuery : Url → Option Str → Url
  setFragment : Url → Option Str → Url
  serialize : Url → Str

/-- `UrlCrate.setUsername` on the parts: refused when there is no host to carry credentials. -/
def Url.setUsername (u : Url) (username : Str) : Option Url :=
  if u.host.isNone then none else some { u with username := username }

/-- `UrlCrate.setPassword` on the parts, refused likewise. -/
def Url.setPassword (u : Url) (password : Option Str) : Option Url :=
  if u.host.isNone then none else some { u with password := password }

/-- A `url` crate that parses so and writes so, and sets the parts one by one. -/
@[reducible] def UrlCrate.ofParts (parse : Str → Option Url) (serialize : Url → Str) : UrlCrate where
  parse := parse
  setUsername := Url.setUsername
  setPassword := Url.setPassword
  setQuery u query := { u with query := query }
  setFragment u fragment := { u with fragment := fragment }
  serialize := serialize

/-- A `url` crate for captures without a URL. -/
@[reducible] def noUrls : UrlCrate := .ofParts (fun _ => none) (fun _ => [])

variable [UnicodeTables] [UrlCrate]

/-- A browser URL that is safe to retain; built by `sanitizeUrlForStorage` only. -/
structure SanitizedUrl where
  asStr : Str
  deriving DecidableEq

/-- Keep the browser location, without credentials, query and fragment. Invalid and non-web URLs
    have no safe representation. -/
def sanitizeUrlForStorage (url : Str) : Option SanitizedUrl := do
  let parsed ← UrlCrate.parse (trim url)
  if ¬ (parsed.scheme = "http".toList ∨ parsed.scheme = "https".toList) ∨ parsed.host.isNone then
    none
  else
    let parsed ← UrlCrate.setUsername parsed []
    let parsed ← UrlCrate.setPassword parsed none
    let parsed := UrlCrate.setQuery parsed none
    let parsed := UrlCrate.setFragment parsed none
    some ⟨UrlCrate.serialize parsed⟩

/-- A bare host or a pasted URL, as the host form every policy compares. -/
def normalizeDomain (entry : Str) : Option Str := do
  let trimmed := toLowercase (trimStartMatches (· == '.') (trim entry))
  let host ←
    if contains trimmed "://".toList then (UrlCrate.parse trimmed).bind Url.host
    else (split (fun c => c == '/' || c == ':') trimmed).head?
  if host = [] then none else some host

/-- `host` equals `suffix` or is a subdomain of it, on label boundaries. A `.` byte before the
    suffix is a `.` character, since UTF-8 uses that byte for nothing else. -/
def hostMatchesSuffix (host suffix : Str) : Bool :=
  host == suffix ||
    (byteLen host > byteLen suffix && endsWith host suffix &&
      (host.take (host.length - suffix.length)).getLast? == some '.')

/-- The host that the url crate reads, or else what stands where a host would. -/
def hostFromUrl (url : Str) : Option Str :=
  (((UrlCrate.parse (trim url)).bind Url.host).map toLowercase).or (normalizeDomain url)

/-- Whether a retained URL belongs to `domain` or one of its subdomains. -/
def urlMatchesDomainSuffix (url domain : Str) : Bool :=
  match normalizeDomain domain with
  | none => false
  | some domain => (hostFromUrl url).any (fun host => hostMatchesSuffix host domain)

/-! ## The blocklist -/

/-- Lower case, with single blanks. -/
def normalizeApp (entry : Str) : Str := toLowercase (join " ".toList (splitWhitespace entry))

/-- User-configured capture exclusions, normalized on construction. -/
structure Blocklist where
  apps : List Str
  domains : List Str
  deriving DecidableEq

/-- The rules of the entries, without those that come out empty. -/
def Blocklist.new (appEntries domainEntries : List Str) : Blocklist where
  apps := (appEntries.map normalizeApp).filter (· ≠ [])
  domains := domainEntries.filterMap normalizeDomain

/-- An entry blocks an app when it is the whole normalized name or a run of whole tokens of it. -/
def Blocklist.blocksApp (bl : Blocklist) (appName : Str) : Bool :=
  let name := normalizeApp appName
  if name = [] then false
  else
    let nameTokens := split (· == ' ') name
    bl.apps.any (fun entry =>
      entry == name ||
        let entryTokens := split (· == ' ') entry
        (windows entryTokens.length nameTokens).any (· == entryTokens))

/-- The host of the URL is one of the domains or below one. -/
def Blocklist.blocksUrl (bl : Blocklist) (url : Str) : Bool :=
  match hostFromUrl url with
  | none => false
  | some host => bl.domains.any (fun suffix => hostMatchesSuffix host suffix)

/-! ## What a match means -/

/-- `host` is the domain `d` or one of its subdomains. -/
def IsSubdomain (d host : Str) : Prop := host = d ∨ ∃ label, host = label ++ '.' :: d

omit [UnicodeTables] [UrlCrate] in
/-- **The suffix match is the subdomain relation.** -/
theorem hostMatchesSuffix_iff (host suffix : Str) :
    hostMatchesSuffix host suffix = true ↔ IsSubdomain suffix host := by
  simp only [hostMatchesSuffix, IsSubdomain, Bool.or_eq_true, beq_iff_eq, Bool.and_eq_true,
    endsWith, decide_eq_true_eq]
  refine or_congr Iff.rfl ⟨?_, ?_⟩
  · rintro ⟨⟨-, front, rfl⟩, hdot⟩
    rw [List.length_append, Nat.add_sub_cancel, List.take_left] at hdot
    obtain ⟨label, rfl⟩ := List.getLast?_eq_some_iff.1 hdot
    exact ⟨label, by simp⟩
  · rintro ⟨label, rfl⟩
    refine ⟨⟨?_, label ++ ['.'], by simp⟩, ?_⟩
    · have : 0 < Char.utf8Size '.' := by decide
      simp only [byteLen, List.map_append, List.map_cons, List.sum_append, List.sum_cons]
      omega
    · have : (label ++ '.' :: suffix).take ((label ++ '.' :: suffix).length - suffix.length)
          = label ++ ['.'] := by
        rw [show label ++ '.' :: suffix = (label ++ ['.']) ++ suffix by simp, List.length_append,
          Nat.add_sub_cancel, List.take_left]
      rw [this, List.getLast?_concat]

theorem urlMatchesDomainSuffix_iff {url domain d host : Str} (hd : normalizeDomain domain = some d)
    (hhost : hostFromUrl url = some host) :
    urlMatchesDomainSuffix url domain = true ↔ IsSubdomain d host := by
  rw [urlMatchesDomainSuffix, hd, hhost]
  exact hostMatchesSuffix_iff host d

end Fndr
