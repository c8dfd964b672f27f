import Mathlib.Data.Finset.Card
import Mathlib.Data.Rat.Defs
import Fndr.Privacy.SafetyGate

set_option autoImplicit false

/-! # Story continuity

`continuity.rs`: the anchor of a record, the score of a candidate, the merge decision and the merged
text. Scores are `f32` in the source; here they are over any `ScoreArith`, of which `Float32` is the
source's and `ℚ` the exact one, so what is proved without a word about numbers holds of both.

The merged text is made of the existing text, the incoming text or segments of it, bullet
separators and a final cut, so it holds a pattern only if one of the two texts did
(`mergeStoryText_secretFree`). -/

namespace Fndr

open RustStd

/-! ## Scores -/

/-- What scoring uses of its number type. -/
class ScoreArith (F : Type) extends Add F, Mul F, Div F, LE F, LT F, OfScientific F where
  /-- A count that is converted, a `usize` in the source. -/
  ofCount : ℕ → F
  decidableLE : DecidableLE F
  decidableLT : DecidableLT F

attribute [reducible, instance] ScoreArith.decidableLE ScoreArith.decidableLT

instance : ScoreArith Float32 where
  ofCount n := (UInt64.ofNatClamp n).toFloat32
  decidableLE := inferInstance
  decidableLT := inferInstance

instance : ScoreArith ℚ where
  ofCount := Nat.cast
  decidableLE := inferInstance
  decidableLT := inferInstance

/-- `f32::clamp`. -/
def clamp {F : Type} [ScoreArith F] (x lo hi : F) : F :=
  if x < lo then lo else if hi < x then hi else x

/-- One record's durable fields used for continuity decisions. -/
structure ContinuityRecord where
  appName : Str
  url : Option Str
  windowTitle : Str
  text : Str
  snippet : Str
  lexicalShadow : Str
  capturedAtMs : ℤ

/-- How close a capture is to a candidate: the whole score and the parts that the thresholds look
    at. -/
structure ContinuityScore (F : Type) where
  score : F
  lexical : F
  vector : F
  anchorMatch : Bool

/-! ## Normal forms of text and URLs -/

/-- Words that say nothing about a text. -/
def GENERIC_STOP_WORDS : List Str :=
  ["the", "and", "for", "with", "this", "that", "from", "your", "you", "are", "was", "were", "have",
    "has", "into", "about", "after", "before", "then", "just", "there", "here", "user", "app",
    "window", "tab", "page", "open", "opened", "search", "searched", "www", "http", "https",
    "com"].map String.toList

/-- The word says nothing. -/
def isGenericStopWord (token : Str) : Bool := GENERIC_STOP_WORDS.contains token

/-- The host as continuity reads it from a URL: no credentials and nothing from the first `:` on. -/
def domain (url : Option Str) : Option Str := do
  let url := trim (← url)
  let afterScheme := ((splitOnce "://".toList url).map Prod.snd).getD url
  let authority := trim (← (split (fun c => c == '/' || c == '?' || c == '#') afterScheme).head?)
  let afterCredentials ← (split (· == '@') authority).getLast?
  let host := trim (← (split (· == ':') afterCredentials).head?)
  if host ≠ [] then some (toAsciiLowercase host) else none

/-- The first segments of the path, in lower case. -/
def firstPathSegments (url : Str) (count : ℕ) : Str :=
  let afterScheme := ((splitOnce "://".toList url).map Prod.snd).getD url
  let path := ((splitOnce "/".toList afterScheme).map Prod.snd).getD []
  let path := ((split (fun c => c == '?' || c == '#') path).head?).getD path
  join "/".toList
    ((((split (· == '/') path).filter (fun segment => trim segment ≠ [])).map
      (fun segment => toAsciiLowercase (trim segment))).take count)

/-- `strip_prefix`, or the text itself. -/
def stripPrefixOr (pre text : Str) (otherwise : Str) : Str :=
  if startsWith text pre then text.drop pre.length else otherwise

/-- Extract at most `maxChars` characters. -/
def trimChars (text : Str) (maxChars : ℕ) : Str := text.take maxChars

section Unicode

variable [UnicodeTables]

/-- The URL without scheme, query, fragment and the slashes at its end. -/
def effectiveUrl (url : Str) : Str :=
  let url := toLowercase (trim url)
  let url := stripPrefixOr "https://".toList url (stripPrefixOr "http://".toList url url)
  trimEndMatches (· == '/')
    (((split (fun c => c == '?' || c == '#') url).head?).getD url)

/-- Both have a URL, and it is the same page. -/
def matchingEffectiveUrl : Option Str → Option Str → Bool
  | some left, some right => effectiveUrl left == effectiveUrl right
  | _, _ => false

/-- The name of an app as a key. -/
def normalizeAppKey (appName : Str) : Str :=
  let normalized := (toLowercase appName).map (fun c => if isAlphanumeric c then c else '_')
  let normalized := join "_".toList ((split (· == '_') normalized).filter (· ≠ []))
  if normalized = [] then "unknown".toList else normalized

/-- The tokens that count: longer than two bytes and not generic. -/
def significantTokens (text : Str) : List Str :=
  (split (fun c => !isAlphanumeric c) (toLowercase text)).filter
    (fun token => decide (byteLen token > 2) && !isGenericStopWord token)

/-- The first eight significant words as a key. -/
def normalizeAnchorText (text : Str) : Str :=
  join "_".toList ((significantTokens text).take 8)

/-- The significant words as a set. -/
def tokenize (text : Str) : Finset Str := (significantTokens text).toFinset

/-- Lower case, with one space between the words. -/
def normalizeOverlap (text : Str) : Str := join " ".toList (splitWhitespace (toLowercase text))

/-- The cheap anchor: domain and path of the URL, else the app with its title or snippet. -/
def continuityAnchor (record : ContinuityRecord) : Option Str :=
  match record.url.bind (fun url => (domain (some url)).map (fun domain => (url, domain))) with
  | some (url, domain) =>
      let path := firstPathSegments url 3
      if path ≠ [] then some ("url:".toList ++ domain ++ ":".toList ++ path)
      else some ("url:".toList ++ domain)
  | none =>
      let app := normalizeAppKey record.appName
      let title := normalizeAnchorText record.windowTitle
      -- without a URL the title, and without a title the text
      if byteLen title ≥ 8 then some ("app:".toList ++ app ++ ":title:".toList ++ title)
      else
        let snippet := normalizeAnchorText record.snippet
        if byteLen snippet ≥ 10 then some ("app:".toList ++ app ++ ":snippet:".toList ++ snippet)
        else none

/-- Small captures remain standalone evidence. -/
def eligibleForStoryMerge (record : ContinuityRecord) : Bool :=
  decide (byteLen (trim record.text) ≥ 36) || decide (byteLen (trim record.snippet) ≥ 18)

/-! ## The merge decision -/

/-- `left.zip(right).map(|(l, r)| l == r).unwrap_or(false)`. -/
def bothEqual (left right : Option Str) : Bool :=
  match left, right with
  | some left, some right => left == right
  | _, _ => false

variable {F : Type} [ScoreArith F]

variable (F) in
/-- The share of words that two texts have in common. -/
def tokenOverlap (left right : Str) : F :=
  let left := tokenize left
  let right := tokenize right
  if left = ∅ ∨ right = ∅ then 0.0
  else ScoreArith.ofCount (left ∩ right).card / ScoreArith.ofCount (left ∪ right).card

/-- Score a candidate with the v1 feature weights. -/
def scoreCandidate (incoming candidate : ContinuityRecord) (vectorSimilarity : F) :
    ContinuityScore F :=
  let lexical :=
    tokenOverlap F incoming.snippet candidate.snippet * 0.42
      + tokenOverlap F incoming.windowTitle candidate.windowTitle * 0.26
      + tokenOverlap F (trimChars incoming.text 1000) (trimChars candidate.text 1000) * 0.20
      + tokenOverlap F incoming.lexicalShadow candidate.lexicalShadow * 0.12
  -- the write path passes no similarity
  let vector := clamp vectorSimilarity 0.0 1.0
  let anchorMatch := bothEqual (continuityAnchor incoming) (continuityAnchor candidate)
  let sameDomain := bothEqual (domain incoming.url) (domain candidate.url)
  let score := vector * 0.5 + lexical * 0.42 + (if sameDomain then 0.08 else 0.0)
    + (if anchorMatch then 0.32 else 0.0)
  ⟨score, lexical, vector, anchorMatch⟩

/-- A shared anchor needs little more; without one the texts, or the vectors, have to be close. -/
def passesMergeThreshold (score : ContinuityScore F) : Bool :=
  if score.anchorMatch then
    decide (0.58 ≤ score.score) && decide (0.18 ≤ score.lexical)
  else if decide (0.72 ≤ score.lexical) && decide (0.80 ≤ score.score) then
    true
  else
    decide (0.86 ≤ score.score) && decide (0.82 ≤ score.vector) && decide (0.28 ≤ score.lexical)

/-- `i64` subtraction as a release build computes it. -/
def wrappingSub (a b : ℤ) : ℤ := (a - b).bmod (2 ^ 64)

/-- Two apps show one page or one domain, within the window and close enough. -/
def allowsCrossAppMerge (incoming candidate : ContinuityRecord) (score : ContinuityScore F) :
    Bool :=
  if (wrappingSub incoming.capturedAtMs candidate.capturedAtMs).natAbs > 45 * 60 * 1000 then
    false
  else if matchingEffectiveUrl incoming.url candidate.url then
    true
  else
    bothEqual (domain incoming.url) (domain candidate.url) &&
      ((score.anchorMatch && decide (0.52 ≤ score.lexical)) ||
        (decide (0.93 ≤ score.vector) && decide (0.70 ≤ score.lexical)))

/-- The final decision: eligible evidence, the strict rule across apps, then the threshold. -/
def shouldMerge (incoming candidate : ContinuityRecord) (vectorSimilarity : F) :
    Option (ContinuityScore F) :=
  if !eligibleForStoryMerge incoming || !eligibleForStoryMerge candidate then none
  else
    let score := scoreCandidate incoming candidate vectorSimilarity
    if incoming.appName ≠ candidate.appName ∧ ¬ allowsCrossAppMerge incoming candidate score then
      none
    else if passesMergeThreshold score then some score
    else none

/-! ## The merged text -/

/-- The sentence-sized segments of the incoming text that may be appended. -/
def storySegments (incoming : Str) : List Str :=
  ((split (fun c => c == '\n' || c == '.' || c == '!' || c == '?' || c == ';') incoming).map
    trim).filter (fun segment => decide (byteLen segment ≥ 12))

/-- The loop of `merge_story_text` over the segments. -/
def appendSegments (maxChars : ℕ) : List Str → Str → Str → Str
  | [], merged, _ => merged
  | segment :: segments, merged, mergedNormalized =>
      let normalized := normalizeOverlap segment
      if normalized = [] ∨ contains mergedNormalized normalized then
        appendSegments maxChars segments merged mergedNormalized
      else
        let merged := merged ++ " • ".toList ++ segment
        let mergedNormalized := mergedNormalized ++ ' ' :: normalized
        -- the segment that crosses the limit is the last one; the caller cuts it
        if merged.length ≥ maxChars then merged
        else appendSegments maxChars segments merged mergedNormalized

/-- Merge complementary sentence-sized evidence without duplicating overlap. -/
def mergeStoryText (existing incoming : Str) (maxChars : ℕ) : Str :=
  let existing := trim existing
  let incoming := trim incoming
  if existing = [] then trimChars incoming maxChars
  else if incoming = [] then trimChars existing maxChars
  else
    -- overlap is judged on the normal forms; what is kept is the original text
    let normalizedExisting := normalizeOverlap existing
    let normalizedIncoming := normalizeOverlap incoming
    if contains normalizedExisting normalizedIncoming then trimChars existing maxChars
    else if contains normalizedIncoming normalizedExisting then trimChars incoming maxChars
    else
      trimChars (appendSegments maxChars (storySegments incoming) existing normalizedExisting)
        maxChars

/-! ## Merging creates no pattern -/

omit [UnicodeTables] in
theorem trimChars_isInfix (text : Str) (maxChars : ℕ) : trimChars text maxChars <:+: text :=
  (List.take_prefix maxChars text).isInfix

omit [UnicodeTables] in
theorem infix_of_mem_storySegments {incoming segment : Str}
    (h : segment ∈ storySegments incoming) : segment <:+: incoming := by
  obtain ⟨piece, hpiece, rfl⟩ := List.mem_map.1 (List.mem_of_mem_filter h)
  exact (trim_isInfix piece).trans (infix_of_mem_split _ incoming piece hpiece)

/-- What joining asks of a pattern list: no pattern has the bullet, or a space at an end. -/
structure Joinable (patterns : List Str) : Prop where
  nonempty : ∀ p ∈ patterns, p ≠ []
  noBullet : ∀ p ∈ patterns, '•' ∉ p
  noSpaceFirst : ∀ p ∈ patterns, p.head? ≠ some ' '
  noSpaceLast : ∀ p ∈ patterns, p.getLast? ≠ some ' '

omit [UnicodeTables] in
theorem joinable_secretPatterns : Joinable SECRET_PATTERNS :=
  ⟨by decide, by decide, by decide, by decide⟩

omit [UnicodeTables] in
/-- The bullet keeps both sides apart, and the spaces around it begin and end no pattern. -/
theorem SecretFree.append_bullet {patterns : List Str} (hp : Joinable patterns) {s t : Str}
    (hs : SecretFree patterns s) (ht : SecretFree patterns t) :
    SecretFree patterns (s ++ " • ".toList ++ t) := by
  intro p hmem
  have hleft : Avoids Char.toLower p (s ++ [' ']) :=
    (hs p hmem).concat (hp.nonempty p hmem) (hp.noSpaceLast p hmem)
  have hright : Avoids Char.toLower p (' ' :: t) :=
    (ht p hmem).cons (hp.nonempty p hmem) (hp.noSpaceFirst p hmem)
  have hsep : Char.toLower '•' ∉ p := hp.noBullet p hmem
  have := hleft.append_cons hsep hright
  simpa [List.append_assoc] using this

theorem appendSegments_secretFree {patterns : List Str} (hp : Joinable patterns) (maxChars : ℕ)
    (segments : List Str) (hsegments : ∀ s ∈ segments, SecretFree patterns s) :
    ∀ (merged mergedNormalized : Str), SecretFree patterns merged →
      SecretFree patterns (appendSegments maxChars segments merged mergedNormalized) := by
  induction segments with
  | nil => intro merged _ hmerged; exact hmerged
  | cons segment segments ih =>
      intro merged mergedNormalized hmerged
      have hrest := ih (fun s hs => hsegments s (List.mem_cons_of_mem segment hs))
      have hjoined := hmerged.append_bullet hp (hsegments segment List.mem_cons_self)
      rw [appendSegments]
      dsimp only
      split
      · exact hrest merged mergedNormalized hmerged
      · split
        · exact hjoined
        · exact hrest _ _ hjoined

/-- **A merge of two texts without a pattern has none.** -/
theorem mergeStoryText_secretFree {patterns : List Str} (hp : Joinable patterns)
    {existing incoming : Str} (maxChars : ℕ) (hexisting : SecretFree patterns existing)
    (hincoming : SecretFree patterns incoming) :
    SecretFree patterns (mergeStoryText existing incoming maxChars) := by
  have hexisting' : SecretFree patterns (trim existing) := hexisting.of_isInfix (trim_isInfix _)
  have hincoming' : SecretFree patterns (trim incoming) := hincoming.of_isInfix (trim_isInfix _)
  have hsegments : ∀ s ∈ storySegments (trim incoming), SecretFree patterns s :=
    fun s hs => hincoming'.of_isInfix (infix_of_mem_storySegments hs)
  unfold mergeStoryText
  dsimp only
  split
  · exact hincoming'.of_isInfix (trimChars_isInfix _ _)
  · split
    · exact hexisting'.of_isInfix (trimChars_isInfix _ _)
    · split
      · exact hexisting'.of_isInfix (trimChars_isInfix _ _)
      · split
        · exact hincoming'.of_isInfix (trimChars_isInfix _ _)
        · have := appendSegments_secretFree hp maxChars _ hsegments _
            (normalizeOverlap (trim existing)) hexisting'
          exact this.of_isInfix (trimChars_isInfix _ _)

end Unicode

end Fndr
