import Fndr.Privacy.Blocklist

set_option autoImplicit false

/-! # The safety gate

`evaluateCore` is the ordered policy over metadata and, last of all, the OCR text; the only rule
that reads the text is the last one, and it redacts rather than skips. So the metadata alone decides
whether a capture is skipped (`evaluate_with_text`). `redactSecretLines` replaces every line with a
secret pattern, and leaves none behind (`redactSecretLines_avoids`). -/

namespace Fndr

open RustStd

/-- Words in the names of apps that hold passwords. -/
def PASSWORD_MANAGER_NAMES : List Str :=
  ["1password", "bitwarden", "keychain", "lastpass", "dashlane", "keepass"].map String.toList

/-- Sites of banks, brokers and payment services. -/
def FINANCIAL_DOMAINS : List Str :=
  ["chase.com", "bankofamerica.com", "wellsfargo.com", "citibank.com", "capitalone.com",
    "usbank.com", "fidelity.com", "vanguard.com", "schwab.com", "americanexpress.com",
    "discover.com", "paypal.com", "venmo.com", "robinhood.com"].map String.toList

/-- Labels of the hosts of patient portals. -/
def MEDICAL_DOMAIN_MARKERS : List Str :=
  ["mychart", "healthportal", "patientportal"].map String.toList

/-- Words of a page on which one signs in. -/
def AUTH_INDICATORS : List Str :=
  ["sign in", "log in", "login", "authenticate", "authorization", "oauth", "saml", "two-factor",
    "2fa"].map String.toList

/-- Texts that stand beside a secret, or begin one. -/
def SECRET_PATTERNS : List Str :=
  ["api_key", "apikey", "secret_key", "private_key", "access_token", "password:", "passwd:",
    "token:", "-----begin rsa", "-----begin ec", "ghp_", "sk-", "xoxb-"].map String.toList

/-- The rule behind a decision. -/
inductive SafetyReason
  | userBlocklist
  | fndrSelfCapture
  | passwordManager
  | privateBrowsing
  | financialSite
  | medicalSite
  | authentication
  | secretPattern
  deriving DecidableEq

/-- What the gate says about a context. -/
inductive SafetyDecision
  | allow
  | redact (reason : SafetyReason)
  | skipStorage (reason : SafetyReason)
  deriving DecidableEq

/-- What the gate is told about a capture; the text only once it has been recognized. -/
structure SafetyContext where
  appName : Option Str
  bundleId : Option Str
  url : Option Str
  windowTitle : Option Str
  ocrText : Option Str

variable [UnicodeTables] [UrlCrate]

/-- The host of the URL is one of the domains or below one. -/
def matchesDomainSuffix (url : Str) (domains : List Str) : Bool :=
  match hostFromUrl url with
  | none => false
  | some host => domains.any (fun domain => hostMatchesSuffix host domain)

/-- One of the labels of the URL's host is a marker. -/
def matchesDomainLabel (url : Str) (markers : List Str) : Bool :=
  match hostFromUrl url with
  | none => false
  | some host => (split (· == '.') host).any (fun label => markers.any (· == label))

/-- One of the patterns stands in the text, in any letter case. -/
def containsSecretPattern (text : Str) (patterns : List Str) : Bool :=
  patterns.any (fun pattern => contains (toAsciiLowercase text) pattern)

/-- The policy, rule by rule in the order of the source. -/
def evaluateCore (context : SafetyContext) (blocklist : Blocklist)
    (passwordManagerNames financialDomains medicalDomainMarkers authIndicators
      secretPatterns : List Str) : SafetyDecision :=
  let app := toAsciiLowercase (context.appName.getD [])
  let title := toAsciiLowercase (context.windowTitle.getD [])
  let url := context.url.getD []
  let urlLower := toAsciiLowercase url
  if blocklist.blocksApp app || blocklist.blocksUrl url then
    .skipStorage .userBlocklist
  else if context.bundleId.any (fun bundleId =>
      let bundleId := toAsciiLowercase bundleId
      (startsWith bundleId "com.fndr".toList || contains bundleId ".fndr.".toList) &&
        !contains app "fndr meeting".toList) then
    .skipStorage .fndrSelfCapture
  else if passwordManagerNames.any (contains app ·) then
    .skipStorage .passwordManager
  else if contains title "incognito".toList ||
      (contains title "private".toList &&
        (contains title "browsing".toList || contains title "window".toList)) then
    .skipStorage .privateBrowsing
  else if matchesDomainSuffix url financialDomains then
    .skipStorage .financialSite
  else if matchesDomainLabel url medicalDomainMarkers then
    .skipStorage .medicalSite
  else if authIndicators.any (fun indicator =>
      contains title indicator || contains urlLower indicator) then
    .skipStorage .authentication
  -- the only rule that reads the text, and it never skips
  else if context.ocrText.any (containsSecretPattern · secretPatterns) then
    .redact .secretPattern
  else
    .allow

/-- The gate with the built-in lists. -/
def evaluate (context : SafetyContext) (blocklist : Blocklist) : SafetyDecision :=
  evaluateCore context blocklist PASSWORD_MANAGER_NAMES FINANCIAL_DOMAINS MEDICAL_DOMAIN_MARKERS
    AUTH_INDICATORS SECRET_PATTERNS

/-- What is written over a line with a secret. -/
def REDACTED_LINE : Str := "[REDACTED: secret pattern]".toList

/-- The line, or the text written over it. -/
def redactLine (patterns : List Str) (line : Str) : Str :=
  if containsSecretPattern line patterns then REDACTED_LINE else line

/-- The redacted text and the number of lines replaced. -/
def redactSecretLinesMatching (text : Str) (patterns : List Str) : Str × ℕ :=
  (join "\n".toList ((lines text).map (redactLine patterns)),
    (lines text).countP (containsSecretPattern · patterns))

/-- Redaction with the built-in patterns. -/
def redactSecretLines (text : Str) : Str × ℕ := redactSecretLinesMatching text SECRET_PATTERNS

/-! ## Metadata decides skips -/

/-- Adding OCR text to a context without text. -/
def SafetyContext.withText (context : SafetyContext) (text : Str) : SafetyContext :=
  { context with ocrText := some text }

/-- A metadata decision followed by a rule that cannot skip. -/
def SafetyDecision.thenText (decision textRule : SafetyDecision) : SafetyDecision :=
  match decision with
  | .skipStorage reason => .skipStorage reason
  | _ => textRule

omit [UnicodeTables] [UrlCrate] in
theorem SafetyDecision.thenText_ite (c : Prop) [Decidable c] (reason : SafetyReason)
    (rest textRule : SafetyDecision) :
    (if c then .skipStorage reason else rest).thenText textRule
      = if c then .skipStorage reason else rest.thenText textRule := by
  split <;> rfl

/-- **The text only chooses between allowing and redacting.** -/
theorem evaluateCore_with_text (context : SafetyContext) (blocklist : Blocklist) (text : Str)
    (hnone : context.ocrText = none) (pm fd md auth pats : List Str) :
    evaluateCore (context.withText text) blocklist pm fd md auth pats =
      (evaluateCore context blocklist pm fd md auth pats).thenText
        (if containsSecretPattern text pats then .redact .secretPattern else .allow) := by
  simp only [evaluateCore, SafetyContext.withText, hnone, Option.any_some, Option.any_none,
    Bool.false_eq_true, if_false, SafetyDecision.thenText_ite]
  rfl

theorem evaluate_with_text (context : SafetyContext) (blocklist : Blocklist) (text : Str)
    (hnone : context.ocrText = none) :
    evaluate (context.withText text) blocklist =
      (evaluate context blocklist).thenText
        (if containsSecretPattern text SECRET_PATTERNS then .redact .secretPattern else .allow) :=
  evaluateCore_with_text context blocklist text hnone _ _ _ _ _

/-! ## Redaction leaves no pattern behind -/

omit [UnicodeTables] [UrlCrate]

/-- The text contains none of the patterns under ASCII case folding. -/
def SecretFree (patterns : List Str) (text : Str) : Prop :=
  ∀ p ∈ patterns, Avoids Char.toLower p text

theorem containsSecretPattern_eq_false_iff (text : Str) (patterns : List Str) :
    containsSecretPattern text patterns = false ↔ SecretFree patterns text := by
  rw [containsSecretPattern, List.any_eq_false]
  exact forall₂_congr (fun p _ => not_congr decide_eq_true_iff)

instance (patterns : List Str) (text : Str) : Decidable (SecretFree patterns text) :=
  decidable_of_iff _ (containsSecretPattern_eq_false_iff text patterns)

theorem SecretFree.of_isInfix {patterns : List Str} {s t : Str} (h : SecretFree patterns s)
    (hts : t <:+: s) : SecretFree patterns t := fun p hp => (h p hp).of_isInfix hts

/-- What redaction asks of a pattern list: no pattern is empty or spans a line break, and the
    replacement line contains none. -/
structure Redactable (patterns : List Str) : Prop where
  nonempty : ∀ p ∈ patterns, p ≠ []
  oneLine : ∀ p ∈ patterns, '\n' ∉ p
  replacement : SecretFree patterns REDACTED_LINE

theorem redactSecretLinesMatching_avoids {patterns : List Str} (h : Redactable patterns)
    (text : Str) : SecretFree patterns (redactSecretLinesMatching text patterns).1 := by
  intro p hp
  have hsep : Char.toLower '\n' ∉ p := h.oneLine p hp
  refine Avoids.join (h.nonempty p hp) hsep _ (fun line hline => ?_)
  obtain ⟨original, -, rfl⟩ := List.mem_map.1 hline
  unfold redactLine
  split
  · exact h.replacement p hp
  · next hclean =>
    exact (containsSecretPattern_eq_false_iff _ _).1 (by simpa using hclean) p hp

theorem redactable_secretPatterns : Redactable SECRET_PATTERNS := by
  refine ⟨by decide, by decide, by decide⟩

theorem redactSecretLines_avoids (text : Str) :
    SecretFree SECRET_PATTERNS (redactSecretLines text).1 :=
  redactSecretLinesMatching_avoids redactable_secretPatterns text

end Fndr
