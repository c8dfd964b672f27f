import Fndr.Privacy.SafetyGate
import Fndr.Privacy.DomainRules
import Mathlib.Order.Basic

set_option autoImplicit false

/-! # Owner policies

`SensitiveContextPolicy` replaces the built-in lists of the safety gate by an owner's. The gate is a
chain of rules of which the first match decides, and all but the last skip storage; a longer list
makes a rule match more, and a rule that starts to match can only raise the decision
(`skipIf_le_skipIf`). Hence more rules never expose more (`evaluateWithPolicy_mono`). The built-in
lists are a fixed point of the policy's normalization (`evaluateWithPolicy_default`). -/

namespace Fndr

open RustStd

/-! ## The order of decisions -/

/-- How much of a capture a decision withholds. -/
def SafetyDecision.withheld : SafetyDecision → ℕ
  | .allow => 0
  | .redact _ => 1
  | .skipStorage _ => 2

/-- Allow, then redact, then skip storage; the reason does not count. -/
instance : Preorder SafetyDecision := Preorder.lift SafetyDecision.withheld

theorem SafetyDecision.le_iff {a b : SafetyDecision} : a ≤ b ↔ a.withheld ≤ b.withheld := Iff.rfl

instance : DecidableLE SafetyDecision := fun _ _ => decidable_of_iff _ SafetyDecision.le_iff.symm

theorem SafetyDecision.le_skipStorage (decision : SafetyDecision) (reason : SafetyReason) :
    decision ≤ .skipStorage reason := by
  cases decision <;> exact of_decide_eq_true rfl

theorem SafetyDecision.allow_le (decision : SafetyDecision) : .allow ≤ decision :=
  Nat.zero_le _

/-- One skipping rule of the chain: it may start to match, and what follows it may rise. -/
theorem skipIf_le_skipIf {c c' : Prop} [Decidable c] [Decidable c'] {rest rest' : SafetyDecision}
    (reason : SafetyReason) (hc : c → c') (hrest : rest ≤ rest') :
    (if c then .skipStorage reason else rest) ≤ if c' then .skipStorage reason else rest' := by
  by_cases h' : c'
  · rw [if_pos h']
    exact SafetyDecision.le_skipStorage _ reason
  · rw [if_neg h', if_neg (fun h => h' (hc h))]
    exact hrest

theorem redactIf_le_redactIf {c c' : Prop} [Decidable c] [Decidable c'] (reason : SafetyReason)
    (hc : c → c') :
    (if c then .redact reason else .allow) ≤ if c' then SafetyDecision.redact reason else .allow := by
  by_cases h' : c'
  · rw [if_pos h']
    split
    · exact le_refl _
    · exact SafetyDecision.allow_le _
  · rw [if_neg h', if_neg (fun h => h' (hc h))]

theorem any_of_subset {α : Type} {l l' : List α} (h : l ⊆ l') {f : α → Bool} (hl : l.any f = true) :
    l'.any f = true := by
  obtain ⟨x, hx, hfx⟩ := List.any_eq_true.1 hl
  exact List.any_eq_true.2 ⟨x, h hx, hfx⟩

/-! ## The policy -/

section Policy

variable [UnicodeTables] [UrlCrate]

/-- The sensitive-context lists as owner-editable data. -/
structure SensitiveContextPolicy where
  passwordManagerNames : List Str
  financialDomains : List Str
  medicalDomainMarkers : List Str
  authIndicators : List Str
  secretPatterns : List Str
  deriving DecidableEq

/-- Names, indicators and patterns are trimmed and lower-cased; empty ones are dropped. -/
def normalizeWord (entries : List Str) : List Str :=
  (entries.map (fun e => toAsciiLowercase (trim e))).filter (· ≠ [])

/-- The policy of five lists, each normalized. -/
def SensitiveContextPolicy.new (passwordManagerNames financialDomains medicalDomainMarkers
    authIndicators secretPatterns : List Str) : SensitiveContextPolicy where
  passwordManagerNames := normalizeWord passwordManagerNames
  financialDomains := financialDomains.filterMap normalizeDomain
  medicalDomainMarkers := normalizeWord medicalDomainMarkers
  authIndicators := normalizeWord authIndicators
  secretPatterns := normalizeWord secretPatterns

/-- The policy that captures go through. -/
def SensitiveContextPolicy.default : SensitiveContextPolicy :=
  .new PASSWORD_MANAGER_NAMES FINANCIAL_DOMAINS MEDICAL_DOMAIN_MARKERS AUTH_INDICATORS
    SECRET_PATTERNS

/-- The same gate with the built-in lists replaced by the owner's. -/
def evaluateWithPolicy (context : SafetyContext) (blocklist : Blocklist)
    (policy : SensitiveContextPolicy) : SafetyDecision :=
  evaluateCore context blocklist policy.passwordManagerNames policy.financialDomains
    policy.medicalDomainMarkers policy.authIndicators policy.secretPatterns

/-- Same redaction, with the built-in secret patterns replaced by the policy's. -/
def redactSecretLinesWithPolicy (text : Str) (policy : SensitiveContextPolicy) : Str × ℕ :=
  redactSecretLinesMatching text policy.secretPatterns

/-! ## The default policy -/

theorem normalizeDomain_of_financial [LawfulUnicode] :
    ∀ d ∈ FINANCIAL_DOMAINS, normalizeDomain d = some d := by
  have hplain : ∀ d ∈ FINANCIAL_DOMAINS, d ≠ [] ∧ '/' ∉ d ∧ (∀ c ∈ d, c.toNat < 128) ∧
      toAsciiLowercase d = d ∧ ':' ∉ d ∧ d.head? ≠ some '.' ∧ trim d = d := by decide +kernel
  intro d hd
  obtain ⟨hne, hslash, hascii, hlower, hrest⟩ := hplain d hd
  refine (normalizeDomain_eq_self_iff hne hslash (fun t ht => ?_)).2
    ⟨(toLowercase_ascii hascii).trans hlower, hrest⟩
  rw [toLowercase_ascii (fun c hc => hascii c (ht c hc)), toAsciiLowercase, List.length_map]

/-- The default policy is the built-in gate. -/
theorem evaluateWithPolicy_default [LawfulUnicode] (context : SafetyContext)
    (blocklist : Blocklist) :
    evaluateWithPolicy context blocklist .default = evaluate context blocklist := by
  have hdomains : FINANCIAL_DOMAINS.filterMap normalizeDomain = FINANCIAL_DOMAINS := by
    rw [List.filterMap_congr normalizeDomain_of_financial, List.filterMap_some]
  have hwords : ∀ words ∈ [PASSWORD_MANAGER_NAMES, MEDICAL_DOMAIN_MARKERS, AUTH_INDICATORS,
      SECRET_PATTERNS], normalizeWord words = words := by decide
  simp only [List.forall_mem_cons] at hwords
  obtain ⟨hnames, hmarkers, hauth, hsecrets, -⟩ := hwords
  rw [evaluateWithPolicy, SensitiveContextPolicy.default, SensitiveContextPolicy.new, hdomains,
    hnames, hmarkers, hauth, hsecrets, evaluate]

/-! ## Longer lists -/

/-- Every rule of the first blocklist is one of the second. -/
structure Blocklist.Extended (bl bl' : Blocklist) : Prop where
  apps : bl.apps ⊆ bl'.apps
  domains : bl.domains ⊆ bl'.domains

/-- Every entry of the first policy is one of the second, list by list. -/
structure SensitiveContextPolicy.Extended (policy policy' : SensitiveContextPolicy) : Prop where
  passwordManagerNames : policy.passwordManagerNames ⊆ policy'.passwordManagerNames
  financialDomains : policy.financialDomains ⊆ policy'.financialDomains
  medicalDomainMarkers : policy.medicalDomainMarkers ⊆ policy'.medicalDomainMarkers
  authIndicators : policy.authIndicators ⊆ policy'.authIndicators
  secretPatterns : policy.secretPatterns ⊆ policy'.secretPatterns

/-- The same metadata, and every text of the first context stands in the text of the second. -/
structure SafetyContext.TextAdded (context context' : SafetyContext) : Prop where
  metadata : { context with ocrText := context'.ocrText } = context'
  text : ∀ t, context.ocrText = some t → ∃ t', context'.ocrText = some t' ∧ t <:+: t'

theorem Blocklist.new_extended {apps apps' domains domains' : List Str} (happs : apps ⊆ apps')
    (hdomains : domains ⊆ domains') :
    (Blocklist.new apps domains).Extended (Blocklist.new apps' domains') where
  apps := List.filter_subset _ (List.map_subset _ happs)
  domains := List.filterMap_subset _ hdomains

omit [UnicodeTables] [UrlCrate] in
theorem normalizeWord_subset {entries entries' : List Str} (h : entries ⊆ entries') :
    normalizeWord entries ⊆ normalizeWord entries' :=
  List.filter_subset _ (List.map_subset _ h)

omit [UrlCrate] in
theorem Blocklist.Extended.blocksApp {bl bl' : Blocklist} (h : bl.Extended bl') {app : Str}
    (hblocks : bl.blocksApp app = true) : bl'.blocksApp app = true := by
  simp only [Blocklist.blocksApp] at hblocks ⊢
  split at hblocks
  · cases hblocks
  · next hname =>
    rw [if_neg hname]
    exact any_of_subset h.apps hblocks

theorem Blocklist.Extended.blocksUrl {bl bl' : Blocklist} (h : bl.Extended bl') {url : Str}
    (hblocks : bl.blocksUrl url = true) : bl'.blocksUrl url = true := by
  unfold Blocklist.blocksUrl at hblocks ⊢
  split at hblocks
  · cases hblocks
  · exact any_of_subset h.domains hblocks

theorem matchesDomainSuffix_of_subset {domains domains' : List Str} (h : domains ⊆ domains')
    {url : Str} (hmatch : matchesDomainSuffix url domains = true) :
    matchesDomainSuffix url domains' = true := by
  unfold matchesDomainSuffix at hmatch ⊢
  split at hmatch
  · cases hmatch
  · exact any_of_subset h hmatch

theorem matchesDomainLabel_of_subset {markers markers' : List Str} (h : markers ⊆ markers')
    {url : Str} (hmatch : matchesDomainLabel url markers = true) :
    matchesDomainLabel url markers' = true := by
  unfold matchesDomainLabel at hmatch ⊢
  split at hmatch
  · cases hmatch
  · obtain ⟨label, hlabel, hmarker⟩ := List.any_eq_true.1 hmatch
    exact List.any_eq_true.2 ⟨label, hlabel, any_of_subset h hmarker⟩

omit [UnicodeTables] [UrlCrate] in
/-- A longer text and a longer list have every pattern the shorter ones have. -/
theorem containsSecretPattern_mono {text text' : Str} {patterns patterns' : List Str}
    (htext : text <:+: text') (hpatterns : patterns ⊆ patterns')
    (h : containsSecretPattern text patterns = true) :
    containsSecretPattern text' patterns' = true := by
  obtain ⟨pattern, hmem, hcontains⟩ := List.any_eq_true.1 h
  refine List.any_eq_true.2 ⟨pattern, hpatterns hmem, decide_eq_true ?_⟩
  exact (of_decide_eq_true hcontains).trans (htext.map Char.toLower)

omit [UnicodeTables] [UrlCrate] in
theorem SafetyContext.TextAdded.any_containsSecretPattern {context context' : SafetyContext}
    (h : context.TextAdded context') {patterns patterns' : List Str}
    (hpatterns : patterns ⊆ patterns')
    (hany : context.ocrText.any (containsSecretPattern · patterns) = true) :
    context'.ocrText.any (containsSecretPattern · patterns') = true := by
  obtain ⟨text, htext, hcontains⟩ := (Option.any_eq_true _ _).1 hany
  obtain ⟨text', htext', hin⟩ := h.text text htext
  rw [htext']
  exact containsSecretPattern_mono hin hpatterns hcontains

/-! ## Monotonicity -/

/-- **More rules and more text never lower the decision.** -/
theorem evaluateWithPolicy_le {context context' : SafetyContext} {bl bl' : Blocklist}
    {policy policy' : SensitiveContextPolicy} (hcontext : context.TextAdded context')
    (hbl : bl.Extended bl') (hpolicy : policy.Extended policy') :
    evaluateWithPolicy context bl policy ≤ evaluateWithPolicy context' bl' policy' := by
  have hmeta := hcontext.metadata
  rw [← hmeta]
  refine skipIf_le_skipIf _ (fun h => ?_) (skipIf_le_skipIf _ id (skipIf_le_skipIf _ ?_
    (skipIf_le_skipIf _ id (skipIf_le_skipIf _ ?_ (skipIf_le_skipIf _ ?_ (skipIf_le_skipIf _ ?_
      (redactIf_le_redactIf _ (fun h => ?_))))))))
  · exact Bool.or_eq_true_iff.2 ((Bool.or_eq_true_iff.1 h).imp hbl.blocksApp hbl.blocksUrl)
  · exact any_of_subset hpolicy.passwordManagerNames
  · exact matchesDomainSuffix_of_subset hpolicy.financialDomains
  · exact matchesDomainLabel_of_subset hpolicy.medicalDomainMarkers
  · exact any_of_subset hpolicy.authIndicators
  · rw [hmeta]
    exact hcontext.any_containsSecretPattern hpolicy.secretPatterns h

/-- The metadata decides first, then the text rule. -/
theorem evaluateWithPolicy_eq_thenText (context : SafetyContext) (bl : Blocklist)
    (policy : SensitiveContextPolicy) :
    evaluateWithPolicy context bl policy =
      (evaluateWithPolicy { context with ocrText := none } bl policy).thenText
        (if context.ocrText.any (containsSecretPattern · policy.secretPatterns) then
          .redact .secretPattern else .allow) := by
  have hwith := evaluateCore_with_text { context with ocrText := none } bl
    (context.ocrText.getD []) rfl policy.passwordManagerNames policy.financialDomains
    policy.medicalDomainMarkers policy.authIndicators policy.secretPatterns
  cases htext : context.ocrText with
  | some text =>
      rw [htext] at hwith
      rw [show context = { context with ocrText := some text } by rw [← htext]]
      exact hwith
  | none =>
      rw [show { context with ocrText := none } = context by rw [← htext]]
      simp only [evaluateWithPolicy, evaluateCore, htext, Option.any_none, Bool.false_eq_true,
        if_false, SafetyDecision.thenText_ite]
      rfl

omit [UnicodeTables] [UrlCrate] in
/-- A text rule that starts to match changes nothing but an allowed capture. -/
theorem SafetyDecision.thenText_redactIf (decision : SafetyDecision) (reason : SafetyReason)
    {c c' : Bool} (hc : c = true → c' = true) :
    decision.thenText (if c' then .redact reason else .allow)
        = decision.thenText (if c then .redact reason else .allow) ∨
      decision.thenText (if c then .redact reason else .allow) = .allow ∧
        decision.thenText (if c' then .redact reason else .allow) = .redact reason := by
  cases decision with
  | skipStorage => exact Or.inl rfl
  | allow | redact =>
      cases c with
      | true =>
          rw [hc rfl]
          exact Or.inl rfl
      | false =>
          cases c' with
          | true => exact Or.inr ⟨rfl, rfl⟩
          | false => exact Or.inl rfl

/-- What one more text changes. -/
theorem evaluateWithPolicy_textAdded {context context' : SafetyContext} (bl : Blocklist)
    (policy : SensitiveContextPolicy) (h : context.TextAdded context') :
    evaluateWithPolicy context' bl policy = evaluateWithPolicy context bl policy ∨
      evaluateWithPolicy context bl policy = .allow ∧
        evaluateWithPolicy context' bl policy = .redact .secretPattern := by
  have hbase : { context' with ocrText := none } = { context with ocrText := none } := by
    rw [← h.metadata]
  rw [evaluateWithPolicy_eq_thenText context, evaluateWithPolicy_eq_thenText context', hbase]
  exact SafetyDecision.thenText_redactIf _ _
    (h.any_containsSecretPattern (fun _ hmem => hmem))

theorem SensitiveContextPolicy.new_extended (pm pm' fd fd' md md' auth auth' pats pats' : List Str) :
    (SensitiveContextPolicy.new pm fd md auth pats).Extended
      (.new (pm ++ pm') (fd ++ fd') (md ++ md') (auth ++ auth') (pats ++ pats')) where
  passwordManagerNames := normalizeWord_subset (List.subset_append_left _ _)
  financialDomains := List.filterMap_subset _ (List.subset_append_left _ _)
  medicalDomainMarkers := normalizeWord_subset (List.subset_append_left _ _)
  authIndicators := normalizeWord_subset (List.subset_append_left _ _)
  secretPatterns := normalizeWord_subset (List.subset_append_left _ _)

/-- **More rules never expose more**, whether the normalized lists are extended or the entries they
    are built from; and one more text changes a decision at most from allowing to redacting. -/
theorem more_rules_never_expose_more (context : SafetyContext) :
    (∀ (bl bl' : Blocklist) (policy policy' : SensitiveContextPolicy), bl.Extended bl' →
      policy.Extended policy' →
      evaluateWithPolicy context bl policy ≤ evaluateWithPolicy context bl' policy') ∧
    (∀ apps apps' domains domains' pm pm' fd fd' md md' auth auth' pats pats',
      evaluateWithPolicy context (.new apps domains) (.new pm fd md auth pats) ≤
        evaluateWithPolicy context (.new (apps ++ apps') (domains ++ domains'))
          (.new (pm ++ pm') (fd ++ fd') (md ++ md') (auth ++ auth') (pats ++ pats'))) ∧
    (∀ (context' : SafetyContext) (bl : Blocklist) (policy : SensitiveContextPolicy),
      context.TextAdded context' →
      evaluateWithPolicy context bl policy ≤ evaluateWithPolicy context' bl policy ∧
        (evaluateWithPolicy context' bl policy = evaluateWithPolicy context bl policy ∨
          evaluateWithPolicy context bl policy = .allow ∧
            evaluateWithPolicy context' bl policy = .redact .secretPattern)) := by
  have hsame : context.TextAdded context := ⟨rfl, fun t ht => ⟨t, ht, List.infix_refl t⟩⟩
  refine ⟨fun bl bl' policy policy' hbl hpolicy => evaluateWithPolicy_le hsame hbl hpolicy,
    fun apps apps' domains domains' _ _ _ _ _ _ _ _ _ _ => ?_, fun context' bl policy htext => ?_⟩
  · exact evaluateWithPolicy_le hsame (Blocklist.new_extended (List.subset_append_left _ _)
      (List.subset_append_left _ _)) (SensitiveContextPolicy.new_extended _ _ _ _ _ _ _ _ _ _)
  · have hchange := evaluateWithPolicy_textAdded bl policy htext
    refine ⟨?_, hchange⟩
    rcases hchange with heq | ⟨hallow, -⟩
    · rw [heq]
    · rw [hallow]
      exact SafetyDecision.allow_le _

end Policy

/-! ## A note that gains a token -/

section Note

attribute [local instance] asciiTables noUrls

/-- A window of the notes, without a title or text. -/
def plainNote : SafetyContext := ⟨some "Notes".toList, none, none, none, none⟩

/-- A policy whose one rule is a secret pattern. -/
def tokenPolicy : SensitiveContextPolicy := ⟨[], [], [], [], ["token:".toList]⟩

theorem more_rules_on_plainNote :
    evaluateWithPolicy plainNote ⟨[], []⟩ tokenPolicy
        ≤ evaluateWithPolicy plainNote ⟨["notes".toList], []⟩ tokenPolicy ∧
      evaluateWithPolicy plainNote ⟨[], []⟩ tokenPolicy
        ≤ evaluateWithPolicy (plainNote.withText "Token: 1".toList) ⟨[], []⟩ tokenPolicy :=
  ⟨(more_rules_never_expose_more plainNote).1 _ _ _ _ ⟨by simp, by simp⟩
      ⟨by simp, by simp, by simp, by simp, by simp⟩,
    ((more_rules_never_expose_more plainNote).2.2 _ _ tokenPolicy ⟨rfl, fun _ h => by cases h⟩).1⟩

example : evaluateWithPolicy (plainNote.withText "Token: 1".toList) ⟨[], []⟩ tokenPolicy
    = .redact .secretPattern := by decide

end Note

end Fndr
