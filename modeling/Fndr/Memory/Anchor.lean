import Mathlib.Algebra.Order.Field.Rat
import Mathlib.Tactic.Linarith
import Mathlib.Tactic.NormNum
import Fndr.Library.Float32
import Fndr.Memory.Continuity

set_option autoImplicit false

/-! # What a merge says about hosts

Without vector evidence the threshold can only be passed by an anchor match
(`anchor_of_shouldMerge`): with the scores of the source, with exact ones, and with any that round
monotonically (`MonotoneScores`). The anchor of a sanitized URL determines what `domain` reads from it.
That is the URL's host, unless the host is an IPv6 literal: `domain` cuts at the first `:` and keeps
the part in front of it only, so two IPv6 hosts may look alike. `storedHost_eq_of_shouldMerge` is
what is left: a merge joins equal hosts, or two bracketed ones.

What the `url` crate promises about web URLs is `UrlCrateDocumented`. -/

namespace Fndr

open RustStd

/-! ## Scores without an anchor -/

section Scores

/-- A score from zero to `b`. -/
def Within {F : Type} [ScoreArith F] (b a : F) : Prop := 0.0 ≤ a ∧ a ≤ b

/-- A weight of the score. -/
def IsWeight {F : Type} [ScoreArith F] (c : F) : Prop := 0.0 < c ∧ c ≤ 1.0

/-- The lexical part when all overlaps are full. -/
def fullOverlap (F : Type) [ScoreArith F] : F :=
  1.0 * 0.42 + 1.0 * 0.26 + 1.0 * 0.20 + 1.0 * 0.12

/-- The score of full overlaps and a shared domain, with no vector evidence and no anchor. -/
def anchorlessScore (F : Type) [ScoreArith F] : F :=
  clamp 0.0 0.0 1.0 * 0.5 + fullOverlap F * 0.42 + 0.08 + 0.0

/-- What the bound on a score without an anchor asks of the arithmetic. Sums, weighted scores and
    ratios keep the order, as exact ones do and as IEEE operations do because they round
    monotonically; the rest is about constants of the source. -/
class MonotoneScores (F : Type) [ScoreArith F] : Prop where
  trans {a b c : F} : a ≤ b → b ≤ c → a ≤ c
  add {a b c d : F} : Within b a → Within d c → Within (b + d) (a + c)
  mul {a b c : F} : Within b a → IsWeight c → Within (b * c) (a * c)
  ratio {m n : ℕ} : m ≤ n → 0 < n → Within (1.0 : F) (ScoreArith.ofCount m / ScoreArith.ofCount n)
  overlapWeights : ∀ c ∈ [0.42, 0.26, 0.20, 0.12], IsWeight (c : F)
  zero : ∀ b ∈ [0.0, 0.08, 1.0], Within (b : F) 0.0
  domainWeight : Within (0.08 : F) 0.08
  noVector : Within (clamp (0.0 : F) 0.0 1.0 * 0.5) (clamp 0.0 0.0 1.0 * 0.5)
  belowThresholds : ∀ bound ∈ [0.80, 0.86], ¬ (bound : F) ≤ anchorlessScore F

instance : MonotoneScores ℚ where
  trans := le_trans
  add h h' := by
    unfold Within at *
    norm_num at *
    exact ⟨add_nonneg h.1 h'.1, add_le_add h.2 h'.2⟩
  mul h hc := by
    unfold Within IsWeight at *
    norm_num at *
    exact ⟨mul_nonneg h.1 hc.1.le, mul_le_mul_of_nonneg_right h.2 hc.1.le⟩
  ratio {m n} h hn := by
    have hpos : (0 : ℚ) < n := by exact_mod_cast hn
    have hle : (m : ℚ) ≤ n := by exact_mod_cast h
    unfold Within
    norm_num
    exact ⟨div_nonneg (Nat.cast_nonneg m) hpos.le, (div_le_one₀ hpos).2 hle⟩
  overlapWeights := by
    unfold IsWeight
    decide +kernel
  zero := by
    unfold Within
    decide +kernel
  domainWeight := by
    unfold Within
    decide +kernel
  noVector := by
    unfold Within
    decide +kernel
  belowThresholds := by decide +kernel

/-- `f32` rounds monotonically. -/
instance : MonotoneScores Float32 where
  trans := Ieee.float32_le_trans
  add h h' := Ieee.float32_add_mono h.1 h.2 h'.1 h'.2
  mul h hc := Ieee.float32_mul_mono h.1 h.2 hc.1 hc.2
  ratio h hn := Ieee.float32_ratio_le_one (Ieee.ofNatClamp_mono h) (Ieee.ofNatClamp_pos hn)
  overlapWeights := by
    unfold IsWeight
    decide +kernel
  zero := by
    unfold Within
    decide +kernel
  domainWeight := by
    unfold Within
    decide +kernel
  noVector := by
    unfold Within
    decide +kernel
  belowThresholds := by decide +kernel

variable [UnicodeTables] {F : Type} [ScoreArith F] [MonotoneScores F]

theorem within_tokenOverlap (left right : Str) : Within (1.0 : F) (tokenOverlap F left right) := by
  unfold tokenOverlap
  dsimp only
  split
  · exact MonotoneScores.zero 1.0 (by simp)
  · next hne =>
    rw [not_or] at hne
    refine MonotoneScores.ratio (Finset.card_le_card ?_) (Finset.card_pos.2 ?_)
    · exact Finset.inter_subset_left.trans Finset.subset_union_left
    · exact (Finset.nonempty_iff_ne_empty.2 hne.1).mono Finset.subset_union_left

theorem within_lexical (incoming candidate : ContinuityRecord) :
    Within (fullOverlap F) (scoreCandidate incoming candidate (0.0 : F)).lexical := by
  have hweights := MonotoneScores.overlapWeights (F := F)
  have hoverlap : ∀ (left right : Str), ∀ c ∈ [0.42, 0.26, 0.20, 0.12],
      Within (1.0 * c) (tokenOverlap F left right * c) :=
    fun left right c hc => MonotoneScores.mul (within_tokenOverlap left right) (hweights c hc)
  exact MonotoneScores.add (MonotoneScores.add (MonotoneScores.add (hoverlap _ _ 0.42 (by simp))
    (hoverlap _ _ 0.26 (by simp))) (hoverlap _ _ 0.20 (by simp))) (hoverlap _ _ 0.12 (by simp))

/-- Without an anchor match lexical overlap and a shared domain are all there is. -/
theorem within_score {incoming candidate : ContinuityRecord}
    (h : bothEqual (continuityAnchor incoming) (continuityAnchor candidate) = false) :
    Within (anchorlessScore F) (scoreCandidate incoming candidate (0.0 : F)).score := by
  have hlexical : Within (fullOverlap F * 0.42)
      ((scoreCandidate incoming candidate (0.0 : F)).lexical * 0.42) :=
    MonotoneScores.mul (within_lexical incoming candidate)
      (MonotoneScores.overlapWeights 0.42 (by simp))
  have hdomain : Within (0.08 : F)
      (if bothEqual (domain incoming.url) (domain candidate.url) then 0.08 else 0.0) := by
    split
    · exact MonotoneScores.domainWeight
    · exact MonotoneScores.zero 0.08 (by simp)
  have hanchor : Within (0.0 : F) (if bothEqual (continuityAnchor incoming)
      (continuityAnchor candidate) then 0.32 else 0.0) := by
    rw [h]
    exact MonotoneScores.zero 0.0 (by simp)
  exact MonotoneScores.add (MonotoneScores.add
    (MonotoneScores.add MonotoneScores.noVector hlexical) hdomain) hanchor

/-- **Without vector evidence only an anchor match passes the threshold.** The other routes need a
    score of `0.80` or more. -/
theorem anchor_of_shouldMerge {incoming candidate : ContinuityRecord}
    (h : (shouldMerge incoming candidate (0.0 : F)).isSome) :
    bothEqual (continuityAnchor incoming) (continuityAnchor candidate) = true := by
  -- a merge without a common anchor would need a score that full overlaps do not reach
  unfold shouldMerge at h
  split at h
  · cases h
  · dsimp only at h
    split at h
    · cases h
    · split at h
      · next hpass =>
        by_contra hanchor
        have hanchor' := Bool.eq_false_iff.2 hanchor
        have hscore := within_score (F := F) hanchor'
        have hnot : ∀ bound ∈ [0.80, 0.86],
            decide (bound ≤ (scoreCandidate incoming candidate (0.0 : F)).score) = false := by
          intro bound hbound
          refine decide_eq_false (fun hle => ?_)
          exact MonotoneScores.belowThresholds bound hbound (MonotoneScores.trans hle hscore.2)
        have h80 := hnot 0.80 (by simp)
        have h86 := hnot 0.86 (by simp)
        rw [passesMergeThreshold,
          show (scoreCandidate incoming candidate (0.0 : F)).anchorMatch = false from hanchor'] at hpass
        simp only [Bool.false_eq_true, if_false] at hpass
        split at hpass
        · next hroute =>
          rw [Bool.and_eq_true] at hroute
          exact Bool.noConfusion (h80.symm.trans hroute.2)
        · rw [Bool.and_eq_true, Bool.and_eq_true] at hpass
          exact Bool.noConfusion (h86.symm.trans hpass.1.1)
      · cases h

end Scores

/-! ## Sanitized URLs -/

/-- The schemes that are kept in storage. -/
def Url.IsWeb (u : Url) : Prop := u.scheme = "http".toList ∨ u.scheme = "https".toList

/-- The parts of a URL that sanitizing keeps. -/
def Url.stripped (u : Url) : Url :=
  { u with username := [], password := none, query := none, fragment := none }

/-- `Url::host_str` of a web URL: a lower-case domain or address without delimiters, where only a
    bracketed IPv6 literal has a colon. -/
structure WebHost (h : Str) : Prop where
  nonempty : h ≠ []
  plain : ∀ c ∈ h, c ≠ '/' ∧ c ≠ '?' ∧ c ≠ '#' ∧ c ≠ '@' ∧ isWhitespace c = false ∧ c.toLower = c
  colon : ':' ∈ h → h.head? = some '['

/-- Nothing, or a colon and digits. -/
def PortSuffix (port : Str) : Prop :=
  port = [] ∨ ∃ digits, port = ':' :: digits ∧ ∀ c ∈ digits, c.isDigit

/-- What the `url` crate documents about web URLs. -/
structure UrlCrateDocumented [UrlCrate] : Prop where
  host : ∀ s u h, UrlCrate.parse s = some u → u.IsWeb → u.host = some h → WebHost h
  path : ∀ s u, UrlCrate.parse s = some u → u.IsWeb →
    ∃ rest, u.path = '/' :: rest ∧ ∀ c ∈ rest, isWhitespace c = false
  serialize : ∀ s u h, UrlCrate.parse s = some u → u.IsWeb → u.host = some h →
    ∃ port, PortSuffix port ∧
      UrlCrate.serialize u.stripped = u.scheme ++ "://".toList ++ (h ++ port ++ u.path)
  roundTrip : ∀ s u h, UrlCrate.parse s = some u → u.IsWeb → u.host = some h →
    (UrlCrate.parse (UrlCrate.serialize u.stripped)).bind Url.host = some h
  setUsername : ∀ u h, u.IsWeb → u.host = some h → h ≠ [] →
    UrlCrate.setUsername u [] = some { u with username := [] }
  setPassword : ∀ u h, u.IsWeb → u.host = some h → h ≠ [] →
    UrlCrate.setPassword u none = some { u with password := none }
  setQuery : ∀ u, u.IsWeb → UrlCrate.setQuery u none = { u with query := none }
  setFragment : ∀ u, u.IsWeb → UrlCrate.setFragment u none = { u with fragment := none }

/-- The part of a host that `domain` keeps. -/
def hostHead (h : Str) : Str := h.takeWhile (fun c => !(c == ':'))

/-- A bracketed IPv6 literal. -/
def IsBracketed (h : Str) : Prop := h.head? = some '['

theorem WebHost.hostHead_eq {h : Str} (hweb : WebHost h) (hplain : ¬ IsBracketed h) :
    hostHead h = h := by
  refine List.takeWhile_eq_self_iff.2 (fun c hc => ?_)
  by_contra hcolon
  simp only [Bool.not_eq_true, Bool.not_eq_false', beq_iff_eq] at hcolon
  exact hplain (hweb.colon (hcolon ▸ hc))

theorem head?_hostHead {h : Str} (hbracket : IsBracketed h) : (hostHead h).head? = some '[' := by
  cases h with
  | nil => exact hbracket
  | cons c cs =>
      cases hbracket
      rfl

theorem WebHost.hostHead_ne_nil {h : Str} (hweb : WebHost h) : hostHead h ≠ [] := by
  by_cases hbracket : IsBracketed h
  · intro hnil
    have := head?_hostHead hbracket
    rw [hnil] at this
    cases this
  · rw [hweb.hostHead_eq hbracket]
    exact hweb.nonempty

/-- Hosts that look alike to `domain` are equal, unless both are bracketed. -/
theorem eq_of_hostHead_eq {h k : Str} (hh : WebHost h) (hk : WebHost k)
    (heq : hostHead h = hostHead k) (hbrackets : IsBracketed h → IsBracketed k → h = k) :
    h = k := by
  by_cases hb : IsBracketed h
  · by_cases kb : IsBracketed k
    · exact hbrackets hb kb
    · have hhead := head?_hostHead hb
      rw [heq, hk.hostHead_eq kb] at hhead
      exact absurd hhead kb
  · by_cases kb : IsBracketed k
    · have khead := head?_hostHead kb
      rw [← heq, hh.hostHead_eq hb] at khead
      exact absurd khead hb
    · rwa [hh.hostHead_eq hb, hk.hostHead_eq kb] at heq

theorem isWhitespace_of_isDigit {c : Char} (h : c.isDigit) : isWhitespace c = false := by
  simp only [Char.isDigit, Bool.and_eq_true, decide_eq_true_eq, ge_iff_le,
    UInt32.le_iff_toNat_le] at h
  have hnat : c.toNat = c.val.toNat := rfl
  have hlow : 48 ≤ c.toNat := h.1
  have hhigh : c.toNat ≤ 57 := h.2
  unfold isWhitespace
  simp
  omega

/-- The characters of an authority end neither it nor its host. -/
theorem PortSuffix.chars {port : Str} (h : PortSuffix port) :
    ∀ c ∈ port, c ≠ '/' ∧ c ≠ '?' ∧ c ≠ '#' ∧ c ≠ '@' ∧ isWhitespace c = false := by
  intro c hc
  rcases h with rfl | ⟨digits, rfl, hdigits⟩
  · cases hc
  · rcases List.mem_cons.1 hc with rfl | hc
    · decide
    · have hdigit := hdigits c hc
      have hne : ∀ d : Char, d.isDigit = false → c ≠ d := by
        rintro d hd rfl
        exact Bool.noConfusion (hd.symm.trans hdigit)
      exact ⟨hne _ (by decide), hne _ (by decide), hne _ (by decide), hne _ (by decide),
        isWhitespace_of_isDigit hdigit⟩

theorem takeWhile_hostHead {h port : Str} (hport : PortSuffix port) :
    (h ++ port).takeWhile (fun c => !(c == ':')) = hostHead h := by
  induction h with
  | nil => rcases hport with rfl | ⟨digits, rfl, -⟩ <;> rfl
  | cons c cs ih =>
      rw [hostHead, List.cons_append, List.takeWhile_cons, List.takeWhile_cons, ih]
      rfl

theorem splitOnce_scheme {scheme : Str} (h : scheme = "http".toList ∨ scheme = "https".toList)
    (rest : Str) :
    splitOnce "://".toList (scheme ++ "://".toList ++ rest) = some (scheme, rest) := by
  rcases h with rfl | rfl <;> rfl

theorem WebHost.authority {h port : Str} (hweb : WebHost h) (hport : PortSuffix port) :
    ∀ c ∈ h ++ port, c ≠ '/' ∧ c ≠ '?' ∧ c ≠ '#' ∧ c ≠ '@' ∧ isWhitespace c = false := by
  intro c hc
  rcases List.mem_append.1 hc with hc | hc
  · obtain ⟨h₁, h₂, h₃, h₄, h₅, -⟩ := hweb.plain c hc
    exact ⟨h₁, h₂, h₃, h₄, h₅⟩
  · exact hport.chars c hc

theorem sanitized_noWhitespace {scheme h port rest : Str}
    (hscheme : scheme = "http".toList ∨ scheme = "https".toList) (hweb : WebHost h)
    (hport : PortSuffix port) (hrest : ∀ c ∈ rest, isWhitespace c = false) :
    ∀ c ∈ scheme ++ "://".toList ++ (h ++ port ++ '/' :: rest), isWhitespace c = false := by
  intro c hc
  rcases List.mem_append.1 hc with hc | hc
  · have hfixed : (scheme ++ "://".toList).all (fun c => !isWhitespace c) = true := by
      rcases hscheme with rfl | rfl <;> decide
    simpa using List.all_eq_true.1 hfixed c hc
  · rcases List.mem_append.1 hc with hc | hc
    · exact (hweb.authority hport c hc).2.2.2.2
    · rcases List.mem_cons.1 hc with rfl | hc
      · decide
      · exact hrest c hc

/-- `domain` of a URL in its sanitized form. -/
theorem domain_sanitized {scheme h port rest : Str}
    (hscheme : scheme = "http".toList ∨ scheme = "https".toList) (hweb : WebHost h)
    (hport : PortSuffix port) (hrest : ∀ c ∈ rest, isWhitespace c = false) :
    domain (some (scheme ++ "://".toList ++ (h ++ port ++ '/' :: rest))) = some (hostHead h) := by
  have hauthority := hweb.authority hport
  have htrim := trim_eq_self (sanitized_noWhitespace hscheme hweb hport hrest)
  have hends : ((h ++ port) ++ '/' :: rest).takeWhile
      (fun c => !(c == '/' || c == '?' || c == '#')) = h ++ port := by
    rw [List.takeWhile_append_of_pos]
    · rw [List.takeWhile_cons_of_neg (by simp), List.append_nil]
    · intro c hc
      obtain ⟨h₁, h₂, h₃, -, -⟩ := hauthority c hc
      simp [h₁, h₂, h₃]
  have hnoAt : ∀ c ∈ h ++ port, (c == '@') = false :=
    fun c hc => beq_eq_false_iff_ne.2 (hauthority c hc).2.2.2.1
  have hhost : ∀ c ∈ hostHead h, isWhitespace c = false ∧ c.toLower = c := by
    intro c hc
    have := hweb.plain c ((List.takeWhile_prefix _).subset hc)
    exact ⟨this.2.2.2.2.1, this.2.2.2.2.2⟩
  have hlower : toAsciiLowercase (hostHead h) = hostHead h := by
    rw [toAsciiLowercase]
    conv_rhs => rw [← List.map_id (hostHead h)]
    exact List.map_congr_left (fun c hc => (hhost c hc).2)
  simp only [domain, htrim, splitOnce_scheme hscheme, head?_split, hends,
    trim_eq_self (fun c hc => (hauthority c hc).2.2.2.2), split_of_forall hnoAt,
    takeWhile_hostHead hport, trim_eq_self (fun c hc => (hhost c hc).1), Option.map_some,
    Option.getD_some, List.getLast?_singleton, Option.bind_some, bind, hlower,
    if_pos hweb.hostHead_ne_nil]

section Sanitized

variable [UnicodeTables] [UrlCrate]

/-- What the two host parsers read from a sanitized URL whose host is `h`. -/
structure ReadsHost (url : SanitizedUrl) (h : Str) : Prop where
  webHost : WebHost h
  parse : (UrlCrate.parse url.asStr).bind Url.host = some h
  domain : domain (some url.asStr) = some (hostHead h)
  hostFromUrl : hostFromUrl url.asStr = some (toLowercase h)

omit [UnicodeTables] in
/-- The setters take off what sanitizing takes off. -/
theorem UrlCrateDocumented.setters (doc : UrlCrateDocumented) {u : Url} {h : Str} (hweb : u.IsWeb)
    (hhost : u.host = some h) (hne : h ≠ []) :
    ((UrlCrate.setUsername u []).bind (UrlCrate.setPassword · none)).map
      (fun u => UrlCrate.setFragment (UrlCrate.setQuery u none) none) = some u.stripped := by
  rw [doc.setUsername u h hweb hhost hne, Option.bind_some,
    doc.setPassword { u with username := [] } h hweb hhost hne, Option.map_some,
    doc.setQuery { u with username := [], password := none } hweb,
    doc.setFragment { u with username := [], password := none, query := none } hweb]
  rfl

theorem readsHost_of_sanitize (doc : UrlCrateDocumented) {raw : Str} {url : SanitizedUrl}
    (hurl : sanitizeUrlForStorage raw = some url) : ∃ h, ReadsHost url h := by
  unfold sanitizeUrlForStorage at hurl
  obtain ⟨u, hparse, hurl⟩ := Option.bind_eq_some_iff.1 hurl
  split at hurl
  · cases hurl
  · next hweb =>
    rw [not_or, not_not] at hweb
    obtain ⟨hscheme, hsome⟩ := hweb
    obtain ⟨h, hhost⟩ := Option.isSome_iff_exists.1 (Option.isNone_eq_false_iff.1
      (Bool.eq_false_iff.2 hsome))
    have hwebHost := doc.host _ u h hparse hscheme hhost
    -- the setters leave what `stripped` says
    have hstripped : url.asStr = UrlCrate.serialize u.stripped := by
      have hsetters := doc.setters hscheme hhost hwebHost.nonempty
      obtain ⟨u₁, husername, hurl⟩ := Option.bind_eq_some_iff.1 hurl
      obtain ⟨u₂, hpassword, hurl⟩ := Option.bind_eq_some_iff.1 hurl
      rw [husername, Option.bind_some, hpassword, Option.map_some, Option.some.injEq] at hsetters
      rw [← hsetters]
      cases hurl
      rfl
    obtain ⟨port, hport, hserialize⟩ := doc.serialize _ u h hparse hscheme hhost
    obtain ⟨rest, hpath, hrest⟩ := doc.path _ u hparse hscheme
    have hround := doc.roundTrip _ u h hparse hscheme hhost
    rw [← hstripped] at hround
    rw [← hstripped, hpath] at hserialize
    have htrim : trim url.asStr = url.asStr := by
      rw [hserialize]
      exact trim_eq_self (sanitized_noWhitespace hscheme hwebHost hport hrest)
    refine ⟨h, hwebHost, hround, ?_, ?_⟩
    · rw [hserialize]
      exact domain_sanitized hscheme hwebHost hport hrest
    · rw [Fndr.hostFromUrl, htrim, hround]
      rfl

end Sanitized

/-! ## The anchor of a URL determines its domain -/

section Anchors

variable [UnicodeTables]

/-- What stands between the kind of an anchor and the next colon. -/
def anchorHost (anchor : Str) : Str := hostHead (anchor.drop 4)

theorem continuityAnchor_url {record : ContinuityRecord} {url d : Str} (hurl : record.url = some url)
    (hdomain : domain (some url) = some d) (hcolon : ∀ c ∈ d, c ≠ ':') :
    ∃ anchor, continuityAnchor record = some anchor ∧ anchor.take 4 = "url:".toList ∧
      anchorHost anchor = d := by
  have hhead : ∀ rest : Str, (∀ c ∈ rest.head?, c = ':') → hostHead (d ++ rest) = d := by
    intro rest hrest
    rw [hostHead, List.takeWhile_append_of_pos (by simpa using hcolon)]
    cases rest with
    | nil => simp
    | cons c cs => simp [hrest c rfl]
  unfold continuityAnchor
  simp only [hurl, Option.bind_some, hdomain, Option.map_some]
  split
  · refine ⟨_, rfl, rfl, ?_⟩
    have := hhead (':' :: firstPathSegments url 3) (by simp)
    simpa [anchorHost] using this
  · refine ⟨_, rfl, rfl, ?_⟩
    have := hhead [] (by simp)
    simpa [anchorHost] using this

theorem continuityAnchor_app {record : ContinuityRecord} (hurl : record.url = none) {anchor : Str}
    (h : continuityAnchor record = some anchor) : anchor.take 4 = "app:".toList := by
  unfold continuityAnchor at h
  simp only [hurl, Option.bind_none] at h
  split at h
  · cases h
    rfl
  · split at h
    · cases h
      rfl
    · cases h

omit [UnicodeTables] in
theorem eq_some_of_bothEqual {left right : Option Str} (h : bothEqual left right = true) :
    ∃ value, left = some value ∧ right = some value := by
  cases left with
  | none => cases h
  | some l =>
      cases right with
      | none => cases h
      | some r =>
          rw [bothEqual, beq_iff_eq] at h
          exact ⟨l, rfl, congrArg some h.symm⟩

variable [UrlCrate]

/-- The host of a record's URL, as owner deletion reads it. -/
def storedHost (url : Option SanitizedUrl) : Option Str :=
  url.bind (fun url => hostFromUrl url.asStr)

/-- The two URLs do not have different IPv6 literals as hosts. -/
def BracketsAgree (left right : Option Str) : Prop :=
  ∀ u ∈ left, ∀ v ∈ right, ∀ h k, (UrlCrate.parse u).bind Url.host = some h →
    (UrlCrate.parse v).bind Url.host = some k → IsBracketed h → IsBracketed k → h = k

theorem ReadsHost.continuityAnchor {url : SanitizedUrl} {h : Str} (hurl : ReadsHost url h)
    {record : ContinuityRecord} (hrecord : record.url = some url.asStr) :
    ∃ anchor, continuityAnchor record = some anchor ∧ anchor.take 4 = "url:".toList ∧
      anchorHost anchor = hostHead h := by
  refine continuityAnchor_url hrecord hurl.domain (fun c hc => ?_)
  have := List.mem_takeWhile_imp hc
  simpa using this

/-- **A merge joins equal hosts**, or no hosts at all, unless it joins two IPv6 literals. -/
theorem storedHost_eq_of_shouldMerge {incoming candidate : ContinuityRecord}
    {a b : Option SanitizedUrl} (ha : incoming.url = a.map SanitizedUrl.asStr)
    (hb : candidate.url = b.map SanitizedUrl.asStr) (hreada : ∀ url ∈ a, ∃ h, ReadsHost url h)
    (hreadb : ∀ url ∈ b, ∃ h, ReadsHost url h)
    (hbrackets : BracketsAgree incoming.url candidate.url)
    (hmerge : (shouldMerge incoming candidate (0.0 : ℚ)).isSome) :
    storedHost a = storedHost b := by
  obtain ⟨anchor, hincoming, hcandidate⟩ := eq_some_of_bothEqual (anchor_of_shouldMerge hmerge)
  have hkind : "url:".toList ≠ "app:".toList := by decide
  cases a with
  | none =>
      cases b with
      | none => rfl
      | some v =>
          -- an app anchor never equals a URL anchor
          obtain ⟨k, hv⟩ := hreadb v rfl
          obtain ⟨anchor', hanchor', hurl, -⟩ := hv.continuityAnchor hb
          cases hcandidate.symm.trans hanchor'
          exact absurd (hurl.symm.trans (continuityAnchor_app ha hincoming)) hkind
  | some u =>
      obtain ⟨h, hu⟩ := hreada u rfl
      obtain ⟨anchor', hanchor', hurl, hhost⟩ := hu.continuityAnchor ha
      cases hincoming.symm.trans hanchor'
      cases b with
      | none => exact absurd (hurl.symm.trans (continuityAnchor_app hb hcandidate)) hkind
      | some v =>
          obtain ⟨k, hv⟩ := hreadb v rfl
          obtain ⟨anchor'', hanchor'', -, hhost'⟩ := hv.continuityAnchor hb
          cases hcandidate.symm.trans hanchor''
          have heq : h = k := by
            refine eq_of_hostHead_eq hu.webHost hv.webHost (hhost.symm.trans hhost') ?_
            rw [ha, hb] at hbrackets
            exact hbrackets _ rfl _ rfl h k hu.parse hv.parse
          rw [storedHost, storedHost, Option.bind_some, Option.bind_some, hu.hostFromUrl,
            hv.hostFromUrl, heq]

end Anchors

end Fndr
