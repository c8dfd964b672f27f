import Fndr.Ocr.Vision
import Mathlib.Algebra.Order.Ring.Unbundled.Rat
import Mathlib.Order.BoundedOrder.Monotone

set_option autoImplicit false

/-! # Evidence that is too weak to store

`is_low_signal` and `text_volume_qualifies` of `vision.rs`. Confidences are over any type with the
operations the comparisons need, and the results over any linear order.

The decision depends on three measures of a frame (`isLowSignal_eq_false_iff`). Each rule is monotone
or antitone in all of them, the admit rule in each of its arms, so the admitted evidence is closed
upwards (`monotone_admitted`). Every arm of the admit rule asks for more confidence than the rule it
overrides rejects, so it never decides anything (`isLowSignal_eq_without`). -/

namespace Fndr

open RustStd

section Rules

variable {F : Type} [LE F] [LT F] [DecidableLE F] [DecidableLT F] [OfScientific F]

/-- A high-precision admit rule: `false` means only that nothing is proven. -/
def textVolumeQualifies (charCount : ℕ) (ocrConfidence : F) (blockCount : ℕ) : Bool :=
  if charCount = 0 then false
  -- the floor of the admit path only
  else if charCount < 80 then false
  else if 400 ≤ charCount ∧ 0.35 ≤ ocrConfidence then true
  else if 200 ≤ charCount ∧ 10 ≤ blockCount ∧ 0.35 ≤ ocrConfidence then true
  else if 80 ≤ charCount ∧ 5 ≤ blockCount ∧ 0.55 ≤ ocrConfidence then true
  else false

/-- A line without the confidence annotation at its front. -/
def stripLowConf (line : Str) : Str :=
  if startsWith line LOW_CONF_MARKER then line.drop LOW_CONF_MARKER.length
  else if line = "[LOW_CONF]".toList then []
  else line

/-- The characters of the text, without annotations and the white space around it. -/
def RecognizedText.charCount (recognized : RecognizedText F) : ℕ :=
  (trim (join "\n".toList ((lines recognized.text).map stripLowConf))).length

/-- Whether a frame's OCR evidence is too weak to store. -/
def RecognizedText.isLowSignal (recognized : RecognizedText F) (minChars : ℕ) : Bool :=
  let charCount := recognized.charCount
  if charCount < minChars then true
  -- the engine failed, or its output is garbled
  else if recognized.confidence < 0.15 then true
  else if textVolumeQualifies charCount recognized.confidence recognized.blockCount then false
  else decide (recognized.blockCount ≤ 1) && decide (recognized.confidence < 0.35)

/-- The same decision for any answer of the admit rule. -/
def RecognizedText.isLowSignalGiven (qualifies : Bool) (recognized : RecognizedText F)
    (minChars : ℕ) : Bool :=
  if recognized.charCount < minChars then true
  else if recognized.confidence < 0.15 then true
  else if qualifies then false
  else decide (recognized.blockCount ≤ 1) && decide (recognized.confidence < 0.35)

/-! ## The evidence -/

/-- The measures of a frame that the decision depends on. -/
structure Evidence (F : Type) where
  charCount : ℕ
  confidence : F
  blockCount : ℕ

/-- The three numbers that the test looks at. -/
def RecognizedText.evidence (recognized : RecognizedText F) : Evidence F :=
  ⟨recognized.charCount, recognized.confidence, recognized.blockCount⟩

namespace Evidence

/-- The evidence passes the rules that nothing overrides. -/
def Legible (minChars : ℕ) (e : Evidence F) : Prop := minChars ≤ e.charCount ∧ ¬e.confidence < 0.15

/-- The admit rule answers `true`. -/
def Qualifies (e : Evidence F) : Prop :=
  textVolumeQualifies e.charCount e.confidence e.blockCount = true

/-- The rule that the admit rule may override. -/
def SingleBlock (e : Evidence F) : Prop := e.blockCount ≤ 1 ∧ e.confidence < 0.35

/-- What a text needs in order not to be of low signal. -/
def Admitted (minChars : ℕ) (e : Evidence F) : Prop :=
  e.Legible minChars ∧ (e.Qualifies ∨ ¬e.SingleBlock)

omit [LT F] [DecidableLT F] in
/-- The three arms of the admit rule. -/
theorem qualifies_iff (e : Evidence F) :
    e.Qualifies ↔ (400 ≤ e.charCount ∧ 0.35 ≤ e.confidence) ∨
      (200 ≤ e.charCount ∧ 10 ≤ e.blockCount ∧ 0.35 ≤ e.confidence) ∨
      (80 ≤ e.charCount ∧ 5 ≤ e.blockCount ∧ 0.55 ≤ e.confidence) := by
  unfold Qualifies textVolumeQualifies
  split_ifs with hzero hfloor hlong hmedium hshort
  · exact iff_of_false nofun (by omega)
  · exact iff_of_false nofun (by omega)
  · exact iff_of_true rfl (Or.inl hlong)
  · exact iff_of_true rfl (Or.inr (Or.inl hmedium))
  · exact iff_of_true rfl (Or.inr (Or.inr hshort))
  · exact iff_of_false nofun fun h => h.elim hlong fun h => h.elim hmedium hshort

end Evidence

namespace RecognizedText

theorem isLowSignal_eq_given (recognized : RecognizedText F) (minChars : ℕ) :
    recognized.isLowSignal minChars = recognized.isLowSignalGiven
      (textVolumeQualifies recognized.charCount recognized.confidence recognized.blockCount)
      minChars := rfl

omit [LE F] [DecidableLE F] in
theorem isLowSignalGiven_eq_false_iff (qualifies : Bool) (recognized : RecognizedText F)
    (minChars : ℕ) :
    recognized.isLowSignalGiven qualifies minChars = false ↔
      recognized.evidence.Legible minChars ∧
        (qualifies = true ∨ ¬recognized.evidence.SingleBlock) := by
  unfold isLowSignalGiven Evidence.Legible Evidence.SingleBlock evidence
  split_ifs with hshort hgarbled hqualifies
  · exact iff_of_false nofun fun h => Nat.not_lt.2 h.1.1 hshort
  · exact iff_of_false nofun fun h => h.1.2 hgarbled
  · exact iff_of_true rfl ⟨⟨Nat.not_lt.1 hshort, hgarbled⟩, Or.inl hqualifies⟩
  · rw [← Bool.decide_and, decide_eq_false_iff_not]
    exact ⟨fun h => ⟨⟨Nat.not_lt.1 hshort, hgarbled⟩, Or.inr h⟩,
      fun h => h.2.resolve_left hqualifies⟩

theorem isLowSignal_eq_false_iff (recognized : RecognizedText F) (minChars : ℕ) :
    recognized.isLowSignal minChars = false ↔ recognized.evidence.Admitted minChars := by
  rw [isLowSignal_eq_given, isLowSignalGiven_eq_false_iff]
  exact Iff.rfl

end RecognizedText

/-- What the answer of the admit rule does to a decision. -/
structure OnlyRescues (recognized : RecognizedText F) (minChars : ℕ) : Prop where
  asked : recognized.isLowSignal minChars = recognized.isLowSignalGiven
    (textVolumeQualifies recognized.charCount recognized.confidence recognized.blockCount) minChars
  /-- With a `true`, nothing is rejected that is not rejected with a `false`. -/
  neverRejects : recognized.isLowSignalGiven true minChars = true →
    recognized.isLowSignalGiven false minChars = true
  /-- What a `true` admits had passed all other rules. -/
  rescued : recognized.isLowSignalGiven false minChars = true →
    recognized.isLowSignalGiven true minChars = false →
    recognized.evidence.Legible minChars ∧ recognized.evidence.SingleBlock

theorem onlyRescues (recognized : RecognizedText F) (minChars : ℕ) :
    OnlyRescues recognized minChars where
  asked := recognized.isLowSignal_eq_given minChars
  neverRejects := by
    intro hrejected
    by_contra hadmitted
    rw [Bool.not_eq_true, recognized.isLowSignalGiven_eq_false_iff] at hadmitted
    have htrue := (recognized.isLowSignalGiven_eq_false_iff true minChars).2
      ⟨hadmitted.1, Or.inl rfl⟩
    rw [htrue] at hrejected
    cases hrejected
  rescued := by
    intro hrejected hadmitted
    have hlegible := ((recognized.isLowSignalGiven_eq_false_iff true minChars).1 hadmitted).1
    refine ⟨hlegible, ?_⟩
    by_contra hblock
    have hfalse := (recognized.isLowSignalGiven_eq_false_iff false minChars).2
      ⟨hlegible, Or.inr hblock⟩
    rw [hfalse] at hrejected
    cases hrejected

end Rules

/-! ## More evidence -/

section Order

variable {F : Type} [LinearOrder F]

/-- More evidence is at least as much by every measure. -/
instance : Preorder (Evidence F) := Preorder.lift fun e => (e.charCount, e.confidence, e.blockCount)

namespace Evidence

theorem monotone_charCount : Monotone (charCount : Evidence F → ℕ) := fun _ _ h => h.1

theorem monotone_confidence : Monotone (confidence : Evidence F → F) := fun _ _ h => h.2.1

theorem monotone_blockCount : Monotone (blockCount : Evidence F → ℕ) := fun _ _ h => h.2.2

variable [OfScientific F]

theorem monotone_legible (minChars : ℕ) : Monotone (Legible minChars : Evidence F → Prop) :=
  monotone_and (monotone_le.comp monotone_charCount)
    fun _ _ h hlegible hlow => hlegible ((monotone_confidence h).trans_lt hlow)

theorem monotone_qualifies : Monotone (Qualifies : Evidence F → Prop) := by
  have hchars (n : ℕ) : Monotone fun e : Evidence F => n ≤ e.charCount :=
    monotone_le.comp monotone_charCount
  have hblocks (n : ℕ) : Monotone fun e : Evidence F => n ≤ e.blockCount :=
    monotone_le.comp monotone_blockCount
  have hconfidence (x : F) : Monotone fun e : Evidence F => x ≤ e.confidence :=
    monotone_le.comp monotone_confidence
  rw [show (Qualifies : Evidence F → Prop) = _ from funext fun e => propext e.qualifies_iff]
  exact monotone_or (monotone_and (hchars 400) (hconfidence 0.35))
    (monotone_or (monotone_and (hchars 200) (monotone_and (hblocks 10) (hconfidence 0.35)))
      (monotone_and (hchars 80) (monotone_and (hblocks 5) (hconfidence 0.55))))

theorem antitone_singleBlock : Antitone (SingleBlock : Evidence F → Prop) :=
  fun _ _ h hblock =>
    ⟨(monotone_blockCount h).trans hblock.1, (monotone_confidence h).trans_lt hblock.2⟩

/-- The admitted evidence is closed upwards. -/
theorem monotone_admitted (minChars : ℕ) : Monotone (Admitted minChars : Evidence F → Prop) :=
  monotone_and (monotone_legible minChars)
    (monotone_or monotone_qualifies fun _ _ h => mt (antitone_singleBlock h))

/-- What qualifies has too much confidence for the rule that is overridden. -/
theorem not_singleBlock_of_qualifies (hbounds : (0.35 : F) ≤ 0.55) {e : Evidence F}
    (h : e.Qualifies) : ¬e.SingleBlock := by
  have hconfidence : 0.35 ≤ e.confidence := by
    rcases e.qualifies_iff.1 h with hlong | hmedium | hshort
    · exact hlong.2
    · exact hmedium.2.2
    · exact hbounds.trans hshort.2.2
  exact fun hblock => hblock.2.not_ge hconfidence

end Evidence

variable [OfScientific F]

/-- The admit rule decides nothing: it says `true` of no frame that the rule behind it rejects. -/
theorem isLowSignal_eq_without (hbounds : (0.35 : F) ≤ 0.55) (recognized : RecognizedText F)
    (minChars : ℕ) :
    recognized.isLowSignal minChars = recognized.isLowSignalGiven false minChars := by
  rw [Bool.eq_iff_iff, ← not_iff_not, Bool.not_eq_true, Bool.not_eq_true,
    recognized.isLowSignal_eq_false_iff, recognized.isLowSignalGiven_eq_false_iff]
  refine and_congr_right fun _ => ⟨?_, fun h => Or.inr (h.resolve_left Bool.false_ne_true)⟩
  rintro (hqualifies | hblock)
  · exact Or.inr (Evidence.not_singleBlock_of_qualifies hbounds hqualifies)
  · exact Or.inr hblock

/-- **More evidence never gets a frame rejected**, and the admit rule never rejects. -/
theorem isLowSignal_of_moreEvidence (minChars : ℕ) :
    (∀ first second : RecognizedText F, first.charCount ≤ second.charCount →
      first.confidence ≤ second.confidence → first.blockCount ≤ second.blockCount →
      first.isLowSignal minChars = false → second.isLowSignal minChars = false) ∧
    ∀ recognized : RecognizedText F, OnlyRescues recognized minChars := by
  refine ⟨fun first second hchars hconfidence hblocks hadmitted => ?_,
    fun recognized => onlyRescues recognized minChars⟩
  have hmore : first.evidence ≤ second.evidence := ⟨hchars, hconfidence, hblocks⟩
  rw [RecognizedText.isLowSignal_eq_false_iff] at hadmitted ⊢
  exact Evidence.monotone_admitted minChars hmore hadmitted

end Order

/-- A frame whose preprocessing stats are left at their default. -/
def frameOf (text : Str) (confidence : ℚ) (blockCount : ℕ) : RecognizedText ℚ :=
  ⟨text, confidence, blockCount, ⟨0, 0, 0, 0, 0⟩⟩

/-- From a log line to one with an annotation and one more block. -/
theorem isLowSignal_of_logLine :
    (frameOf "[LOW_CONF] ERROR: timeout".toList 0.6 2).isLowSignal 12 = false :=
  (isLowSignal_of_moreEvidence (F := ℚ) 12).1 (frameOf "ERROR: retry".toList 0.5 1)
    (frameOf "[LOW_CONF] ERROR: timeout".toList 0.6 2)
    (by decide +kernel) (by decide +kernel) (by decide +kernel) (by decide +kernel)

example : (frameOf "[LOW_CONF] tiny".toList 0.5 2).isLowSignal 12 = true := by decide +kernel

end Fndr
