import Mathlib.Algebra.Order.BigOperators.Group.List
import Mathlib.Algebra.Order.Group.Nat
import Fndr.Library.Collapse
import Fndr.Memory.Continuity

set_option autoImplicit false

/-! # What a merged story keeps

The loop of `mergeStoryText` judges overlap on a shadow in which the parts are joined by spaces,
while the text it returns has a bullet between them. A segment that is read in the shadow only
where two parts meet is skipped although no part has it. With this exception nothing is lost: the
merged text is the existing text and the new segments with bullets between them, cut at the limit
(`mergeStoryText_eq_take`), and every skipped segment was read in the parts joined by spaces
(`infix_newSegments`).

Which segments are at risk is said about the two texts alone: as long as nothing straddles, the new
segments are those that stand neither in the existing text nor in a segment before them
(`newSegments_eq_unseenSegments`). `mergeKeepsEverything_of_noneStraddles` says that a merge then
loses nothing, and that the first straddling segment is lost unless a later text brings it back. -/

namespace Fndr

open RustStd

section Unicode

variable [UnicodeTables]

/-! ## What merging promises -/

/-- Below the limit the merged text has the existing text and every segment of the incoming one, up
    to case and white space. -/
structure MergeKeepsEverything (existing incoming : Str) (maxChars : ℕ) : Prop where
  bounded : (mergeStoryText existing incoming maxChars).length ≤ maxChars
  keepsExisting : (mergeStoryText existing incoming maxChars).length < maxChars →
    normalizeOverlap existing <:+: normalizeOverlap (mergeStoryText existing incoming maxChars)
  keepsSegments : (mergeStoryText existing incoming maxChars).length < maxChars →
    ∀ segment ∈ storySegments incoming,
      normalizeOverlap segment <:+: normalizeOverlap (mergeStoryText existing incoming maxChars)

/-! ## Normal forms -/

/-- Lower-casing works character by character. -/
def LowersByCharacter (f : Char → Str) : Prop := ∀ s : Str, toLowercase s = s.flatMap f

theorem LowersByCharacter.normalizeOverlap_isInfix {f : Char → Str} (hf : LowersByCharacter f)
    {s t : Str} (h : s <:+: t) : normalizeOverlap s <:+: normalizeOverlap t := by
  obtain ⟨a, b, rfl⟩ := h
  refine collapse_isInfix ⟨a.flatMap f, b.flatMap f, ?_⟩
  rw [hf s, hf (a ++ s ++ b), List.flatMap_append, List.flatMap_append]

section Lawful

variable [LawfulUnicode]

/-- The words of a normal form are the words of the text in lower case. -/
theorem normalizeOverlap_eq_join (text : Str) :
    normalizeOverlap text = join [' '] ((fields isWhitespace text).map toLowercase) := by
  rw [normalizeOverlap, splitWhitespace_toLowercase]
  rfl

theorem normalizeOverlap_trim (text : Str) :
    normalizeOverlap (trim text) = normalizeOverlap text := by
  rw [normalizeOverlap_eq_join, fields_trim, ← normalizeOverlap_eq_join]

theorem normalizeOverlap_eq_nil_iff (text : Str) :
    normalizeOverlap text = [] ↔ ∀ c ∈ text, isWhitespace c = true := by
  rw [normalizeOverlap_eq_join, join_eq_nil_iff, List.map_eq_nil_iff, fields_eq_nil_iff]
  intro part hpart
  obtain ⟨w, hw, rfl⟩ := List.mem_map.1 hpart
  exact toLowercase_ne_nil (of_mem_fields hw).1

/-- Texts with white space between them have their normal forms joined by a space. -/
theorem normalizeOverlap_append_cons {s t : Str} {c : Char} (hc : isWhitespace c = true)
    (hs : normalizeOverlap s ≠ []) (ht : normalizeOverlap t ≠ []) :
    normalizeOverlap (s ++ c :: t) = join [' '] [normalizeOverlap s, normalizeOverlap t] := by
  rw [normalizeOverlap_eq_join] at hs ht
  rw [normalizeOverlap_eq_join, fields_append_cons s t hc, List.map_append,
    join_append (fun h => hs (by rw [h]; rfl)) (fun h => ht (by rw [h]; rfl)),
    ← normalizeOverlap_eq_join, ← normalizeOverlap_eq_join, join_char_cons_cons]
  simp [join]

end Lawful

/-! ## The segments of a trimmed text -/

/-- The characters at which a text is cut into segments. -/
def isSegmentBreak (c : Char) : Bool := c == '\n' || c == '.' || c == '!' || c == '?' || c == ';'

omit [UnicodeTables] in
theorem storySegments_eq (s : Str) : storySegments s =
    ((split isSegmentBreak s).map trim).filter (fun segment => decide (byteLen segment ≥ 12)) := rfl

omit [UnicodeTables] in
theorem storySegments_append_cons (s t : Str) {c : Char} (hc : isSegmentBreak c = true) :
    storySegments (s ++ c :: t) = storySegments s ++ storySegments t := by
  rw [storySegments_eq, split, List.splitOnP_append_cons s t hc, List.map_append,
    List.filter_append]
  rfl

omit [UnicodeTables] in
theorem storySegments_of_forall {s : Str} (h : ∀ c ∈ s, isSegmentBreak c = false) :
    storySegments s = [trim s].filter (fun segment => decide (byteLen segment ≥ 12)) := by
  rw [storySegments_eq, split_of_forall h, List.map_singleton]

omit [UnicodeTables] in
theorem storySegments_nil : storySegments [] = [] := rfl

omit [UnicodeTables] in
/-- White space in front belongs to no segment. -/
theorem storySegments_cons_of_whitespace {c : Char} (hc : isWhitespace c = true) (s : Str) :
    storySegments (c :: s) = storySegments s := by
  by_cases hbreak : isSegmentBreak c = true
  · exact storySegments_append_cons [] s hbreak
  · rw [Bool.not_eq_true] at hbreak
    rcases exists_first_separator isSegmentBreak s with hs | ⟨w, d, t, rfl, hw, hd⟩
    · rw [storySegments_of_forall (List.forall_mem_cons.2 ⟨hbreak, hs⟩),
        storySegments_of_forall hs, trim_cons_of_whitespace hc]
    · rw [← List.cons_append, storySegments_append_cons _ _ hd, storySegments_append_cons _ _ hd,
        storySegments_of_forall (List.forall_mem_cons.2 ⟨hbreak, hw⟩), storySegments_of_forall hw,
        trim_cons_of_whitespace hc]

omit [UnicodeTables] in
theorem storySegments_concat_of_whitespace {c : Char} (hc : isWhitespace c = true) (s : Str) :
    storySegments (s ++ [c]) = storySegments s := by
  by_cases hbreak : isSegmentBreak c = true
  · rw [storySegments_append_cons s [] hbreak, storySegments_nil, List.append_nil]
  · rw [Bool.not_eq_true] at hbreak
    induction s using fields_induction isSegmentBreak with
    | word s hs =>
        have hall : ∀ d ∈ s ++ [c], isSegmentBreak d = false :=
          List.forall_mem_append.2 ⟨hs, List.forall_mem_singleton.2 hbreak⟩
        rw [storySegments_of_forall hall, storySegments_of_forall hs, trim_concat_of_whitespace hc]
    | separator w d t hw hd ih =>
        rw [List.append_assoc, List.cons_append, storySegments_append_cons _ _ hd, ih,
          storySegments_append_cons _ _ hd]

omit [UnicodeTables] in
theorem storySegments_trim (s : Str) : storySegments (trim s) = storySegments s := by
  obtain ⟨a, b, hs, ha, hb⟩ := exists_trim_append s
  have hright : storySegments (trim s ++ b) = storySegments (trim s) := by
    clear hs
    induction b using List.reverseRecOn with
    | nil => rw [List.append_nil]
    | append_singleton b c ih =>
        obtain ⟨hb, hc⟩ := List.forall_mem_append.1 hb
        rw [← List.append_assoc, storySegments_concat_of_whitespace (hc c (by simp)), ih hb]
  have hleft : ∀ t, storySegments (a ++ t) = storySegments t := by
    intro t
    clear hs
    induction a with
    | nil => rfl
    | cons c a ih =>
        obtain ⟨hc, ha⟩ := List.forall_mem_cons.1 ha
        rw [List.cons_append, storySegments_cons_of_whitespace hc, ih ha]
  conv_rhs => rw [hs, List.append_assoc, hleft, hright]

/-! ## The loop -/

/-- The segments that the parts, joined by spaces, do not have yet, from left to right. -/
def newSegments : List Str → List Str → List Str
  | _, [] => []
  | parts, segment :: segments =>
      if normalizeOverlap segment = [] ∨ normalizeOverlap segment <:+: join [' '] parts then
        newSegments parts segments
      else segment :: newSegments (parts ++ [normalizeOverlap segment]) segments

/-- The segments with the bullet in front of each. -/
def bulleted (segments : List Str) : Str := segments.flatMap (fun s => " • ".toList ++ s)

/-- The limit cuts the text with every new segment; where the loop stopped early it was reached. -/
theorem take_appendSegments (maxChars : ℕ) (segments : List Str) :
    ∀ (parts : List Str) (merged : Str), parts ≠ [] →
      (appendSegments maxChars segments merged (join [' '] parts)).take maxChars =
        (merged ++ bulleted (newSegments parts segments)).take maxChars := by
  induction segments with
  | nil =>
      intro parts merged _
      rw [newSegments, bulleted, List.flatMap_nil, List.append_nil]
      rfl
  | cons segment segments ih =>
      intro parts merged hparts
      rw [appendSegments, newSegments]
      simp only [contains, decide_eq_true_eq]
      by_cases hskip : normalizeOverlap segment = [] ∨
          normalizeOverlap segment <:+: join [' '] parts
      · rw [if_pos hskip, if_pos hskip]
        exact ih parts merged hparts
      · rw [if_neg hskip, if_neg hskip, bulleted, List.flatMap_cons, ← List.append_assoc,
          ← List.append_assoc]
        split
        · next hlimit => rw [List.take_append_of_le_length hlimit]
        · have hjoin : join [' '] parts ++ ' ' :: normalizeOverlap segment =
              join [' '] (parts ++ [normalizeOverlap segment]) := by
            rw [join_append hparts (List.cons_ne_nil _ _)]
            simp [join]
          rw [hjoin]
          exact ih _ _ (by simp)

/-- Every segment is read in the parts joined by spaces. -/
theorem infix_newSegments (segments : List Str) :
    ∀ parts : List Str, ∀ segment ∈ segments, normalizeOverlap segment <:+:
      join [' '] (parts ++ (newSegments parts segments).map normalizeOverlap) := by
  induction segments with
  | nil => exact fun _ _ h => absurd h List.not_mem_nil
  | cons segment segments ih =>
      intro parts
      rw [newSegments]
      split
      · next hskip =>
        refine List.forall_mem_cons.2 ⟨?_, ih parts⟩
        rcases hskip with hnil | hin
        · rw [hnil]
          exact List.nil_infix
        · exact hin.trans (infix_join_of_isInfix (List.prefix_append _ _).isInfix)
      · rw [List.map_cons, List.append_cons]
        refine List.forall_mem_cons.2 ⟨?_, ih _⟩
        exact infix_join_of_mem (by simp)

theorem normalizeOverlap_ne_nil_of_mem_newSegments (segments : List Str) :
    ∀ parts : List Str, ∀ segment ∈ newSegments parts segments, normalizeOverlap segment ≠ [] := by
  induction segments with
  | nil => exact fun _ _ h => absurd h List.not_mem_nil
  | cons segment segments ih =>
      intro parts
      rw [newSegments]
      split
      · exact ih parts
      · next hnew => exact List.forall_mem_cons.2 ⟨fun hnil => hnew (Or.inl hnil), ih _⟩

/-! ## The merged text -/

/-- Neither text has the other, up to case and white space. -/
def Complementary (existing incoming : Str) : Prop :=
  ¬ normalizeOverlap incoming <:+: normalizeOverlap existing ∧
    ¬ normalizeOverlap existing <:+: normalizeOverlap incoming

instance (existing incoming : Str) : Decidable (Complementary existing incoming) :=
  inferInstanceAs (Decidable (_ ∧ _))

/-- The segments a merge appends. -/
def appendedSegments (existing incoming : Str) : List Str :=
  newSegments [normalizeOverlap existing] (storySegments incoming)

/-- The existing text and every new segment, before the limit cuts it. -/
def uncutMerge (existing incoming : Str) : Str :=
  trim existing ++ bulleted (appendedSegments existing incoming)

/-- The normal forms of the parts of a merge with the bullets between them. -/
def bulletedParts (existing : Str) (segments : List Str) : List Str :=
  normalizeOverlap existing ::
    segments.flatMap (fun s => [normalizeOverlap "•".toList, normalizeOverlap s])

/-! ## What is at risk -/

/-- The segment stands in the existing text or in an earlier segment, up to case and white space. -/
def Seen (existing : Str) (earlier : List Str) (segment : Str) : Prop :=
  ∃ text ∈ existing :: earlier, normalizeOverlap segment <:+: normalizeOverlap text

instance (existing : Str) (earlier : List Str) (segment : Str) :
    Decidable (Seen existing earlier segment) :=
  inferInstanceAs (Decidable (∃ text ∈ existing :: earlier, _))

/-- The segments that are not seen when they come. -/
def unseenSegments (existing : Str) : List Str → List Str → List Str
  | _, [] => []
  | earlier, segment :: segments =>
      (if Seen existing earlier segment then [] else [segment]) ++
        unseenSegments existing (earlier ++ [segment]) segments

/-- A segment that is not seen is read where the existing text and the unseen segments before it
    meet with a space. -/
structure SegmentStraddles (existing : Str) (before : List Str) (segment : Str) : Prop where
  notSeen : ¬ Seen existing before segment
  across : ReadsAcross ' ' (normalizeOverlap segment)
    ((existing :: unseenSegments existing [] before).map normalizeOverlap)

/-- The segment is read where the text and some of the segments before it meet with spaces. -/
def CrossesJoint (existing : Str) (before : List Str) (segment : Str) : Prop :=
  ∃ parts : List Str, parts.Sublist before ∧
    ReadsAcross ' ' (normalizeOverlap segment) ((existing :: parts).map normalizeOverlap)

/-- The length of a text with segments appended, three characters for each bullet. -/
def appendedLength (existing : Str) (segments : List Str) : ℕ :=
  (trim existing).length + (segments.map (fun segment => 3 + segment.length)).sum

/-- No segment of complementary texts straddles before the limit is reached. -/
def NoneStraddles (existing incoming : Str) (maxChars : ℕ) : Prop :=
  Complementary existing incoming →
  ∀ before segment after, storySegments incoming = before ++ segment :: after →
    appendedLength existing (unseenSegments existing [] before) < maxChars →
    ¬ SegmentStraddles existing before segment

/-- A later segment has the text, or it could be read with a bullet in it. -/
def BroughtBack (segment : Str) (after : List Str) : Prop :=
  (∃ later ∈ after, normalizeOverlap segment <:+: normalizeOverlap later) ∨
    ∃ c ∈ normalizeOverlap "•".toList, c ∈ normalizeOverlap segment

/-- A segment of complementary texts is the first that straddles, nothing brings it back, and the
    limit has room for every segment. -/
structure LosesSegment (existing incoming : Str) (maxChars : ℕ) (before : List Str) (segment : Str)
    (after : List Str) : Prop where
  complementary : Complementary existing incoming
  segments : storySegments incoming = before ++ segment :: after
  first : ∀ earlier other between, before = earlier ++ other :: between →
    ¬ SegmentStraddles existing earlier other
  straddles : SegmentStraddles existing before segment
  gone : ¬ BroughtBack segment after
  room : appendedLength existing (storySegments incoming) < maxChars

/-! ## The loop on what is not seen -/

omit [UnicodeTables] in
theorem appendedLength_append (existing : Str) (s t : List Str) :
    appendedLength existing (s ++ t)
      = appendedLength existing s + (t.map (fun segment => 3 + segment.length)).sum := by
  unfold appendedLength
  rw [List.map_append, List.sum_append, Nat.add_assoc]

omit [UnicodeTables] in
theorem appendedLength_le_of_sublist {existing : Str} {s t : List Str} (h : s.Sublist t) :
    appendedLength existing s ≤ appendedLength existing t :=
  Nat.add_le_add_left ((h.map _).sum_le_sum (fun _ _ => Nat.zero_le _)) _

theorem newSegments_append (parts s t : List Str) :
    newSegments parts (s ++ t) = newSegments parts s ++
      newSegments (parts ++ (newSegments parts s).map normalizeOverlap) t := by
  induction s generalizing parts with
  | nil => rw [List.nil_append, newSegments, List.map_nil, List.append_nil, List.nil_append]
  | cons segment segments ih =>
      rw [List.cons_append, newSegments, newSegments]
      split
      · exact ih parts
      · rw [ih, List.cons_append, List.map_cons, List.append_assoc, List.singleton_append]

theorem newSegments_singleton (parts : List Str) (segment : Str) :
    newSegments parts [segment] = if normalizeOverlap segment = [] ∨
      normalizeOverlap segment <:+: join [' '] parts then [] else [segment] := by
  rw [newSegments, newSegments, newSegments]

theorem newSegments_sublist (parts segments : List Str) :
    (newSegments parts segments).Sublist segments := by
  induction segments generalizing parts with
  | nil => exact List.Sublist.refl _
  | cons segment segments ih =>
      rw [newSegments]
      split
      · exact (ih parts).trans (List.sublist_cons_self _ _)
      · exact (ih _).cons_cons segment

theorem unseenSegments_append (existing : Str) (earlier s t : List Str) :
    unseenSegments existing earlier (s ++ t)
      = unseenSegments existing earlier s ++ unseenSegments existing (earlier ++ s) t := by
  induction s generalizing earlier with
  | nil => rw [List.nil_append, unseenSegments, List.nil_append, List.append_nil]
  | cons segment segments ih =>
      rw [List.cons_append, unseenSegments, unseenSegments, ih, ← List.append_cons earlier,
        List.append_assoc]

theorem unseenSegments_singleton (existing : Str) (earlier : List Str) (segment : Str) :
    unseenSegments existing earlier [segment]
      = if Seen existing earlier segment then [] else [segment] := by
  rw [unseenSegments, unseenSegments, List.append_nil]

theorem unseenSegments_sublist (existing : Str) (earlier segments : List Str) :
    (unseenSegments existing earlier segments).Sublist segments := by
  induction segments generalizing earlier with
  | nil => exact List.Sublist.refl _
  | cons segment segments ih =>
      rw [unseenSegments]
      split
      · exact (ih _).trans (List.sublist_cons_self _ _)
      · exact (ih _).cons_cons segment

/-- What is seen is read in the parts joined by spaces. -/
theorem infix_of_seen {existing segment : Str} {before : List Str}
    (h : Seen existing before segment) : normalizeOverlap segment <:+: join [' ']
      ([normalizeOverlap existing] ++
        (newSegments [normalizeOverlap existing] before).map normalizeOverlap) := by
  obtain ⟨text, htext, hin⟩ := h
  rcases List.mem_cons.1 htext with rfl | hearlier
  · exact hin.trans (infix_join_of_mem List.mem_cons_self)
  · exact hin.trans (infix_newSegments before _ text hearlier)

theorem ne_nil_of_not_seen {existing segment : Str} {before : List Str}
    (h : ¬ Seen existing before segment) : normalizeOverlap segment ≠ [] := by
  intro hnil
  refine h ⟨existing, List.mem_cons_self, ?_⟩
  rw [hnil]
  exact List.nil_infix

/-- What is not seen and read in the existing text and the unseen segments straddles. -/
theorem segmentStraddles_of_isInfix {existing segment : Str} {before : List Str}
    (hseen : ¬ Seen existing before segment) (h : normalizeOverlap segment <:+: join [' ']
      ((existing :: unseenSegments existing [] before).map normalizeOverlap)) :
    SegmentStraddles existing before segment := by
  refine ⟨hseen, ((infix_join_iff (ne_nil_of_not_seen hseen) _).1 h).resolve_left ?_⟩
  rintro ⟨part, hpart, hin⟩
  obtain ⟨text, htext, rfl⟩ := List.mem_map.1 hpart
  refine hseen ⟨text, ?_, hin⟩
  rcases List.mem_cons.1 htext with rfl | hunseen
  · exact List.mem_cons_self
  · exact List.mem_cons_of_mem _ ((unseenSegments_sublist existing [] before).subset hunseen)

/-- **As long as nothing straddles the new segments are the unseen ones.** -/
theorem newSegments_eq_unseenSegments {existing : Str} {maxChars : ℕ} {segments : List Str}
    (hroom : appendedLength existing (newSegments [normalizeOverlap existing] segments) < maxChars)
    (h : ∀ before segment after, segments = before ++ segment :: after →
      appendedLength existing (unseenSegments existing [] before) < maxChars →
      ¬ SegmentStraddles existing before segment) :
    newSegments [normalizeOverlap existing] segments = unseenSegments existing [] segments := by
  -- segment by segment, while the length of what is appended stays below the limit
  induction segments using List.reverseRecOn with
  | nil => rfl
  | append_singleton before segment ih =>
      have hbefore : newSegments [normalizeOverlap existing] before
          = unseenSegments existing [] before := by
        refine ih (lt_of_le_of_lt ?_ hroom) (fun earlier other after heq => ?_)
        · rw [newSegments_append, appendedLength_append]
          exact Nat.le_add_right _ _
        · exact h earlier other (after ++ [segment]) (by rw [heq]; simp)
      have hlength : appendedLength existing (unseenSegments existing [] before) < maxChars := by
        refine lt_of_le_of_lt ?_ hroom
        rw [newSegments_append, appendedLength_append, hbefore]
        exact Nat.le_add_right _ _
      have hstraddles := h before segment [] rfl hlength
      rw [newSegments_append, unseenSegments_append, unseenSegments_singleton, hbefore,
        List.nil_append, newSegments_singleton]
      refine congrArg _ ?_
      by_cases hseen : Seen existing before segment
      · have hin := infix_of_seen hseen
        rw [hbefore] at hin
        rw [if_pos hseen, if_pos (Or.inr hin)]
      · rw [if_neg hseen, if_neg]
        rintro (hnil | hin)
        · exact ne_nil_of_not_seen hseen hnil
        · exact hstraddles (segmentStraddles_of_isInfix hseen hin)

/-- Every segment stands in the existing text or in an unseen segment. -/
theorem exists_unseen_of_mem (existing : Str) {segments : List Str} :
    ∀ segment ∈ segments, ∃ text ∈ existing :: unseenSegments existing [] segments,
      normalizeOverlap segment <:+: normalizeOverlap text := by
  induction segments using List.reverseRecOn with
  | nil => exact fun _ h => absurd h List.not_mem_nil
  | append_singleton before last ih =>
      rw [unseenSegments_append, unseenSegments_singleton, List.nil_append, ← List.cons_append]
      intro segment hsegment
      rcases List.mem_append.1 hsegment with hsegment | hsegment
      · obtain ⟨text, htext, hin⟩ := ih segment hsegment
        exact ⟨text, List.mem_append_left _ htext, hin⟩
      · rw [List.mem_singleton.1 hsegment]
        by_cases hseen : Seen existing before last
        · obtain ⟨text, htext, hin⟩ := hseen
          rcases List.mem_cons.1 htext with rfl | hearlier
          · exact ⟨text, List.mem_append_left _ List.mem_cons_self, hin⟩
          · obtain ⟨kept, hkept, hin'⟩ := ih text hearlier
            exact ⟨kept, List.mem_append_left _ hkept, hin.trans hin'⟩
        · rw [if_neg hseen]
          exact ⟨last, List.mem_append_right _ (List.mem_singleton_self last), List.infix_refl _⟩

/-! ## Reading across bullets -/

theorem length_uncutMerge (existing incoming : Str) :
    (uncutMerge existing incoming).length = (trim existing).length +
      ((appendedSegments existing incoming).map (fun segment => 3 + segment.length)).sum := by
  have hbullet : ∀ segment : Str, (" • ".toList ++ segment).length = 3 + segment.length :=
    fun segment => List.length_append
  simp only [uncutMerge, bulleted, List.length_append, List.length_flatMap, ← hbullet]

theorem mem_bulletedParts {existing part : Str} {segments : List Str}
    (h : part ∈ normalizeOverlap existing :: segments.map normalizeOverlap) :
    part ∈ bulletedParts existing segments := by
  rcases List.mem_cons.1 h with rfl | h
  · exact List.mem_cons_self
  · obtain ⟨segment, hsegment, rfl⟩ := List.mem_map.1 h
    exact List.mem_cons_of_mem _ (List.mem_flatMap.2 ⟨segment, hsegment, by simp⟩)

theorem mem_bulletedParts_cases {existing part : Str} {segments : List Str}
    (h : part ∈ bulletedParts existing segments) : part = normalizeOverlap existing ∨
      part = normalizeOverlap "•".toList ∨
      ∃ segment ∈ segments, part = normalizeOverlap segment := by
  rcases List.mem_cons.1 h with rfl | h
  · exact Or.inl rfl
  · obtain ⟨segment, hsegment, hpart⟩ := List.mem_flatMap.1 h
    rcases List.mem_cons.1 hpart with rfl | hpart
    · exact Or.inr (Or.inl rfl)
    · exact Or.inr (Or.inr ⟨segment, hsegment, List.mem_singleton.1 hpart⟩)

/-- One of two neighbours is a bullet. -/
theorem bullet_of_neighbours {x y : Str} {rest segments : List Str} {existing : Str}
    (h : x :: y :: rest <:+: bulletedParts existing segments) :
    x = normalizeOverlap "•".toList ∨ y = normalizeOverlap "•".toList := by
  induction segments generalizing existing with
  | nil =>
      have hlength := h.length_le
      simp only [bulletedParts, List.flatMap_nil, List.length_cons, List.length_nil] at hlength
      omega
  | cons segment segments ih =>
      have hparts : bulletedParts existing (segment :: segments)
          = normalizeOverlap existing :: normalizeOverlap "•".toList ::
            bulletedParts segment segments := rfl
      rw [hparts] at h
      rcases List.infix_cons_iff.1 h with hpre | h
      · exact Or.inr (List.cons_prefix_cons.1 (List.cons_prefix_cons.1 hpre).2).1
      · rcases List.infix_cons_iff.1 h with hpre | h
        · exact Or.inl (List.cons_prefix_cons.1 hpre).1
        · exact ih h

section Lawful

variable [LawfulUnicode]

theorem normalizeOverlap_nil : normalizeOverlap [] = [] :=
  (normalizeOverlap_eq_nil_iff []).2 (fun _ h => absurd h List.not_mem_nil)

theorem mergeStoryText_of_complementary {existing incoming : Str}
    (h : Complementary existing incoming) (maxChars : ℕ) :
    mergeStoryText existing incoming maxChars = (uncutMerge existing incoming).take maxChars := by
  have hexisting : trim existing ≠ [] := by
    intro hnil
    refine h.2 ?_
    rw [← normalizeOverlap_trim existing, hnil, normalizeOverlap_nil]
    exact List.nil_infix
  have hincoming : trim incoming ≠ [] := by
    intro hnil
    refine h.1 ?_
    rw [← normalizeOverlap_trim incoming, hnil, normalizeOverlap_nil]
    exact List.nil_infix
  have hjoin : normalizeOverlap existing = join [' '] [normalizeOverlap existing] := by simp [join]
  rw [mergeStoryText]
  simp only [normalizeOverlap_trim, storySegments_trim, contains, decide_eq_true_eq, trimChars]
  rw [if_neg hexisting, if_neg hincoming, if_neg h.1, if_neg h.2, hjoin,
    take_appendSegments maxChars _ _ _ (List.cons_ne_nil _ _)]
  rfl

/-- Where one text has the other, the longer one is kept. -/
theorem mergeStoryText_of_not_complementary {existing incoming : Str}
    (h : ¬ Complementary existing incoming) (maxChars : ℕ) :
    ∃ text, mergeStoryText existing incoming maxChars = text.take maxChars ∧
      normalizeOverlap existing <:+: normalizeOverlap text ∧
      normalizeOverlap incoming <:+: normalizeOverlap text := by
  rw [mergeStoryText]
  simp only [normalizeOverlap_trim, contains, decide_eq_true_eq, trimChars]
  split
  · next hnil =>
    refine ⟨trim incoming, rfl, ?_, by rw [normalizeOverlap_trim]⟩
    rw [← normalizeOverlap_trim existing, hnil, normalizeOverlap_nil]
    exact List.nil_infix
  · split
    · next hnil =>
      refine ⟨trim existing, rfl, by rw [normalizeOverlap_trim], ?_⟩
      rw [← normalizeOverlap_trim incoming, hnil, normalizeOverlap_nil]
      exact List.nil_infix
    · split
      · next hin =>
        exact ⟨trim existing, rfl, by rw [normalizeOverlap_trim], by rwa [normalizeOverlap_trim]⟩
      · next hnot =>
        have hin : normalizeOverlap existing <:+: normalizeOverlap incoming := by
          by_contra hnot'
          exact h ⟨hnot, hnot'⟩
        rw [if_pos hin]
        exact ⟨trim incoming, rfl, by rwa [normalizeOverlap_trim], by rw [normalizeOverlap_trim]⟩

theorem normalizeOverlap_bullet : normalizeOverlap "•".toList ≠ [] := by
  intro h
  exact absurd ((normalizeOverlap_eq_nil_iff _).1 h '•' (by simp)) (by decide)

omit [LawfulUnicode] in
/-- A normal form has no space at its ends. -/
theorem ne_nil_of_normalizeOverlap_eq {text a b : Str}
    (h : normalizeOverlap text = a ++ ' ' :: b) : a ≠ [] ∧ b ≠ [] := by
  have hhead := isWhitespace_head?_collapse (toLowercase text)
  have hlast := isWhitespace_getLast?_collapse (toLowercase text)
  have hform : collapse (toLowercase text) = a ++ ' ' :: b := h
  rw [hform] at hhead hlast
  constructor
  · rintro rfl
    exact absurd (hhead ' ' rfl) (by decide)
  · rintro rfl
    exact absurd (hlast ' ' List.getLast?_concat) (by decide)

/-- A normal form that is read across a joint of the bulleted parts has a bullet. -/
theorem exists_bullet_of_readsAcross {text existing : Str} {segments : List Str}
    (h : ReadsAcross ' ' (normalizeOverlap text) (bulletedParts existing segments)) :
    ∃ c ∈ normalizeOverlap "•".toList, c ∈ normalizeOverlap text := by
  -- of two neighbours one is a bullet, whether or not whole parts lie between the ends
  obtain ⟨first, middle, last, a, b, hin, ha, hb, htext⟩ := h
  have hfirst : ∀ rest, normalizeOverlap text = a ++ ' ' :: rest →
      first = normalizeOverlap "•".toList →
      ∃ c ∈ normalizeOverlap "•".toList, c ∈ normalizeOverlap text := by
    intro rest hrest hbullet
    obtain ⟨c, a, rfl⟩ := List.exists_cons_of_ne_nil (ne_nil_of_normalizeOverlap_eq hrest).1
    refine ⟨c, hbullet ▸ ha.subset List.mem_cons_self, ?_⟩
    rw [hrest]
    exact List.mem_append_left _ List.mem_cons_self
  cases middle with
  | nil =>
      have hjoin : normalizeOverlap text = a ++ ' ' :: b := by
        rw [htext, List.nil_append, join_char_cons_cons]
        simp [join]
      rcases bullet_of_neighbours hin with hbullet | hbullet
      · exact hfirst b hjoin hbullet
      · obtain ⟨c, b, rfl⟩ := List.exists_cons_of_ne_nil (ne_nil_of_normalizeOverlap_eq hjoin).2
        refine ⟨c, hbullet ▸ hb.subset List.mem_cons_self, ?_⟩
        rw [hjoin]
        simp
  | cons m middle =>
      rw [List.cons_append, join_char_cons_cons] at htext
      rcases bullet_of_neighbours hin with hbullet | hbullet
      · exact hfirst _ htext hbullet
      · -- the bullet is one of the whole parts
        obtain ⟨c, rest, hc⟩ := List.exists_cons_of_ne_nil normalizeOverlap_bullet
        refine ⟨c, by rw [hc]; exact List.mem_cons_self, ?_⟩
        have hpart : m <:+: join [' '] (m :: (middle ++ [b])) :=
          infix_join_of_mem List.mem_cons_self
        rw [htext]
        refine List.mem_append_right _ (List.mem_cons_of_mem _ (hpart.subset ?_))
        rw [hbullet, hc]
        exact List.mem_cons_self

theorem normalizeOverlap_bulleted (segments : List Str)
    (hsegments : ∀ s ∈ segments, normalizeOverlap s ≠ []) :
    ∀ existing : Str, normalizeOverlap existing ≠ [] →
      normalizeOverlap (existing ++ bulleted segments) =
        join [' '] (bulletedParts existing segments) := by
  -- the last segment is joined to all before it
  induction segments using List.reverseRecOn with
  | nil =>
      intro existing _
      simp [bulleted, bulletedParts, join]
  | append_singleton segments s ih =>
      intro existing hexisting
      obtain ⟨hrest, hs⟩ := List.forall_mem_append.1 hsegments
      have hs := hs s (List.mem_singleton_self s)
      have hbefore := ih hrest existing hexisting
      have hne : normalizeOverlap (existing ++ bulleted segments) ≠ [] := by
        rw [Ne, normalizeOverlap_eq_nil_iff] at hexisting ⊢
        exact fun hall => hexisting (fun c hc => hall c (List.mem_append_left _ hc))
      have hspace : isWhitespace ' ' = true := by decide
      have hcut : existing ++ bulleted (segments ++ [s])
          = (existing ++ bulleted segments) ++ ' ' :: ("•".toList ++ ' ' :: s) := by
        simp [bulleted, List.flatMap_append]
      have hmark := normalizeOverlap_append_cons hspace normalizeOverlap_bullet hs
      have hmarkne : normalizeOverlap ("•".toList ++ ' ' :: s) ≠ [] := by
        rw [hmark, join_char_cons_cons]
        exact List.append_ne_nil_of_left_ne_nil normalizeOverlap_bullet _
      rw [hcut, normalizeOverlap_append_cons hspace hne hmarkne, hmark, hbefore, bulletedParts,
        bulletedParts, List.flatMap_append, List.flatMap_singleton, ← List.cons_append,
        join_append (List.cons_ne_nil _ _) (List.cons_ne_nil _ _), join_char_cons_cons]
      simp [join]

theorem normalizeOverlap_uncutMerge {existing incoming : Str}
    (h : Complementary existing incoming) :
    normalizeOverlap (uncutMerge existing incoming)
      = join [' '] (bulletedParts existing (appendedSegments existing incoming)) := by
  have hne : normalizeOverlap (trim existing) ≠ [] := by
    rw [normalizeOverlap_trim]
    intro hnil
    refine h.2 ?_
    rw [hnil]
    exact List.nil_infix
  rw [uncutMerge, normalizeOverlap_bulleted (appendedSegments existing incoming)
    (normalizeOverlap_ne_nil_of_mem_newSegments _ _) _ hne, bulletedParts, normalizeOverlap_trim,
    ← bulletedParts]

theorem length_mergeStoryText_lt_iff {existing incoming : Str} (h : Complementary existing incoming)
    (maxChars : ℕ) :
    (mergeStoryText existing incoming maxChars).length < maxChars ↔
      (trim existing).length +
        ((appendedSegments existing incoming).map (fun segment => 3 + segment.length)).sum
          < maxChars := by
  rw [mergeStoryText_of_complementary h, List.length_take, ← length_uncutMerge]
  omega

/-- A merge shorter than its limit is read with the bullets. -/
theorem normalizeOverlap_mergeStoryText {existing incoming : Str} {maxChars : ℕ}
    (h : Complementary existing incoming)
    (hshort : (mergeStoryText existing incoming maxChars).length < maxChars) :
    normalizeOverlap (mergeStoryText existing incoming maxChars) =
      join [' '] (bulletedParts existing (appendedSegments existing incoming)) := by
  rw [length_mergeStoryText_lt_iff h, ← length_uncutMerge] at hshort
  rw [mergeStoryText_of_complementary h, List.take_of_length_le hshort.le,
    normalizeOverlap_uncutMerge h]

/-- When one of the texts reads the other, it is the merge. -/
theorem mergeKeepsEverything_of_not_complementary {f : Char → Str} (hf : LowersByCharacter f)
    {existing incoming : Str} (h : ¬ Complementary existing incoming) (maxChars : ℕ) :
    MergeKeepsEverything existing incoming maxChars := by
  obtain ⟨text, htext, hexisting, hincoming⟩ := mergeStoryText_of_not_complementary h maxChars
  have hwhole : (mergeStoryText existing incoming maxChars).length < maxChars →
      mergeStoryText existing incoming maxChars = text := by
    intro hlt
    rw [htext, List.length_take] at hlt
    rw [htext, List.take_of_length_le (by omega)]
  refine ⟨by rw [htext]; exact List.length_take_le _ _, fun hlt => ?_,
    fun hlt segment hsegment => ?_⟩
  · rwa [hwhole hlt]
  · rw [hwhole hlt]
    exact (hf.normalizeOverlap_isInfix (infix_of_mem_storySegments hsegment)).trans hincoming

/-- Below the limit a merge never loses the existing text. -/
theorem infix_mergeStoryText {f : Char → Str} (hf : LowersByCharacter f)
    {existing incoming : Str} {maxChars : ℕ}
    (hshort : (mergeStoryText existing incoming maxChars).length < maxChars) :
    normalizeOverlap existing <:+: normalizeOverlap (mergeStoryText existing incoming maxChars) := by
  by_cases hcomp : Complementary existing incoming
  · rw [normalizeOverlap_mergeStoryText hcomp hshort]
    exact infix_join_of_mem List.mem_cons_self
  · exact (mergeKeepsEverything_of_not_complementary hf hcomp maxChars).keepsExisting hshort

/-- Below the limit a segment that crosses no joint is kept. -/
theorem infix_mergeStoryText_of_segment {f : Char → Str} (hf : LowersByCharacter f)
    {existing incoming segment : Str} {before after : List Str} {maxChars : ℕ}
    (hshort : (mergeStoryText existing incoming maxChars).length < maxChars)
    (hsegments : storySegments incoming = before ++ segment :: after)
    (hcrosses : ¬ CrossesJoint existing before segment) :
    normalizeOverlap segment <:+: normalizeOverlap (mergeStoryText existing incoming maxChars) := by
  have hmem : segment ∈ storySegments incoming := by
    rw [hsegments]
    simp
  by_cases hcomp : Complementary existing incoming
  · rw [normalizeOverlap_mergeStoryText hcomp hshort]
    by_cases hnil : normalizeOverlap segment = []
    · rw [hnil]
      exact List.nil_infix
    have happended : appendedSegments existing incoming
        = newSegments [normalizeOverlap existing] before ++
          newSegments ([normalizeOverlap existing] ++
            (newSegments [normalizeOverlap existing] before).map normalizeOverlap)
            (segment :: after) := by
      rw [appendedSegments, hsegments, newSegments_append]
    -- the shadow has the segment, in a part and not across a joint, or it is appended
    by_cases hread : normalizeOverlap segment <:+: join [' '] ([normalizeOverlap existing] ++
        (newSegments [normalizeOverlap existing] before).map normalizeOverlap)
    · rcases (infix_join_iff hnil _).1 hread with ⟨part, hpart, hin⟩ | hjoint
      · refine hin.trans (infix_join_of_mem (mem_bulletedParts ?_))
        rw [happended, List.map_append]
        exact List.mem_append_left _ hpart
      · exact absurd ⟨_, newSegments_sublist _ _, hjoint⟩ hcrosses
    · have hnew : segment ∈ appendedSegments existing incoming := by
        rw [happended, newSegments, if_neg (not_or.2 ⟨hnil, hread⟩)]
        simp
      exact infix_join_of_mem (mem_bulletedParts
        (List.mem_cons_of_mem _ (List.mem_map_of_mem hnew)))
  · exact (mergeKeepsEverything_of_not_complementary hf hcomp maxChars).keepsSegments hshort
      segment hmem

/-- Where nothing straddles a merge keeps everything. -/
theorem NoneStraddles.mergeKeepsEverything {f : Char → Str} (hf : LowersByCharacter f)
    {existing incoming : Str} {maxChars : ℕ} (h : NoneStraddles existing incoming maxChars) :
    MergeKeepsEverything existing incoming maxChars := by
  by_cases hcomp : Complementary existing incoming
  · refine ⟨?_, fun hshort => infix_mergeStoryText hf hshort, fun hshort segment hsegment => ?_⟩
    · rw [mergeStoryText_of_complementary hcomp]
      exact List.length_take_le _ _
    · have happended : appendedSegments existing incoming
          = unseenSegments existing [] (storySegments incoming) :=
        newSegments_eq_unseenSegments ((length_mergeStoryText_lt_iff hcomp maxChars).1 hshort)
          (h hcomp)
      obtain ⟨text, htext, hin⟩ := exists_unseen_of_mem existing segment hsegment
      rw [normalizeOverlap_mergeStoryText hcomp hshort]
      refine hin.trans (infix_join_of_mem (mem_bulletedParts ?_))
      rw [happended]
      exact List.mem_map_of_mem htext
  · exact mergeKeepsEverything_of_not_complementary hf hcomp maxChars

/-- The loop skips a segment that straddles, and nothing it appends has it. -/
theorem LosesSegment.not_mergeKeepsEverything {existing incoming segment : Str} {maxChars : ℕ}
    {before after : List Str} (h : LosesSegment existing incoming maxChars before segment after) :
    ¬ MergeKeepsEverything existing incoming maxChars := by
  intro hkeeps
  have hnew : newSegments [normalizeOverlap existing] before
      = unseenSegments existing [] before :=
    newSegments_eq_unseenSegments (Nat.lt_succ_self _)
      (fun earlier other between heq _ => h.first earlier other between heq)
  have hne := ne_nil_of_not_seen h.straddles.notSeen
  -- the shadow reads the segment across a joint, so the loop takes it for known
  have hskipped : newSegments ([normalizeOverlap existing] ++
      (unseenSegments existing [] before).map normalizeOverlap) [segment] = [] := by
    rw [newSegments_singleton]
    exact if_pos (Or.inr ((infix_join_iff hne _).2 (Or.inr h.straddles.across)))
  have hbefore : newSegments [normalizeOverlap existing] (before ++ [segment])
      = unseenSegments existing [] before := by
    rw [newSegments_append, hnew, hskipped, List.append_nil]
  have happended : ∀ new ∈ appendedSegments existing incoming, new ∈ before ∨ new ∈ after := by
    intro new hmem
    rw [appendedSegments, h.segments, List.append_cons, newSegments_append, hbefore] at hmem
    refine (List.mem_append.1 hmem).imp (fun hmem => ?_) (fun hmem => ?_)
    · exact (unseenSegments_sublist existing [] before).subset hmem
    · exact (newSegments_sublist _ after).subset hmem
  have hshort : (mergeStoryText existing incoming maxChars).length < maxChars := by
    refine (length_mergeStoryText_lt_iff h.complementary maxChars).2 ?_
    exact lt_of_le_of_lt (appendedLength_le_of_sublist (newSegments_sublist _ _)) h.room
  have hin := hkeeps.keepsSegments hshort segment (by rw [h.segments]; simp)
  rw [normalizeOverlap_mergeStoryText h.complementary hshort] at hin
  -- what holds the segment now: a part of the merge, or a joint with a bullet
  rcases (infix_join_iff hne _).1 hin with ⟨part, hpart, hin⟩ | hacross
  · rcases mem_bulletedParts_cases hpart with rfl | rfl | ⟨new, hnew, rfl⟩
    · exact h.straddles.notSeen ⟨existing, List.mem_cons_self, hin⟩
    · obtain ⟨c, rest, hc⟩ := List.exists_cons_of_ne_nil hne
      have hmem : c ∈ normalizeOverlap segment := by
        rw [hc]
        exact List.mem_cons_self
      exact h.gone (Or.inr ⟨c, hin.subset hmem, hmem⟩)
    · rcases happended new hnew with hearlier | hafter
      · exact h.straddles.notSeen ⟨new, List.mem_cons_of_mem _ hearlier, hin⟩
      · exact h.gone (Or.inl ⟨new, hafter, hin⟩)
  · exact h.gone (Or.inr (exists_bullet_of_readsAcross hacross))

/-- **A merge loses nothing as long as no segment straddles**, whatever the texts and the limit. The
    first segment that does is lost, unless a later text brings it back or the limit cuts. -/
theorem mergeKeepsEverything_of_noneStraddles {f : Char → Str} (hf : LowersByCharacter f)
    (existing incoming : Str) (maxChars : ℕ) :
    (NoneStraddles existing incoming maxChars → MergeKeepsEverything existing incoming maxChars) ∧
      ∀ before segment after, LosesSegment existing incoming maxChars before segment after →
        ¬ MergeKeepsEverything existing incoming maxChars :=
  ⟨fun h => h.mergeKeepsEverything hf, fun _ _ _ h => h.not_mergeKeepsEverything⟩

end Lawful

end Unicode

/-! ## A segment read across a joint -/

section Story

attribute [local instance] asciiTables lawful_asciiTables

theorem lowersByCharacter_asciiTables : LowersByCharacter (fun c => [c.toLower]) :=
  fun s => (List.flatMap_pure_eq_map Char.toLower s).symm

/-- Two segments, neither of which is read across a joint, and one that is in the existing text. -/
theorem mergeKeepsEverything_of_new_details :
    MergeKeepsEverything "Alpha evidence noted".toList
        "beta details; gamma details. alpha evidence".toList 80 ∧
      mergeStoryText "Alpha evidence noted".toList
        "beta details; gamma details. alpha evidence".toList 80
          = "Alpha evidence noted • beta details • gamma details".toList := by
  refine ⟨(mergeKeepsEverything_of_noneStraddles lowersByCharacter_asciiTables _ _ _).1 ?_,
    by decide⟩
  intro _ before segment after hsegments _ hstraddles
  have hread := (infix_join_iff (ne_nil_of_not_seen hstraddles.notSeen) _).2
    (Or.inr hstraddles.across)
  have hthree : storySegments "beta details; gamma details. alpha evidence".toList
      = ["beta details".toList, "gamma details".toList, "alpha evidence".toList] := by decide
  rw [hthree] at hsegments
  match before, hsegments with
  | [], h =>
      cases h
      exact absurd hread (by decide)
  | [_], h =>
      cases h
      exact absurd hread (by decide)
  | [_, _], h =>
      cases h
      exact hstraddles.notSeen (by decide)
  | _ :: _ :: _ :: _, h => simp at h

/-- The last words of the existing text and the first words of an appended segment. -/
theorem merge_loses_straddling_segment :
    ¬ ∀ (existing incoming : Str) (maxChars : ℕ),
      MergeKeepsEverything existing incoming maxChars := by
  intro h
  have hkeeps := (h "we plan the alpha".toList "beta gamma delta. the alpha beta gamma".toList
    200).keepsSegments (by decide) "the alpha beta gamma".toList (by decide)
  exact absurd hkeeps (by decide)

end Story

end Fndr
