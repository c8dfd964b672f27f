import Mathlib.Data.List.Basic

set_option autoImplicit false

/-! # Pieces of a text with gaps between them

`Gapped p text pieces`: the pieces stand in the text in their order, and whatever is around and
between them satisfies `p`. A splitter whose pieces are gapped has lost nothing but gaps and made up
nothing, so without the gap characters the pieces put together are the text (`Gapped.filter_eq`). -/

namespace Gaps

variable {α : Type}

/-- Everything in the list may stand in a gap. -/
def IsGap (p : α → Bool) (gap : List α) : Prop := ∀ a ∈ gap, p a = true

/-- The text is the pieces in order, with a gap before, between and after them. -/
inductive Gapped (p : α → Bool) : List α → List (List α) → Prop
  | gap {gap : List α} (h : IsGap p gap) : Gapped p gap []
  | piece {text gap : List α} {pieces : List (List α)} (h : Gapped p text pieces)
      (piece : List α) (hgap : IsGap p gap) :
      Gapped p (text ++ (piece ++ gap)) (pieces ++ [piece])

variable {p : α → Bool}

theorem IsGap.append {front back : List α} (hfront : IsGap p front) (hback : IsGap p back) :
    IsGap p (front ++ back) := List.forall_mem_append.2 ⟨hfront, hback⟩

theorem IsGap.filter_eq {gap : List α} (h : IsGap p gap) : gap.filter (fun a => !p a) = [] := by
  rw [List.filter_eq_nil_iff]
  intro a ha
  simp [h a ha]

namespace Gapped

variable {text : List α} {pieces : List (List α)}

/-- A gap may be longer. -/
theorem append_gap (h : Gapped p text pieces) {gap : List α} (hgap : IsGap p gap) :
    Gapped p (text ++ gap) pieces := by
  cases h with
  | gap hfront => exact .gap (hfront.append hgap)
  | piece h piece hfront =>
      rw [List.append_assoc, List.append_assoc]
      exact .piece h piece (hfront.append hgap)

theorem gap_append (h : Gapped p text pieces) {gap : List α} (hgap : IsGap p gap) :
    Gapped p (gap ++ text) pieces := by
  induction h with
  | gap hback => exact .gap (hgap.append hback)
  | piece _ piece hback ih =>
      rw [← List.append_assoc]
      exact .piece ih piece hback

/-- A piece with gaps on both sides. -/
theorem concat (h : Gapped p text pieces) {front back : List α} (piece : List α)
    (hfront : IsGap p front) (hback : IsGap p back) :
    Gapped p (text ++ (front ++ piece ++ back)) (pieces ++ [piece]) := by
  rw [List.append_assoc, ← List.append_assoc text]
  exact .piece (h.append_gap hfront) piece hback

/-- A text without pieces is a gap. -/
theorem isGap (h : Gapped p text []) : IsGap p text := by
  generalize hpieces : ([] : List (List α)) = pieces at h
  cases h with
  | gap h => exact h
  | piece h piece => exact absurd hpieces.symm (List.concat_ne_nil piece _)

/-- The pieces put together are the text, up to gaps. -/
theorem filter_eq (h : Gapped p text pieces) :
    pieces.flatten.filter (fun a => !p a) = text.filter (fun a => !p a) := by
  induction h with
  | gap h => rw [h.filter_eq, List.flatten_nil, List.filter_nil]
  | piece h piece hgap ih =>
      rw [List.flatten_append, List.filter_append, ih, List.flatten_singleton, List.filter_append,
        List.filter_append, hgap.filter_eq, List.append_nil]

end Gapped

end Gaps
