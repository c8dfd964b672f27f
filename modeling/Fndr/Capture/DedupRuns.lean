import Fndr.Capture.Dedup

set_option autoImplicit false

/-! # Chains of similar frames

The perceptual deduper compares a frame with the frames it was shown last, whether it let them
through or not (`observeAll_last`, `observeAll_recent`). Distance is not transitive, so a duplicate
need not look like anything that was let through; it is linked to such a frame by a chain of shown
frames, each like the next (`duplicate_is_linked`). -/

namespace Fndr

section Runs

variable {H : Type} [ImageHash H]

/-- The deduper after it was shown the frames, oldest first. -/
def PerceptualDeduper.observeAll (deduper : PerceptualDeduper H)
    (seen : List (PerceptualSignature H)) : PerceptualDeduper H :=
  seen.foldl (fun deduper signature => (deduper.shouldSkip signature).2) deduper

/-- The frames a fresh deduper lets through, oldest first. -/
def letThrough (threshold : ℕ) (seen : List (PerceptualSignature H)) :
    List (PerceptualSignature H) :=
  (seen.foldl (fun (state : PerceptualDeduper H × List (PerceptualSignature H)) signature =>
    let (skip, deduper) := state.1.shouldSkip signature
    (deduper, if skip then state.2 else state.2 ++ [signature])) (.new threshold, [])).2

/-- The bounds within which two frames are duplicates. The loop check compares with at least one,
    also for the threshold zero. -/
def PerceptualSignature.Near (threshold : ℕ) (signature other : PerceptualSignature H) : Prop :=
  signature.distanceTo other < max threshold 1 ∧
    signature.colourDistanceTo other ≤ MAX_RGB_DISTANCE

/-- A chain of shown frames from `signature` back to one that was let through, each link near the
    next and shown before it. -/
inductive Linked (threshold : ℕ) :
    List (PerceptualSignature H) → PerceptualSignature H → Prop
  | letThrough {front back : List (PerceptualSignature H)} {signature other : PerceptualSignature H}
      (near : signature.Near threshold other)
      (passed : (((PerceptualDeduper.new threshold).observeAll front).shouldSkip other).1 = false) :
      Linked threshold (front ++ other :: back) signature
  | skipped {front back : List (PerceptualSignature H)} {signature other : PerceptualSignature H}
      (near : signature.Near threshold other) (linked : Linked threshold front other) :
      Linked threshold (front ++ other :: back) signature

theorem PerceptualDeduper.observeAll_concat (deduper : PerceptualDeduper H)
    (seen : List (PerceptualSignature H)) (signature : PerceptualSignature H) :
    deduper.observeAll (seen ++ [signature])
      = ((deduper.observeAll seen).shouldSkip signature).2 := by
  simp [PerceptualDeduper.observeAll]

theorem PerceptualDeduper.observeAll_threshold (threshold : ℕ)
    (seen : List (PerceptualSignature H)) :
    ((PerceptualDeduper.new threshold).observeAll seen).threshold = threshold := by
  induction seen using List.reverseRecOn with
  | nil => rfl
  | append_singleton seen signature ih => rw [PerceptualDeduper.observeAll_concat]; exact ih

/-- The last frame shown is the one the next is compared with first. -/
theorem PerceptualDeduper.observeAll_last (threshold : ℕ) (seen : List (PerceptualSignature H)) :
    ((PerceptualDeduper.new threshold).observeAll seen).last = seen.getLast? := by
  induction seen using List.reverseRecOn with
  | nil => rfl
  | append_singleton seen signature ih =>
      rw [PerceptualDeduper.observeAll_concat, List.getLast?_concat]
      rfl

/-- The history is the last `HASH_HISTORY` frames shown. -/
theorem PerceptualDeduper.observeAll_recent (threshold : ℕ) (seen : List (PerceptualSignature H)) :
    ((PerceptualDeduper.new threshold).observeAll seen).recent
      = seen.drop (seen.length - HASH_HISTORY) := by
  induction seen using List.reverseRecOn with
  | nil => rfl
  | append_singleton seen signature ih =>
      rw [PerceptualDeduper.observeAll_concat, PerceptualDeduper.shouldSkip]
      simp only [ih]
      have hgrown : seen.drop (seen.length - HASH_HISTORY) ++ [signature]
          = (seen ++ [signature]).drop (seen.length - HASH_HISTORY) := by
        rw [List.drop_append_of_le_length (Nat.sub_le _ _)]
      rw [hgrown, List.length_append, List.length_singleton]
      split
      · next hlong =>
        rw [List.length_drop, List.length_append, List.length_singleton] at hlong
        rw [List.drop_drop]
        congr 1
        omega
      · next hshort =>
        rw [List.length_drop, List.length_append, List.length_singleton] at hshort
        congr 1
        simp only [HASH_HISTORY] at *
        omega

/-- A duplicate is near one of the frames shown last. -/
theorem near_of_shouldSkip {threshold : ℕ} {seen : List (PerceptualSignature H)}
    {signature : PerceptualSignature H}
    (h : (((PerceptualDeduper.new threshold).observeAll seen).shouldSkip signature).1 = true) :
    ∃ other ∈ seen.drop (seen.length - HASH_HISTORY), signature.Near threshold other := by
  simp only [PerceptualDeduper.shouldSkip, PerceptualDeduper.isDuplicate, Bool.or_eq_true,
    PerceptualDeduper.observeAll_threshold, PerceptualDeduper.observeAll_recent,
    PerceptualDeduper.observeAll_last] at h
  rcases h with h | h
  · obtain ⟨other, hother, hnear⟩ := (Option.any_eq_true _ _).1 h
    simp only [Bool.and_eq_true, decide_eq_true_eq] at hnear
    obtain ⟨front, rfl⟩ := List.getLast?_eq_some_iff.1 hother
    refine ⟨other, ?_, lt_of_lt_of_le hnear.1 (Nat.le_max_left _ _), hnear.2⟩
    rw [List.drop_append_of_le_length (by simp [HASH_HISTORY])]
    exact List.mem_append_right _ List.mem_cons_self
  · obtain ⟨other, hother, hnear⟩ := List.any_eq_true.1 h
    simp only [Bool.and_eq_true, decide_eq_true_eq] at hnear
    refine ⟨other, hother, lt_of_lt_of_le hnear.1 ?_, hnear.2.trans (by decide)⟩
    exact max_le_max (Nat.sub_le _ _) (le_refl _)

/-- **Every duplicate is linked to a frame that was let through.** -/
theorem linked_of_shouldSkip {threshold : ℕ} (seen : List (PerceptualSignature H)) :
    ∀ signature : PerceptualSignature H,
      (((PerceptualDeduper.new threshold).observeAll seen).shouldSkip signature).1 = true →
      Linked threshold seen signature := by
  induction hn : seen.length using Nat.strong_induction_on generalizing seen with
  | _ n ih =>
      intro signature h
      obtain ⟨other, hother, hnear⟩ := near_of_shouldSkip h
      obtain ⟨front, back, rfl⟩ := List.append_of_mem (List.mem_of_mem_drop hother)
      cases hpassed : (((PerceptualDeduper.new threshold).observeAll front).shouldSkip other).1 with
      | false => exact .letThrough hnear hpassed
      | true =>
          -- the frame it is like was skipped itself, so the chain goes on from there
          refine .skipped hnear (ih front.length ?_ front rfl other hpassed)
          simp only [List.length_append, List.length_cons] at hn
          omega

theorem letThrough_concat (threshold : ℕ) (seen : List (PerceptualSignature H))
    (signature : PerceptualSignature H) :
    letThrough threshold (seen ++ [signature]) =
      if (((PerceptualDeduper.new threshold).observeAll seen).shouldSkip signature).1 then
        letThrough threshold seen
      else letThrough threshold seen ++ [signature] := by
  have hstate : ∀ frames : List (PerceptualSignature H),
      (frames.foldl (fun (state : PerceptualDeduper H × List (PerceptualSignature H)) signature =>
        let (skip, deduper) := state.1.shouldSkip signature
        (deduper, if skip then state.2 else state.2 ++ [signature])) (.new threshold, [])).1
        = (PerceptualDeduper.new threshold).observeAll frames := by
    intro frames
    induction frames using List.reverseRecOn with
    | nil => rfl
    | append_singleton frames frame ih =>
        rw [PerceptualDeduper.observeAll_concat, ← ih, List.foldl_append]
        rfl
  rw [letThrough, List.foldl_append, ← hstate seen]
  rfl

/-- A frame was let through when the deduper answered so at one of its turns. -/
theorem mem_letThrough {threshold : ℕ} {seen : List (PerceptualSignature H)}
    {signature : PerceptualSignature H} :
    signature ∈ letThrough threshold seen ↔
      ∃ front back, seen = front ++ signature :: back ∧
        (((PerceptualDeduper.new threshold).observeAll front).shouldSkip signature).1 = false := by
  induction seen using List.reverseRecOn with
  | nil =>
      refine ⟨fun h => absurd h List.not_mem_nil, ?_⟩
      rintro ⟨front, back, h, -⟩
      exact absurd h.symm (by simp)
  | append_singleton seen last ih =>
      have hold : signature ∈ letThrough threshold seen → ∃ front back,
          seen ++ [last] = front ++ signature :: back ∧
            (((PerceptualDeduper.new threshold).observeAll front).shouldSkip signature).1
              = false := by
        intro h
        obtain ⟨front, back, rfl, hpassed⟩ := ih.1 h
        exact ⟨front, back ++ [last], by simp, hpassed⟩
      rw [letThrough_concat]
      constructor
      · intro h
        split at h
        · exact hold h
        · next hpassed =>
          rcases List.mem_append.1 h with h | h
          · exact hold h
          · rw [List.mem_singleton.1 h]
            exact ⟨seen, [], rfl, by simpa using hpassed⟩
      · rintro ⟨front, back, hsplit, hpassed⟩
        -- the frame in question is the last one or an earlier one
        rcases List.eq_nil_or_concat' back with rfl | ⟨back, frame, rfl⟩
        · obtain ⟨rfl, hlast⟩ := List.append_inj' hsplit rfl
          cases hlast
          rw [hpassed]
          simp
        · rw [← List.cons_append, ← List.append_assoc] at hsplit
          obtain ⟨rfl, -⟩ := List.append_inj' hsplit rfl
          have hmem := ih.2 ⟨front, back, rfl, hpassed⟩
          split
          · exact hmem
          · exact List.mem_append_left _ hmem

/-- **A duplicate is a duplicate of something that was shown**: it is near one of the last
    `HASH_HISTORY` frames, and linked to one that was let through by a chain of shown frames, each
    near the next. A frame within the bounds of the one before it is always a duplicate. -/
theorem duplicate_is_linked (threshold : ℕ) (seen : List (PerceptualSignature H))
    (signature : PerceptualSignature H) :
    ((((PerceptualDeduper.new threshold).observeAll seen).shouldSkip signature).1 = true →
      (∃ other ∈ seen.drop (seen.length - HASH_HISTORY), signature.Near threshold other) ∧
        Linked threshold seen signature) ∧
    ∀ other, seen.getLast? = some other → signature.distanceTo other < threshold →
      signature.colourDistanceTo other ≤ MAX_RGB_DISTANCE →
      (((PerceptualDeduper.new threshold).observeAll seen).shouldSkip signature).1 = true := by
  refine ⟨fun h => ⟨near_of_shouldSkip h, linked_of_shouldSkip seen signature h⟩, ?_⟩
  intro other hlast hdistance hcolour
  simp only [PerceptualDeduper.shouldSkip, PerceptualDeduper.isDuplicate,
    PerceptualDeduper.observeAll_threshold, PerceptualDeduper.observeAll_last, hlast]
  simp [hdistance, hcolour]

end Runs

/-! ## A screen that changes slowly -/

section Drift

attribute [local instance] bitHash

/-- Frames of one colour whose hash has that many of twelve bits set. -/
def driftFrame (bits : ℕ) : PerceptualSignature (List Bool) :=
  ⟨List.replicate bits true ++ List.replicate (12 - bits) false, ⟨0, 0, 0⟩⟩

theorem drift_is_linked : Linked 5 [driftFrame 0, driftFrame 4] (driftFrame 8) :=
  ((duplicate_is_linked 5 [driftFrame 0, driftFrame 4] (driftFrame 8)).1 (by decide)).2

/-- Each frame is four bits from the one before it. The third is skipped, and the only frame that
    was let through is eight bits away. -/
theorem drift_is_skipped :
    (((PerceptualDeduper.new 5).observeAll [driftFrame 0, driftFrame 4]).shouldSkip
      (driftFrame 8)).1 = true ∧
    ¬ ∃ other ∈ letThrough 5 [driftFrame 0, driftFrame 4],
      (driftFrame 8).distanceTo other < 5 ∧
        (driftFrame 8).colourDistanceTo other ≤ MAX_RGB_DISTANCE := by
  decide

end Drift

end Fndr
