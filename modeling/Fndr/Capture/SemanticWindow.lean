import Fndr.Capture.Dedup

set_option autoImplicit false

/-! # Runs of the semantic window

`SemanticDedupWindow` keeps one timestamp a signature, drops those that are too old on every call
and sets the one it is asked about to now. As long as the clock does not run back, that is the
history of the calls cut to the window: a signature is held with the time it was last seen, and only
if that is within the window (`seenAtMs_afterCalls`). So a call is skipped exactly when its
signature was seen within the window before it (`semanticWindow_correct`). -/

namespace Fndr

/-- The arguments of one call, the window apart. -/
structure SemanticCall where
  signature : UInt64
  nowMs : ℕ
  deriving DecidableEq

/-- The window after the calls, oldest first. -/
def SemanticDedupWindow.afterCalls (windowMs : ℕ) (calls : List SemanticCall) :
    SemanticDedupWindow :=
  calls.foldl (fun window call => (window.shouldSkip call.signature call.nowMs windowMs).2) .default

/-- What the window answers to a call after the earlier ones. -/
def SemanticDedupWindow.answer (windowMs : ℕ) (earlier : List SemanticCall) (call : SemanticCall) :
    Bool :=
  ((afterCalls windowMs earlier).shouldSkip call.signature call.nowMs windowMs).1

/-- The signature was seen by one of the calls, at most `windowMs` before `nowMs`. -/
def SeenWithin (windowMs : ℕ) (calls : List SemanticCall) (signature : UInt64) (nowMs : ℕ) : Prop :=
  ∃ call ∈ calls, call.signature = signature ∧ nowMs ≤ call.nowMs + windowMs

/-- The clock does not run back. -/
def ClockGoesOn (calls : List SemanticCall) : Prop :=
  calls.Pairwise (fun earlier later => earlier.nowMs ≤ later.nowMs)

instance (calls : List SemanticCall) : Decidable (ClockGoesOn calls) :=
  inferInstanceAs (Decidable (List.Pairwise _ _))

/-! ## When a signature was last seen -/

/-- The time of the last call with the signature. -/
def lastSeen (signature : UInt64) (calls : List SemanticCall) : Option ℕ :=
  ((calls.filter (fun call => call.signature = signature)).getLast?).map SemanticCall.nowMs

@[simp] theorem lastSeen_nil (signature : UInt64) : lastSeen signature [] = none := rfl

theorem lastSeen_concat (signature : UInt64) (calls : List SemanticCall) (call : SemanticCall) :
    lastSeen signature (calls ++ [call]) =
      if signature = call.signature then some call.nowMs else lastSeen signature calls := by
  by_cases h : call.signature = signature
  · simp [lastSeen, h]
  · simp [lastSeen, h, Ne.symm h]

/-- On a clock that goes on, a signature seen within a window was last seen within it. -/
theorem lastSeen_any_iff {calls : List SemanticCall} (hclock : ClockGoesOn calls)
    (windowMs nowMs : ℕ) (signature : UInt64) :
    (lastSeen signature calls).any (fun seenAt => nowMs - seenAt ≤ windowMs) = true ↔
      SeenWithin windowMs calls signature nowMs := by
  induction calls using List.reverseRecOn with
  | nil => simp [SeenWithin]
  | append_singleton calls call ih =>
      obtain ⟨hbefore, -, hlast⟩ := List.pairwise_append.1 hclock
      rw [lastSeen_concat]
      by_cases h : signature = call.signature
      · simp only [h, if_true, Option.any_some, decide_eq_true_eq, Nat.sub_le_iff_le_add']
        constructor
        · intro hnow
          exact ⟨call, by simp, rfl, hnow⟩
        · rintro ⟨seen, hseen, -, hnow⟩
          rcases List.mem_append.1 hseen with hold | hnew
          · have hle := hlast seen hold call (List.mem_singleton_self call)
            omega
          · rwa [List.mem_singleton.1 hnew] at hnow
      · rw [if_neg h, ih hbefore]
        simp only [SeenWithin, List.mem_append, List.mem_singleton]
        constructor
        · rintro ⟨seen, hseen, hrest⟩
          exact ⟨seen, Or.inl hseen, hrest⟩
        · rintro ⟨seen, hold | rfl, hsame, hnow⟩
          · exact ⟨seen, hold, hsame, hnow⟩
          · exact absurd hsame.symm h

/-! ## What the window holds -/

namespace SemanticDedupWindow

theorem afterCalls_concat (windowMs : ℕ) (calls : List SemanticCall) (call : SemanticCall) :
    afterCalls windowMs (calls ++ [call]) =
      ((afterCalls windowMs calls).shouldSkip call.signature call.nowMs windowMs).2 := by
  simp [afterCalls]

/-- **The window is the history cut to the window.** After a call it holds the signatures that were
    last seen within the window, each with that time. -/
theorem seenAtMs_afterCalls (windowMs : ℕ) {calls : List SemanticCall} (call : SemanticCall)
    (hclock : ClockGoesOn (calls ++ [call])) (signature : UInt64) :
    (afterCalls windowMs (calls ++ [call])).seenAtMs signature =
      (lastSeen signature (calls ++ [call])).filter
        (fun seenAt => call.nowMs - seenAt ≤ windowMs) := by
  induction calls using List.reverseRecOn generalizing call with
  | nil =>
      rw [afterCalls_concat, lastSeen_concat]
      by_cases h : signature = call.signature
      · simp [shouldSkip, h, Option.filter_some]
      · simp [shouldSkip, h, afterCalls, default]
  | append_singleton calls before ih =>
      obtain ⟨hbefore, -, hlast⟩ := List.pairwise_append.1 hclock
      rw [afterCalls_concat, lastSeen_concat]
      by_cases h : signature = call.signature
      · simp [shouldSkip, h, Option.filter_some]
      · have hnow : before.nowMs ≤ call.nowMs :=
          hlast before (by simp) call (List.mem_singleton_self call)
        simp only [shouldSkip, if_neg h, ih before hbefore, Option.filter_filter]
        congr 1
        funext seenAt
        rw [← Bool.decide_and, decide_eq_decide]
        omega

/-- What is left by two filters passes the second. -/
theorem any_filter_filter {α : Type} (held : Option α) (p q : α → Bool) :
    ((held.filter p).filter q).any q = held.any (fun x => p x && q x) := by
  cases held with
  | none => rfl
  | some x => cases hp : p x <;> cases hq : q x <;> simp [Option.filter_some, hp, hq]

theorem answer_eq (windowMs : ℕ) {earlier : List SemanticCall} (call : SemanticCall)
    (hclock : ClockGoesOn (earlier ++ [call])) :
    answer windowMs earlier call =
      (lastSeen call.signature earlier).any (fun seenAt => call.nowMs - seenAt ≤ windowMs) := by
  rcases List.eq_nil_or_concat earlier with rfl | ⟨calls, before, rfl⟩
  · rfl
  · rw [List.concat_eq_append] at hclock ⊢
    obtain ⟨hbefore, -, hlast⟩ := List.pairwise_append.1 hclock
    have hnow : before.nowMs ≤ call.nowMs :=
      hlast before (by simp) call (List.mem_singleton_self call)
    simp only [answer, shouldSkip, seenAtMs_afterCalls windowMs before hbefore, any_filter_filter]
    congr 1
    funext seenAt
    rw [← Bool.decide_and, decide_eq_decide]
    omega

end SemanticDedupWindow

/-- **The semantic window is its definition.** On a clock that goes on, each call is skipped exactly
    when its signature was seen at most `windowMs` before it, and after the call the map holds
    exactly the signatures seen within the window. -/
theorem semanticWindow_correct (windowMs : ℕ) (calls : List SemanticCall)
    (hclock : ClockGoesOn calls) (earlier : List SemanticCall) (call : SemanticCall)
    (hcall : earlier ++ [call] <+: calls) :
    (SemanticDedupWindow.answer windowMs earlier call = true ↔
        SeenWithin windowMs earlier call.signature call.nowMs) ∧
      ∀ signature,
        ((SemanticDedupWindow.afterCalls windowMs (earlier ++ [call])).seenAtMs signature).isSome ↔
          SeenWithin windowMs (earlier ++ [call]) signature call.nowMs := by
  have hclock' : ClockGoesOn (earlier ++ [call]) := hclock.sublist hcall.sublist
  constructor
  · rw [SemanticDedupWindow.answer_eq windowMs call hclock']
    exact lastSeen_any_iff (List.pairwise_append.1 hclock').1 _ _ _
  · intro signature
    rw [SemanticDedupWindow.seenAtMs_afterCalls windowMs call hclock', ← lastSeen_any_iff hclock']
    cases lastSeen signature (earlier ++ [call]) with
    | none => simp
    | some seenAt => simp [Option.isSome_filter]

/-- A signature that comes again after 400 ms is skipped in a window of 500 ms, and not after
600. -/
theorem semanticWindow_of_docs_page :
    SemanticDedupWindow.answer 500 [⟨7, 1000⟩] ⟨7, 1400⟩ = true ∧
      SemanticDedupWindow.answer 500 [⟨7, 1000⟩, ⟨7, 1400⟩] ⟨7, 2000⟩ = false := by
  have hclock : ClockGoesOn [⟨7, 1000⟩, ⟨7, 1400⟩, ⟨7, 2000⟩] := by decide
  constructor
  · exact (semanticWindow_correct 500 _ hclock [⟨7, 1000⟩] ⟨7, 1400⟩ (by decide)).1.2
      ⟨_, List.mem_singleton_self _, rfl, by decide⟩
  · refine Bool.eq_false_iff.2 (fun hskip => ?_)
    obtain ⟨seen, hseen, -, hnow⟩ :=
      (semanticWindow_correct 500 _ hclock [⟨7, 1000⟩, ⟨7, 1400⟩] ⟨7, 2000⟩ (by decide)).1.1 hskip
    rcases List.mem_pair.1 hseen with rfl | rfl
    · exact absurd hnow (by decide)
    · exact absurd hnow (by decide)

end Fndr
