import Mathlib.Order.Basic

set_option autoImplicit false

/-! # Runs of a labelled system

A system is a total function `exec : σ → ℓ → σ`; everything a step may choose (the operation, its
arguments, where it stops) is in the label, so a run from `s` is a list of labels. `AllStates P`
says that `P` holds in every state of a run, the first one included; `StepsMeet C` that every step
of it meets a condition on the state before the step and on the label.

Two rules carry every run-level result: an invariant kept by each step that meets the condition
holds throughout (`AllStates.of_invariant`), and when a step outside the condition moreover breaks
the property, the condition is exact (`allStates_iff_stepsMeet`). -/

namespace Runs

variable {σ ℓ : Type} (exec : σ → ℓ → σ)

/-- `P` holds in every state of the run. -/
def AllStates (P : σ → Prop) : σ → List ℓ → Prop
  | s, [] => P s
  | s, l :: ls => P s ∧ AllStates P (exec s l) ls

/-- Every step of the run meets `C`. -/
def StepsMeet (C : σ → ℓ → Prop) : σ → List ℓ → Prop
  | _, [] => True
  | s, l :: ls => C s l ∧ StepsMeet C (exec s l) ls

/-- The state a run ends in. -/
def final (s : σ) (ls : List ℓ) : σ := ls.foldl exec s

variable {exec}

theorem AllStates.head {P : σ → Prop} {s : σ} {ls : List ℓ} (h : AllStates exec P s ls) : P s := by
  cases ls with
  | nil => exact h
  | cons l ls => exact h.1

theorem AllStates.imp {P Q : σ → Prop} (hPQ : ∀ s, P s → Q s) :
    ∀ {s : σ} {ls : List ℓ}, AllStates exec P s ls → AllStates exec Q s ls
  | s, [], h => hPQ s h
  | s, _ :: _, h => ⟨hPQ s h.1, AllStates.imp hPQ h.2⟩

theorem AllStates.final {P : σ → Prop} {s : σ} {ls : List ℓ} (h : AllStates exec P s ls) :
    P (Runs.final exec s ls) := by
  induction ls generalizing s with
  | nil => exact h
  | cons l ls ih => exact ih h.2

theorem StepsMeet.imp {C D : σ → ℓ → Prop} (hCD : ∀ s l, C s l → D s l) :
    ∀ {s : σ} {ls : List ℓ}, StepsMeet exec C s ls → StepsMeet exec D s ls
  | _, [], _ => trivial
  | s, l :: _, h => ⟨hCD s l h.1, StepsMeet.imp hCD h.2⟩

theorem StepsMeet.and {C D : σ → ℓ → Prop} :
    ∀ {s : σ} {ls : List ℓ}, StepsMeet exec C s ls → StepsMeet exec D s ls →
      StepsMeet exec (fun s l => C s l ∧ D s l) s ls
  | _, [], _, _ => trivial
  | _, _ :: _, h, h' => ⟨⟨h.1, h'.1⟩, StepsMeet.and h.2 h'.2⟩

/-- **Invariant rule.** What holds at the start and is kept by every step that meets the condition
    holds in every state of the run. -/
theorem AllStates.of_invariant {I : σ → Prop} {C : σ → ℓ → Prop}
    (hstep : ∀ s l, I s → C s l → I (exec s l)) :
    ∀ {s : σ} {ls : List ℓ}, I s → StepsMeet exec C s ls → AllStates exec I s ls
  | _, [], hs, _ => hs
  | s, l :: _, hs, hC => ⟨hs, AllStates.of_invariant hstep (hstep s l hs hC.1) hC.2⟩

/-- The invariant rule when no condition is needed. -/
theorem AllStates.of_step {I : σ → Prop} (hstep : ∀ s l, I s → I (exec s l)) :
    ∀ {s : σ} {ls : List ℓ}, I s → AllStates exec I s ls
  | _, [], hs => hs
  | s, l :: _, hs => ⟨hs, AllStates.of_step hstep (hstep s l hs)⟩

/-- What every step establishes about itself, given an invariant of the states. -/
theorem StepsMeet.of_allStates {I : σ → Prop} {C : σ → ℓ → Prop} (h : ∀ s l, I s → C s l) :
    ∀ {s : σ} {ls : List ℓ}, AllStates exec I s ls → StepsMeet exec C s ls
  | _, [], _ => trivial
  | s, l :: _, hI => ⟨h s l hI.1, StepsMeet.of_allStates h hI.2⟩

/-- What holds in every state holds after every step. -/
theorem StepsMeet.of_next {P : σ → Prop} :
    ∀ {s : σ} {ls : List ℓ}, AllStates exec P s ls → StepsMeet exec (fun s l => P (exec s l)) s ls
  | _, [], _ => trivial
  | _, _ :: _, h => ⟨h.2.head, StepsMeet.of_next h.2⟩

/-- Two conditions that agree in every state with the invariant are met by the same runs. -/
theorem stepsMeet_congr {I : σ → Prop} {C D : σ → ℓ → Prop} {s : σ} {ls : List ℓ}
    (hI : AllStates exec I s ls) (h : ∀ s l, I s → (C s l ↔ D s l)) :
    StepsMeet exec C s ls ↔ StepsMeet exec D s ls := by
  have hiff : StepsMeet exec (fun s l => C s l ↔ D s l) s ls := StepsMeet.of_allStates h hI
  constructor
  · exact fun hC => (hiff.and hC).imp (fun _ _ hboth => hboth.1.1 hboth.2)
  · exact fun hD => (hiff.and hD).imp (fun _ _ hboth => hboth.1.2 hboth.2)

/-- **Exact condition.** Among admissible runs, `P` holds in every state exactly when every step
    meets `C`, provided steps that meet `C` keep the invariant `S`, which implies `P`, and a step
    from an `S`-state that does not meet `C` leaves a state without `P`. -/
theorem allStates_iff_stepsMeet {S P : σ → Prop} {A C : σ → ℓ → Prop} (hSP : ∀ s, S s → P s)
    (hkeep : ∀ s l, S s → A s l → C s l → S (exec s l))
    (hbreak : ∀ s l, S s → A s l → ¬ C s l → ¬ P (exec s l)) :
    ∀ {s : σ} {ls : List ℓ}, S s → StepsMeet exec A s ls →
      (AllStates exec P s ls ↔ StepsMeet exec C s ls) := by
  intro s ls
  induction ls generalizing s with
  | nil => intro hS _; exact ⟨fun _ => trivial, fun _ => hSP s hS⟩
  | cons l ls ih =>
      intro hS hA
      constructor
      · intro hP
        have hC : C s l := Classical.byContradiction (fun hC => hbreak s l hS hA.1 hC hP.2.head)
        exact ⟨hC, (ih (hkeep s l hS hA.1 hC) hA.2).1 hP.2⟩
      · intro hC
        exact ⟨hSP s hS, (ih (hkeep s l hS hA.1 hC.1) hA.2).2 hC.2⟩

theorem final_append (s : σ) (ls ls' : List ℓ) :
    final exec s (ls ++ ls') = final exec (final exec s ls) ls' := List.foldl_append

section Project

variable {σ' ℓ' : Type} {exec' : σ' → ℓ' → σ'}

/-- **Projection.** When the steps that are seen are steps of another system and the others leave
    its state, a property of its states holds throughout a run exactly when it holds throughout the
    part that is seen. -/
theorem allStates_project {π : σ → σ'} {see : ℓ → Option ℓ'}
    (hstep : ∀ s l, π (exec s l) = (see l).elim (π s) (exec' (π s))) {P : σ' → Prop} (s : σ)
    (ls : List ℓ) : AllStates exec (fun t => P (π t)) s ls ↔
      AllStates exec' P (π s) (ls.filterMap see) := by
  induction ls generalizing s with
  | nil => exact Iff.rfl
  | cons l ls ih =>
      rw [AllStates, ih (exec s l), hstep s l]
      cases hsee : see l with
      | none =>
          rw [List.filterMap_cons_none hsee]
          exact and_iff_right_of_imp AllStates.head
      | some l' =>
          rw [List.filterMap_cons_some hsee]
          exact Iff.rfl

end Project

section Trace

variable {ο : Type}

variable (exec) in
/-- What is seen of the steps of a run, in order. -/
def trace (see : σ → ℓ → Option ο) : σ → List ℓ → List ο
  | _, [] => []
  | s, l :: ls => (see s l).toList ++ trace see (exec s l) ls

/-- Every sight is that of a step from some state of the run. -/
theorem of_mem_trace {see : σ → ℓ → Option ο} {x : ο} :
    ∀ {s : σ} {ls : List ℓ}, x ∈ trace exec see s ls →
      ∃ before l after, ls = before ++ l :: after ∧ see (final exec s before) l = some x
  | _, [], h => nomatch h
  | s, l :: ls, h => by
      rcases List.mem_append.1 h with hhere | hlater
      · exact ⟨[], l, ls, rfl, Option.mem_toList.1 hhere⟩
      · obtain ⟨before, l', after, rfl, hsee⟩ := of_mem_trace hlater
        exact ⟨l :: before, l', after, rfl, hsee⟩

/-- **Conservation.** When every step turns what it takes in and what a state holds into what it
    gives out and what the next state holds, a whole run does. -/
theorem trace_perm {takesIn givesOut : σ → ℓ → Option ο} {holds : σ → List ο}
    (hstep : ∀ s l, (holds s ++ (takesIn s l).toList).Perm
      ((givesOut s l).toList ++ holds (exec s l))) :
    ∀ (s : σ) (ls : List ℓ), (holds s ++ trace exec takesIn s ls).Perm
      (trace exec givesOut s ls ++ holds (final exec s ls))
  | s, [] => by simp [trace, final]
  | s, l :: ls => by
      have hrest := (trace_perm hstep (exec s l) ls).append_left (givesOut s l).toList
      rw [← List.append_assoc] at hrest
      have hfirst := (hstep s l).append_right (trace exec takesIn (exec s l) ls)
      rw [trace, trace, ← List.append_assoc, List.append_assoc (givesOut s l).toList]
      exact hfirst.trans (by simpa [List.append_assoc, final] using hrest)

end Trace

end Runs
