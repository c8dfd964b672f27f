import Mathlib.Data.List.Basic

set_option autoImplicit false

/-! # Orders of events in a log

Properties of a log that is only appended to, and the rules for one more event. `Armed a b` says
that some `a` has happened and no `b` since, `Separated a b c` that no `c` has ever happened while
the log was armed. -/

namespace History

variable {ε : Type}

/-- Some `a` has happened, and no `b` since. -/
def Armed (a b : ε → Prop) (log : List ε) : Prop :=
  ∃ before x after, log = before ++ x :: after ∧ a x ∧ ∀ y ∈ after, ¬ b y

/-- Between an `a` and a later `c` there is a `b`. -/
def Separated (a b c : ε → Prop) (log : List ε) : Prop :=
  ∀ before x between y after, log = before ++ x :: (between ++ y :: after) → a x → c y →
    ∃ z ∈ between, b z

/-- Where an event of a log with one more event is. -/
theorem append_singleton_eq {log before after : List ε} {e x : ε}
    (h : log ++ [e] = before ++ x :: after) :
    (after = [] ∧ log = before ∧ e = x) ∨ ∃ rest, after = rest ++ [e] ∧ log = before ++ x :: rest := by
  rcases List.eq_nil_or_concat after with rfl | ⟨rest, last, rfl⟩
  · obtain ⟨hlog, hlast⟩ := List.append_inj' h rfl
    exact Or.inl ⟨rfl, hlog, List.singleton_inj.1 hlast⟩
  · rw [List.concat_eq_append, ← List.cons_append, ← List.append_assoc] at h
    obtain ⟨hlog, hlast⟩ := List.append_inj' h rfl
    refine Or.inr ⟨rest, ?_, hlog⟩
    rw [List.concat_eq_append, List.singleton_inj.1 hlast]

variable {a b c : ε → Prop}

theorem not_armed_nil : ¬ Armed a b [] := by
  rintro ⟨before, x, after, h, -⟩
  cases before <;> cases h

theorem armed_append {log : List ε} {e : ε} :
    Armed a b (log ++ [e]) ↔ a e ∨ (Armed a b log ∧ ¬ b e) := by
  constructor
  · rintro ⟨before, x, after, hlog, hx, hafter⟩
    rcases append_singleton_eq hlog with ⟨-, -, rfl⟩ | ⟨rest, rfl, hold⟩
    · exact Or.inl hx
    · exact Or.inr ⟨⟨before, x, rest, hold, hx, fun y hy => hafter y (List.mem_append_left _ hy)⟩,
        hafter e (List.mem_append_right _ (List.mem_singleton_self e))⟩
  · rintro (he | ⟨⟨before, x, after, rfl, hx, hafter⟩, hnot⟩)
    · exact ⟨log, e, [], rfl, he, fun y hy => nomatch hy⟩
    · refine ⟨before, x, after ++ [e], by simp, hx, fun y hy => ?_⟩
      rcases List.mem_append.1 hy with hold | hnew
      · exact hafter y hold
      · exact List.mem_singleton.1 hnew ▸ hnot

theorem separated_nil : Separated a b c [] := by
  intro before x between y after h
  cases before <;> cases h

theorem separated_append {log : List ε} {e : ε} :
    Separated a b c (log ++ [e]) ↔ Separated a b c log ∧ (c e → ¬ Armed a b log) := by
  constructor
  · refine fun h => ⟨fun before x between y after hlog hx hy => ?_, ?_⟩
    · exact h before x between y (after ++ [e]) (by simp [hlog]) hx hy
    · rintro he ⟨before, x, after, rfl, hx, hafter⟩
      obtain ⟨z, hz, hb⟩ := h before x after e [] (by simp) hx he
      exact hafter z hz hb
  · rintro ⟨hlog, he⟩ before x between y after heq hx hy
    rw [← List.cons_append, ← List.append_assoc] at heq
    rcases append_singleton_eq heq with ⟨-, hlast, rfl⟩ | ⟨rest, -, hold⟩
    · by_contra hnone
      exact he hy ⟨before, x, between, hlast, hx, fun z hz hb => hnone ⟨z, hz, hb⟩⟩
    · exact hlog before x between y rest (by simpa using hold) hx hy

/-- With nothing to disarm it, a log is armed once an `a` has happened. -/
theorem armed_of_never (hnever : ∀ e, ¬ b e) {log : List ε} : Armed a b log ↔ ∃ x ∈ log, a x := by
  constructor
  · rintro ⟨before, x, after, rfl, hx, -⟩
    exact ⟨x, List.mem_append_right _ List.mem_cons_self, hx⟩
  · rintro ⟨x, hmem, hx⟩
    obtain ⟨before, after, rfl⟩ := List.append_of_mem hmem
    exact ⟨before, x, after, rfl, hx, fun y _ => hnever y⟩

end History
