import Fndr.Library.History
import Mathlib.Order.MinMax

set_option autoImplicit false

/-! # Polling a feed with an inclusive cursor

A feed only grows, and the keys of its items never fall. Its reader polls with a cursor: a poll
counts the items whose key is at least the cursor, and the cursor moves to the newest key that was
counted. Because the bound is inclusive nothing is missed: an item is counted by the first poll that
finds it. For the same reason it is counted again as long as the cursor stays on its key
(`Reader.Tracks.exact`). -/

namespace Cursor

/-- A poll, with the feed as it found it. -/
structure Poll (α κ : Type) where
  since : κ
  items : List α

/-- A list that grows, and a reader that polls it. -/
structure Reader (α κ : Type) where
  items : List α
  since : κ
  polls : List (Poll α κ)

/-- The list grows by one item, or it is polled. -/
inductive Step (α : Type)
  | append (a : α)
  | poll

variable {α κ : Type} [LinearOrder κ] (key : α → κ)

/-- What a poll counts. -/
def Poll.counted (poll : Poll α κ) : List α :=
  poll.items.filter (fun a => decide (poll.since ≤ key a))

/-- The newest key that is counted from a cursor on, or the cursor. -/
def advance (since : κ) (items : List α) : κ :=
  ((items.filter (fun a => decide (since ≤ key a))).map key).max?.getD since

/-- Every poll starts where the last one left the cursor. -/
def Reader.exec (reader : Reader α κ) : Step α → Reader α κ
  | .append a => { reader with items := reader.items ++ [a] }
  | .poll => {
      items := reader.items
      since := advance key reader.since reader.items
      polls := reader.polls ++ [⟨reader.since, reader.items⟩] }

/-- The keys of the feed never fall. -/
def Rises (reader : Reader α κ) : Step α → Prop
  | .append a => ∀ b ∈ reader.items, key b ≤ key a
  | .poll => True

/-! ## The cursor -/

variable {key}

theorem max?_eq_some {keys : List κ} {k : κ} : keys.max? = some k ↔ k ∈ keys ∧ ∀ b ∈ keys, b ≤ k := by
  have : Std.Antisymm (α := κ) (· ≤ ·) := ⟨fun _ _ => le_antisymm⟩
  exact List.max?_eq_some_iff

theorem advance_cases (key : α → κ) (since : κ) (items : List α) :
    (advance key since items = since ∧ ∀ a ∈ items, key a < since) ∨
      ∃ a ∈ items, key a = advance key since items ∧ since ≤ key a ∧
        ∀ b ∈ items, key b ≤ advance key since items := by
  unfold advance
  cases hmax : ((items.filter (fun a => decide (since ≤ key a))).map key).max? with
  | none =>
      refine Or.inl ⟨rfl, fun a ha => ?_⟩
      have hnone := List.map_eq_nil_iff.1 (List.max?_eq_none_iff.1 hmax)
      refine not_le.1 (fun hle => ?_)
      simpa using List.filter_eq_nil_iff.1 hnone a ha (decide_eq_true hle)
  | some newest =>
      obtain ⟨hmem, hle⟩ := max?_eq_some.1 hmax
      obtain ⟨a, ha, rfl⟩ := List.mem_map.1 hmem
      obtain ⟨hitem, hsince⟩ := List.mem_filter.1 ha
      refine Or.inr ⟨a, hitem, rfl, of_decide_eq_true hsince, fun b hb => ?_⟩
      by_cases hcounted : since ≤ key b
      · exact hle _ (List.mem_map_of_mem (List.mem_filter.2 ⟨hb, decide_eq_true hcounted⟩))
      · exact (not_le.1 hcounted).le.trans (of_decide_eq_true hsince)

theorem le_advance (since : κ) (items : List α) : since ≤ advance key since items := by
  rcases advance_cases key since items with ⟨hstays, -⟩ | ⟨a, -, ha, hsince, -⟩
  · exact hstays.ge
  · exact ha ▸ hsince

theorem key_le_advance {since : κ} {items : List α} {a : α} (ha : a ∈ items) :
    key a ≤ advance key since items := by
  rcases advance_cases key since items with ⟨hstays, hbelow⟩ | ⟨-, -, -, -, hle⟩
  · exact (hbelow a ha).le.trans hstays.ge
  · exact hle a ha

theorem Poll.mem_counted {poll : Poll α κ} {a : α} :
    a ∈ poll.counted key ↔ a ∈ poll.items ∧ poll.since ≤ key a := by
  rw [Poll.counted, List.mem_filter, decide_eq_true_iff]

/-! ## What the polls of a run count -/

/-- The state of a reader that began at `start`. -/
structure Reader.Tracks (key : α → κ) (start : κ) (reader : Reader α κ) : Prop where
  started : start ≤ reader.since
  attained : reader.since = start ∨ ∃ a ∈ reader.items, key a = reader.since
  seen : ∀ poll ∈ reader.polls, ∀ a ∈ poll.items, key a ≤ reader.since
  unseen : ∀ a ∈ reader.items, start ≤ key a → (∀ poll ∈ reader.polls, a ∉ poll.items) →
    reader.since ≤ key a
  exact : ∀ earlier poll later, reader.polls = earlier ++ poll :: later → ∀ a, start ≤ key a →
    (a ∈ poll.counted key ↔
      a ∈ poll.items ∧ ((∀ before ∈ earlier, a ∉ before.items) ∨ key a = poll.since))

theorem Reader.tracks_begin (items : List α) (start : κ) :
    (⟨items, start, []⟩ : Reader α κ).Tracks key start where
  started := le_rfl
  attained := Or.inl rfl
  seen _ h := nomatch h
  unseen _ _ hstart _ := hstart
  exact earlier poll later h := by cases earlier <;> cases h

theorem Reader.Tracks.append {start : κ} {reader : Reader α κ} (h : reader.Tracks key start) {a : α}
    (hrises : ∀ b ∈ reader.items, key b ≤ key a) :
    (reader.exec key (.append a)).Tracks key start where
  started := h.started
  attained := h.attained.imp_right (fun ⟨b, hb, hkey⟩ => ⟨b, List.mem_append_left _ hb, hkey⟩)
  seen := h.seen
  unseen b hb hstart hunseen := by
    rcases List.mem_append.1 hb with hold | hnew
    · exact h.unseen b hold hstart hunseen
    · rw [List.mem_singleton.1 hnew] at hstart ⊢
      -- the cursor is where the reader began or on an item, and the new item is not below either
      rcases h.attained with hbegin | ⟨c, hc, hkey⟩
      · exact hbegin ▸ hstart
      · exact hkey ▸ hrises c hc
  exact := h.exact

theorem Reader.Tracks.poll {start : κ} {reader : Reader α κ} (h : reader.Tracks key start) :
    (reader.exec key .poll).Tracks key start where
  started := h.started.trans (le_advance _ _)
  attained := by
    rcases advance_cases key reader.since reader.items with ⟨hstays, -⟩ | ⟨a, ha, hkey, -⟩
    · exact h.attained.imp hstays.trans (fun ⟨b, hb, hkey⟩ => ⟨b, hb, hkey.trans hstays.symm⟩)
    · exact Or.inr ⟨a, ha, hkey⟩
  seen poll hpoll a ha := by
    rcases List.mem_append.1 hpoll with hold | hnew
    · exact (h.seen poll hold a ha).trans (le_advance _ _)
    · rw [List.mem_singleton.1 hnew] at ha
      exact key_le_advance ha
  unseen a ha _ hunseen :=
    absurd ha (hunseen _ (List.mem_append_right _ (List.mem_singleton_self _)))
  exact earlier poll later hpolls a hstart := by
    rcases History.append_singleton_eq hpolls with ⟨-, rfl, rfl⟩ | ⟨rest, -, hold⟩
    · -- the poll just made: an item no poll has found is not below the cursor, one found is not above
      rw [Poll.mem_counted]
      refine and_congr_right (fun ha => ⟨fun hsince => ?_, ?_⟩)
      · by_cases hseen : ∃ before ∈ reader.polls, a ∈ before.items
        · obtain ⟨before, hbefore, hfound⟩ := hseen
          exact Or.inr (le_antisymm (h.seen before hbefore a hfound) hsince)
        · exact Or.inl (fun before hbefore hfound => hseen ⟨before, hbefore, hfound⟩)
      · rintro (hunseen | hon)
        · exact h.unseen a ha hstart hunseen
        · exact hon.ge
    · exact h.exact earlier poll rest hold a hstart

theorem Reader.Tracks.exec {start : κ} {reader : Reader α κ} (h : reader.Tracks key start)
    {step : Step α} (hrises : Rises key reader step) : (reader.exec key step).Tracks key start := by
  cases step with
  | append a => exact h.append hrises
  | poll => exact h.poll

/-- Nothing is missed: what a poll finds has been counted by then. -/
theorem Reader.Tracks.counted {start : κ} {reader : Reader α κ} (h : reader.Tracks key start)
    {poll : Poll α κ} (hpoll : poll ∈ reader.polls) {a : α} (ha : a ∈ poll.items)
    (hstart : start ≤ key a) : ∃ first ∈ reader.polls, a ∈ first.counted key := by
  classical
  have hfound : (reader.polls.find? (fun p => decide (a ∈ p.items))).isSome :=
    List.find?_isSome.2 ⟨poll, hpoll, decide_eq_true ha⟩
  obtain ⟨first, hfirst⟩ := Option.isSome_iff_exists.1 hfound
  obtain ⟨hitems, earlier, later, hpolls, hbefore⟩ := List.find?_eq_some_iff_append.1 hfirst
  refine ⟨first, hpolls ▸ List.mem_append_right _ List.mem_cons_self,
    (h.exact earlier first later hpolls a hstart).2 ⟨of_decide_eq_true hitems, Or.inl ?_⟩⟩
  intro before hmem
  simpa using hbefore before hmem

end Cursor
