import Mathlib.Data.List.Nodup

set_option autoImplicit false

/-! # The first item of each key

A pass with a set of the keys seen so far keeps an item when its key is new. What it keeps is a
sublist with distinct keys in which every key stands, spelled as in its first item
(`isFirsts_firsts`); what it leaves out are the repeats (`length_firsts_add_length_repeats`). A list
with distinct keys is kept as it is (`firsts_eq_self`), so a second pass changes nothing
(`firsts_firsts`). -/

namespace FirstByKey

variable {α κ : Type} [DecidableEq κ] (key : α → κ)

/-- The items whose key was not seen before them. -/
def firsts (seen : List κ) : List α → List α
  | [] => []
  | x :: rest => if key x ∈ seen then firsts seen rest else x :: firsts (key x :: seen) rest

/-- The items whose key was seen before them. -/
def repeats (seen : List κ) : List α → List α
  | [] => []
  | x :: rest => if key x ∈ seen then x :: repeats seen rest else repeats (key x :: seen) rest

/-- The first items of the keys of `items`, in order. -/
structure IsFirsts (items kept : List α) : Prop where
  inOrder : kept.Sublist items
  nodup : (kept.map key).Nodup
  covers : ∀ x ∈ items, ∃ y ∈ kept, key y = key x
  first : ∀ y ∈ kept, items.find? (fun x => key x = key y) = some y

variable {key}

theorem firsts_sublist (seen : List κ) (items : List α) :
    (firsts key seen items).Sublist items := by
  induction items generalizing seen with
  | nil => exact List.Sublist.slnil
  | cons x rest ih =>
      rw [firsts]
      split
      · exact (ih seen).cons x
      · exact (ih _).cons_cons x

theorem length_firsts_add_length_repeats (seen : List κ) (items : List α) :
    (firsts key seen items).length + (repeats key seen items).length = items.length := by
  induction items generalizing seen with
  | nil => rfl
  | cons x rest ih =>
      rw [firsts, repeats]
      split
      · rw [List.length_cons, List.length_cons, ← ih seen]
        omega
      · rw [List.length_cons, List.length_cons, ← ih (key x :: seen)]
        omega

theorem key_notMem_of_mem_firsts {seen : List κ} {items : List α} {x : α}
    (h : x ∈ firsts key seen items) : key x ∉ seen := by
  induction items generalizing seen with
  | nil => exact absurd h List.not_mem_nil
  | cons y rest ih =>
      rw [firsts] at h
      split at h
      · exact ih h
      · next hnew =>
        rcases List.mem_cons.1 h with rfl | h
        · exact hnew
        · exact fun hseen => ih h (List.mem_cons_of_mem _ hseen)

theorem nodup_map_firsts (seen : List κ) (items : List α) :
    ((firsts key seen items).map key).Nodup := by
  induction items generalizing seen with
  | nil => exact List.nodup_nil
  | cons x rest ih =>
      rw [firsts]
      split
      · exact ih seen
      · rw [List.map_cons, List.nodup_cons]
        refine ⟨fun hmem => ?_, ih _⟩
        obtain ⟨y, hy, heq⟩ := List.mem_map.1 hmem
        exact key_notMem_of_mem_firsts hy (heq ▸ List.mem_cons_self)

theorem exists_mem_firsts (seen : List κ) {items : List α} {x : α} (h : x ∈ items) :
    key x ∈ seen ∨ ∃ y ∈ firsts key seen items, key y = key x := by
  induction items generalizing seen with
  | nil => exact absurd h List.not_mem_nil
  | cons y rest ih =>
      rw [firsts]
      split
      · next hseen =>
        rcases List.mem_cons.1 h with rfl | h
        · exact Or.inl hseen
        · exact ih seen h
      · rcases List.mem_cons.1 h with rfl | h
        · exact Or.inr ⟨x, List.mem_cons_self, rfl⟩
        · rcases ih (key y :: seen) h with hseen | ⟨z, hz, heq⟩
          · rcases List.mem_cons.1 hseen with heq | hseen
            · exact Or.inr ⟨y, List.mem_cons_self, heq.symm⟩
            · exact Or.inl hseen
          · exact Or.inr ⟨z, List.mem_cons_of_mem y hz, heq⟩

theorem find?_of_mem_firsts {seen : List κ} {items : List α} {y : α}
    (h : y ∈ firsts key seen items) : items.find? (fun x => key x = key y) = some y := by
  induction items generalizing seen with
  | nil => exact absurd h List.not_mem_nil
  | cons x rest ih =>
      have hold : ∀ seen', y ∈ firsts key seen' rest → key x ∈ seen' →
          (x :: rest).find? (fun z => key z = key y) = some y := by
        intro seen' hy hx
        rw [List.find?_cons_of_neg, ih hy]
        simpa using fun heq : key x = key y => key_notMem_of_mem_firsts hy (heq ▸ hx)
      rw [firsts] at h
      split at h
      · next hseen => exact hold seen h hseen
      · rcases List.mem_cons.1 h with rfl | h
        · exact List.find?_cons_of_pos (by simp)
        · exact hold _ h List.mem_cons_self

/-- **What the pass keeps.** -/
theorem isFirsts_firsts (items : List α) : IsFirsts key items (firsts key [] items) where
  inOrder := firsts_sublist [] items
  nodup := nodup_map_firsts [] items
  covers := fun _ hx => (exists_mem_firsts [] hx).resolve_left List.not_mem_nil
  first := fun _ hy => find?_of_mem_firsts hy

theorem firsts_eq_self {seen : List κ} {items : List α} (hnodup : (items.map key).Nodup)
    (hnew : ∀ x ∈ items, key x ∉ seen) : firsts key seen items = items := by
  induction items generalizing seen with
  | nil => rfl
  | cons x rest ih =>
      obtain ⟨hx, hrest⟩ := List.forall_mem_cons.1 hnew
      rw [List.map_cons, List.nodup_cons] at hnodup
      rw [firsts, if_neg hx, ih hnodup.2 (fun y hy => ?_)]
      rw [List.mem_cons, not_or]
      exact ⟨fun heq => hnodup.1 (heq ▸ List.mem_map_of_mem hy), hrest y hy⟩

theorem firsts_firsts (items : List α) :
    firsts key [] (firsts key [] items) = firsts key [] items :=
  firsts_eq_self (nodup_map_firsts [] items) (fun _ _ => List.not_mem_nil)

/-- More items at the end add first items at the end. -/
theorem firsts_prefix (seen : List κ) {items more : List α} (h : items <+: more) :
    firsts key seen items <+: firsts key seen more := by
  induction items generalizing seen more with
  | nil => exact List.nil_prefix
  | cons x rest ih =>
      obtain ⟨tail, rfl⟩ := h
      rw [List.cons_append, firsts, firsts]
      split
      · exact ih seen (List.prefix_append rest tail)
      · exact (List.prefix_cons_inj x).2 (ih _ (List.prefix_append rest tail))

theorem firsts_eq_nil_iff (items : List α) : firsts key [] items = [] ↔ items = [] := by
  cases items with
  | nil => exact Iff.rfl
  | cons x rest => rw [firsts, if_neg List.not_mem_nil]; simp

end FirstByKey
