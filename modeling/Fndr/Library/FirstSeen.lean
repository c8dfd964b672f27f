import Mathlib.Data.Finset.Card
import Mathlib.Logic.Function.Basic

set_option autoImplicit false

/-! # First occurrences under two spellings

A pass keeps the items that pass a test and whose entry is new, until it has a number of entries. A
flag spells the entry of an item: as its key, or as the marked key. Two passes over the same items
with other flags may keep other items: the test may look at the flag, an entry of one spelling may
be that of another key in the other spelling, and a key that is kept in both spellings takes two
places.

`Indifferent` checks these three things item by item. It holds exactly when the flags change nothing
up to repeated keys (`indifferent_iff`). -/

namespace FirstSeen

/-- What a pass looks at. No marked key is its own key. -/
structure Spelled (α κ : Type) where
  key : α → κ
  mark : κ → κ
  passes : Bool → α → Bool
  cap : ℕ
  mark_injective : Function.Injective mark
  mark_ne : ∀ k, mark k ≠ k

variable {α κ : Type} (f : Spelled α κ)

/-- The key, marked if the flag says so. -/
def Spelled.spell (flag : Bool) (k : κ) : κ := if flag then f.mark k else k

variable [DecidableEq κ]

/-- There is a place, the item passes, and its entry is new. -/
def Spelled.Takes (seen : Finset κ) (item : Bool × α) : Prop :=
  seen.card < f.cap ∧ f.passes item.1 item.2 = true ∧ f.spell item.1 (f.key item.2) ∉ seen

instance (seen : Finset κ) (item : Bool × α) : Decidable (f.Takes seen item) :=
  inferInstanceAs (Decidable (_ ∧ _))

/-- The items kept, after the entries already seen. -/
def Spelled.keep (seen : Finset κ) : List (Bool × α) → List (Bool × α)
  | [] => []
  | item :: rest =>
      if f.Takes seen item then
        item :: keep (insert (f.spell item.1 (f.key item.2)) seen) rest
      else keep seen rest

/-- The first item of each key that is not known. -/
def Spelled.distinct (known : Finset κ) : List α → List α
  | [] => []
  | x :: rest =>
      if f.key x ∈ known then distinct known rest
      else x :: distinct (insert (f.key x) known) rest

/-- The new items that a pass keeps, up to repeated keys. -/
def Spelled.news (seen known : Finset κ) (items : List (Bool × α)) : List α :=
  f.distinct known ((f.keep seen items).map Prod.snd)

/-- With the keys `known` kept, of which those in `doubled` may take two places, the flags of the
    items do not matter: a new key passes with both flags or with none, and if it passes its entries
    are new and there is a place for one. -/
def Spelled.Indifferent (known doubled : Finset κ) : List α → Prop
  | [] => True
  | x :: rest =>
      if f.key x ∈ known then
        Indifferent known
          (if f.passes true x || f.passes false x then insert (f.key x) doubled else doubled) rest
      else
        f.passes true x = f.passes false x ∧
          if f.passes false x then
            (∀ k ∈ known, f.mark k ≠ f.key x ∧ f.mark (f.key x) ≠ k) ∧
              known.card + doubled.card < f.cap ∧
              (known.card + 1 = f.cap ∨ Indifferent (insert (f.key x) known) doubled rest)
          else Indifferent known doubled rest

/-- By recursion on the list, so that `decide` evaluates it. -/
def decidableIndifferent (xs : List α) (known doubled : Finset κ) :
    Decidable (f.Indifferent known doubled xs) :=
  match xs with
  | [] => isTrue trivial
  | x :: rest =>
      have : ∀ known doubled, Decidable (f.Indifferent known doubled rest) :=
        decidableIndifferent rest
      inferInstanceAs (Decidable (if f.key x ∈ known then f.Indifferent known _ rest else
        _ = _ ∧ if f.passes false x then
          (∀ k ∈ known, f.mark k ≠ f.key x ∧ f.mark (f.key x) ≠ k) ∧
            known.card + doubled.card < f.cap ∧
            (known.card + 1 = f.cap ∨ f.Indifferent (insert (f.key x) known) doubled rest)
        else f.Indifferent known doubled rest))

instance (known doubled : Finset κ) (xs : List α) : Decidable (f.Indifferent known doubled xs) :=
  decidableIndifferent f xs known doubled

/-! ## The pass, item by item -/

variable {f} {seen known : Finset κ} {item : Bool × α} {rest : List (Bool × α)}

theorem news_of_takes_new (h : f.Takes seen item) (hnew : f.key item.2 ∉ known) :
    f.news seen known (item :: rest) = item.2 ::
      f.news (insert (f.spell item.1 (f.key item.2)) seen) (insert (f.key item.2) known) rest := by
  rw [Spelled.news, Spelled.keep, if_pos h, List.map_cons, Spelled.distinct, if_neg hnew,
    Spelled.news]

theorem news_of_takes_known (h : f.Takes seen item) (hknown : f.key item.2 ∈ known) :
    f.news seen known (item :: rest) =
      f.news (insert (f.spell item.1 (f.key item.2)) seen) known rest := by
  rw [Spelled.news, Spelled.keep, if_pos h, List.map_cons, Spelled.distinct, if_pos hknown,
    Spelled.news]

theorem news_of_not_takes (h : ¬ f.Takes seen item) :
    f.news seen known (item :: rest) = f.news seen known rest := by
  rw [Spelled.news, Spelled.keep, if_neg h, Spelled.news]

theorem keep_subset {items : List (Bool × α)} : f.keep seen items ⊆ items := by
  induction items generalizing seen with
  | nil => exact List.Subset.refl _
  | cons item rest ih =>
      rw [Spelled.keep]
      split
      · exact List.cons_subset_cons item ih
      · exact List.subset_cons_of_subset item ih

/-- At the cap nothing more is kept. -/
theorem keep_of_full (h : f.cap ≤ seen.card) (items : List (Bool × α)) : f.keep seen items = [] := by
  induction items with
  | nil => rfl
  | cons item rest ih => rw [Spelled.keep, if_neg (fun htakes => absurd htakes.1 (by omega)), ih]

theorem news_of_full (h : f.cap ≤ seen.card) (items : List (Bool × α)) :
    f.news seen known items = [] := by
  rw [Spelled.news, keep_of_full h]
  rfl

/-- An item that fails, or whose entry was seen, wherever it stands, is not kept. -/
theorem not_mem_news {x : α} (items : List (Bool × α))
    (h : ∀ item ∈ items, item.2 = x → f.passes item.1 x = false ∨ f.spell item.1 (f.key x) ∈ seen) :
    x ∉ f.news seen known items := by
  induction items generalizing seen known with
  | nil => exact List.not_mem_nil
  | cons item rest ih =>
      obtain ⟨hitem, hrest⟩ := List.forall_mem_cons.1 h
      by_cases htakes : f.Takes seen item
      · have hne : x ≠ item.2 := by
          rintro rfl
          rcases hitem rfl with hfails | hseen
          · exact absurd htakes.2.1 (by rw [hfails]; exact Bool.false_ne_true)
          · exact htakes.2.2 hseen
        have hlater : ∀ known', x ∉
            f.news (insert (f.spell item.1 (f.key item.2)) seen) known' rest := by
          intro known'
          refine ih (fun other hother hx => ?_)
          exact (hrest other hother hx).imp_right (fun hseen => Finset.mem_insert_of_mem hseen)
        by_cases hknown : f.key item.2 ∈ known
        · rw [news_of_takes_known htakes hknown]
          exact hlater known
        · rw [news_of_takes_new htakes hknown, List.mem_cons, not_or]
          exact ⟨hne, hlater _⟩
      · rw [news_of_not_takes htakes]
        exact ih hrest

/-! ## What a pass may have seen -/

/-- No key is another one marked. -/
def Spelled.NoPair (f : Spelled α κ) (known : Finset κ) : Prop :=
  ∀ k ∈ known, ∀ k' ∈ known, f.mark k ≠ k'

/-- Every known key in one spelling, and some in the other as well. -/
def Spelled.filled (f : Spelled α κ) (choice : κ → Bool) (twice known : Finset κ) : Finset κ :=
  known.image (fun k => f.spell (choice k) k) ∪ twice.image (fun k => f.spell (!choice k) k)

omit [DecidableEq κ] in
theorem spell_eq_iff (hpair : f.NoPair known) {k k' : κ} (hk : k ∈ known) (hk' : k' ∈ known)
    (b b' : Bool) : f.spell b k = f.spell b' k' ↔ b = b' ∧ k = k' := by
  cases b <;> cases b' <;> simp [Spelled.spell]
  · exact fun h => hpair k' hk' k hk h.symm
  · exact hpair k hk k' hk'
  · exact f.mark_injective.eq_iff

theorem mem_filled_iff {choice : κ → Bool} {twice known : Finset κ} (htwice : twice ⊆ known) {e : κ} :
    e ∈ f.filled choice twice known ↔
      ∃ k ∈ known, ∃ b, f.spell b k = e ∧ (b = choice k ∨ k ∈ twice) := by
  simp only [Spelled.filled, Finset.mem_union, Finset.mem_image]
  constructor
  · rintro (⟨k, hk, heq⟩ | ⟨k, hk, heq⟩)
    · exact ⟨k, hk, _, heq, Or.inl rfl⟩
    · exact ⟨k, htwice hk, _, heq, Or.inr hk⟩
  · rintro ⟨k, hk, b, rfl, h⟩
    by_cases hb : b = choice k
    · exact Or.inl ⟨k, hk, by rw [hb]⟩
    · refine Or.inr ⟨k, h.resolve_left hb, ?_⟩
      rw [Bool.eq_not_of_ne (Ne.symm hb), Bool.not_not]

theorem mem_filled {choice : κ → Bool} {twice known : Finset κ} (hpair : f.NoPair known)
    (htwice : twice ⊆ known) {k : κ} (hk : k ∈ known) (b : Bool) :
    f.spell b k ∈ f.filled choice twice known ↔ b = choice k ∨ k ∈ twice := by
  rw [mem_filled_iff htwice]
  constructor
  · rintro ⟨k', hk', b', heq, h⟩
    obtain ⟨rfl, rfl⟩ := (spell_eq_iff hpair hk' hk _ _).1 heq
    exact h
  · exact fun h => ⟨k, hk, b, rfl, h⟩

/-- In which spelling a key was kept first does not show once it is kept in both. -/
theorem filled_update {choice : κ → Bool} {twice known : Finset κ} (htwice : twice ⊆ known) {k : κ}
    (hk : k ∈ twice) (b : Bool) :
    f.filled (Function.update choice k b) twice known = f.filled choice twice known := by
  ext e
  rw [mem_filled_iff htwice, mem_filled_iff htwice]
  have hsame : ∀ (k' : κ) (b' : Bool),
      (b' = Function.update choice k b k' ∨ k' ∈ twice) ↔ (b' = choice k' ∨ k' ∈ twice) := by
    intro k' b'
    by_cases heq : k' = k
    · simp [heq, hk]
    · rw [Function.update_of_ne heq]
  simp only [hsame]

theorem card_filled (choice : κ → Bool) {twice known : Finset κ} (hpair : f.NoPair known)
    (htwice : twice ⊆ known) : (f.filled choice twice known).card = known.card + twice.card := by
  rw [Spelled.filled, Finset.card_union_of_disjoint]
  · rw [Finset.card_image_of_injOn, Finset.card_image_of_injOn]
    · intro k hk k' hk' heq
      exact ((spell_eq_iff hpair (htwice hk) (htwice hk') _ _).1 heq).2
    · intro k hk k' hk' heq
      exact ((spell_eq_iff hpair hk hk' _ _).1 heq).2
  · rw [Finset.disjoint_left]
    intro e he he'
    obtain ⟨k, hk, rfl⟩ := Finset.mem_image.1 he
    obtain ⟨k', hk', heq⟩ := Finset.mem_image.1 he'
    obtain ⟨hb, rfl⟩ := (spell_eq_iff hpair (htwice hk') hk _ _).1 heq
    cases hc : choice k' <;> simp [hc] at hb

theorem card_le_filled (choice : κ → Bool) {twice known : Finset κ} (hpair : f.NoPair known)
    (htwice : twice ⊆ known) : known.card ≤ (f.filled choice twice known).card := by
  rw [card_filled choice hpair htwice]
  exact Nat.le_add_right _ _

/-- An entry of a known key that is not seen yet makes the key one of those kept twice. -/
theorem insert_filled_known {choice : κ → Bool} {twice known : Finset κ} (hpair : f.NoPair known)
    (htwice : twice ⊆ known) {k : κ} (hk : k ∈ known) {b : Bool}
    (hnew : f.spell b k ∉ f.filled choice twice known) :
    insert (f.spell b k) (f.filled choice twice known)
      = f.filled choice (insert k twice) known := by
  rw [mem_filled hpair htwice hk, not_or] at hnew
  rw [Spelled.filled, Spelled.filled, Finset.image_insert, Finset.union_insert,
    Bool.eq_not_of_ne hnew.1]

/-- The first entry of a new key. -/
theorem insert_filled_new {choice : κ → Bool} {twice known : Finset κ} (htwice : twice ⊆ known)
    {k : κ} (hk : k ∉ known) (b : Bool) :
    insert (f.spell b k) (f.filled choice twice known)
      = f.filled (Function.update choice k b) twice (insert k known) := by
  have hsame : ∀ k' ∈ known, Function.update choice k b k' = choice k' := by
    intro k' hk'
    have hne : k' ≠ k := fun heq => hk (heq ▸ hk')
    exact Function.update_of_ne hne _ _
  rw [Spelled.filled, Spelled.filled, Finset.image_insert, Function.update_self,
    Finset.insert_union]
  congr 2
  · exact Finset.image_congr (fun k' hk' => by rw [hsame k' hk'])
  · exact Finset.image_congr (fun k' hk' => by rw [hsame k' (htwice hk')])

/-- The first entry of a key that is no known key marked, nor marked a known key, is new. -/
theorem spell_not_mem_filled {choice : κ → Bool} {twice known : Finset κ} (htwice : twice ⊆ known)
    {k : κ} (hk : k ∉ known) (hfree : ∀ k' ∈ known, f.mark k' ≠ k ∧ f.mark k ≠ k') (b : Bool) :
    f.spell b k ∉ f.filled choice twice known := by
  have hne : ∀ k' ∈ known, ∀ b', f.spell b' k' ≠ f.spell b k := by
    intro k' hk' b' heq
    cases b <;> cases b' <;> simp only [Spelled.spell, if_true, Bool.false_eq_true, if_false] at heq
    · rw [heq] at hk'
      exact hk hk'
    · exact (hfree k' hk').1 heq
    · exact (hfree k' hk').2 heq.symm
    · rw [f.mark_injective heq] at hk'
      exact hk hk'
  rw [Spelled.filled, Finset.mem_union, Finset.mem_image, Finset.mem_image]
  rintro (⟨k', hk', heq⟩ | ⟨k', hk', heq⟩)
  · exact hne k' hk' _ heq
  · exact hne k' (htwice hk') _ heq

theorem noPair_insert {known : Finset κ} (hpair : f.NoPair known) {k : κ}
    (hfree : ∀ k' ∈ known, f.mark k' ≠ k ∧ f.mark k ≠ k') : f.NoPair (insert k known) := by
  intro a ha b hb
  rcases Finset.mem_insert.1 ha with ha | ha <;> rcases Finset.mem_insert.1 hb with hb | hb
  · rw [ha, hb]
    exact f.mark_ne k
  · rw [ha]
    exact (hfree b hb).2
  · rw [hb]
    exact (hfree a ha).1
  · exact hpair a ha b hb

/-! ## Indifferent items -/

/-- What a repeat does to the keys that may take two places. -/
theorem subset_doubled {p : Prop} [Decidable p] (doubled : Finset κ) (k : κ) :
    doubled ⊆ if p then insert k doubled else doubled := by
  split
  · exact Finset.subset_insert _ _
  · exact Finset.Subset.refl _

theorem doubled_subset {p : Prop} [Decidable p] {doubled known : Finset κ} {k : κ}
    (hk : k ∈ known) (hdoubled : doubled ⊆ known) :
    (if p then insert k doubled else doubled) ⊆ known := by
  split
  · exact Finset.insert_subset hk hdoubled
  · exact hdoubled

/-- The items of new keys that pass, until the cap: what every pass keeps up to repeats. -/
def Spelled.spine (f : Spelled α κ) (known : Finset κ) : List α → List α
  | [] => []
  | x :: rest =>
      if f.key x ∈ known then spine f known rest
      else if f.passes false x then
        x :: if known.card + 1 = f.cap then [] else spine f (insert (f.key x) known) rest
      else spine f known rest

/-- Without a place for one more key nothing new is kept. -/
theorem spine_of_full {known doubled : Finset κ} {xs : List α}
    (h : f.Indifferent known doubled xs) (hfull : f.cap ≤ known.card + doubled.card) :
    f.spine known xs = [] := by
  induction xs generalizing doubled with
  | nil => rfl
  | cons x rest ih =>
      rw [Spelled.Indifferent] at h
      rw [Spelled.spine]
      by_cases hknown : f.key x ∈ known
      · rw [if_pos hknown] at h ⊢
        exact ih h (hfull.trans (Nat.add_le_add_left (Finset.card_le_card (subset_doubled _ _)) _))
      · rw [if_neg hknown] at h ⊢
        by_cases hpasses : f.passes false x = true
        · rw [if_pos hpasses] at h
          omega
        · rw [if_neg hpasses] at h ⊢
          exact ih h.2 hfull

theorem news_eq_spine {known doubled twice : Finset κ} (choice : κ → Bool)
    (items : List (Bool × α)) (h : f.Indifferent known doubled (items.map Prod.snd))
    (hpair : f.NoPair known) (hdoubled : doubled ⊆ known) (htwice : twice ⊆ doubled)
    (hplace : known.card < f.cap) :
    f.news (f.filled choice twice known) known items = f.spine known (items.map Prod.snd) := by
  induction items generalizing known doubled twice choice with
  | nil => rfl
  | cons item rest ih =>
      have hsub := htwice.trans hdoubled
      have hcard := card_filled choice hpair hsub
      -- a full set takes nothing, and then the places of the spine are full as well
      by_cases hfull : f.cap ≤ (f.filled choice twice known).card
      · rw [news_of_full hfull, spine_of_full h]
        have := Finset.card_le_card htwice
        omega
      rw [List.map_cons, Spelled.Indifferent] at h
      rw [List.map_cons, Spelled.spine]
      by_cases hknown : f.key item.2 ∈ known
      · rw [if_pos hknown] at h ⊢
        have hgrown := doubled_subset (p := f.passes true item.2 || f.passes false item.2)
          hknown hdoubled
        by_cases htakes : f.Takes (f.filled choice twice known) item
        · -- the key takes a second place
          rw [news_of_takes_known htakes hknown,
            insert_filled_known hpair hsub hknown htakes.2.2]
          refine ih _ h hpair hgrown ?_ hplace
          have hpasses : (f.passes true item.2 || f.passes false item.2) = true := by
            have := htakes.2.1
            cases hflag : item.1 <;> rw [hflag] at this <;> simp [this]
          rw [if_pos hpasses]
          exact Finset.insert_subset_insert _ htwice
        · rw [news_of_not_takes htakes]
          exact ih _ h hpair hgrown (htwice.trans (subset_doubled _ _)) hplace
      · rw [if_neg hknown] at h ⊢
        obtain ⟨hblind, h⟩ := h
        have hsame : f.passes item.1 item.2 = f.passes false item.2 := by
          cases item.1
          · rfl
          · exact hblind
        by_cases hpasses : f.passes false item.2 = true
        · rw [if_pos hpasses] at h ⊢
          obtain ⟨hfree, -, hrest⟩ := h
          have htakes : f.Takes (f.filled choice twice known) item :=
            ⟨by omega, hsame.trans hpasses, spell_not_mem_filled hsub hknown hfree _⟩
          rw [news_of_takes_new htakes hknown, insert_filled_new hsub hknown]
          have hpair' := noPair_insert hpair hfree
          have hsub' : twice ⊆ insert (f.key item.2) known := hsub.trans (Finset.subset_insert _ _)
          have hnewCard := Finset.card_insert_of_notMem hknown
          -- on the last place nothing that follows matters
          by_cases hlast : known.card + 1 = f.cap
          · rw [if_pos hlast, news_of_full]
            have := card_le_filled (Function.update choice (f.key item.2) item.1) hpair' hsub'
            omega
          · rw [if_neg hlast, ih _ (hrest.resolve_left hlast) hpair'
              (hdoubled.trans (Finset.subset_insert _ _)) htwice (by omega)]
        · rw [if_neg hpasses] at h ⊢
          rw [news_of_not_takes (fun htakes => hpasses (hsame ▸ htakes.2.1))]
          exact ih _ h hpair hdoubled htwice hplace

/-- Every pass that may have kept these keys keeps the same new items. -/
def Spelled.Steady (f : Spelled α κ) (known doubled : Finset κ) (xs ys : List α) : Prop :=
  ∀ choice twice, twice ⊆ doubled → ∀ items : List (Bool × α), items.map Prod.snd = xs →
    f.news (f.filled choice twice known) known items = ys

/-- The items with one flag. -/
def flagAll (flag : Bool) (xs : List α) : List (Bool × α) := xs.map (fun x => (flag, x))

omit [DecidableEq κ] in
theorem snd_flagAll (flag : Bool) (xs : List α) : (flagAll flag xs).map Prod.snd = xs := by
  rw [flagAll, List.map_map]
  exact List.map_id xs

omit [DecidableEq κ] in
theorem fst_of_mem_flagAll {flag : Bool} {xs : List α} {item : Bool × α}
    (h : item ∈ flagAll flag xs) : item.1 = flag := by
  obtain ⟨x, -, rfl⟩ := List.mem_map.1 h
  rfl

section Converse

variable {doubled : Finset κ} {x : α} {xs ys : List α}

theorem filled_empty (choice : κ → Bool) (known : Finset κ) :
    f.filled choice ∅ known = known.image (fun k => f.spell (choice k) k) := by
  rw [Spelled.filled, Finset.image_empty, Finset.union_empty]

/-- With every key kept in one spelling, a new key of that spelling has a new entry. -/
theorem takes_of_new (hpair : f.NoPair known) (hplace : known.card < f.cap)
    (hnew : f.key x ∉ known) {flag : Bool} (hpasses : f.passes flag x = true) :
    f.Takes (f.filled (fun _ => flag) ∅ known) (flag, x) := by
  refine ⟨?_, hpasses, ?_⟩
  · rw [card_filled _ hpair (Finset.empty_subset _), Finset.card_empty]
    exact hplace
  · rw [filled_empty, Finset.mem_image]
    rintro ⟨k, hk, heq⟩
    have hsame : k = f.key x := by
      cases flag
      · exact heq
      · exact f.mark_injective heq
    exact hnew (hsame ▸ hk)

/-- If one pass keeps a new item, no pass over the same items leaves it out. -/
theorem Steady.false_of_left_out (h : f.Steady known doubled (x :: xs) ys)
    (hpair : f.NoPair known) (hplace : known.card < f.cap) (hnew : f.key x ∉ known) (flag : Bool)
    (hpasses : f.passes flag x = true) (choice : κ → Bool) (other : Bool)
    (hout : f.passes other x = false ∨ f.spell other (f.key x) ∈ f.filled choice ∅ known) :
    False := by
  have hin : x ∈ ys := by
    rw [← h (fun _ => flag) ∅ (Finset.empty_subset _) ((flag, x) :: flagAll flag xs)
      (by rw [List.map_cons, snd_flagAll]),
      news_of_takes_new (takes_of_new hpair hplace hnew hpasses) hnew]
    exact List.mem_cons_self
  have hnot : x ∉ ys := by
    rw [← h choice ∅ (Finset.empty_subset _) (flagAll other (x :: xs)) (snd_flagAll _ _)]
    refine not_mem_news _ (fun item hitem hx => ?_)
    rw [fst_of_mem_flagAll hitem]
    exact hout
  exact hnot hin

/-- A repeat makes its key one of those that may take two places. -/
theorem Steady.repeat (h : f.Steady known doubled (x :: xs) ys) (hpair : f.NoPair known)
    (hdoubled : doubled ⊆ known) (hknown : f.key x ∈ known) :
    f.Steady known (if f.passes true x || f.passes false x then insert (f.key x) doubled
      else doubled) xs ys := by
  intro choice twice htwice items hitems
  by_cases hold : twice ⊆ doubled
  · -- an item of the spelling that was kept adds nothing
    have hseen : f.spell (choice (f.key x)) (f.key x) ∈ f.filled choice twice known :=
      (mem_filled hpair (hold.trans hdoubled) hknown _).2 (Or.inl rfl)
    rw [← h choice twice hold ((choice (f.key x), x) :: items) (by rw [List.map_cons, hitems]),
      news_of_not_takes (fun htakes => htakes.2.2 hseen)]
  · obtain ⟨flag, hpasses, hkey⟩ : ∃ flag, f.passes flag x = true ∧
        twice ⊆ insert (f.key x) doubled := by
      split at htwice
      · next hpasses =>
        rcases Bool.or_eq_true_iff.1 hpasses with hp | hp
        · exact ⟨true, hp, htwice⟩
        · exact ⟨false, hp, htwice⟩
      · exact absurd htwice hold
    have hmem : f.key x ∈ twice := by
      by_contra hnot
      exact hold ((Finset.subset_insert_iff_of_notMem hnot).1 hkey)
    -- the key was first kept in the other spelling
    let before := Function.update choice (f.key x) (!flag)
    have hsub : twice.erase (f.key x) ⊆ doubled := Finset.subset_insert_iff.1 hkey
    have hsub' := hsub.trans hdoubled
    have hunseen : f.spell flag (f.key x) ∉ f.filled before (twice.erase (f.key x)) known := by
      rw [mem_filled hpair hsub' hknown, not_or]
      refine ⟨?_, Finset.notMem_erase _ _⟩
      rw [show before (f.key x) = !flag from Function.update_self _ _ _]
      cases flag <;> simp
    have hafter : insert (f.spell flag (f.key x)) (f.filled before (twice.erase (f.key x)) known)
        = f.filled choice twice known := by
      rw [insert_filled_known hpair hsub' hknown hunseen, Finset.insert_erase hmem,
        filled_update (hkey.trans (Finset.insert_subset hknown hdoubled)) hmem]
    have hrun := h before (twice.erase (f.key x)) hsub ((flag, x) :: items)
      (by rw [List.map_cons, hitems])
    by_cases hfull : f.cap ≤ (f.filled before (twice.erase (f.key x)) known).card
    · rw [news_of_full hfull] at hrun
      rw [← hrun, news_of_full]
      rw [← hafter]
      exact hfull.trans (Finset.card_le_card (Finset.subset_insert _ _))
    · rw [← hrun, ← hafter, news_of_takes_known ⟨not_le.1 hfull, hpasses, hunseen⟩ hknown]

/-- The new items after one that every pass takes. -/
theorem Steady.taken (h : f.Steady known doubled (x :: xs) ys) (hdoubled : doubled ⊆ known)
    (hpair : f.NoPair known) (hnew : f.key x ∉ known) (hpasses : ∀ flag, f.passes flag x = true)
    (hfree : ∀ k ∈ known, f.mark k ≠ f.key x ∧ f.mark (f.key x) ≠ k)
    (hroom : known.card + doubled.card < f.cap) :
    f.Steady (insert (f.key x) known) doubled xs ys.tail := by
  intro choice twice htwice items hitems
  have hsub := htwice.trans hdoubled
  have htakes : f.Takes (f.filled choice twice known) (choice (f.key x), x) := by
    refine ⟨?_, hpasses _, spell_not_mem_filled hsub hnew hfree _⟩
    rw [card_filled choice hpair hsub]
    have := Finset.card_le_card htwice
    omega
  have hrun := h choice twice htwice ((choice (f.key x), x) :: items)
    (by rw [List.map_cons, hitems])
  rw [news_of_takes_new htakes hnew, insert_filled_new hsub hnew, Function.update_eq_self] at hrun
  rw [← hrun, List.tail_cons]

/-- A new item that passes is no key marked, and no key is it marked. -/
theorem Steady.free (h : f.Steady known doubled (x :: xs) ys) (hpair : f.NoPair known)
    (hplace : known.card < f.cap) (hnew : f.key x ∉ known)
    (hpasses : ∀ flag, f.passes flag x = true) :
    ∀ k ∈ known, f.mark k ≠ f.key x ∧ f.mark (f.key x) ≠ k := by
  intro k hk
  constructor
  · intro heq
    refine Steady.false_of_left_out h hpair hplace hnew true (hpasses true) (fun _ => true) false
      (Or.inr ?_)
    rw [filled_empty, Finset.mem_image]
    exact ⟨k, hk, heq⟩
  · intro heq
    refine Steady.false_of_left_out h hpair hplace hnew false (hpasses false) (fun _ => false) true
      (Or.inr ?_)
    rw [filled_empty, Finset.mem_image]
    exact ⟨k, hk, heq.symm⟩

/-- A pass that has kept all it can still has a place for a new item that passes. -/
theorem Steady.room (h : f.Steady known doubled (x :: xs) ys) (hpair : f.NoPair known)
    (hdoubled : doubled ⊆ known) (hplace : known.card < f.cap) (hnew : f.key x ∉ known)
    (hpasses : f.passes false x = true) : known.card + doubled.card < f.cap := by
  by_contra hfull
  have hempty := h (fun _ => false) doubled (Finset.Subset.refl _) (flagAll false (x :: xs))
    (snd_flagAll _ _)
  rw [news_of_full (by rw [card_filled _ hpair hdoubled]; omega)] at hempty
  have htaken := h (fun _ => false) ∅ (Finset.empty_subset _) ((false, x) :: flagAll false xs)
    (by rw [List.map_cons, snd_flagAll])
  rw [news_of_takes_new (takes_of_new hpair hplace hnew hpasses) hnew, ← hempty] at htaken
  cases htaken

theorem Steady.indifferent (h : f.Steady known doubled xs ys) (hpair : f.NoPair known)
    (hdoubled : doubled ⊆ known) (hplace : known.card < f.cap) :
    f.Indifferent known doubled xs := by
  induction xs generalizing known doubled ys with
  | nil => trivial
  | cons x rest ih =>
      rw [Spelled.Indifferent]
      by_cases hknown : f.key x ∈ known
      · rw [if_pos hknown]
        exact ih (Steady.repeat h hpair hdoubled hknown) hpair (doubled_subset hknown hdoubled)
          hplace
      · rw [if_neg hknown]
        -- a mark that decides would be seen on the lists with and without it
        have hblind : f.passes true x = f.passes false x := by
          by_contra hne
          have hother : f.passes (f.passes false x) x = false := by
            cases hp : f.passes false x with
            | false => exact hp
            | true => simpa [hp] using hne
          have hflag : f.passes (!f.passes false x) x = true := by
            cases hp : f.passes false x with
            | false => simpa [hp] using hne
            | true => exact hp
          exact Steady.false_of_left_out h hpair hplace hknown _ hflag (fun _ => true) _
            (Or.inl hother)
        refine ⟨hblind, ?_⟩
        by_cases hpasses : f.passes false x = true
        · have hboth : ∀ flag, f.passes flag x = true := by
            intro flag
            cases flag
            · exact hpasses
            · exact hblind.trans hpasses
          have hfree := Steady.free h hpair hplace hknown hboth
          have hroom := Steady.room h hpair hdoubled hplace hknown hpasses
          rw [if_pos hpasses]
          refine ⟨hfree, hroom, ?_⟩
          by_cases hlast : known.card + 1 = f.cap
          · exact Or.inl hlast
          · refine Or.inr (ih (Steady.taken h hdoubled hpair hknown hboth hfree hroom)
              (noPair_insert hpair hfree) (hdoubled.trans (Finset.subset_insert _ _)) ?_)
            rw [Finset.card_insert_of_notMem hknown]
            omega
        · rw [if_neg hpasses]
          have hrest : f.Steady known doubled rest ys := by
            intro choice twice htwice items hitems
            rw [← h choice twice htwice ((false, x) :: items) (by rw [List.map_cons, hitems]),
              news_of_not_takes (fun htakes => hpasses htakes.2.1)]
          exact ih hrest hpair hdoubled hplace

end Converse

/-- **The flags of the items do not matter, up to repeated keys, exactly when the items are
    indifferent.** -/
theorem indifferent_iff (hcap : 0 < f.cap) (xs : List α) :
    (∀ items items' : List (Bool × α), items.map Prod.snd = xs → items'.map Prod.snd = xs →
      f.news ∅ ∅ items = f.news ∅ ∅ items') ↔ f.Indifferent ∅ ∅ xs := by
  have hstart : ∀ (choice : κ → Bool) (twice : Finset κ), twice ⊆ ∅ →
      f.filled choice twice ∅ = ∅ := by
    intro choice twice htwice
    rw [Finset.subset_empty.1 htwice, filled_empty, Finset.image_empty]
  have hpair : f.NoPair ∅ := fun k hk => absurd hk (Finset.notMem_empty k)
  constructor
  · intro h
    have hsteady : f.Steady ∅ ∅ xs (f.news ∅ ∅ (flagAll false xs)) := by
      intro choice twice htwice items hitems
      rw [hstart choice twice htwice]
      exact h items _ hitems (snd_flagAll _ _)
    exact Steady.indifferent hsteady hpair (Finset.Subset.refl _) hcap
  · intro h items items' hitems hitems'
    have hspine : ∀ other : List (Bool × α), other.map Prod.snd = xs →
        f.news ∅ ∅ other = f.spine ∅ xs := by
      intro other hother
      have heq := news_eq_spine (fun _ => false) other (hother ▸ h) hpair
        (Finset.Subset.refl _) (Finset.Subset.refl _) hcap
      rwa [hstart _ _ (Finset.Subset.refl _), hother] at heq
    rw [hspine items hitems, hspine items' hitems']

end FirstSeen
