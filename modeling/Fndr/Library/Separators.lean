import Fndr.Library.Words

set_option autoImplicit false

/-! # First separators and key=value entries

`splitOnce sep` finds the first occurrence of a separator. When the first character of the separator
does not come back in it, no occurrence begins inside a text and ends in the separator behind it, so
the text before the first occurrence is any text free of the separator (`splitOnce_append`).
`textBefore sep` is what stands before the first separator, or everything.

A list of entries, some of which are `key=value` pairs, has the same keys as a part of it exactly
when no pair is lost before or behind the part and the entries at its two ends keep their keys
(`keys_window_iff`). -/

namespace RustStd

/-! ## The first occurrence -/

section First

variable {x : Char} {xs : Str}

/-- An occurrence that begins inside a text does not end in the separator behind it. -/
theorem not_prefix_append (hx : x ∉ xs) {c : Char} {cs : Str} (h : ¬x :: xs <+: c :: cs)
    (rest : Str) : ¬x :: xs <+: c :: cs ++ (x :: xs ++ rest) := by
  intro hprefix
  rcases List.prefix_or_prefix_of_prefix hprefix (List.prefix_append (c :: cs) _) with hin | hin
  · exact h hin
  · obtain ⟨tail, htail⟩ := hin
    rw [← htail, List.prefix_append_right_inj] at hprefix
    cases tail with
    | nil => exact h (by rw [← htail, List.append_nil])
    | cons y tail =>
        -- the separator would begin again where the text ends
        have hy : y = x :=
          (List.cons_prefix_cons.1 hprefix).1.trans (List.cons.inj htail).1
        have hmem : y ∈ xs := by
          rw [List.cons_append] at htail
          rw [← (List.cons.inj htail).2]
          exact List.mem_append_right cs List.mem_cons_self
        exact hx (hy ▸ hmem)

/-- The text before the first separator is free of it. -/
theorem splitOnce_append (hx : x ∉ xs) {front : Str} (h : ¬x :: xs <:+: front) (rest : Str) :
    splitOnce (x :: xs) (front ++ (x :: xs ++ rest)) = some (front, rest) := by
  induction front with
  | nil =>
      have hprefix : x :: xs <+: x :: (xs ++ rest) := List.prefix_append (x :: xs) rest
      rw [List.nil_append, List.cons_append, splitOnce, if_pos hprefix, ← List.cons_append,
        List.drop_left]
  | cons c cs ih =>
      have hhere : ¬x :: xs <+: c :: cs := fun hp => h hp.isInfix
      have hrest := ih (fun hp => h (List.infix_cons hp))
      rw [List.cons_append, splitOnce,
        if_neg (by simpa only [List.cons_append] using not_prefix_append hx hhere rest), hrest]
      rfl

theorem splitOnce_eq_none {sep s : Str} (hsep : sep ≠ []) (h : ¬sep <:+: s) :
    splitOnce sep s = none := by
  induction s with
  | nil => exact if_neg hsep
  | cons c cs ih =>
      rw [splitOnce, if_neg (fun hp => h hp.isInfix), ih (fun hp => h (List.infix_cons hp))]
      rfl

/-- A text is free of a separator, or it has a first one. -/
theorem exists_first_occurrence {sep : Str} (hsep : sep ≠ []) (s : Str) :
    ¬sep <:+: s ∨ ∃ front rest, s = front ++ (sep ++ rest) ∧ ¬sep <:+: front := by
  induction s with
  | nil => exact Or.inl fun h => hsep (List.infix_nil.1 h)
  | cons c cs ih =>
      by_cases hhere : sep <+: c :: cs
      · obtain ⟨rest, hrest⟩ := hhere
        exact Or.inr ⟨[], rest, hrest.symm, fun h => hsep (List.infix_nil.1 h)⟩
      · rcases ih with ih | ⟨front, rest, rfl, hfront⟩
        · exact Or.inl fun h => (List.infix_cons_iff.1 h).elim hhere ih
        · refine Or.inr ⟨c :: front, rest, rfl, fun h => ?_⟩
          rcases List.infix_cons_iff.1 h with h | h
          · exact hhere (h.trans (List.prefix_append (c :: front) _))
          · exact hfront h

/-- What stands before the first separator, or the whole text. -/
def textBefore (sep s : Str) : Str := ((splitOnce sep s).map Prod.fst).getD s

/-- What stands from the first separator on. -/
def textFrom (sep s : Str) : Str := s.drop (textBefore sep s).length

theorem textBefore_of_not {sep s : Str} (hsep : sep ≠ []) (h : ¬sep <:+: s) :
    textBefore sep s = s := by
  rw [textBefore, splitOnce_eq_none hsep h]
  rfl

theorem textBefore_append (hx : x ∉ xs) {front : Str} (h : ¬x :: xs <:+: front) (rest : Str) :
    textBefore (x :: xs) (front ++ (x :: xs ++ rest)) = front := by
  rw [textBefore, splitOnce_append hx h]
  rfl

/-- A text free of the separator, and a character outside it, stand before it. -/
theorem textBefore_append_cons (hx : x ∉ xs) {c : Char} (hc : c ∉ x :: xs) {front : Str}
    (h : ¬x :: xs <:+: front) (rest : Str) :
    textBefore (x :: xs) (front ++ c :: rest) = front ++ c :: textBefore (x :: xs) rest := by
  have hjoin {tail : Str} (htail : ¬x :: xs <:+: tail) : ¬x :: xs <:+: front ++ c :: tail :=
    fun hin => (infix_append_cons hc hin).elim h htail
  rcases exists_first_occurrence (List.cons_ne_nil x xs) rest with hrest | ⟨mid, tail, rfl, hmid⟩
  · rw [textBefore_of_not (List.cons_ne_nil x xs) hrest,
      textBefore_of_not (List.cons_ne_nil x xs) (hjoin hrest)]
  · have hsplit : front ++ c :: (mid ++ (x :: xs ++ tail)) =
        front ++ c :: mid ++ (x :: xs ++ tail) := by
      simp only [List.append_assoc, List.cons_append]
    rw [textBefore_append hx hmid, hsplit, textBefore_append hx (hjoin hmid)]

theorem textBefore_isFront (hx : x ∉ xs) (s : Str) : textBefore (x :: xs) s <+: s := by
  rcases exists_first_occurrence (List.cons_ne_nil x xs) s with hs | ⟨front, rest, rfl, hfront⟩
  · rw [textBefore_of_not (List.cons_ne_nil x xs) hs]
  · rw [textBefore_append hx hfront]
    exact List.prefix_append front _

theorem textBefore_append_textFrom (hx : x ∉ xs) (s : Str) :
    textBefore (x :: xs) s ++ textFrom (x :: xs) s = s :=
  (List.prefix_append_drop (textBefore_isFront hx s)).symm

theorem splitSecond_eq {sep front rest : Str} {s : Str}
    (h : splitOnce sep s = some (front, rest)) :
    splitSecond sep s = some (textBefore sep rest) := by
  rw [splitSecond, h]
  rfl

/-- A separator of one character. -/
theorem splitOnce_char {c : Char} {front : Str} (h : c ∉ front) (rest : Str) :
    splitOnce [c] (front ++ c :: rest) = some (front, rest) :=
  splitOnce_append List.not_mem_nil (fun hin => h (hin.subset List.mem_cons_self)) rest

theorem splitOnce_char_eq_none {c : Char} {s : Str} (h : c ∉ s) : splitOnce [c] s = none :=
  splitOnce_eq_none (List.cons_ne_nil c []) fun hin => h (hin.subset List.mem_cons_self)

end First

/-- A character and a word without it, in a text with that character. -/
theorem cons_infix_append_cons_iff {c : Char} {word : Str} (hc : c ∉ word) (s t : Str) :
    c :: word <:+: s ++ c :: t ↔ c :: word <:+: s ∨ c :: word <:+: c :: t := by
  constructor
  · intro h
    induction s with
    | nil => exact Or.inr h
    | cons d s ih =>
        rw [List.cons_append] at h
        rcases List.infix_cons_iff.1 h with hprefix | htail
        · obtain ⟨rfl, hword⟩ := List.cons_prefix_cons.1 hprefix
          rcases List.prefix_or_prefix_of_prefix hword (List.prefix_append s (c :: t)) with hs | hs
          · exact Or.inl (List.cons_prefix_cons.2 ⟨rfl, hs⟩).isInfix
          · -- the word would reach over the character
            obtain ⟨tail, rfl⟩ := hs
            rw [List.prefix_append_right_inj] at hword
            cases tail with
            | nil => exact Or.inl (by rw [List.append_nil])
            | cons e tail =>
                obtain ⟨rfl, -⟩ := List.cons_prefix_cons.1 hword
                exact absurd (List.mem_append_right s List.mem_cons_self) hc
        · exact (ih htail).imp_left List.infix_cons
  · rintro (h | h)
    · exact h.trans (List.prefix_append s _).isInfix
    · exact h.trans (List.suffix_append s _).isInfix

/-! ## Entries with keys -/

/-- The pieces around a joint of two texts. -/
theorem split_append (p : Char → Bool) (s t : Str) :
    split p (s ++ t) = (split p s).dropLast ++
      ((split p s).getLastD [] ++ (split p t).headD []) :: (split p t).tail := by
  induction s with
  | nil =>
      obtain ⟨hd, tl, ht⟩ := List.exists_cons_of_ne_nil (List.splitOnP_ne_nil p t)
      simp [split, ht]
  | cons c cs ih =>
      obtain ⟨hd, tl, hcs⟩ := List.exists_cons_of_ne_nil (List.splitOnP_ne_nil p cs)
      rw [split, split, hcs] at ih
      rw [List.cons_append, split, split, List.splitOnP_cons_eq_if_modifyHead, ih,
        List.splitOnP_cons_eq_if_modifyHead, hcs]
      by_cases hc : p c
      · simp [hc]
      · cases tl with
        | nil => simp [hc]
        | cons hd' tl => simp [hc]

section Keys

variable (sep eq : Char)

/-- What stands between the separators. -/
def entries (s : Str) : List Str := split (· == sep) s

/-- The key of a `key=value` pair. -/
def entryKey (entry : Str) : Option Str := (splitOnce [eq] entry).map Prod.fst

/-- The keys of the entries that have one. -/
def keys (s : Str) : List Str := (entries sep s).filterMap (entryKey eq)

/-- The entry a text ends with, and the one it begins with. -/
def lastEntry (s : Str) : Str := (entries sep s).getLastD []

/-- What stands before the first separator. -/
def firstEntry (s : Str) : Str := (entries sep s).headD []

/-- Behind the part there is no pair but the last entry of the part, if this is one. -/
def KeptBehind (part behind : Str) : Prop :=
  (∀ entry ∈ (entries sep behind).tail, eq ∉ entry) ∧
    (eq ∈ firstEntry sep behind → eq ∈ lastEntry sep part)

/-- Before the part there is no pair but the one that the first entry of the part ends, and this
has the same key without what is before. -/
def KeptBefore (before part : Str) : Prop :=
  (∀ entry ∈ (entries sep before).dropLast, eq ∉ entry) ∧
    entryKey eq (lastEntry sep before) = entryKey eq (firstEntry sep part)

instance (part behind : Str) : Decidable (KeptBehind sep eq part behind) := instDecidableAnd

instance (before part : Str) : Decidable (KeptBefore sep eq before part) := instDecidableAnd

variable {sep eq}

theorem entryKey_pair {key : Str} (h : eq ∉ key) (value : Str) :
    entryKey eq (key ++ eq :: value) = some key := by
  rw [entryKey, splitOnce_char h]
  rfl

theorem entryKey_eq_none_iff {entry : Str} : entryKey eq entry = none ↔ eq ∉ entry := by
  constructor
  · intro h hmem
    obtain ⟨key, value, rfl, hkey⟩ := List.eq_append_cons_of_mem hmem
    rw [entryKey_pair hkey] at h
    cases h
  · intro h
    rw [entryKey, splitOnce_char_eq_none h]
    rfl

theorem entryKey_isSome {entry : Str} (h : eq ∈ entry) : ∃ key, entryKey eq entry = some key :=
  Option.ne_none_iff_exists'.1 fun hnone => entryKey_eq_none_iff.1 hnone h

/-- What follows a pair does not change its key. -/
theorem entryKey_append {entry : Str} (h : eq ∈ entry) (tail : Str) :
    entryKey eq (entry ++ tail) = entryKey eq entry := by
  obtain ⟨key, value, rfl, hkey⟩ := List.eq_append_cons_of_mem h
  rw [List.append_assoc, List.cons_append, entryKey_pair hkey, entryKey_pair hkey]

/-- What stands before a pair is part of its key. -/
theorem entryKey_append_of_not_mem {front : Str} (h : eq ∉ front) (entry : Str) :
    entryKey eq (front ++ entry) = (entryKey eq entry).map (front ++ ·) := by
  by_cases hentry : eq ∈ entry
  · obtain ⟨key, value, rfl, hkey⟩ := List.eq_append_cons_of_mem hentry
    have hfront : eq ∉ front ++ key := by simp [h, hkey]
    rw [← List.append_assoc, entryKey_pair hfront, entryKey_pair hkey]
    rfl
  · rw [entryKey_eq_none_iff.2 hentry, entryKey_eq_none_iff.2 (by simp [h, hentry])]
    rfl

theorem keys_of_not_mem {s : Str} (h : eq ∉ s) : keys sep eq s = [] := by
  refine List.filterMap_eq_nil_iff.2 fun entry hentry => entryKey_eq_none_iff.2 fun hmem => ?_
  exact h ((infix_of_mem_split _ s entry hentry).subset hmem)

theorem filterMap_entryKey_eq_nil_iff {l : List Str} :
    l.filterMap (entryKey eq) = [] ↔ ∀ entry ∈ l, eq ∉ entry := by
  simp only [List.filterMap_eq_nil_iff, entryKey_eq_none_iff]

theorem keys_eq_nil_iff (h : eq ≠ sep) {s : Str} : keys sep eq s = [] ↔ eq ∉ s := by
  refine ⟨fun hkeys hmem => ?_, keys_of_not_mem⟩
  have hflatten : eq ∈ (fields (· == sep) s).flatten := by
    rw [flatten_fields]
    exact List.mem_filter.2 ⟨hmem, by simpa using h⟩
  obtain ⟨entry, hentry, hin⟩ := List.mem_flatten.1 hflatten
  exact filterMap_entryKey_eq_nil_iff.1 hkeys entry (List.mem_of_mem_filter hentry) hin

theorem keys_eq_last (s : Str) :
    keys sep eq s = ((entries sep s).dropLast).filterMap (entryKey eq) ++
      (entryKey eq (lastEntry sep s)).toList := by
  have hne : entries sep s ≠ [] := List.splitOnP_ne_nil _ s
  have hlast : entries sep s = (entries sep s).dropLast ++ [lastEntry sep s] := by
    rw [lastEntry, List.getLastD_eq_getLast?, List.getLast?_eq_some_getLast hne]
    exact (List.dropLast_append_getLast hne).symm
  conv_lhs => rw [keys, hlast, List.filterMap_append]
  cases h : entryKey eq (lastEntry sep s) <;> simp [h]

theorem keys_eq_first (s : Str) :
    keys sep eq s = (entryKey eq (firstEntry sep s)).toList ++
      ((entries sep s).tail).filterMap (entryKey eq) := by
  obtain ⟨hd, tl, hs⟩ := List.exists_cons_of_ne_nil (List.splitOnP_ne_nil (· == sep) s)
  rw [keys, firstEntry, entries, split, hs]
  cases h : entryKey eq hd <;> simp [h]

theorem keys_append (s t : Str) :
    keys sep eq (s ++ t) = ((entries sep s).dropLast).filterMap (entryKey eq) ++
      ((entryKey eq (lastEntry sep s ++ firstEntry sep t)).toList ++
        ((entries sep t).tail).filterMap (entryKey eq)) := by
  rw [keys, entries, split_append, List.filterMap_append, List.filterMap_cons]
  simp only [lastEntry, firstEntry, entries]
  cases entryKey eq _ <;> rfl

/-- A text that ends in something else than a separator ends in an entry. -/
theorem lastEntry_concat_ne_nil (s : Str) {c : Char} (hc : c ≠ sep) :
    lastEntry sep (s ++ [c]) ≠ [] := by
  have hone : split (· == sep) [c] = [[c]] := split_of_forall (by simpa using hc)
  rw [lastEntry, entries, split_append, hone]
  simp

theorem KeptBehind.keys_eq {part behind : Str} (h : KeptBehind sep eq part behind) :
    keys sep eq (part ++ behind) = keys sep eq part := by
  rw [keys_append, keys_eq_last, filterMap_entryKey_eq_nil_iff.2 h.1, List.append_nil]
  by_cases hlast : eq ∈ lastEntry sep part
  · rw [entryKey_append hlast]
  · have hfirst : eq ∉ firstEntry sep behind := fun hmem => hlast (h.2 hmem)
    rw [entryKey_eq_none_iff.2 hlast, entryKey_eq_none_iff.2 (by simp [hlast, hfirst])]

theorem keptBehind_of_length {part behind : Str}
    (h : (keys sep eq (part ++ behind)).length ≤ (keys sep eq part).length) :
    KeptBehind sep eq part behind := by
  rw [keys_eq_last part, keys_append, List.length_append, List.length_append,
    List.length_append] at h
  by_cases hlast : eq ∈ lastEntry sep part
  · rw [entryKey_append hlast] at h
    have hnil : ((entries sep behind).tail).filterMap (entryKey eq) = [] :=
      List.length_eq_zero_iff.1 (by omega)
    exact ⟨filterMap_entryKey_eq_nil_iff.1 hnil, fun _ => hlast⟩
  · rw [entryKey_eq_none_iff.2 hlast, Option.toList_none, List.length_nil] at h
    have hnil : ((entries sep behind).tail).filterMap (entryKey eq) = [] :=
      List.length_eq_zero_iff.1 (by omega)
    refine ⟨filterMap_entryKey_eq_nil_iff.1 hnil, fun hmem => ?_⟩
    obtain ⟨key, hkey⟩ := entryKey_isSome (List.mem_append_right (lastEntry sep part) hmem)
    rw [hkey, Option.toList_some, List.length_singleton] at h
    omega

theorem keys_length_le_append_left (before part : Str) :
    (keys sep eq part).length ≤ (keys sep eq (before ++ part)).length := by
  rw [keys_eq_first part, keys_append, List.length_append, List.length_append, List.length_append]
  cases h : entryKey eq (firstEntry sep part) with
  | none => simp only [Option.toList_none, List.length_nil]; omega
  | some key =>
      have hmem : eq ∈ firstEntry sep part := by
        by_contra hno
        rw [entryKey_eq_none_iff.2 hno] at h
        cases h
      obtain ⟨key', hkey'⟩ := entryKey_isSome (List.mem_append_right (lastEntry sep before) hmem)
      rw [hkey']
      simp only [Option.toList_some, List.length_singleton]
      omega

theorem toList_eq_append_singleton_iff {α : Type} {o : Option α} {l : List α} {a : α} :
    o.toList = l ++ [a] ↔ l = [] ∧ some a = o := by
  rcases o with _ | b
  · simp
  · rcases l with _ | ⟨c, l⟩
    · simp only [Option.toList_some, List.nil_append, List.cons.injEq, and_true, true_and,
        Option.some.injEq]
      exact eq_comm
    · simp

/-- Text before a part leaves its keys as they are exactly when no pair is lost. -/
theorem keys_eq_append_iff {before part : Str} (hbefore : lastEntry sep before ≠ []) :
    keys sep eq part = keys sep eq (before ++ part) ↔ KeptBefore sep eq before part := by
  rw [keys_eq_first part, keys_append, ← List.append_assoc, List.append_left_inj, KeptBefore,
    ← filterMap_entryKey_eq_nil_iff]
  generalize ((entries sep before).dropLast).filterMap (entryKey eq) = lost
  by_cases hlast : eq ∈ lastEntry sep before
  · obtain ⟨key, hkey⟩ := entryKey_isSome hlast
    rw [entryKey_append hlast, hkey]
    exact toList_eq_append_singleton_iff
  · rw [entryKey_append_of_not_mem hlast, entryKey_eq_none_iff.2 hlast]
    cases entryKey eq (firstEntry sep part) with
    | none =>
        rw [Option.map_none, Option.toList_none, List.append_nil]
        exact ⟨fun h => ⟨h.symm, rfl⟩, fun h => h.1.symm⟩
    | some key =>
        -- its key would be longer by what stands before
        rw [Option.map_some]
        refine iff_of_false (fun h => ?_) (fun h => nomatch h.2)
        have hkey := (toList_eq_append_singleton_iff.1 h).2
        exact hbefore (List.append_left_eq_self.1 (Option.some.inj hkey))

/-- **Part of a list of entries has the keys of all of it** exactly when nothing is lost on either
side. -/
theorem keys_window_iff {before part behind : Str} (hbefore : lastEntry sep before ≠ []) :
    keys sep eq part = keys sep eq (before ++ (part ++ behind)) ↔
      KeptBehind sep eq part behind ∧ KeptBefore sep eq before (part ++ behind) := by
  constructor
  · intro h
    have hbehind : KeptBehind sep eq part behind :=
      keptBehind_of_length (h ▸ keys_length_le_append_left before (part ++ behind))
    rw [← hbehind.keys_eq] at h
    exact ⟨hbehind, (keys_eq_append_iff hbefore).1 h⟩
  · rintro ⟨hbehind, hpart⟩
    rw [← (keys_eq_append_iff hbefore).2 hpart, hbehind.keys_eq]

/-- The same with nothing before the part. -/
theorem keys_eq_keys_append_iff {part behind : Str} :
    keys sep eq part = keys sep eq (part ++ behind) ↔ KeptBehind sep eq part behind :=
  ⟨fun h => keptBehind_of_length (by rw [h]), fun h => h.keys_eq.symm⟩

end Keys

end RustStd
