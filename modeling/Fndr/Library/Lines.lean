import Fndr.Library.Words

set_option autoImplicit false

/-! # Texts put together from lines

`join [c]` and `split` at `c` are inverse to each other as long as no part contains `c`
(`split_join`, `join_split`). A pattern stands in joined parts when it stands in one of them or is
read across a joint: it then ends one part, runs through whole ones and begins a later one
(`infix_join_iff`). Taking the lines of joined lines and joining them again changes nothing exactly
when no carriage return and no empty last line is lost on the way (`join_lines_join_eq_iff`). -/

namespace RustStd

/-! ## Joining and splitting -/

theorem split_join {c : Char} {parts : List Str} (h : ∀ part ∈ parts, c ∉ part)
    (hne : parts ≠ []) : split (· == c) (join [c] parts) = parts :=
  List.splitOn_intercalate c h hne

theorem join_split (c : Char) (s : Str) : join [c] (split (· == c) s) = s :=
  List.intercalate_splitOn c

theorem not_mem_of_mem_split {p : Char → Bool} {s piece : Str} (h : piece ∈ split p s) :
    ∀ c ∈ piece, p c = false := by
  cases piece with
  | nil => exact fun _ hc => absurd hc List.not_mem_nil
  | cons c cs => exact (of_mem_fields (List.mem_filter.2 ⟨h, by simp⟩)).2

theorem join_inj {c : Char} {l r : List Str} (hl : ∀ part ∈ l, c ∉ part)
    (hr : ∀ part ∈ r, c ∉ part) (hnl : l ≠ []) (hnr : r ≠ []) :
    join [c] l = join [c] r ↔ l = r := by
  refine ⟨fun h => ?_, fun h => by rw [h]⟩
  rw [← split_join hl hnl, h, split_join hr hnr]

theorem join_append {c : Char} {l r : List Str} (hl : l ≠ []) (hr : r ≠ []) :
    join [c] (l ++ r) = join [c] l ++ c :: join [c] r := by
  induction l with
  | nil => exact absurd rfl hl
  | cons s rest ih =>
      cases rest with
      | nil =>
          obtain ⟨t, r', rfl⟩ := List.exists_cons_of_ne_nil hr
          rw [List.singleton_append, join_char_cons_cons]
          simp [join]
      | cons t rest =>
          rw [List.cons_append, List.cons_append, join_char_cons_cons, ← List.cons_append,
            ih (List.cons_ne_nil t rest), join_char_cons_cons, List.append_assoc, List.cons_append]

theorem join_concat_append (c : Char) (l : List Str) (s t : Str) :
    join [c] (l ++ [s ++ t]) = join [c] (l ++ [s]) ++ t := by
  by_cases hl : l = []
  · simp [hl, join]
  · rw [join_append hl (by simp), join_append hl (by simp)]
    simp [join]

theorem join_append_cons (c : Char) (s t : Str) (l : List Str) :
    join [c] ((s ++ t) :: l) = s ++ join [c] (t :: l) := by
  cases l with
  | nil => simp [join]
  | cons u rest => rw [join_char_cons_cons, join_char_cons_cons, List.append_assoc]

theorem join_concat (sep : Str) {parts : List Str} (h : parts ≠ []) (s : Str) :
    join sep (parts ++ [s]) = join sep parts ++ sep ++ s := by
  induction parts with
  | nil => exact absurd rfl h
  | cons t rest ih =>
      cases rest with
      | nil => simp [join]
      | cons u rest =>
          rw [List.cons_append, List.cons_append, join_cons_cons, ← List.cons_append,
            ih (List.cons_ne_nil u rest), join_cons_cons]
          simp only [List.append_assoc]

theorem join_ne_nil {sep : Str} {parts : List Str} (h : ∀ part ∈ parts, part ≠ [])
    (hne : parts ≠ []) : join sep parts ≠ [] := by
  cases parts with
  | nil => exact absurd rfl hne
  | cons s rest =>
      have hs := h s List.mem_cons_self
      cases rest with
      | nil => simpa [join] using hs
      | cons t rest =>
          rw [join_cons_cons]
          exact List.append_ne_nil_of_left_ne_nil hs _

/-- More parts make no joined text shorter. -/
theorem length_join_le_append (sep : Str) (l r : List Str) :
    (join sep l).length ≤ (join sep (l ++ r)).length := by
  induction r using List.reverseRecOn with
  | nil => rw [List.append_nil]
  | append_singleton r s ih =>
      rw [← List.append_assoc]
      by_cases hnil : l ++ r = []
      · rw [List.append_eq_nil_iff] at hnil
        rw [hnil.1, hnil.2]
        exact Nat.zero_le _
      · rw [join_concat sep hnil, List.append_assoc, List.length_append]
        omega

/-- A part written behind what was joined so far. -/
def joinNext (sep out part : Str) : Str := (if out = [] then [] else out ++ sep) ++ part

theorem foldl_joinNext_of_ne_nil {sep : Str} {parts : List Str} (h : ∀ part ∈ parts, part ≠ [])
    {out : Str} (hout : out ≠ []) :
    parts.foldl (joinNext sep) out = join sep (out :: parts) := by
  induction parts generalizing out with
  | nil => simp [join]
  | cons s rest ih =>
      obtain ⟨hs, hrest⟩ := List.forall_mem_cons.1 h
      rw [List.foldl_cons, joinNext, if_neg hout,
        ih hrest (List.append_ne_nil_of_right_ne_nil _ hs), join_cons_cons]
      cases rest with
      | nil => simp [join]
      | cons t rest => simp [join_cons_cons]

/-- Parts written one after the other are joined. -/
theorem foldl_joinNext {sep : Str} {parts : List Str} (h : ∀ part ∈ parts, part ≠ []) :
    parts.foldl (joinNext sep) [] = join sep parts := by
  cases parts with
  | nil => rfl
  | cons s rest =>
      obtain ⟨hs, hrest⟩ := List.forall_mem_cons.1 h
      exact foldl_joinNext_of_ne_nil hrest hs

theorem map_join (f : Char → Char) {c : Char} (hc : f c = c) (parts : List Str) :
    (join [c] parts).map f = join [c] (parts.map (List.map f)) := by
  induction parts with
  | nil => rfl
  | cons s rest ih =>
      cases rest with
      | nil => simp [join]
      | cons t rest =>
          rw [join_char_cons_cons, List.map_append, List.map_cons, hc, ih, List.map_cons,
            List.map_cons, List.map_cons, join_char_cons_cons]

/-! ## Patterns in joined parts -/

/-- The pattern ends one part, is whole parts after it and begins the part that follows. -/
def ReadsAcross (c : Char) (p : Str) (parts : List Str) : Prop :=
  ∃ first middle last a b, first :: (middle ++ [last]) <:+: parts ∧ a <:+ first ∧ b <+: last ∧
    p = join [c] (a :: (middle ++ [b]))

theorem ReadsAcross.of_isInfix {c : Char} {p : Str} {l l' : List Str} (h : ReadsAcross c p l)
    (hl : l <:+: l') : ReadsAcross c p l' := by
  obtain ⟨first, middle, last, a, b, hin, ha, hb, hp⟩ := h
  exact ⟨first, middle, last, a, b, hin.trans hl, ha, hb, hp⟩

theorem ReadsAcross.mem {c : Char} {p : Str} {parts : List Str} (h : ReadsAcross c p parts) :
    c ∈ p := by
  obtain ⟨first, middle, last, a, b, -, -, -, rfl⟩ := h
  obtain ⟨s, rest, hrest⟩ := List.exists_cons_of_ne_nil (List.append_ne_nil_of_right_ne_nil middle
    (List.cons_ne_nil b []))
  rw [hrest, join_char_cons_cons]
  simp

theorem prefix_append_iff {α : Type} {q s t : List α} :
    q <+: s ++ t ↔ q <+: s ∨ ∃ r, q = s ++ r ∧ r <+: t := by
  constructor
  · intro h
    rcases List.prefix_or_prefix_of_prefix h (List.prefix_append s t) with hq | ⟨r, rfl⟩
    · exact Or.inl hq
    · exact Or.inr ⟨r, rfl, (List.prefix_append_right_inj s).1 h⟩
  · rintro (h | ⟨r, rfl, hr⟩)
    · exact h.trans (List.prefix_append s t)
    · exact (List.prefix_append_right_inj s).2 hr

/-- A pattern at the start of joined parts is whole parts and the start of the next one. -/
theorem prefix_join {c : Char} {q s : Str} {rest : List Str} (h : q <+: join [c] (s :: rest)) :
    ∃ middle last b, middle ++ [last] <+: s :: rest ∧ b <+: last ∧
      q = join [c] (middle ++ [b]) := by
  induction rest generalizing q s with
  | nil =>
      rw [join, List.intercalate_singleton] at h
      exact ⟨[], s, q, List.prefix_rfl, h, by simp [join]⟩
  | cons t rest ih =>
      rw [join_char_cons_cons, prefix_append_iff] at h
      rcases h with h | ⟨r, rfl, hr⟩
      · exact ⟨[], s, q, ⟨t :: rest, rfl⟩, h, by simp [join]⟩
      · cases r with
        | nil => exact ⟨[], s, s, ⟨t :: rest, rfl⟩, List.prefix_rfl, by simp [join]⟩
        | cons x q =>
            rw [List.cons_prefix_cons] at hr
            obtain ⟨rfl, hq⟩ := hr
            obtain ⟨middle, last, b, hin, hb, rfl⟩ := ih hq
            refine ⟨s :: middle, last, b, List.cons_prefix_cons.2 ⟨rfl, hin⟩, hb, ?_⟩
            rw [List.cons_append, ← List.singleton_append (x := s),
              join_append (List.cons_ne_nil s []) (by simp)]
            simp [join]

theorem infix_join_of_mem {c : Char} {s : Str} {parts : List Str} (h : s ∈ parts) :
    s <:+: join [c] parts := by
  induction parts with
  | nil => exact absurd h List.not_mem_nil
  | cons t rest ih =>
      cases rest with
      | nil => simpa [join] using (List.mem_singleton.1 h ▸ List.infix_refl s)
      | cons u rest =>
          rw [join_char_cons_cons]
          rcases List.mem_cons.1 h with rfl | h
          · exact (List.prefix_append s _).isInfix
          · exact (ih h).trans ((List.suffix_cons c _).trans (List.suffix_append t _)).isInfix

theorem infix_join_of_isInfix {c : Char} {l l' : List Str} (h : l <:+: l') :
    join [c] l <:+: join [c] l' := by
  obtain ⟨before, after, rfl⟩ := h
  by_cases hl : l = []
  · rw [hl]
    exact List.nil_infix
  · have hright : join [c] (before ++ l) <+: join [c] (before ++ l ++ after) := by
      by_cases hafter : after = []
      · rw [hafter, List.append_nil]
      · rw [join_append (List.append_ne_nil_of_right_ne_nil before hl) hafter]
        exact List.prefix_append _ _
    have hleft : join [c] l <:+ join [c] (before ++ l) := by
      by_cases hbefore : before = []
      · rw [hbefore, List.nil_append]
      · rw [join_append hbefore hl]
        exact (List.suffix_cons c _).trans (List.suffix_append _ _)
    exact hleft.isInfix.trans hright.isInfix

/-- **A pattern stands in joined parts when it stands in one of them or is read across a joint.** -/
theorem infix_join_iff {c : Char} {p : Str} (hp : p ≠ []) (parts : List Str) :
    p <:+: join [c] parts ↔ (∃ s ∈ parts, p <:+: s) ∨ ReadsAcross c p parts := by
  constructor
  · intro h
    induction parts with
    | nil => exact absurd (List.eq_nil_of_infix_nil h) hp
    | cons s rest ih =>
        cases rest with
        | nil => exact Or.inl ⟨s, List.mem_singleton_self s, by simpa [join] using h⟩
        | cons t rest =>
            -- what the pattern leaves after the joint is the start of the remaining parts
            have hacross : ∀ a q, a <:+ s → q <+: join [c] (t :: rest) → p = a ++ c :: q →
                ReadsAcross c p (s :: t :: rest) := by
              rintro a q ha hq rfl
              obtain ⟨middle, last, b, hin, hb, rfl⟩ := prefix_join hq
              refine ⟨s, middle, last, a, b,
                (List.cons_prefix_cons.2 ⟨rfl, hin⟩ : s :: (middle ++ [last]) <+: _).isInfix,
                ha, hb, ?_⟩
              rw [← List.singleton_append (x := a), join_append (List.cons_ne_nil a []) (by simp)]
              simp [join]
            rw [join_char_cons_cons, List.infix_append_iff] at h
            rcases h with h | h | ⟨a, r, rfl, ha, hr⟩
            · exact Or.inl ⟨s, List.mem_cons_self, h⟩
            · rcases List.infix_cons_iff.1 h with h | h
              · obtain ⟨x, q, rfl⟩ := List.exists_cons_of_ne_nil hp
                rw [List.cons_prefix_cons] at h
                obtain ⟨rfl, hq⟩ := h
                exact Or.inr (hacross [] q List.nil_suffix hq rfl)
              · refine (ih h).imp ?_ (fun h => h.of_isInfix (List.suffix_cons s _).isInfix)
                rintro ⟨u, hu, hin⟩
                exact ⟨u, List.mem_cons_of_mem s hu, hin⟩
            · cases r with
              | nil => exact Or.inl ⟨s, List.mem_cons_self, by simpa using ha.isInfix⟩
              | cons x q =>
                  rw [List.cons_prefix_cons] at hr
                  obtain ⟨rfl, hq⟩ := hr
                  exact Or.inr (hacross a q ha hq rfl)
  · rintro (⟨s, hs, hin⟩ | ⟨first, middle, last, a, b, hin, ⟨a', rfl⟩, ⟨b', rfl⟩, rfl⟩)
    · exact hin.trans (infix_join_of_mem hs)
    · refine List.IsInfix.trans ?_ (infix_join_of_isInfix hin)
      rw [join_append_cons, ← List.cons_append, ← List.cons_append, join_concat_append]
      exact (List.prefix_append _ b').isInfix.trans (List.suffix_append a' _).isInfix

/-! ## Lines -/

/-- Without line breaks in it, a joined text has the lines it is joined from, but for carriage
    returns and an empty last line. -/
theorem lines_join_eq {parts : List Str} (h : ∀ part ∈ parts, '\n' ∉ part) (hne : parts ≠ []) :
    lines (join ['\n'] parts) = parts.dropLast.map stripCarriageReturn ++
      (if parts.getLastD [] = [] then [] else [parts.getLastD []]) := by
  rw [lines, split_join h hne]

theorem stripCarriageReturn_isPrefix (line : Str) : stripCarriageReturn line <+: line := by
  unfold stripCarriageReturn
  split
  · exact List.dropLast_prefix line
  · exact List.prefix_rfl

theorem stripCarriageReturn_eq_self_iff (line : Str) :
    stripCarriageReturn line = line ↔ line.getLast? ≠ some '\r' := by
  unfold stripCarriageReturn
  split
  · next h =>
    have hne : line ≠ [] := fun hnil => by rw [hnil] at h; cases h
    refine ⟨fun heq => ?_, fun hlast => absurd h hlast⟩
    have hlen := congrArg List.length heq
    rw [List.length_dropLast] at hlen
    have := List.length_pos_iff.2 hne
    omega
  · next h => exact ⟨fun _ => h, fun _ => rfl⟩

theorem map_stripCarriageReturn_eq_self_iff (parts : List Str) :
    parts.map stripCarriageReturn = parts ↔ ∀ part ∈ parts, part.getLast? ≠ some '\r' := by
  simp only [← stripCarriageReturn_eq_self_iff]
  conv_lhs => rhs; rw [← List.map_id parts]
  exact List.map_inj_left

/-- A line is a piece between line breaks, or the start of one. -/
theorem exists_piece_of_mem_lines {s line : Str} (h : line ∈ lines s) :
    ∃ piece ∈ split (· == '\n') s, line <+: piece := by
  rw [lines, List.mem_append] at h
  rcases h with h | h
  · obtain ⟨piece, hpiece, rfl⟩ := List.mem_map.1 h
    exact ⟨piece, List.dropLast_subset _ hpiece, stripCarriageReturn_isPrefix piece⟩
  · split at h
    · exact absurd h List.not_mem_nil
    · have hne : split (· == '\n') s ≠ [] := List.splitOnP_ne_nil _ _
      rw [List.mem_singleton.1 h, List.getLastD_eq_getLast?, List.getLast?_eq_some_getLast hne]
      exact ⟨_, List.getLast_mem hne, List.prefix_rfl⟩

theorem infix_of_mem_lines {s line : Str} (h : line ∈ lines s) : line <:+: s := by
  obtain ⟨piece, hpiece, hpre⟩ := exists_piece_of_mem_lines h
  exact hpre.isInfix.trans (infix_of_mem_split _ s piece hpiece)

theorem not_mem_of_mem_lines {s line : Str} (h : line ∈ lines s) : '\n' ∉ line := by
  obtain ⟨piece, hpiece, hpre⟩ := exists_piece_of_mem_lines h
  intro hmem
  simpa using not_mem_of_mem_split hpiece _ (hpre.mem hmem)

/-- A pattern that does not end in a carriage return stands in a line exactly when it stands in a
    piece between line breaks. -/
theorem exists_mem_lines_infix_iff {p : Str} (hp : p ≠ []) (f : Char → Char)
    (hreturn : p.getLast? ≠ some (f '\r')) (s : Str) :
    (∃ line ∈ lines s, p <:+: line.map f) ↔ ∃ piece ∈ split (· == '\n') s, p <:+: piece.map f := by
  constructor
  · rintro ⟨line, hline, hin⟩
    obtain ⟨piece, hpiece, hpre⟩ := exists_piece_of_mem_lines hline
    exact ⟨piece, hpiece, hin.trans (hpre.map f).isInfix⟩
  · rintro ⟨piece, hpiece, hin⟩
    obtain ⟨init, last, hsplit⟩ := List.eq_nil_or_concat (split (· == '\n') s) |>.resolve_left
      (List.splitOnP_ne_nil _ _)
    rw [List.concat_eq_append] at hsplit
    simp only [lines, hsplit, List.dropLast_concat, List.getLastD_concat]
    rw [hsplit, List.mem_append] at hpiece
    rcases hpiece with hpiece | hpiece
    · refine ⟨stripCarriageReturn piece,
        List.mem_append_left _ (List.mem_map_of_mem hpiece), ?_⟩
      by_contra havoid
      refine absurd hin (?_ : Avoids f p piece)
      by_cases hlast : piece.getLast? = some '\r'
      · rw [stripCarriageReturn, if_pos hlast] at havoid
        rw [← List.dropLast_append_getLast? _ hlast]
        exact Avoids.concat hp hreturn havoid
      · rwa [stripCarriageReturn, if_neg hlast] at havoid
    · obtain rfl := List.mem_singleton.1 hpiece
      have hne : piece ≠ [] := fun hnil => by simp [hnil, hp] at hin
      exact ⟨piece, List.mem_append_right _ (by rw [if_neg hne]; exact hpiece), hin⟩

/-- **What is lost by reading joined lines back**: a carriage return before a line break, and an
    empty last line. -/
theorem join_lines_join_eq_iff {parts : List Str} (h : ∀ part ∈ parts, '\n' ∉ part) :
    join ['\n'] (lines (join ['\n'] parts)) = join ['\n'] parts ↔
      (∀ part ∈ parts.dropLast, part.getLast? ≠ some '\r') ∧
        (parts.length ≤ 1 ∨ parts.getLast? ≠ some []) := by
  rcases List.eq_nil_or_concat parts with rfl | ⟨init, last, rfl⟩
  · simp [join, lines, split]
  · rw [List.concat_eq_append] at h ⊢
    rw [lines_join_eq h (by simp), List.dropLast_concat, List.getLastD_concat]
    obtain ⟨hinit, hlast⟩ := List.forall_mem_append.1 h
    have hstrip : ∀ part ∈ init.map stripCarriageReturn, '\n' ∉ part := by
      simp only [List.mem_map, forall_exists_index, and_imp, forall_apply_eq_imp_iff₂]
      exact fun part hpart hmem => hinit part hpart ((stripCarriageReturn_isPrefix part).mem hmem)
    by_cases hnil : last = []
    · rw [hnil, if_pos rfl, List.append_nil]
      by_cases hone : init = []
      · simp [hone, join]
      · rw [join_inj hstrip (hnil ▸ h) (by simpa using hone) (by simp)]
        constructor
        · intro heq
          simpa using congrArg List.length heq
        · rintro ⟨-, hlen | hne⟩
          · have := List.length_pos_iff.2 hone
            simp only [List.length_append, List.length_singleton] at hlen
            omega
          · simp at hne
    · rw [if_neg hnil, join_inj (List.forall_mem_append.2 ⟨hstrip, hlast⟩) h (by simp) (by simp),
        List.append_cancel_right_eq, map_stripCarriageReturn_eq_self_iff]
      simp [hnil]

end RustStd
