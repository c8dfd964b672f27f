import Fndr.Library.Lines

set_option autoImplicit false

/-! # White space collapsed

`collapse s` joins the words of `s` by single spaces. Its value is computed from the front
(`collapse_cons`), so the collapsed form of a part of a text stands in the collapsed form of the
text, wherever the part was cut (`collapse_isInfix`). A collapsed text is its own collapsed form
(`collapse_collapse`), and its only white space is spaces (`eq_space_of_mem_collapse`). -/

namespace RustStd

/-- `split_whitespace().collect::<Vec<_>>().join(" ")`. -/
def collapse (s : Str) : Str := join " ".toList (splitWhitespace s)

theorem collapse_eq (s : Str) : collapse s = join [' '] (fields isWhitespace s) := rfl

theorem collapse_nil : collapse [] = [] := rfl

theorem join_eq_nil_iff {parts : List Str} (h : ∀ part ∈ parts, part ≠ []) :
    join [' '] parts = [] ↔ parts = [] := by
  cases parts with
  | nil => simp [join]
  | cons s rest =>
      have hs := h s List.mem_cons_self
      cases rest with
      | nil => simp [join, hs]
      | cons t rest => simp [join_char_cons_cons]

theorem collapse_eq_nil_iff (s : Str) : collapse s = [] ↔ ∀ c ∈ s, isWhitespace c = true := by
  rw [collapse_eq, join_eq_nil_iff (fun w hw => (of_mem_fields hw).1), fields_eq_nil_iff]

/-- The only white space of a collapsed text is spaces. -/
theorem eq_space_of_mem_collapse {s : Str} {c : Char} (h : c ∈ collapse s)
    (hc : isWhitespace c = true) : c = ' ' := by
  have hwords : ∀ w ∈ fields isWhitespace s, ∀ d ∈ w, isWhitespace d = false :=
    fun w hw => (of_mem_fields hw).2
  rw [collapse_eq] at h
  generalize fields isWhitespace s = words at h hwords
  induction words with
  | nil => exact absurd h List.not_mem_nil
  | cons w rest ih =>
      obtain ⟨hw, hrest⟩ := List.forall_mem_cons.1 hwords
      have hword : c ∉ w := fun hmem => by
        rw [hw c hmem] at hc
        cases hc
      cases rest with
      | nil => exact absurd (by simpa [join] using h) hword
      | cons v rest =>
          rw [join_char_cons_cons, List.mem_append, List.mem_cons] at h
          exact (h.resolve_left hword).elim id (fun h => ih h hrest)

/-- The fields of a text and of its collapsed form are the same. -/
theorem fields_collapse (s : Str) : fields isWhitespace (collapse s) = fields isWhitespace s :=
  fields_join_words (by decide) (fun _ hw => of_mem_fields hw)

theorem collapse_collapse (s : Str) : collapse (collapse s) = collapse s := by
  rw [collapse_eq, fields_collapse, ← collapse_eq]

/-- A collapsed text has no white space at its ends. -/
theorem isWhitespace_head?_collapse (s : Str) :
    ∀ c ∈ (collapse s).head?, isWhitespace c = false := by
  have hwords : ∀ w ∈ fields isWhitespace s, w ≠ [] ∧ ∀ d ∈ w, isWhitespace d = false :=
    fun w hw => of_mem_fields hw
  rw [collapse_eq]
  cases hfields : fields isWhitespace s with
  | nil => exact fun c hc => by cases hc
  | cons w rest =>
      obtain ⟨hne, hw⟩ := hwords w (by rw [hfields]; exact List.mem_cons_self)
      obtain ⟨d, w, rfl⟩ := List.exists_cons_of_ne_nil hne
      intro c hc
      have hd : d = c := by
        cases rest with
        | nil => simpa [join] using hc
        | cons v rest => simpa [join_char_cons_cons] using hc
      exact hw c (hd ▸ List.mem_cons_self)

theorem isWhitespace_getLast?_collapse (s : Str) :
    ∀ c ∈ (collapse s).getLast?, isWhitespace c = false := by
  have hwords : ∀ w ∈ fields isWhitespace s, w ≠ [] ∧ ∀ d ∈ w, isWhitespace d = false :=
    fun w hw => of_mem_fields hw
  rw [collapse_eq]
  rcases List.eq_nil_or_concat (fields isWhitespace s) with hfields | ⟨rest, w, hfields⟩
  · rw [hfields]
    exact fun c hc => by cases hc
  · rw [List.concat_eq_append] at hfields
    obtain ⟨hne, hw⟩ := hwords w (by rw [hfields]; simp)
    obtain ⟨v, d, rfl⟩ := (List.eq_nil_or_concat w).resolve_left hne
    intro c hc
    have hd : d = c := by
      rw [hfields] at hc
      by_cases hrest : rest = []
      · simpa [hrest, join] using hc
      · have hword : join [' '] [v.concat d] = v ++ [d] := by simp [join]
        rw [join_append hrest (List.cons_ne_nil _ _), hword, ← List.cons_append,
          ← List.append_assoc, List.getLast?_concat] at hc
        exact Option.some.inj hc
    exact hw c (by simp [hd])

/-! ## Computing from the front -/

theorem fields_cons_of_pos {p : Char → Bool} {c : Char} (hc : p c = true) (s : Str) :
    fields p (c :: s) = fields p s := fields_append_cons [] s hc

/-- A word in front of a separator is the first field. -/
theorem fields_word_append_cons {p : Char → Bool} {w : Str} {c : Char} (hw : w ≠ [])
    (hword : ∀ d ∈ w, p d = false) (hc : p c = true) (s : Str) :
    fields p (w ++ c :: s) = w :: fields p s := by
  rw [fields_append_cons w s hc, fields_of_forall hw hword, List.singleton_append]

/-- What follows a first character that is no white space. -/
def collapseTail : Str → Str
  | [] => []
  | d :: s =>
      if isWhitespace d then (if collapse s = [] then [] else ' ' :: collapse s)
      else collapse (d :: s)

theorem collapse_word_append_cons {w : Str} {c : Char} (hw : w ≠ [])
    (hword : ∀ d ∈ w, isWhitespace d = false) (hc : isWhitespace c = true) (s : Str) :
    collapse (w ++ c :: s) = w ++ (if collapse s = [] then [] else ' ' :: collapse s) := by
  rw [collapse_eq, fields_word_append_cons hw hword hc]
  by_cases hnil : collapse s = []
  · have : fields isWhitespace s = [] := (fields_eq_nil_iff s).2 ((collapse_eq_nil_iff s).1 hnil)
    rw [if_pos hnil, this, List.append_nil]
    simp [join]
  · obtain ⟨v, rest, hrest⟩ := List.exists_cons_of_ne_nil
      (fun h => hnil (by rw [collapse_eq, h]; rfl) : fields isWhitespace s ≠ [])
    rw [if_neg hnil, collapse_eq s, hrest, join_char_cons_cons]

theorem collapse_cons_of_whitespace {c : Char} (hc : isWhitespace c = true) (s : Str) :
    collapse (c :: s) = collapse s := by
  rw [collapse_eq, fields_cons_of_pos hc, ← collapse_eq]

/-- A text in front is kept character by character up to its first white space. -/
theorem collapse_cons {c : Char} (hc : isWhitespace c = false) (s : Str) :
    collapse (c :: s) = c :: collapseTail s := by
  rcases exists_first_separator isWhitespace s with hword | ⟨w, d, t, rfl, hw, hd⟩
  · have hall : ∀ e ∈ c :: s, isWhitespace e = false := List.forall_mem_cons.2 ⟨hc, hword⟩
    rw [collapse_eq, fields_of_forall (List.cons_ne_nil c s) hall]
    cases s with
    | nil => simp [join, collapseTail]
    | cons e s =>
        rw [collapseTail, if_neg (by simp [hword e List.mem_cons_self]), collapse_eq,
          fields_of_forall (List.cons_ne_nil e s) hword]
        simp [join]
  · rw [← List.cons_append, collapse_word_append_cons (List.cons_ne_nil c w)
      (List.forall_mem_cons.2 ⟨hc, hw⟩) hd, List.cons_append]
    cases w with
    | nil => rw [List.nil_append, List.nil_append, collapseTail, if_pos hd]
    | cons e w =>
        have htail : collapseTail (e :: w ++ d :: t) = collapse (e :: w ++ d :: t) :=
          if_neg (by simp [hw e List.mem_cons_self])
        rw [htail, collapse_word_append_cons (List.cons_ne_nil e w) hw hd]

/-! ## Parts of a text -/

theorem collapse_isSuffix (a s : Str) : collapse s <:+ collapse (a ++ s) := by
  induction a with
  | nil => exact List.suffix_rfl
  | cons c a ih =>
      rw [List.cons_append]
      cases hc : isWhitespace c with
      | true => rw [collapse_cons_of_whitespace hc]; exact ih
      | false =>
          rw [collapse_cons hc]
          refine List.IsSuffix.trans ?_ (List.suffix_cons c _)
          cases hrest : a ++ s with
          | nil => rw [(List.append_eq_nil_iff.1 hrest).2]; exact List.nil_suffix
          | cons d rest =>
              rw [hrest] at ih
              rw [collapseTail]
              split
              · next hd =>
                rw [collapse_cons_of_whitespace hd] at ih
                split
                · next hnil => rwa [hnil] at ih
                · exact ih.trans (List.suffix_cons _ _)
              · exact ih

theorem collapse_isPrefix (s b : Str) : collapse s <+: collapse (s ++ b) := by
  induction s with
  | nil => exact List.nil_prefix
  | cons c s ih =>
      rw [List.cons_append]
      cases hc : isWhitespace c with
      | true => rw [collapse_cons_of_whitespace hc, collapse_cons_of_whitespace hc]; exact ih
      | false =>
          rw [collapse_cons hc, collapse_cons hc]
          refine List.cons_prefix_cons.2 ⟨rfl, ?_⟩
          cases s with
          | nil => exact List.nil_prefix
          | cons d s =>
              rw [List.cons_append, collapseTail, collapseTail]
              by_cases hd : isWhitespace d = true
              · rw [if_pos hd, if_pos hd]
                rw [List.cons_append, collapse_cons_of_whitespace hd,
                  collapse_cons_of_whitespace hd] at ih
                by_cases hnil : collapse s = []
                · rw [if_pos hnil]
                  exact List.nil_prefix
                · rw [if_neg hnil, if_neg (fun h => hnil (by rw [h] at ih; simpa using ih))]
                  exact List.cons_prefix_cons.2 ⟨rfl, ih⟩
              · rw [if_neg hd, if_neg hd, ← List.cons_append]
                exact ih

/-- **What stands in a text stands, collapsed, in the collapsed text.** -/
theorem collapse_isInfix {s t : Str} (h : s <:+: t) : collapse s <:+: collapse t := by
  obtain ⟨a, b, rfl⟩ := h
  rw [List.append_assoc]
  exact (collapse_isPrefix s b).isInfix.trans (collapse_isSuffix a (s ++ b)).isInfix

/-! ## White space at the ends -/

/-- What `trim` removes is white space. -/
theorem exists_trim_append (s : Str) : ∃ a b, s = a ++ trim s ++ b ∧
    (∀ c ∈ a, isWhitespace c = true) ∧ ∀ c ∈ b, isWhitespace c = true := by
  have hstart := List.takeWhile_append_dropWhile (p := isWhitespace) (l := s)
  have hend := List.rdropWhile_append_rtakeWhile (p := isWhitespace) (l := s.dropWhile isWhitespace)
  refine ⟨s.takeWhile isWhitespace, (s.dropWhile isWhitespace).rtakeWhile isWhitespace, ?_, ?_, ?_⟩
  · rw [List.append_assoc, trim, trimEndMatches, trimStartMatches, hend, hstart]
  · exact fun c hc => List.mem_takeWhile_imp hc
  · exact fun c hc => List.mem_rtakeWhile_imp hc

theorem trim_eq_nil_iff (s : Str) : trim s = [] ↔ ∀ c ∈ s, isWhitespace c = true := by
  constructor
  · intro h
    obtain ⟨a, b, hs, ha, hb⟩ := exists_trim_append s
    rw [h, List.append_nil] at hs
    rw [hs]
    exact List.forall_mem_append.2 ⟨ha, hb⟩
  · intro h
    have hpadded := trim_padded (s := []) (b := []) h nofun nofun
    rwa [List.append_nil, List.append_nil] at hpadded

theorem fields_trim (s : Str) : fields isWhitespace (trim s) = fields isWhitespace s := by
  obtain ⟨a, b, hs, ha, hb⟩ := exists_trim_append s
  have hleft : ∀ t, fields isWhitespace (a ++ t) = fields isWhitespace t := by
    intro t
    clear hs
    induction a with
    | nil => rfl
    | cons c a ih =>
        obtain ⟨hc, ha⟩ := List.forall_mem_cons.1 ha
        rw [List.cons_append, fields_cons_of_pos hc, ih ha]
  have hright : fields isWhitespace (trim s ++ b) = fields isWhitespace (trim s) := by
    cases b with
    | nil => rw [List.append_nil]
    | cons c b =>
        obtain ⟨hc, hb⟩ := List.forall_mem_cons.1 hb
        rw [fields_append_cons _ _ hc, (fields_eq_nil_iff b).2 hb, List.append_nil]
  conv_rhs => rw [hs, List.append_assoc, hleft, hright]

theorem collapse_trim (s : Str) : collapse (trim s) = collapse s := by
  rw [collapse_eq, fields_trim, ← collapse_eq]

theorem trim_cons_of_whitespace {c : Char} (hc : isWhitespace c = true) (s : Str) :
    trim (c :: s) = trim s := by
  rw [trim, trimStartMatches, List.dropWhile_cons_of_pos hc, trim, trimStartMatches]

theorem trim_concat_of_whitespace {c : Char} (hc : isWhitespace c = true) (s : Str) :
    trim (s ++ [c]) = trim s := by
  rw [trim, trimStartMatches, trimEndMatches, List.dropWhile_append, trim, trimStartMatches,
    trimEndMatches]
  split
  · next hnil =>
    rw [List.isEmpty_iff.1 hnil, List.dropWhile_cons_of_pos hc, List.dropWhile_nil]
  · exact List.rdropWhile_concat_pos _ _ _ hc

end RustStd
