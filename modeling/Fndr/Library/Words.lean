import Fndr.Library.Strings
import Mathlib.Data.List.Forall2

set_option autoImplicit false

/-! # Words of a text

`fields p s` are the non-empty pieces between the separators of `s`: the words of a text for white
space, the tokens of a full-text index for everything that is not alphanumeric. Fields are computed
piece by piece around any separator (`fields_append_cons`), so a text that is put together from
parts with separators between them has the fields of its parts (`fields_join`).

`LawfulUnicode` is what the standard library documents of `str::to_lowercase`. -/

namespace RustStd

/-! ## Fields -/

/-- The non-empty pieces between the characters satisfying `p`. -/
def fields (p : Char → Bool) (s : Str) : List Str := (split p s).filter (· ≠ [])

theorem splitWhitespace_eq_fields (s : Str) : splitWhitespace s = fields isWhitespace s := rfl

theorem fields_nil (p : Char → Bool) : fields p [] = [] := rfl

variable {p : Char → Bool}

theorem fields_append_cons (s t : Str) {c : Char} (hc : p c = true) :
    fields p (s ++ c :: t) = fields p s ++ fields p t := by
  rw [fields, split, List.splitOnP_append_cons s t hc, List.filter_append]
  rfl

theorem fields_of_forall {s : Str} (hs : s ≠ []) (h : ∀ c ∈ s, p c = false) : fields p s = [s] := by
  rw [fields, split_of_forall h]
  simp [hs]

/-- A text is free of separators, or it has a first one. -/
theorem exists_first_separator (p : Char → Bool) (s : Str) :
    (∀ c ∈ s, p c = false) ∨
      ∃ w c t, s = w ++ c :: t ∧ (∀ d ∈ w, p d = false) ∧ p c = true := by
  induction s with
  | nil => exact Or.inl (fun _ h => absurd h List.not_mem_nil)
  | cons c cs ih =>
      by_cases hc : p c = true
      · exact Or.inr ⟨[], c, cs, rfl, fun _ h => absurd h List.not_mem_nil, hc⟩
      · rw [Bool.not_eq_true] at hc
        rcases ih with ih | ⟨w, d, t, rfl, hw, hd⟩
        · exact Or.inl (List.forall_mem_cons.2 ⟨hc, ih⟩)
        · exact Or.inr ⟨c :: w, d, t, rfl, List.forall_mem_cons.2 ⟨hc, hw⟩, hd⟩

/-- Induction over the separators of a text. -/
theorem fields_induction {motive : Str → Prop} (p : Char → Bool)
    (word : ∀ s, (∀ c ∈ s, p c = false) → motive s)
    (separator : ∀ w c t, (∀ d ∈ w, p d = false) → p c = true → motive t → motive (w ++ c :: t))
    (s : Str) : motive s := by
  induction hn : s.length using Nat.strong_induction_on generalizing s with
  | _ n ih =>
      rcases exists_first_separator p s with h | ⟨w, c, t, rfl, hw, hc⟩
      · exact word s h
      · refine separator w c t hw hc (ih t.length ?_ t rfl)
        simp only [List.length_append, List.length_cons] at hn
        omega

/-- A text without separators is its own field, unless it is empty. -/
theorem mem_fields_word {v w : Str} (hv : ∀ c ∈ v, p c = false) :
    w ∈ fields p v ↔ w = v ∧ v ≠ [] := by
  by_cases hnil : v = []
  · simp [hnil, fields_nil]
  · simp [fields_of_forall hnil hv, hnil]

theorem of_mem_fields {s w : Str} (h : w ∈ fields p s) : w ≠ [] ∧ ∀ c ∈ w, p c = false := by
  induction s using fields_induction p generalizing w with
  | word s hs =>
      obtain ⟨rfl, hne⟩ := (mem_fields_word hs).1 h
      exact ⟨hne, hs⟩
  | separator v c t hv hc ih =>
      rw [fields_append_cons v t hc, List.mem_append] at h
      rcases h with h | h
      · obtain ⟨rfl, hne⟩ := (mem_fields_word hv).1 h
        exact ⟨hne, hv⟩
      · exact ih h

theorem fields_eq_nil_iff (s : Str) : fields p s = [] ↔ ∀ c ∈ s, p c = true := by
  induction s using fields_induction p with
  | word s hs =>
      cases s with
      | nil => simp [fields_nil]
      | cons c cs =>
          rw [fields_of_forall (List.cons_ne_nil c cs) hs]
          simp [hs c List.mem_cons_self]
  | separator v c t hv hc ih =>
      rw [fields_append_cons v t hc, List.append_eq_nil_iff, ih]
      cases v with
      | nil => simp [fields_nil, hc]
      | cons d ds =>
          rw [fields_of_forall (List.cons_ne_nil d ds) hv]
          simp [hv d List.mem_cons_self]

/-- The fields of parts joined by a separator are the fields of the parts. -/
theorem fields_join {c : Char} (hc : p c = true) (parts : List Str) :
    fields p (join [c] parts) = parts.flatMap (fields p) := by
  induction parts with
  | nil => rfl
  | cons s rest ih =>
      cases rest with
      | nil => simp [join]
      | cons t rest =>
          rw [join_char_cons_cons, fields_append_cons _ _ hc, List.flatMap_cons, ih]

theorem fields_join_words {c : Char} (hc : p c = true) {ws : List Str}
    (h : ∀ w ∈ ws, w ≠ [] ∧ ∀ d ∈ w, p d = false) : fields p (join [c] ws) = ws := by
  rw [fields_join hc]
  induction ws with
  | nil => rfl
  | cons w ws ih =>
      obtain ⟨hw, hws⟩ := List.forall_mem_cons.1 h
      rw [List.flatMap_cons, fields_of_forall hw.1 hw.2, ih hws]
      rfl

/-- Joining the fields and splitting at the joint gives them back. -/
theorem split_join_fields (s : Str) {c : Char} (hc : p c = true) (hne : fields p s ≠ []) :
    split (· == c) (join [c] (fields p s)) = fields p s := by
  refine List.splitOn_intercalate c (fun w hw hmem => ?_) hne
  have := (of_mem_fields hw).2 c hmem
  rw [hc] at this
  cases this

/-- The lines of lines joined by `\n`. -/
theorem lines_join {parts : List Str}
    (h : ∀ part ∈ parts, part ≠ [] ∧ ∀ c ∈ part, c ≠ '\n' ∧ c ≠ '\r') :
    lines (join ['\n'] parts) = parts := by
  rcases List.eq_nil_or_concat parts with rfl | ⟨init, last, rfl⟩
  · rfl
  · rw [List.concat_eq_append] at h ⊢
    have hsplit : split (· == '\n') (join ['\n'] (init ++ [last])) = init ++ [last] :=
      List.splitOn_intercalate '\n' (fun part hpart hmem => ((h part hpart).2 _ hmem).1 rfl) (by simp)
    have hkeep : init.map stripCarriageReturn = init := by
      conv_rhs => rw [← List.map_id init]
      refine List.map_congr_left (fun part hpart => ?_)
      rw [stripCarriageReturn, if_neg]
      · rfl
      · exact fun hlast => ((h part (List.mem_append_left _ hpart)).2 _
          (List.mem_of_mem_getLast? hlast)).2 rfl
    simp only [lines, hsplit, List.dropLast_concat, List.getLastD_concat, hkeep]
    rw [if_neg (h last (by simp)).1]

/-- Fields keep every character that is not a separator, in order. -/
theorem flatten_fields (s : Str) : (fields p s).flatten = s.filter (fun c => !p c) := by
  have hword : ∀ w : Str, (∀ c ∈ w, p c = false) →
      (fields p w).flatten = w.filter (fun c => !p c) := by
    intro w hw
    rw [List.filter_eq_self.2 (fun c hc => by rw [hw c hc]; rfl)]
    by_cases hnil : w = []
    · rw [hnil]
      rfl
    · rw [fields_of_forall hnil hw, List.flatten_singleton]
  induction s using fields_induction p with
  | word s hs => exact hword s hs
  | separator w c t hw hc ih =>
      rw [fields_append_cons w t hc, List.flatten_append, ih, hword w hw, List.filter_append,
        List.filter_cons_of_neg (by simp [hc])]

/-- A word between coarser separators has consecutive fields in the text. -/
theorem fields_isInfix_of_mem {q : Char → Bool} (hqp : ∀ c, q c = true → p c = true) {s w : Str}
    (h : w ∈ fields q s) : fields p w <:+: fields p s := by
  induction s using fields_induction q with
  | word s hs => rw [((mem_fields_word hs).1 h).1]
  | separator v c t hv hc ih =>
      rw [fields_append_cons v t (hqp c hc)]
      rw [fields_append_cons v t hc, List.mem_append] at h
      rcases h with h | h
      · rw [((mem_fields_word hv).1 h).1]
        exact (List.prefix_append _ _).isInfix
      · exact (ih h).trans (List.suffix_append _ _).isInfix

/-! ## Windows -/

theorem mem_windows {α : Type} {n : ℕ} {l w : List α} :
    w ∈ windows n l ↔ w.length = n ∧ w <:+: l := by
  simp only [windows, List.mem_filter, List.mem_map, List.mem_tails, decide_eq_true_eq]
  constructor
  · rintro ⟨⟨t, ht, rfl⟩, hlen⟩
    exact ⟨hlen, (List.take_prefix n t).isInfix.trans ht.isInfix⟩
  · rintro ⟨hlen, s, t, rfl⟩
    refine ⟨⟨w ++ t, ⟨s, by simp⟩, ?_⟩, hlen⟩
    rw [← hlen, List.take_left]

/-- A list is a contiguous sublist when one of the windows of its length is the list. -/
theorem any_windows_eq_true {α : Type} [BEq α] [LawfulBEq α] (w l : List α) :
    (windows w.length l).any (· == w) = true ↔ w <:+: l := by
  rw [List.any_eq_true]
  constructor
  · rintro ⟨v, hv, heq⟩
    exact beq_iff_eq.1 heq ▸ (mem_windows.1 hv).2
  · intro h
    exact ⟨w, mem_windows.2 ⟨rfl, h⟩, beq_self_eq_true w⟩

/-! ## Trimming -/

/-- White space around a text that has none is what `trim` removes. -/
theorem trim_padded {a s b : Str} (ha : ∀ c ∈ a, isWhitespace c = true)
    (hs : ∀ c ∈ s, isWhitespace c = false) (hb : ∀ c ∈ b, isWhitespace c = true) :
    trim (a ++ s ++ b) = s := by
  have hend : trimEndMatches isWhitespace (s ++ b) = s := by
    induction b using List.reverseRecOn with
    | nil =>
        rw [List.append_nil, trimEndMatches]
        refine List.rdropWhile_eq_self_iff.2 (fun hl => ?_)
        simp [hs _ (List.getLast_mem hl)]
    | append_singleton b c ih =>
        obtain ⟨hb, hc⟩ := List.forall_mem_append.1 hb
        rw [trimEndMatches, ← List.append_assoc, List.rdropWhile_concat_pos _ _ _ (hc c (by simp))]
        exact ih hb
  rw [trim, trimStartMatches, List.append_assoc, List.dropWhile_append_of_pos ha]
  cases s with
  | nil => rw [List.nil_append, ← List.append_nil b, List.dropWhile_append_of_pos hb]; rfl
  | cons c cs =>
      rw [List.cons_append, List.dropWhile_cons_of_neg (by simp [hs c]), ← List.cons_append, hend]

/-- A text is trimmed when no white space stands at either end. -/
theorem trim_eq_self_iff (s : Str) :
    trim s = s ↔ (∀ c ∈ s.head?, isWhitespace c = false) ∧
      ∀ c ∈ s.getLast?, isWhitespace c = false := by
  cases s with
  | nil => simp [trim, trimStartMatches, trimEndMatches]
  | cons x xs =>
      have hlast : (x :: xs).getLast? = some ((x :: xs).getLast (List.cons_ne_nil x xs)) :=
        List.getLast?_eq_some_getLast _
      rw [hlast, List.head?_cons]
      simp only [Option.mem_some_iff, forall_eq', ← Bool.not_eq_true]
      constructor
      · intro h
        have hpre : trim (x :: xs) <+: trimStartMatches isWhitespace (x :: xs) :=
          List.rdropWhile_prefix _ _
        have hstart : trimStartMatches isWhitespace (x :: xs) = x :: xs := by
          rw [h] at hpre
          exact (List.dropWhile_suffix _).eq_of_length_le hpre.length_le
        rw [trim, hstart] at h
        exact ⟨List.dropWhile_eq_self_iff.1 hstart (Nat.succ_pos _),
          List.rdropWhile_eq_self_iff.1 h (List.cons_ne_nil x xs)⟩
      · rintro ⟨hhead, hend⟩
        have hstart : trimStartMatches isWhitespace (x :: xs) = x :: xs :=
          List.dropWhile_eq_self_iff.2 (fun _ => hhead)
        rw [trim, hstart]
        exact List.rdropWhile_eq_self_iff.2 (fun _ => hend)

theorem isWhitespace_getLast?_trim (s : Str) : ∀ c ∈ (trim s).getLast?, isWhitespace c = false := by
  intro c hc
  obtain ⟨hne, rfl⟩ := List.mem_getLast?_eq_getLast hc
  exact Bool.eq_false_iff.2 (List.rdropWhile_last_not isWhitespace _ hne)

theorem isWhitespace_head?_trim (s : Str) : ∀ c ∈ (trim s).head?, isWhitespace c = false := by
  intro c hc
  obtain ⟨tail, htail⟩ := List.head?_eq_some_iff.1 hc
  obtain ⟨rest, hrest⟩ : trim s <+: s.dropWhile isWhitespace := List.rdropWhile_prefix _ _
  have hstart := List.head?_dropWhile_not isWhitespace s
  rwa [← hrest, htail] at hstart

theorem trim_trim (s : Str) : trim (trim s) = trim s :=
  (trim_eq_self_iff (trim s)).2 ⟨isWhitespace_head?_trim s, isWhitespace_getLast?_trim s⟩

/-! ## Lower case -/

/-- What one character becomes in lower case: an ASCII character its ASCII lower case; any other
    character nothing ASCII but lower-case letters; white space exactly where there was some. -/
structure LowersTo (c : Char) (piece : Str) : Prop where
  ne_nil : piece ≠ []
  ascii : c.toNat < 128 → piece = [c.toLower]
  other : 128 ≤ c.toNat → ∀ d ∈ piece, d.toNat < 128 → d.isLower = true
  whitespace : ∀ d ∈ piece, isWhitespace d = isWhitespace c

/-- What is documented of `str::to_lowercase` and `char::is_alphanumeric`: lower-casing works
    character by character, up to the context of a final sigma, which white space ends; what is in
    lower case stays; what is alphanumeric is no white space. -/
class LawfulUnicode [UnicodeTables] : Prop where
  toLowercase_pieces : ∀ s : Str,
    ∃ pieces : List Str, toLowercase s = pieces.flatten ∧ List.Forall₂ LowersTo s pieces
  toLowercase_append_cons : ∀ (s t : Str) (c : Char), isWhitespace c = true →
    toLowercase (s ++ c :: t) = toLowercase s ++ c :: toLowercase t
  toLowercase_settled : ∀ s t : Str, (∀ c ∈ t, c ∈ toLowercase s) → toLowercase t = t
  isAlphanumeric_ascii : ∀ c : Char, c.toNat < 128 → isAlphanumeric c = c.isAlphanum
  isAlphanumeric_of_isWhitespace : ∀ c : Char, isWhitespace c = true → isAlphanumeric c = false

theorem toNat_toLower (c : Char) :
    c.toLower.toNat = if 65 ≤ c.toNat ∧ c.toNat ≤ 90 then c.toNat + 32 else c.toNat := by
  have hrange : (c.val ≥ 'A'.val ∧ c.val ≤ 'Z'.val) ↔ 65 ≤ c.toNat ∧ c.toNat ≤ 90 := Iff.rfl
  unfold Char.toLower
  split
  · next h =>
    rw [if_pos (hrange.1 h)]
    have hadd : (c.val + ('a'.val - 'A'.val)).toNat = (c.val.toNat + 32) % 2 ^ 32 :=
      UInt32.toNat_add _ _
    have hle : c.val.toNat ≤ 90 := (hrange.1 h).2
    exact hadd.trans (Nat.mod_eq_of_lt (by omega))
  · next h => rw [if_neg (fun hc => h (hrange.2 hc))]

/-- No white space lies between the ASCII digits and the last ASCII letter. -/
theorem isWhitespace_eq_false_of_range {c : Char} (hlow : 48 ≤ c.toNat) (hhigh : c.toNat ≤ 122) :
    isWhitespace c = false := by
  simp only [isWhitespace]
  grind

theorem isWhitespace_toLower (c : Char) : isWhitespace c.toLower = isWhitespace c := by
  have hlower := toNat_toLower c
  split at hlower
  · next hc =>
    rw [isWhitespace_eq_false_of_range (c := c) (by omega) (by omega),
      isWhitespace_eq_false_of_range (c := c.toLower) (by omega) (by omega)]
  · simp only [isWhitespace, hlower]

theorem toLower_of_isWhitespace {c : Char} (hc : isWhitespace c = true) : c.toLower = c := by
  refine Char.toNat_inj.1 ?_
  rw [toNat_toLower, if_neg]
  rintro ⟨hlow, hhigh⟩
  rw [isWhitespace_eq_false_of_range (by omega) (by omega)] at hc
  cases hc

theorem toLower_of_not_letter {c : Char} (h : ¬ (65 ≤ c.toNat ∧ c.toNat ≤ 90)) : c.toLower = c := by
  refine Char.toNat_inj.1 ?_
  rw [toNat_toLower, if_neg h]

/-- Only a lower-case letter comes from another character. -/
theorem eq_of_toLower_eq {c d : Char} (hd : ¬ (97 ≤ d.toNat ∧ d.toNat ≤ 122)) (h : c.toLower = d) :
    c = d := by
  rw [← h, toNat_toLower] at hd
  rw [← h, toLower_of_not_letter]
  rintro ⟨hlow, hhigh⟩
  rw [if_pos ⟨hlow, hhigh⟩] at hd
  omega

theorem toLower_toLower (c : Char) : c.toLower.toLower = c.toLower := by
  refine toLower_of_not_letter ?_
  rw [toNat_toLower]
  split <;> omega

theorem toAsciiLowercase_idem (s : Str) :
    toAsciiLowercase (toAsciiLowercase s) = toAsciiLowercase s := by
  rw [toAsciiLowercase, toAsciiLowercase, List.map_map]
  exact List.map_congr_left (fun c _ => toLower_toLower c)

theorem isAlpha_eq (c : Char) : c.isAlpha = (c.isUpper || c.isLower) := rfl

theorem isUpper_iff (c : Char) : c.isUpper = true ↔ 65 ≤ c.toNat ∧ c.toNat ≤ 90 := by
  have hrange : c.isUpper = decide (65 ≤ c.val ∧ c.val ≤ 90) := rfl
  rw [hrange]
  simp [UInt32.le_iff_toNat_le, ← Char.toNat_val]

theorem isLower_iff (c : Char) : c.isLower = true ↔ 97 ≤ c.toNat ∧ c.toNat ≤ 122 := by
  have hrange : c.isLower = (decide (97 ≤ c.val) && decide (c.val ≤ 122)) := rfl
  rw [hrange]
  simp [UInt32.le_iff_toNat_le, ← Char.toNat_val]

/-- An ASCII character that is no lower-case letter comes from itself alone. -/
theorem LowersTo.eq_of_mem {c d : Char} {piece : Str} (h : LowersTo c piece) (hd : d ∈ piece)
    (hsmall : d.toNat < 128) (hlower : d.isLower = false) : c = d := by
  by_cases hascii : c.toNat < 128
  · rw [h.ascii hascii, List.mem_singleton] at hd
    rw [← Bool.not_eq_true, isLower_iff] at hlower
    exact eq_of_toLower_eq hlower hd.symm
  · rw [h.other (by omega) d hd hsmall] at hlower
    cases hlower

theorem isAlphanum_range {c : Char} (h : c.isAlphanum = true) : 48 ≤ c.toNat ∧ c.toNat ≤ 122 := by
  simp only [Char.isAlphanum, isAlpha_eq, Bool.or_eq_true, isUpper_iff, isLower_iff, Char.isDigit,
    UInt32.le_iff_toNat_le, Bool.and_eq_true, decide_eq_true_eq] at h
  rcases h with (⟨hlow, hhigh⟩ | ⟨hlow, hhigh⟩) | ⟨hlow, hhigh⟩
  · exact ⟨le_trans (by decide) hlow, le_trans hhigh (by decide)⟩
  · exact ⟨le_trans (by decide) hlow, hhigh⟩
  · exact ⟨hlow, le_trans hhigh (by decide)⟩

theorem lowersTo_toLower (c : Char) : LowersTo c [c.toLower] where
  ne_nil := List.cons_ne_nil _ _
  ascii := fun _ => rfl
  other := fun hbig d hd hsmall => by
    rw [List.mem_singleton.1 hd, toNat_toLower, if_neg (by omega)] at hsmall
    omega
  whitespace := fun d hd => by
    rw [List.mem_singleton.1 hd]
    exact isWhitespace_toLower c

theorem lawful_asciiTables : @LawfulUnicode asciiTables := by
  let := asciiTables
  refine ⟨fun s => ⟨s.map (fun c => [c.toLower]), ?_, ?_⟩, fun s t c hc => ?_, fun s t h => ?_,
    fun _ _ => rfl, fun c hc => ?_⟩
  · show s.map Char.toLower = (s.map (fun c => [c.toLower])).flatten
    induction s with
    | nil => rfl
    | cons c s ih => rw [List.map_cons, List.map_cons, List.flatten_cons, ← ih]; rfl
  · exact List.forall₂_map_right_iff.2 (List.forall₂_same.2 (fun c _ => lowersTo_toLower c))
  · show (s ++ c :: t).map Char.toLower = s.map Char.toLower ++ c :: t.map Char.toLower
    rw [List.map_append, List.map_cons, toLower_of_isWhitespace hc]
  · show t.map Char.toLower = t
    conv_rhs => rw [← List.map_id t]
    refine List.map_congr_left (fun c hc => ?_)
    obtain ⟨d, -, rfl⟩ := List.mem_map.1 (h c hc)
    exact toLower_toLower d
  · show c.isAlphanum = false
    rw [← Bool.not_eq_true]
    intro halnum
    obtain ⟨hlow, hhigh⟩ := isAlphanum_range halnum
    rw [isWhitespace_eq_false_of_range hlow hhigh] at hc
    cases hc

variable [UnicodeTables] [LawfulUnicode]

theorem toLowercase_ascii {s : Str} (h : ∀ c ∈ s, c.toNat < 128) :
    toLowercase s = toAsciiLowercase s := by
  obtain ⟨pieces, hflat, hpieces⟩ := LawfulUnicode.toLowercase_pieces s
  rw [hflat]
  clear hflat
  induction hpieces with
  | nil => rfl
  | @cons c piece s pieces hc _ ih =>
      obtain ⟨hsmall, hrest⟩ := List.forall_mem_cons.1 h
      rw [List.flatten_cons, hc.ascii hsmall, ih hrest]
      rfl

theorem toLowercase_nil : toLowercase [] = [] :=
  toLowercase_ascii (fun _ h => absurd h List.not_mem_nil)

theorem toLowercase_ne_nil {s : Str} (hs : s ≠ []) : toLowercase s ≠ [] := by
  obtain ⟨pieces, hflat, hpieces⟩ := LawfulUnicode.toLowercase_pieces s
  cases hpieces with
  | nil => exact absurd rfl hs
  | cons hc _ =>
      rw [hflat, List.flatten_cons]
      exact List.append_ne_nil_of_left_ne_nil hc.ne_nil _

theorem isWhitespace_toLowercase {s : Str} (h : ∀ c ∈ s, isWhitespace c = false) :
    ∀ c ∈ toLowercase s, isWhitespace c = false := by
  obtain ⟨pieces, hflat, hpieces⟩ := LawfulUnicode.toLowercase_pieces s
  rw [hflat]
  clear hflat
  induction hpieces with
  | nil => exact fun _ h => absurd h List.not_mem_nil
  | @cons c piece s pieces hc _ ih =>
      obtain ⟨hspace, hrest⟩ := List.forall_mem_cons.1 h
      intro d hd
      rw [List.flatten_cons, List.mem_append] at hd
      rcases hd with hd | hd
      · rw [hc.whitespace d hd, hspace]
      · exact ih hrest d hd

/-- Lower-casing moves no ASCII character but a letter to the front. -/
theorem head?_of_head?_toLowercase {s : Str} {x : Char} (hsmall : x.toNat < 128)
    (hlower : x.isLower = false) (h : (toLowercase s).head? = some x) : s.head? = some x := by
  obtain ⟨pieces, hflat, hpieces⟩ := LawfulUnicode.toLowercase_pieces s
  rw [hflat] at h
  cases hpieces with
  | nil => cases h
  | @cons c piece s pieces hc _ =>
      obtain ⟨d, ds, rfl⟩ := List.exists_cons_of_ne_nil hc.ne_nil
      obtain rfl : d = x := Option.some.inj h
      rw [hc.eq_of_mem List.mem_cons_self hsmall hlower, List.head?_cons]

/-- Lower-casing creates no ASCII character but letters. -/
theorem mem_of_mem_toLowercase {s : Str} {x : Char} (hsmall : x.toNat < 128)
    (hlower : x.isLower = false) (h : x ∈ toLowercase s) : x ∈ s := by
  obtain ⟨pieces, hflat, hpieces⟩ := LawfulUnicode.toLowercase_pieces s
  rw [hflat] at h
  clear hflat
  induction hpieces with
  | nil => exact absurd h List.not_mem_nil
  | @cons c piece s pieces hc _ ih =>
      rw [List.flatten_cons, List.mem_append] at h
      rcases h with h | h
      · rw [hc.eq_of_mem h hsmall hlower]
        exact List.mem_cons_self
      · exact List.mem_cons_of_mem c (ih h)

omit [UnicodeTables] [LawfulUnicode] in
/-- Cutting at characters that lower-casing keeps apart commutes with lower-casing. -/
theorem exists_pieces_takeWhile {q : Char → Bool} {s : Str} {pieces : List Str}
    (hq : ∀ c piece, LowersTo c piece → ∀ d ∈ piece, q d = q c)
    (h : List.Forall₂ LowersTo s pieces) :
    ∃ cut, pieces.flatten.takeWhile q = cut.flatten ∧ List.Forall₂ LowersTo (s.takeWhile q) cut := by
  induction h with
  | nil => exact ⟨[], rfl, List.Forall₂.nil⟩
  | @cons c piece s pieces hc _ ih =>
      obtain ⟨cut, hcut, hforall⟩ := ih
      by_cases hqc : q c = true
      · refine ⟨piece :: cut, ?_, ?_⟩
        · have hpiece : ∀ d ∈ piece, q d = true := fun d hd => by rw [hq c piece hc d hd, hqc]
          rw [List.flatten_cons, List.takeWhile_append_of_pos hpiece, hcut, List.flatten_cons]
        · rw [List.takeWhile_cons_of_pos hqc]
          exact List.Forall₂.cons hc hforall
      · obtain ⟨d, ds, rfl⟩ := List.exists_cons_of_ne_nil hc.ne_nil
        have hqd : ¬ q d = true := by rwa [hq c _ hc d List.mem_cons_self]
        refine ⟨[], ?_, ?_⟩
        · rw [List.flatten_cons, List.cons_append, List.takeWhile_cons_of_neg hqd]
          rfl
        · rw [List.takeWhile_cons_of_neg hqc]
          exact List.Forall₂.nil

omit [UnicodeTables] [LawfulUnicode] in
theorem head?_flatten_whitespace {s : Str} {pieces : List Str} (h : List.Forall₂ LowersTo s pieces) :
    pieces.flatten.head?.map isWhitespace = s.head?.map isWhitespace := by
  cases h with
  | nil => rfl
  | @cons c piece s pieces hc _ =>
      obtain ⟨d, ds, rfl⟩ := List.exists_cons_of_ne_nil hc.ne_nil
      simp [hc.whitespace d List.mem_cons_self]

omit [UnicodeTables] [LawfulUnicode] in
theorem getLast?_flatten_whitespace {s : Str} {pieces : List Str}
    (h : List.Forall₂ LowersTo s pieces) :
    pieces.flatten.getLast?.map isWhitespace = s.getLast?.map isWhitespace := by
  induction h with
  | nil => rfl
  | @cons c piece s pieces hc hrest ih =>
      cases hrest with
      | nil =>
          rw [List.flatten_singleton, List.getLast?_eq_some_getLast hc.ne_nil]
          simp [hc.whitespace _ (List.getLast_mem hc.ne_nil)]
      | @cons c' piece' s pieces hc' _ =>
          have hne : (piece' :: pieces).flatten ≠ [] := by
            rw [List.flatten_cons]
            exact List.append_ne_nil_of_left_ne_nil hc'.ne_nil _
          rw [List.flatten_cons, List.getLast?_append_of_ne_nil _ hne, ih, List.getLast?_cons_cons]

/-- Cutting a text at ASCII characters that are no letters leaves white space at an end exactly
    when it does so in lower case. -/
theorem trim_takeWhile_toLowercase (q : Char → Bool)
    (hq : ∀ c, q c = false → c.toNat < 128 ∧ c.isLower = false ∧ c.toLower = c) (s : Str) :
    trim ((toLowercase s).takeWhile q) = (toLowercase s).takeWhile q ↔
      trim (s.takeWhile q) = s.takeWhile q := by
  obtain ⟨pieces, hflat, hpieces⟩ := LawfulUnicode.toLowercase_pieces s
  have hkeeps : ∀ c piece, LowersTo c piece → ∀ d ∈ piece, q d = q c := by
    intro c piece hc d hd
    cases hqd : q d with
    | false =>
        obtain ⟨hsmall, hlower, -⟩ := hq d hqd
        rw [hc.eq_of_mem hd hsmall hlower, hqd]
    | true =>
        cases hqc : q c with
        | true => rfl
        | false =>
            obtain ⟨hsmall, -, hself⟩ := hq c hqc
            rw [hc.ascii hsmall, List.mem_singleton, hself] at hd
            rw [← hqd, hd, hqc]
  obtain ⟨cut, hcut, hforall⟩ := exists_pieces_takeWhile hkeeps hpieces
  rw [hflat, hcut, trim_eq_self_iff, trim_eq_self_iff]
  have hhead := head?_flatten_whitespace hforall
  have hlast := getLast?_flatten_whitespace hforall
  have hends : ∀ {a b : Option Char}, a.map isWhitespace = b.map isWhitespace →
      ((∀ c ∈ a, isWhitespace c = false) ↔ ∀ c ∈ b, isWhitespace c = false) := by
    intro a b hab
    cases a <;> cases b <;> simp_all
  exact and_congr (hends hhead) (hends hlast)

/-- Lower-casing a text lower-cases its words. -/
theorem splitWhitespace_toLowercase (s : Str) :
    splitWhitespace (toLowercase s) = (splitWhitespace s).map toLowercase := by
  simp only [splitWhitespace_eq_fields]
  have hword : ∀ w : Str, (∀ c ∈ w, isWhitespace c = false) →
      fields isWhitespace (toLowercase w) = (fields isWhitespace w).map toLowercase := by
    intro w hw
    by_cases hnil : w = []
    · rw [hnil, toLowercase_nil]
      rfl
    · rw [fields_of_forall hnil hw, fields_of_forall (toLowercase_ne_nil hnil)
        (isWhitespace_toLowercase hw)]
      rfl
  induction s using fields_induction isWhitespace with
  | word s hs => exact hword s hs
  | separator w c t hw hc ih =>
      rw [LawfulUnicode.toLowercase_append_cons w t c hc, fields_append_cons _ _ hc,
        fields_append_cons _ _ hc, List.map_append, ih, hword w hw]

/-- Lower-casing keeps the joints of a joined list of words. -/
theorem toLowercase_join {c : Char} (hc : isWhitespace c = true) (parts : List Str) :
    toLowercase (join [c] parts) = join [c] (parts.map toLowercase) := by
  induction parts with
  | nil => exact toLowercase_nil
  | cons s rest ih =>
      cases rest with
      | nil => simp [join]
      | cons t rest =>
          rw [join_char_cons_cons, LawfulUnicode.toLowercase_append_cons _ _ _ hc, ih, List.map_cons,
            List.map_cons, List.map_cons, join_char_cons_cons]

end RustStd
