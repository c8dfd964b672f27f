import Mathlib.Algebra.Ring.Int.Defs
import Mathlib.Algebra.GroupWithZero.Nat
import Mathlib.Data.Char
import Mathlib.Data.List.DropRight
import Mathlib.Data.List.Infix
import Mathlib.Data.List.Lex

set_option autoImplicit false

/-! # Rust strings as character lists

A Rust `str` is the list of its Unicode scalar values; `byteLen` is the length of its UTF-8
encoding, the one `str::len` reports. The functions below follow the documented behaviour of their
`std` namesakes. The two Unicode tables that change with the standard library's version (full
lower-casing and the alphanumeric class) are a class, so whatever is proved holds for every table.

`Avoids f p s` says that the pattern `p` occurs nowhere in `s` once every character is folded by
`f`. A separator that does not occur in `p` keeps both sides apart, so joining texts that avoid `p`
with such separators avoids `p` again. -/

namespace RustStd

/-- A Rust string: its Unicode scalar values in order. -/
abbrev Str := List Char

section Decidable

-- a statement about the characters of a string looks at these, not at every `Char`
variable (p : Char → Prop) [DecidablePred p]

instance decidableForallChar (s : Str) : Decidable (∀ c ∈ s, p c) := List.decidableBAll p s

instance decidableExistsChar (s : Str) : Decidable (∃ c ∈ s, p c) := List.decidableBEx p s

instance decidableForallChar? (c? : Option Char) : Decidable (∀ c ∈ c?, p c) :=
  Option.decidableForallMem c?

end Decidable

/-- `str::len`: bytes of the UTF-8 encoding. -/
def byteLen (s : Str) : ℕ := (s.map Char.utf8Size).sum

/-- `Path::join` with a relative name. -/
def pathJoin (dir name : Str) : Str :=
  if dir = [] ∨ dir.getLast? = some '/' then dir ++ name else dir ++ '/' :: name

/-- `char::is_whitespace`: the Unicode `White_Space` property. -/
def isWhitespace (c : Char) : Bool :=
  let n := c.toNat
  (9 ≤ n && n ≤ 13) || n == 0x20 || n == 0x85 || n == 0xA0 || n == 0x1680 ||
    (0x2000 ≤ n && n ≤ 0x200A) || n == 0x2028 || n == 0x2029 || n == 0x202F || n == 0x205F ||
    n == 0x3000

/-- The Unicode tables behind `str::to_lowercase` and `char::is_alphanumeric`. -/
class UnicodeTables where
  toLowercase : Str → Str
  isAlphanumeric : Char → Bool

export UnicodeTables (toLowercase isAlphanumeric)

/-- The tables restricted to ASCII, which agree with Unicode on ASCII text. -/
@[reducible] def asciiTables : UnicodeTables where
  toLowercase := List.map Char.toLower
  isAlphanumeric := Char.isAlphanum

/-- `str::to_ascii_lowercase`. -/
def toAsciiLowercase (s : Str) : Str := s.map Char.toLower

/-- `str::trim_start_matches`. -/
def trimStartMatches (p : Char → Bool) (s : Str) : Str := s.dropWhile p

/-- `str::trim_end_matches`. -/
def trimEndMatches (p : Char → Bool) (s : Str) : Str := s.rdropWhile p

/-- `str::trim`: remove leading and trailing `White_Space`. -/
def trim (s : Str) : Str := trimEndMatches isWhitespace (trimStartMatches isWhitespace s)

/-- `str::split` at every character satisfying `p`; empty pieces are kept. -/
def split (p : Char → Bool) (s : Str) : List Str := s.splitOnP p

/-- `str::split_whitespace`: the non-empty pieces between runs of `White_Space`. -/
def splitWhitespace (s : Str) : List Str := (split isWhitespace s).filter (· ≠ [])

/-- `str::contains` with a string pattern. -/
def contains (text pattern : Str) : Bool := decide (pattern <:+: text)

/-- `str::starts_with`. -/
def startsWith (text pattern : Str) : Bool := decide (pattern <+: text)

/-- `str::ends_with`. -/
def endsWith (text pattern : Str) : Bool := decide (pattern <:+ text)

/-- `str::split_once`: the text before and after the first occurrence of `sep`. -/
def splitOnce (sep : Str) : Str → Option (Str × Str)
  | [] => if sep = [] then some ([], []) else none
  | c :: cs =>
      if sep <+: c :: cs then some ([], (c :: cs).drop sep.length)
      else (splitOnce sep cs).map (fun r => (c :: r.1, r.2))

/-- `str::split(sep).nth(1)`: the text between the first `sep` and the next one or the end. -/
def splitSecond (sep s : Str) : Option Str :=
  (splitOnce sep s).map (fun r => ((splitOnce sep r.2).map Prod.fst).getD r.2)

/-- A line ended by `\n` also loses one `\r` before it. -/
def stripCarriageReturn (line : Str) : Str :=
  if line.getLast? = some '\r' then line.dropLast else line

/-- `str::lines`: an unterminated last line is kept as it is, an empty one is not a line. -/
def lines (s : Str) : List Str :=
  let pieces := split (· == '\n') s
  let last := pieces.getLastD []
  pieces.dropLast.map stripCarriageReturn ++ (if last = [] then [] else [last])

/-- `[S]::join`. -/
def join (sep : Str) (parts : List Str) : Str := sep.intercalate parts

theorem join_cons_cons (sep s t : Str) (rest : List Str) :
    join sep (s :: t :: rest) = s ++ (sep ++ join sep (t :: rest)) := by
  rw [join, List.intercalate_cons_cons, List.append_assoc, join]

theorem join_char_cons_cons (c : Char) (s t : Str) (rest : List Str) :
    join [c] (s :: t :: rest) = s ++ c :: join [c] (t :: rest) := join_cons_cons [c] s t rest

/-- `[T]::windows`: the contiguous sublists of length `n`. -/
def windows {α : Type} (n : ℕ) (l : List α) : List (List α) :=
  (l.tails.map (List.take n)).filter (fun w => w.length = n)

/-! ## Pieces of a text are infixes of it -/

theorem trim_isInfix (s : Str) : trim s <:+: s :=
  (List.rdropWhile_prefix _ _).isInfix.trans (List.dropWhile_suffix _).isInfix

theorem infix_of_mem_split (p : Char → Bool) (s piece : Str) (h : piece ∈ split p s) :
    piece <:+: s := by
  induction s generalizing piece with
  | nil =>
      simp only [split, List.splitOnP_nil, List.mem_singleton] at h
      subst h
      exact List.infix_refl _
  | cons c cs ih =>
      rw [split, List.splitOnP_cons_eq_if_modifyHead] at h
      split at h
      · rcases List.mem_cons.1 h with rfl | h
        · exact List.nil_infix
        · exact List.infix_cons (ih piece h)
      · -- the head piece grows by `c`, so it stays a prefix; the other pieces are unchanged
        obtain ⟨hd, tl, hsplit⟩ := List.exists_cons_of_ne_nil (List.splitOnP_ne_nil p cs)
        have hhead : hd <+: cs := by
          have := List.splitOnP_spec (p := p) cs
          rw [hsplit] at this
          cases hf : (cs.filter p).map (fun x => [x]) with
          | nil => rw [hf] at this; exact ⟨[], by simpa using this⟩
          | cons y ys => rw [hf] at this; exact ⟨_, by simpa [List.append_assoc] using this⟩
        rw [hsplit, List.modifyHead_cons] at h
        rcases List.mem_cons.1 h with rfl | h
        · exact (List.cons_prefix_cons.2 ⟨rfl, hhead⟩).isInfix
        · exact List.infix_cons (ih piece (by rw [split, hsplit]; exact List.mem_cons_of_mem _ h))

/-! ## First pieces -/

theorem trim_eq_self {s : Str} (h : ∀ c ∈ s, isWhitespace c = false) : trim s = s := by
  have hstart : trimStartMatches isWhitespace s = s := by
    refine List.dropWhile_eq_self_iff.2 (fun hl => ?_)
    simp [h _ (List.getElem_mem hl)]
  rw [trim, hstart, trimEndMatches]
  refine List.rdropWhile_eq_self_iff.2 (fun hl => ?_)
  simp [h _ (List.getLast_mem hl)]

/-- The first piece of a split is what stands before the first separator. -/
theorem head?_split (p : Char → Bool) (s : Str) :
    (split p s).head? = some (s.takeWhile (fun c => !p c)) := by
  induction s with
  | nil => rfl
  | cons c cs ih =>
      rw [split, List.splitOnP_cons_eq_if_modifyHead]
      by_cases hc : p c
      · simp [hc]
      · obtain ⟨hd, tl, hsplit⟩ := List.exists_cons_of_ne_nil (List.splitOnP_ne_nil p cs)
        rw [split, hsplit, List.head?_cons] at ih
        simp [hc, hsplit, Option.some.inj ih]

/-- A text without a separator is its only piece. -/
theorem split_of_forall {p : Char → Bool} {s : Str} (h : ∀ c ∈ s, p c = false) :
    split p s = [s] := List.splitOnP_eq_singleton h

/-! ## Patterns kept apart by separators -/

variable {α β : Type}

/-- The folded text contains no occurrence of the pattern. -/
def Avoids (f : α → β) (p : List β) (s : List α) : Prop := ¬ p <:+: s.map f

theorem Avoids.of_isInfix {f : α → β} {p : List β} {s t : List α} (h : Avoids f p s)
    (hts : t <:+: s) : Avoids f p t := fun hp => h (hp.trans (hts.map f))

/-- A pattern without the separator lies on one side of it. -/
theorem infix_append_cons {p a b : List α} {x : α} (hx : x ∉ p) (h : p <:+: a ++ x :: b) :
    p <:+: a ∨ p <:+: b := by
  rcases List.infix_append_iff_ne_nil.1 h with h | h | ⟨l₁, l₂, -, hl₂, rfl, -, h₂⟩
  · exact Or.inl h
  · rcases List.infix_cons_iff.1 h with h | h
    · cases p with
      | nil => exact Or.inl List.nil_infix
      | cons y ys =>
          rw [List.cons_prefix_cons] at h
          exact absurd h.1 (fun he => hx (he ▸ List.mem_cons_self))
    · exact Or.inr h
  · cases l₂ with
    | nil => exact absurd rfl hl₂
    | cons y ys =>
        rw [List.cons_prefix_cons] at h₂
        exact absurd (List.mem_append_right l₁ (h₂.1 ▸ List.mem_cons_self)) hx

theorem Avoids.append_cons {f : α → β} {p : List β} {a b : List α} {x : α} (hx : f x ∉ p)
    (ha : Avoids f p a) (hb : Avoids f p b) : Avoids f p (a ++ x :: b) := by
  intro h
  rw [List.map_append, List.map_cons] at h
  exact (infix_append_cons hx h).elim ha hb

theorem avoids_nil {f : α → β} {p : List β} (hp : p ≠ []) : Avoids f p ([] : List α) := by
  intro h
  simp only [List.map_nil, List.infix_nil] at h
  exact hp h

/-- Joining with a separator character outside the pattern creates no occurrence. -/
theorem Avoids.join {f : α → β} {p : List β} {x : α} (hp : p ≠ []) (hx : f x ∉ p)
    (parts : List (List α)) (h : ∀ s ∈ parts, Avoids f p s) :
    Avoids f p ([x].intercalate parts) := by
  induction parts with
  | nil => exact avoids_nil hp
  | cons s rest ih =>
      cases rest with
      | nil => simpa using h s List.mem_cons_self
      | cons t rest =>
          rw [List.intercalate_cons_cons, List.append_assoc, List.singleton_append]
          exact (h s List.mem_cons_self).append_cons hx
            (ih (fun u hu => h u (List.mem_cons_of_mem s hu)))

/-- One more character at the end, which is not the last one of the pattern. -/
theorem Avoids.concat {f : α → β} {p : List β} {s : List α} {x : α} (hp : p ≠ [])
    (hx : p.getLast? ≠ some (f x)) (h : Avoids f p s) : Avoids f p (s ++ [x]) := by
  intro hin
  rw [List.map_append, List.map_singleton] at hin
  obtain ⟨l, r, heq⟩ := hin
  rcases List.eq_nil_or_concat r with rfl | ⟨r', y, rfl⟩
  · have hlast : (l ++ p).getLast? = some (f x) := by
      have := congrArg List.getLast? heq
      simpa using this
    rw [List.getLast?_append_of_ne_nil _ hp] at hlast
    exact hx hlast
  · refine h ⟨l, r', ?_⟩
    have : (l ++ p ++ r') ++ [y] = s.map f ++ [f x] := by simpa [List.append_assoc] using heq
    exact (List.append_inj' this rfl).1

/-- One more character at the front, which is not the first one of the pattern. -/
theorem Avoids.cons {f : α → β} {p : List β} {s : List α} {x : α}
    (hp : p ≠ []) (hx : p.head? ≠ some (f x)) (h : Avoids f p s) : Avoids f p (x :: s) := by
  intro hin
  rw [List.map_cons, List.infix_cons_iff] at hin
  rcases hin with hin | hin
  · cases p with
    | nil => exact hp rfl
    | cons y ys =>
        rw [List.cons_prefix_cons] at hin
        exact hx (by rw [List.head?_cons, hin.1])
  · exact h hin

/-! ## Numbers in decimal -/

theorem dash_notMem_toString (n : ℕ) : '-' ∉ (toString n).toList := by
  intro h
  rw [show toString n = n.repr from rfl, Nat.toList_repr] at h
  have hdigit := Nat.isDigit_of_mem_toDigits (by omega) (by omega) h
  exact absurd hdigit (by decide)

theorem toString_toList_injective {m n : ℕ} (h : (toString m).toList = (toString n).toList) :
    m = n := by
  rw [show toString m = m.repr from rfl, show toString n = n.repr from rfl, Nat.toList_repr,
    Nat.toList_repr] at h
  rw [← Nat.ofDigitChars_ten_toDigits (n := m), h, Nat.ofDigitChars_ten_toDigits]

end RustStd
