import Fndr.Library.Strings

set_option autoImplicit false

/-! # The bytes of a string

The UTF-8 encoding marks where a character begins: the first byte of one is no later byte of any
(`UInt8.IsUTF8FirstByte`). So the bytes of a text end with those of another exactly when the text
ends with it (`utf8_isSuffix_iff`), and an ASCII byte stands for its character only
(`getLast?_utf8_concat`). -/

namespace RustStd

/-- `str::as_bytes`. -/
def utf8 (s : Str) : List UInt8 := s.flatMap String.utf8EncodeChar

@[simp] theorem utf8_nil : utf8 [] = [] := rfl

@[simp] theorem utf8_cons (c : Char) (s : Str) :
    utf8 (c :: s) = String.utf8EncodeChar c ++ utf8 s := List.flatMap_cons

@[simp] theorem utf8_append (s t : Str) : utf8 (s ++ t) = utf8 s ++ utf8 t := List.flatMap_append

@[simp] theorem length_utf8 (s : Str) : (utf8 s).length = byteLen s := by
  induction s with
  | nil => rfl
  | cons c s ih => simp [byteLen, ih]

theorem byteLen_append (s t : Str) : byteLen (s ++ t) = byteLen s + byteLen t := by
  simp [byteLen]

theorem byteLen_pos {s : Str} (h : s ≠ []) : 0 < byteLen s := by
  cases s with
  | nil => exact absurd rfl h
  | cons c s =>
      have hc := c.utf8Size_pos
      simp only [byteLen, List.map_cons, List.sum_cons]
      omega

theorem utf8_injective {s t : Str} (h : utf8 s = utf8 t) : s = t := by
  have hbytes : s.utf8Encode = t.utf8Encode := congrArg List.toByteArray h
  rw [← String.toByteArray_ofList, ← String.toByteArray_ofList, String.toByteArray_inj] at hbytes
  exact String.ofList_injective hbytes

/-- A byte in the middle of a character does not begin one. -/
theorem not_isUTF8FirstByte_of_mem_tail {c : Char} {byte : UInt8}
    (h : byte ∈ (String.utf8EncodeChar c).tail) : ¬ byte.IsUTF8FirstByte := by
  obtain ⟨i, hi, rfl⟩ := List.getElem_of_mem h
  rw [List.getElem_tail, UInt8.isUTF8FirstByte_getElem_utf8EncodeChar]
  exact Nat.succ_ne_zero i

theorem isUTF8FirstByte_of_mem_head? {s : Str} {byte : UInt8} (h : byte ∈ (utf8 s).head?) :
    byte.IsUTF8FirstByte := by
  cases s with
  | nil => cases h
  | cons c s =>
      obtain ⟨first, rest, hfirst⟩ :=
        List.exists_cons_of_ne_nil (String.utf8EncodeChar_ne_nil (c := c))
      rw [utf8_cons, hfirst, List.cons_append, List.head?_cons, Option.mem_def] at h
      have hzero := UInt8.isUTF8FirstByte_getElem_zero_utf8EncodeChar (c := c)
      simp only [hfirst, List.getElem_cons_zero] at hzero
      exact Option.some.inj h ▸ hzero

/-- Bytes that end with those of a text are cut where a character begins. -/
theorem isSuffix_of_utf8_eq_append {front : List UInt8} {s t : Str}
    (h : utf8 s = front ++ utf8 t) : t <:+ s := by
  induction s generalizing front with
  | nil =>
      rw [utf8_nil, eq_comm, List.append_eq_nil_iff] at h
      exact utf8_injective (h.2.trans utf8_nil.symm) ▸ List.nil_suffix
  | cons c s ih =>
      cases front with
      | nil => exact utf8_injective h ▸ List.suffix_refl _
      | cons first front =>
          rw [utf8_cons] at h
          rcases List.append_eq_append_iff.1 h with ⟨rest, hfront, hs⟩ | ⟨rest, hc, ht⟩
          · exact (ih hs).trans (List.suffix_cons c s)
          · cases rest with
            | nil =>
                have hsame : utf8 s = [] ++ utf8 t := ht.symm
                exact (ih hsame).trans (List.suffix_cons c s)
            | cons byte rest =>
                -- the bytes of `t` would begin inside the character `c`
                have hbegins : byte ∈ (utf8 t).head? := by
                  rw [ht]
                  rfl
                have hinside : byte ∈ (String.utf8EncodeChar c).tail := by
                  rw [hc]
                  simp
                exact absurd (isUTF8FirstByte_of_mem_head? hbegins)
                  (not_isUTF8FirstByte_of_mem_tail hinside)

/-- **The bytes end with those of a text exactly when the characters do.** -/
theorem utf8_isSuffix_iff {s t : Str} : utf8 t <:+ utf8 s ↔ t <:+ s := by
  constructor
  · rintro ⟨front, h⟩
    exact isSuffix_of_utf8_eq_append h.symm
  · rintro ⟨front, rfl⟩
    rw [utf8_append]
    exact List.suffix_append _ _

theorem utf8EncodeChar_of_ascii {c : Char} (h : c.toNat < 128) :
    String.utf8EncodeChar c = [UInt8.ofNat c.toNat] := by
  have hsmall : c.val.toNat ≤ 127 := Nat.le_of_lt_succ h
  simp only [String.utf8EncodeChar, hsmall, if_true]
  rfl

theorem isUTF8FirstByte_of_ascii : ∀ n < 128, (UInt8.ofNat n).IsUTF8FirstByte := by decide

/-- A character whose last byte is ASCII is that character. -/
theorem getLast?_utf8EncodeChar_eq_iff {c d : Char} (hd : d.toNat < 128) :
    (String.utf8EncodeChar c).getLast? = some (UInt8.ofNat d.toNat) ↔ c = d := by
  constructor
  · intro h
    have hbyte := h
    rw [List.getLast?_eq_getElem?, List.getElem?_eq_some_iff] at hbyte
    obtain ⟨hindex, hbyte⟩ := hbyte
    -- the last byte begins a character, so it is the only one
    have hfirst := isUTF8FirstByte_of_ascii d.toNat hd
    rw [← hbyte, UInt8.isUTF8FirstByte_getElem_utf8EncodeChar, String.length_utf8EncodeChar]
      at hfirst
    have hsize : c.utf8Size = 1 := by
      have hpos := c.utf8Size_pos
      omega
    have hc : c.toNat < 128 := Nat.lt_succ_of_le (Char.utf8Size_eq_one_iff.1 hsize)
    rw [utf8EncodeChar_of_ascii hc, List.getLast?_singleton, Option.some.injEq] at h
    have hnat := congrArg UInt8.toNat h
    rw [UInt8.toNat_ofNat', UInt8.toNat_ofNat'] at hnat
    exact Char.toNat_inj.1 (by omega)
  · rintro rfl
    rw [utf8EncodeChar_of_ascii hd]
    rfl

theorem getLast?_utf8_concat (s : Str) (c : Char) :
    (utf8 (s ++ [c])).getLast? = (String.utf8EncodeChar c).getLast? := by
  rw [utf8_append, utf8_cons, utf8_nil, List.append_nil,
    List.getLast?_append_of_ne_nil _ String.utf8EncodeChar_ne_nil]

end RustStd
