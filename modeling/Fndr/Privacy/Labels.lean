import Fndr.Library.Lines
import Fndr.Library.Usize
import Fndr.Library.Utf8
import Fndr.Privacy.Blocklist

set_option autoImplicit false

/-! # Domain labels

`host_matches_suffix` compares bytes and looks at one byte of the host by its index. Here it is as
it is written, with every subtraction and every index checked. No check ever fails, the bytes decide
what `hostMatchesSuffix` decides on characters (`hostMatchesSuffixBytes_eq`), and that is whether
the labels of the suffix are the last labels of the host (`hostMatchesSuffix_iff_labels`). So the
domains that match one host lie on one chain. -/

namespace Fndr

open RustStd

/-- `host_matches_suffix` on the bytes of its arguments; nothing is a panic. -/
def hostMatchesSuffixBytes (host suffix : Str) : Option Bool :=
  if utf8 host = utf8 suffix then some true
  else if byteLen suffix < byteLen host then
    if utf8 suffix <:+ utf8 host then do
      let gap ← checkedSub (byteLen host) (byteLen suffix)
      let index ← checkedSub gap 1
      let byte ← (utf8 host)[index]?
      return byte == UInt8.ofNat '.'.toNat
    else some false
  else some false

/-- The dot-separated labels of a domain. -/
def labels (domain : Str) : List Str := split (· == '.') domain

theorem labels_ne_nil (domain : Str) : labels domain ≠ [] := List.splitOnP_ne_nil _ domain

theorem join_labels (domain : Str) : join ['.'] (labels domain) = domain := join_split '.' domain

theorem labels_append_dot (front domain : Str) :
    labels (front ++ '.' :: domain) = labels front ++ labels domain :=
  List.splitOnP_append_cons front domain rfl

/-- **The suffix match compares labels.** -/
theorem hostMatchesSuffix_iff_labels (host suffix : Str) :
    hostMatchesSuffix host suffix = true ↔ labels suffix <:+ labels host := by
  rw [hostMatchesSuffix_iff]
  constructor
  · rintro (rfl | ⟨front, rfl⟩)
    · exact List.suffix_refl _
    · rw [labels_append_dot]
      exact List.suffix_append _ _
  · rintro ⟨front, hlabels⟩
    have hhost : host = join ['.'] (front ++ labels suffix) := by
      rw [hlabels, join_labels]
    by_cases hfront : front = []
    · left
      rw [hhost, hfront, List.nil_append, join_labels]
    · right
      refine ⟨join ['.'] front, ?_⟩
      rw [hhost, join_append hfront (labels_ne_nil suffix), join_labels]

/-- The byte before the suffix is a dot exactly when the character is. -/
theorem getElem?_utf8_append (front suffix : Str) (hfront : front ≠ []) :
    ((utf8 (front ++ suffix))[byteLen front - 1]?).map (· == UInt8.ofNat '.'.toNat) =
      some (front.getLast? == some '.') := by
  rcases List.eq_nil_or_concat front with rfl | ⟨before, last, rfl⟩
  · exact absurd rfl hfront
  · rw [List.concat_eq_append] at hfront ⊢
    have hpos := byteLen_pos hfront
    rw [utf8_append, List.getElem?_append_left (by rw [length_utf8]; omega), ← length_utf8,
      ← List.getLast?_eq_getElem?, getLast?_utf8_concat, List.getLast?_concat]
    have hlast := getLast?_utf8EncodeChar_eq_iff (c := last) (d := '.') (by decide)
    obtain ⟨byte, hbyte⟩ : ∃ byte, (String.utf8EncodeChar last).getLast? = some byte :=
      Option.isSome_iff_exists.1 (by simp)
    rw [hbyte, Option.some.injEq] at hlast
    rw [hbyte, Option.map_some, Option.some.injEq, Bool.eq_iff_iff, beq_iff_eq, beq_iff_eq, hlast,
      Option.some.injEq]

/-- **No index is out of range, and the bytes decide what the characters do.** -/
theorem hostMatchesSuffixBytes_eq (host suffix : Str) :
    hostMatchesSuffixBytes host suffix = some (hostMatchesSuffix host suffix) := by
  unfold hostMatchesSuffixBytes hostMatchesSuffix
  by_cases hsame : host = suffix
  · simp [hsame]
  · rw [if_neg (fun hbytes => hsame (utf8_injective hbytes)), beq_eq_false_iff_ne.2 hsame,
      Bool.false_or]
    by_cases hlong : byteLen suffix < byteLen host
    · rw [if_pos hlong, decide_eq_true hlong, Bool.true_and]
      by_cases hends : suffix <:+ host
      · obtain ⟨front, rfl⟩ := hends
        rw [byteLen_append] at hlong ⊢
        have hfront : front ≠ [] := by
          rintro rfl
          exact hsame (List.nil_append suffix)
        have hpos := byteLen_pos hfront
        have hbyte := getElem?_utf8_append front suffix hfront
        rw [if_pos (utf8_isSuffix_iff.2 (List.suffix_append _ _)),
          checkedSub_of_le (Nat.le_add_left _ _), Nat.add_sub_cancel, Option.bind_eq_bind,
          Option.bind_some, checkedSub_of_le hpos, Option.bind_eq_bind, Option.bind_some, endsWith,
          decide_eq_true (List.suffix_append _ _), Bool.true_and, List.length_append,
          Nat.add_sub_cancel, List.take_left, ← hbyte, Option.map_eq_bind]
        rfl
      · rw [if_neg (fun hbytes => hends (utf8_isSuffix_iff.1 hbytes)), endsWith,
          decide_eq_false hends]
        rfl
    · rw [if_neg hlong, decide_eq_false hlong]
      rfl

/-- The host is the domain or lies under it. -/
def MatchesDomain (host domain : Str) : Prop := hostMatchesSuffixBytes host domain = some true

instance (host domain : Str) : Decidable (MatchesDomain host domain) :=
  inferInstanceAs (Decidable (_ = _))

theorem matchesDomain_iff {host domain : Str} :
    MatchesDomain host domain ↔ labels domain <:+ labels host := by
  rw [MatchesDomain, hostMatchesSuffixBytes_eq, Option.some.injEq, hostMatchesSuffix_iff_labels]

/-- **Domain matching respects label boundaries.** It always answers, by the labels; it is reflexive
    and transitive, and two domains that match one host match one another, one way or the other. -/
theorem hostMatchesSuffix_labels (host middle suffix : Str) :
    hostMatchesSuffixBytes host suffix = some (decide (labels suffix <:+ labels host)) ∧
      MatchesDomain host host ∧
      (MatchesDomain host middle → MatchesDomain middle suffix → MatchesDomain host suffix) ∧
      (MatchesDomain host middle → MatchesDomain host suffix →
        MatchesDomain middle suffix ∨ MatchesDomain suffix middle) := by
  simp only [matchesDomain_iff]
  refine ⟨?_, List.suffix_refl _, ?_, ?_⟩
  · rw [hostMatchesSuffixBytes_eq, Option.some.injEq, Bool.eq_iff_iff,
      hostMatchesSuffix_iff_labels, decide_eq_true_iff]
  · intro hmiddle hsuffix
    exact hsuffix.trans hmiddle
  · intro hmiddle hsuffix
    exact List.suffix_or_suffix_of_suffix hsuffix hmiddle

/-- From a subdomain over its parent to the domain. -/
theorem hostMatchesSuffix_labels_mail :
    MatchesDomain "a.mail.bank.com".toList "bank.com".toList :=
  (hostMatchesSuffix_labels "a.mail.bank.com".toList "mail.bank.com".toList "bank.com".toList).2.2.1
    (by decide) (by decide)

example : hostMatchesSuffixBytes "münchen.de".toList "de".toList = some true := by decide

example : hostMatchesSuffixBytes "burbank.com".toList "bank.com".toList = some false := by decide

end Fndr
