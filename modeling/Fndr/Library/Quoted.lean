import Mathlib.Data.List.Basic

set_option autoImplicit false

/-! # Literals that double their quote

A literal stands between two quotes, and a quote inside it is written twice. What follows a literal
is not a quote, so its end is where the quotes stop being doubled (`double_append_inj`), and a list
of literals with separators between them is read in one way only (`Literals.unique`), namely as the
values it was written from (`literals_intercalate`). -/

namespace Quoted

variable {α : Type}

/-- A text between quotes and the value it stands for. -/
inductive Body (quote : α) : List α → List α → Prop
  | nil : Body quote [] []
  | plain {x : α} {text value : List α} (hx : x ≠ quote) (h : Body quote text value) :
      Body quote (x :: text) (x :: value)
  | doubled {text value : List α} (h : Body quote text value) :
      Body quote (quote :: quote :: text) (quote :: value)

/-- Literals with a separator and any number of blanks between them, and their values. -/
inductive Literals (quote sep blank : α) : List α → List (List α) → Prop
  | one {text value : List α} (h : Body quote text value) :
      Literals quote sep blank (quote :: (text ++ [quote])) [value]
  | more {text value gap rest : List α} {values : List (List α)} (h : Body quote text value)
      (hgap : ∀ x ∈ gap, x = blank) (hrest : Literals quote sep blank rest values) :
      Literals quote sep blank (quote :: (text ++ quote :: sep :: (gap ++ rest))) (value :: values)

variable {quote sep blank : α}

theorem Literals.eq_cons {text : List α} {values : List (List α)}
    (h : Literals quote sep blank text values) : ∃ rest, text = quote :: rest := by
  cases h with
  | one => exact ⟨_, rfl⟩
  | more => exact ⟨_, rfl⟩

/-- Blanks before a literal end where it begins. -/
theorem gap_append_inj (hblank : blank ≠ quote) {gap gap' rest rest' : List α}
    (hgap : ∀ x ∈ gap, x = blank) (hgap' : ∀ x ∈ gap', x = blank)
    (h : gap ++ quote :: rest = gap' ++ quote :: rest') : rest = rest' := by
  induction gap generalizing gap' with
  | nil =>
      cases gap' with
      | nil => exact (List.cons.inj h).2
      | cons x gap' =>
          rw [hgap' x List.mem_cons_self] at h
          exact absurd (List.cons.inj h).1.symm hblank
  | cons x gap ih =>
      obtain ⟨hx, hgap⟩ := List.forall_mem_cons.1 hgap
      cases gap' with
      | nil =>
          rw [hx] at h
          exact absurd (List.cons.inj h).1 hblank
      | cons y gap' =>
          exact ih hgap (List.forall_mem_cons.1 hgap').2 (List.cons.inj h).2

section Double

variable [DecidableEq α] (quote)

/-- The value with every quote doubled. -/
def double (value : List α) : List α :=
  value.flatMap (fun x => if x = quote then [quote, quote] else [x])

/-- The value between quotes. -/
def literal (value : List α) : List α := quote :: (double quote value ++ [quote])

variable {quote}

@[simp] theorem double_nil : double quote [] = [] := rfl

theorem double_cons_quote (value : List α) :
    double quote (quote :: value) = quote :: quote :: double quote value := by
  simp [double]

theorem double_cons_of_ne {x : α} (hx : x ≠ quote) (value : List α) :
    double quote (x :: value) = x :: double quote value := by
  simp [double, hx]

/-- **A text stands for a value exactly when it is the value with its quotes doubled.** -/
theorem body_iff {text value : List α} : Body quote text value ↔ text = double quote value := by
  constructor
  · intro h
    induction h with
    | nil => rfl
    | plain hx _ ih => rw [double_cons_of_ne hx, ih]
    | doubled _ ih => rw [double_cons_quote, ih]
  · rintro rfl
    induction value with
    | nil => exact .nil
    | cons x value ih =>
        by_cases hx : x = quote
        · rw [hx, double_cons_quote]
          exact .doubled ih
        · rw [double_cons_of_ne hx]
          exact .plain hx ih

/-- A quote that no quote follows is not the beginning of a value that is not empty. -/
theorem quote_cons_ne_double_append {x : α} {v rest rest' : List α}
    (hrest : rest.head? ≠ some quote) : quote :: rest ≠ double quote (x :: v) ++ rest' := by
  intro h
  by_cases hx : x = quote
  · rw [hx, double_cons_quote] at h
    rw [(List.cons.inj h).2] at hrest
    exact hrest rfl
  · rw [double_cons_of_ne hx] at h
    exact hx (List.cons.inj h).1.symm

/-- **A literal ends in one place**, unless a quote follows it. -/
theorem double_append_inj {v w rest rest' : List α} (hrest : rest.head? ≠ some quote)
    (hrest' : rest'.head? ≠ some quote)
    (h : double quote v ++ quote :: rest = double quote w ++ quote :: rest') :
    v = w ∧ rest = rest' := by
  induction v generalizing w with
  | nil =>
      cases w with
      | nil => exact ⟨rfl, (List.cons.inj h).2⟩
      | cons y w => exact absurd h (quote_cons_ne_double_append hrest)
  | cons x v ih =>
      cases w with
      | nil => exact absurd h.symm (quote_cons_ne_double_append hrest')
      | cons y w =>
          by_cases hx : x = quote <;> by_cases hy : y = quote
          · rw [hx, hy, double_cons_quote, double_cons_quote] at h
            obtain ⟨hvalue, hsame⟩ := ih (List.cons.inj (List.cons.inj h).2).2
            exact ⟨by rw [hx, hy, hvalue], hsame⟩
          · rw [hx, double_cons_quote, double_cons_of_ne hy] at h
            exact absurd (List.cons.inj h).1.symm hy
          · rw [hy, double_cons_quote, double_cons_of_ne hx] at h
            exact absurd (List.cons.inj h).1 hx
          · rw [double_cons_of_ne hx, double_cons_of_ne hy] at h
            obtain ⟨hfirst, hrests⟩ := List.cons.inj h
            obtain ⟨hvalue, hsame⟩ := ih hrests
            exact ⟨by rw [hfirst, hvalue], hsame⟩

/-- **A list of literals is read in one way.** -/
theorem Literals.unique (hsep : sep ≠ quote) (hblank : blank ≠ quote) {text : List α}
    {values values' : List (List α)} (h : Literals quote sep blank text values)
    (h' : Literals quote sep blank text values') : values = values' := by
  have hcomma : ∀ rest : List α, (sep :: rest).head? ≠ some quote :=
    fun rest hhead => hsep (Option.some.inj hhead)
  induction h generalizing values' with
  | @one body value hbody =>
      generalize htext : quote :: (body ++ [quote]) = text at h'
      cases h' with
      | @one body' value' hbody' =>
          rw [body_iff.1 hbody, body_iff.1 hbody'] at htext
          rw [(double_append_inj (by simp) (by simp) (List.cons.inj htext).2).1]
      | @more body' value' gap rest values hbody' hgap hrest =>
          rw [body_iff.1 hbody, body_iff.1 hbody'] at htext
          exact absurd (double_append_inj (by simp) (hcomma _) (List.cons.inj htext).2).2 (by simp)
  | @more body value gap rest values hbody hgap hrest ih =>
      generalize htext : quote :: (body ++ quote :: sep :: (gap ++ rest)) = text at h'
      cases h' with
      | @one body' value' hbody' =>
          rw [body_iff.1 hbody, body_iff.1 hbody'] at htext
          exact absurd (double_append_inj (hcomma _) (by simp) (List.cons.inj htext).2).2 (by simp)
      | @more body' value' gap' rest' values' hbody' hgap' hrest' =>
          rw [body_iff.1 hbody, body_iff.1 hbody'] at htext
          obtain ⟨hvalue, htail⟩ :=
            double_append_inj (hcomma _) (hcomma _) (List.cons.inj htext).2
          obtain ⟨after, hafter⟩ := hrest.eq_cons
          obtain ⟨after', hafter'⟩ := hrest'.eq_cons
          have hgaps := (List.cons.inj htail).2
          rw [hafter, hafter'] at hgaps
          have hrests : rest = rest' := by
            rw [hafter, hafter', gap_append_inj hblank hgap hgap' hgaps]
          rw [hvalue, ih (hrests ▸ hrest')]

/-- Literals written one after the other stand for their values. -/
theorem literals_intercalate {values : List (List α)} (hne : values ≠ []) :
    Literals quote sep blank ([sep, blank].intercalate (values.map (literal quote))) values := by
  induction values with
  | nil => exact absurd rfl hne
  | cons value rest ih =>
      cases rest with
      | nil =>
          rw [List.map_singleton, List.intercalate_singleton]
          exact .one (body_iff.2 rfl)
      | cons next rest =>
          rw [List.map_cons, List.map_cons, List.intercalate_cons_cons]
          have hbody : Body quote (double quote value) value := body_iff.2 rfl
          have hgap : ∀ x ∈ [blank], x = blank := fun x hx => List.mem_singleton.1 hx
          have hmore := Literals.more hbody hgap (ih (List.cons_ne_nil next rest))
          simpa [literal] using hmore

end Double

end Quoted
