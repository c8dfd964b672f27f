import Mathlib.Data.List.Basic

set_option autoImplicit false

/-! # Programs over durable state that may stop between effects

A `Durable σ ε α` program reads and updates state of type `σ` that survives a crash. Running it
gives its result and the states left after each of its committed effects, oldest first. Nothing
else can be observed of it afterwards: when it is cut after `k` effects, by an error or by a crash,
the state it leaves is `stopAfter k`.

`Crash P m Q C` is the crash triple: started in a `P`-state, `m` only ever leaves `C`-states behind
after an effect, and ends in a `Q a`-state when it returns `a`. Its rules follow the shape of the
program. -/

/-- Peeling one step off a computation that succeeded. -/
theorem Except.bind_eq_ok {ε α β : Type} {x : Except ε α} {f : α → Except ε β} {b : β} :
    x >>= f = .ok b ↔ ∃ a, x = .ok a ∧ f a = .ok b := by
  cases x with
  | error e => exact ⟨fun h => (nomatch h), fun ⟨_, h, _⟩ => (nomatch h)⟩
  | ok a => exact ⟨fun h => ⟨a, rfl, h⟩, fun ⟨_, h, h'⟩ => by cases h; exact h'⟩

theorem Except.map_eq_ok {ε α β : Type} {x : Except ε α} {f : α → β} {b : β} :
    x.map f = .ok b ↔ ∃ a, x = .ok a ∧ f a = b := by
  cases x with
  | error e =>
      constructor
      · intro h
        cases h
      · rintro ⟨_, h, _⟩
        cases h
  | ok a =>
      constructor
      · intro h
        exact ⟨a, rfl, Except.ok.inj h⟩
      · rintro ⟨_, h, h'⟩
        cases h
        exact congrArg Except.ok h'

theorem Except.mapError_eq_ok {ε ε' α : Type} {x : Except ε α} {f : ε → ε'} {a : α} :
    x.mapError f = .ok a ↔ x = .ok a := by
  cases x with
  | error e =>
      constructor
      · intro h
        cases h
      · intro h
        cases h
  | ok b => exact ⟨fun h => congrArg _ (Except.ok.inj h), fun h => congrArg _ (Except.ok.inj h)⟩

theorem Except.eq_ok_of_toOption {ε α : Type} {x : Except ε α} {a : α}
    (h : x.toOption = some a) : x = .ok a := by
  cases x with
  | error e => cases h
  | ok b => exact congrArg _ (Option.some.inj h)

/-- The result of a program and the states after each committed effect. -/
def Durable (σ ε α : Type) : Type := σ → Except ε α × List σ

namespace Durable

variable {σ ε α β : Type}

/-- The state after all effects. -/
def final (m : Durable σ ε α) (s : σ) : σ := (m s).2.getLastD s

/-- The state left when the program is cut after its first `k` effects. -/
def stopAfter (m : Durable σ ε α) (s : σ) (k : ℕ) : σ := ((m s).2.take k).getLastD s

/-- The state left when the program runs to its end, or stops after some number of effects. -/
def cut (m : Durable σ ε α) (s : σ) (stop : Option ℕ) : σ :=
  m.stopAfter s (stop.getD (m s).2.length)

protected def pure (a : α) : Durable σ ε α := fun _ => (.ok a, [])

protected def bind (m : Durable σ ε α) (k : α → Durable σ ε β) : Durable σ ε β := fun s =>
  match m s with
  | (.ok a, visited) =>
      let rest := k a (visited.getLastD s)
      (rest.1, visited ++ rest.2)
  | (.error e, visited) => (.error e, visited)

instance : Monad (Durable σ ε) where
  pure := Durable.pure
  bind := Durable.bind

/-- Read the state. -/
def get : Durable σ ε σ := fun s => (.ok s, [])

/-- One atomic effect. -/
def commit (f : σ → σ) : Durable σ ε Unit := fun s => (.ok (), [f s])

/-- Stop with an error. -/
def throw (e : ε) : Durable σ ε α := fun _ => (.error e, [])

/-- A pure computation that may fail. -/
def lift (r : Except ε α) : Durable σ ε α := fun _ => (r, [])

/-- What is read off the state, or why it cannot be. -/
def inspect (f : σ → Except ε α) : Durable σ ε α := fun s => (f s, [])

/-- One atomic effect that may fail and then changes nothing. -/
def attempt (f : σ → Except ε σ) : Durable σ ε Unit := fun s =>
  match f s with
  | .ok t => (.ok (), [t])
  | .error e => (.error e, [])

/-! ## Running -/

@[simp] theorem pure_run (a : α) (s : σ) : (pure a : Durable σ ε α) s = (.ok a, []) := rfl

@[simp] theorem throw_run (e : ε) (s : σ) : (throw e : Durable σ ε α) s = (.error e, []) := rfl

@[simp] theorem lift_run (r : Except ε α) (s : σ) : (lift r : Durable σ ε α) s = (r, []) := rfl

theorem attempt_of_ok {f : σ → Except ε σ} {s t : σ} (h : f s = .ok t) :
    attempt f s = (.ok (), [t]) := by rw [attempt, h]

theorem attempt_of_error {f : σ → Except ε σ} {s : σ} {e : ε} (h : f s = .error e) :
    attempt f s = (.error e, []) := by rw [attempt, h]

theorem bind_run (m : Durable σ ε α) (k : α → Durable σ ε β) (s : σ) :
    (m >>= k) s = match m s with
      | (.ok a, visited) =>
          ((k a (visited.getLastD s)).1, visited ++ (k a (visited.getLastD s)).2)
      | (.error e, visited) => (.error e, visited) := rfl

theorem bind_run_ok {m : Durable σ ε α} {k : α → Durable σ ε β} {s : σ} {a : α}
    (h : (m s).1 = .ok a) :
    (m >>= k) s = ((k a (m.final s)).1, (m s).2 ++ (k a (m.final s)).2) := by
  rw [bind_run, final]
  generalize m s = r at h
  obtain ⟨r, visited⟩ := r
  cases h
  rfl

theorem bind_run_error {m : Durable σ ε α} {k : α → Durable σ ε β} {s : σ} {e : ε}
    (h : (m s).1 = .error e) : (m >>= k) s = (.error e, (m s).2) := by
  rw [bind_run]
  generalize m s = r at h
  obtain ⟨r, visited⟩ := r
  cases h
  rfl

@[simp] theorem get_bind_run (k : σ → Durable σ ε β) (s : σ) : (get >>= k) s = k s s := rfl

@[simp] theorem final_lift (r : Except ε α) (s : σ) : (lift r : Durable σ ε α).final s = s := rfl

theorem getLastD_append {γ : Type} (xs ys : List γ) (d : γ) :
    (xs ++ ys).getLastD d = ys.getLastD (xs.getLastD d) := by
  rcases List.eq_nil_or_concat' ys with rfl | ⟨ys, y, rfl⟩
  · simp
  · rw [← List.append_assoc, List.getLastD_concat, List.getLastD_concat]

theorem final_bind_ok {m : Durable σ ε α} {k : α → Durable σ ε β} {s : σ} {a : α}
    (h : (m s).1 = .ok a) : (m >>= k).final s = (k a).final (m.final s) := by
  rw [final, bind_run_ok h, getLastD_append]
  rfl

/-! ## Where a program can stop -/

theorem stopAfter_eq_final {m : Durable σ ε α} {s : σ} {k : ℕ} (h : (m s).2.length ≤ k) :
    m.stopAfter s k = m.final s := by
  rw [stopAfter, List.take_of_length_le h, final]

theorem stopAfter_cases (m : Durable σ ε α) (s : σ) (k : ℕ) :
    m.stopAfter s k = s ∨ m.stopAfter s k ∈ (m s).2 := by
  rw [stopAfter]
  rcases List.eq_nil_or_concat' ((m s).2.take k) with h | ⟨xs, x, h⟩
  · rw [h]; exact Or.inl rfl
  · right
    rw [h, List.getLastD_concat]
    exact List.mem_of_mem_take (h ▸ List.mem_append_right xs List.mem_cons_self)

theorem cut_none (m : Durable σ ε α) (s : σ) : m.cut s none = m.final s :=
  stopAfter_eq_final (Nat.le_refl _)

theorem cut_cases (m : Durable σ ε α) (s : σ) (stop : Option ℕ) :
    m.cut s stop = s ∨ m.cut s stop ∈ (m s).2 := stopAfter_cases m s _

theorem cut_of_no_effects {m : Durable σ ε α} {s : σ} (h : (m s).2 = []) (stop : Option ℕ) :
    m.cut s stop = s := by
  rcases cut_cases m s stop with heq | hmem
  · exact heq
  · rw [h] at hmem
    cases hmem

/-- A cut after a given effect leaves that effect's state or a later one. -/
theorem stopAfter_mem_suffix {m : Durable σ ε α} {s x : σ} {before after : List σ} {k : ℕ}
    (h : (m s).2 = before ++ x :: after) (hk : before.length < k) :
    m.stopAfter s k ∈ x :: after := by
  rw [stopAfter, h, List.take_append, List.take_of_length_le (Nat.le_of_lt hk), getLastD_append]
  obtain ⟨j, hj⟩ : ∃ j, k - before.length = j + 1 := ⟨k - before.length - 1, by omega⟩
  rw [hj, List.take_succ_cons, List.getLastD_cons]
  rcases List.eq_nil_or_concat' (after.take j) with hnil | ⟨ys, y, hys⟩
  · rw [hnil]
    exact List.mem_cons_self
  · rw [hys, List.getLastD_concat]
    exact List.mem_cons_of_mem x (List.mem_of_mem_take (hys ▸ List.mem_append_right ys
      List.mem_cons_self))

/-! ## Crash triples -/

/-- From a `P`-state every effect of `m` leaves a `C`-state, and a returned `a` ends in `Q a`. -/
def Crash (P : σ → Prop) (m : Durable σ ε α) (Q : α → σ → Prop) (C : σ → Prop) : Prop :=
  ∀ s, P s → (∀ t ∈ (m s).2, C t) ∧ ∀ a, (m s).1 = .ok a → Q a (m.final s)

variable {P : σ → Prop} {Q : α → σ → Prop} {C : σ → Prop}

theorem Crash.pure {a : α} (h : ∀ s, P s → Q a s) :
    Crash P (pure a : Durable σ ε α) Q C := by
  intro s hs
  refine ⟨by simp, fun b hb => ?_⟩
  cases hb
  exact h s hs

theorem Crash.throw {e : ε} : Crash P (Durable.throw e : Durable σ ε α) Q C :=
  fun _ _ => ⟨by simp, fun _ hb => nomatch hb⟩

theorem Crash.bind {m : Durable σ ε α} {k : α → Durable σ ε β} {R : β → σ → Prop}
    (hm : Crash P m Q C) (hk : ∀ a, Crash (Q a) (k a) R C) : Crash P (m >>= k) R C := by
  intro s hs
  obtain ⟨hvisited, hok⟩ := hm s hs
  cases hr : (m s).1 with
  | error e =>
      rw [bind_run_error hr]
      exact ⟨hvisited, fun _ hb => nomatch hb⟩
  | ok a =>
      obtain ⟨hvisited', hok'⟩ := hk a (m.final s) (hok a hr)
      rw [final_bind_ok hr, bind_run_ok hr]
      refine ⟨fun t ht => ?_, hok'⟩
      exact (List.mem_append.1 ht).elim (hvisited t) (hvisited' t)

theorem Crash.get_bind {k : σ → Durable σ ε β} {R : β → σ → Prop}
    (hk : ∀ s, P s → Crash (fun t => t = s) (k s) R C) : Crash P (get >>= k) R C :=
  fun s hs => hk s hs s rfl

theorem Crash.lift {r : Except ε α} (h : ∀ s a, P s → r = .ok a → Q a s) :
    Crash P (Durable.lift r) Q C :=
  fun s hs => ⟨fun _ ht => (nomatch ht), fun a ha => h s a hs ha⟩

theorem Crash.commit {f : σ → σ} {Q : Unit → σ → Prop} (h : ∀ s, P s → C (f s) ∧ Q () (f s)) :
    Crash P (Durable.commit f : Durable σ ε Unit) Q C := by
  intro s hs
  refine ⟨fun t ht => ?_, fun _ _ => (h s hs).2⟩
  rw [List.mem_singleton.1 ht]
  exact (h s hs).1

theorem Crash.inspect {f : σ → Except ε α} (h : ∀ s a, P s → f s = .ok a → Q a s) :
    Crash P (Durable.inspect f) Q C :=
  fun s hs => ⟨fun _ ht => (nomatch ht), fun a ha => h s a hs ha⟩

theorem Crash.attempt {f : σ → Except ε σ} {Q : Unit → σ → Prop}
    (h : ∀ s t, P s → f s = .ok t → C t ∧ Q () t) : Crash P (Durable.attempt f) Q C := by
  intro s hs
  cases hf : f s with
  | error e =>
      rw [final, attempt_of_error hf]
      exact ⟨fun _ ht => (nomatch ht), fun _ ha => (nomatch ha)⟩
  | ok t =>
      rw [final, attempt_of_ok hf]
      exact ⟨fun _ ht => List.mem_singleton.1 ht ▸ (h s t hs hf).1, fun _ _ => (h s t hs hf).2⟩

/-- Wherever the program is cut, it leaves the start state or a `C`-state. -/
theorem Crash.stopAfter {m : Durable σ ε α} (h : Crash P m Q C) {s : σ} (hs : P s) (hC : C s)
    (k : ℕ) : C (m.stopAfter s k) := by
  rcases stopAfter_cases m s k with heq | hmem
  · rw [heq]; exact hC
  · exact (h s hs).1 _ hmem

theorem Crash.cut {m : Durable σ ε α} (h : Crash P m Q C) {s : σ} (hs : P s) (hC : C s)
    (stop : Option ℕ) : C (m.cut s stop) := h.stopAfter hs hC _

/-! ## How a program ends -/

/-- From a `P`-state `m` ends in a `Q a`-state when it returns `a`, and in an `E e`-state when it
    fails with `e`. -/
def Ends (P : σ → Prop) (m : Durable σ ε α) (Q : α → σ → Prop) (E : ε → σ → Prop) : Prop :=
  ∀ s, P s → (∀ a, (m s).1 = .ok a → Q a (m.final s)) ∧ ∀ e, (m s).1 = .error e → E e (m.final s)

variable {E : ε → σ → Prop}

theorem Ends.mono {P' : σ → Prop} {Q' : α → σ → Prop} {E' : ε → σ → Prop} {m : Durable σ ε α}
    (h : Ends P m Q E) (hP : ∀ s, P' s → P s) (hQ : ∀ a s, Q a s → Q' a s)
    (hE : ∀ e s, E e s → E' e s) : Ends P' m Q' E' :=
  fun s hs => ⟨fun a ha => hQ a _ ((h s (hP s hs)).1 a ha),
    fun e he => hE e _ ((h s (hP s hs)).2 e he)⟩

/-- A part of the precondition that does not speak of the state. -/
theorem Ends.of_and {p : Prop} {m : Durable σ ε α} (h : p → Ends P m Q E) :
    Ends (fun s => p ∧ P s) m Q E := fun s hs => h hs.1 s hs.2

theorem Ends.pure {a : α} (h : ∀ s, P s → Q a s) : Ends P (pure a : Durable σ ε α) Q E :=
  fun s hs => ⟨fun b hb => by cases hb; exact h s hs, fun _ he => (nomatch he)⟩

theorem Ends.throw {e : ε} (h : ∀ s, P s → E e s) : Ends P (Durable.throw e : Durable σ ε α) Q E :=
  fun s hs => ⟨fun _ hb => (nomatch hb), fun e' he => by cases he; exact h s hs⟩

theorem Ends.bind {m : Durable σ ε α} {k : α → Durable σ ε β} {R : β → σ → Prop}
    (hm : Ends P m Q E) (hk : ∀ a, Ends (Q a) (k a) R E) : Ends P (m >>= k) R E := by
  intro s hs
  obtain ⟨hok, herror⟩ := hm s hs
  cases hr : (m s).1 with
  | error e =>
      rw [final, bind_run_error hr]
      exact ⟨fun _ hb => (nomatch hb), fun e' he => by cases he; exact herror e hr⟩
  | ok a =>
      rw [final_bind_ok hr, bind_run_ok hr]
      exact hk a (m.final s) (hok a hr)

/-- A read that succeeds. -/
theorem Ends.inspect {f : σ → Except ε α} (h : ∀ s, P s → ∃ a, f s = .ok a ∧ Q a s) :
    Ends P (Durable.inspect f) Q E := by
  intro s hs
  obtain ⟨a, ha, hQ⟩ := h s hs
  refine ⟨fun b hb => ?_, fun e he => (nomatch ha.symm.trans he)⟩
  cases ha.symm.trans hb
  exact hQ

/-- An effect that succeeds. -/
theorem Ends.attempt {f : σ → Except ε σ} {Q : Unit → σ → Prop}
    (h : ∀ s, P s → ∃ t, f s = .ok t ∧ Q () t) : Ends P (Durable.attempt f) Q E := by
  intro s hs
  obtain ⟨t, ht, hQ⟩ := h s hs
  rw [final, attempt_of_ok ht]
  exact ⟨fun _ _ => hQ, fun e he => (nomatch he)⟩

theorem Ends.commit {f : σ → σ} {Q : Unit → σ → Prop} (h : ∀ s, P s → Q () (f s)) :
    Ends P (Durable.commit f : Durable σ ε Unit) Q E :=
  fun s hs => ⟨fun _ _ => h s hs, fun _ he => (nomatch he)⟩

/-! ## Programs with more ways to fail -/

section MayStop

variable {ε' : Type} {g : ε → ε'} {X : ε' → Prop}

/-- `m'` does what `m` does, its errors as `g` tells them, or stops on the way for a reason of
    `X`. -/
def MayStop (g : ε → ε') (X : ε' → Prop) (m' : Durable σ ε' α) (m : Durable σ ε α) : Prop :=
  ∀ s, ((m' s).1 = (m s).1.mapError g ∧ (m' s).2 = (m s).2) ∨
    ∃ e, X e ∧ (m' s).1 = .error e ∧ (m' s).2 <+: (m s).2

theorem MayStop.pure (a : α) :
    MayStop g X (pure a : Durable σ ε' α) (pure a : Durable σ ε α) :=
  fun _ => Or.inl ⟨rfl, rfl⟩

theorem MayStop.throw (e : ε) :
    MayStop g X (Durable.throw (g e) : Durable σ ε' α) (Durable.throw e : Durable σ ε α) :=
  fun _ => Or.inl ⟨rfl, rfl⟩

theorem MayStop.commit (f : σ → σ) :
    MayStop g X (Durable.commit f : Durable σ ε' Unit) (Durable.commit f : Durable σ ε Unit) :=
  fun _ => Or.inl ⟨rfl, rfl⟩

theorem MayStop.lift {r' : Except ε' α} {r : Except ε α} (h : r' = r.mapError g) :
    MayStop g X (Durable.lift r' : Durable σ ε' α) (Durable.lift r : Durable σ ε α) :=
  fun _ => Or.inl ⟨h, rfl⟩

theorem MayStop.get_bind {k' : σ → Durable σ ε' α} {k : σ → Durable σ ε α}
    (h : ∀ s, MayStop g X (k' s) (k s)) :
    MayStop g X (Durable.get >>= k') (Durable.get >>= k) := fun s => h s s

/-- A call in front that only a reason of `X` makes fail. -/
theorem MayStop.check {r : Except ε' Unit} (hr : ∀ e, r = .error e → X e) {m' : Durable σ ε' α}
    {m : Durable σ ε α} (h : MayStop g X m' m) :
    MayStop g X (Durable.lift r >>= fun _ => m') m := by
  intro s
  cases r with
  | error e => exact Or.inr ⟨e, hr e rfl, rfl, List.nil_prefix⟩
  | ok => exact h s

theorem MayStop.bind {m' : Durable σ ε' α} {m : Durable σ ε α} {k' : α → Durable σ ε' β}
    {k : α → Durable σ ε β} (hm : MayStop g X m' m) (hk : ∀ a, MayStop g X (k' a) (k a)) :
    MayStop g X (m' >>= k') (m >>= k) := by
  intro s
  rcases hm s with ⟨hresult, heffects⟩ | ⟨e, hX, herror, hprefix⟩
  · cases hr : (m s).1 with
    | error e =>
        rw [hr] at hresult
        rw [bind_run_error hr, bind_run_error hresult]
        exact Or.inl ⟨rfl, heffects⟩
    | ok a =>
        rw [hr] at hresult
        have hfinal : m'.final s = m.final s := by rw [final, heffects, final]
        rw [bind_run_ok hr, bind_run_ok hresult, hfinal, heffects]
        rcases hk a (m.final s) with ⟨hresult', heffects'⟩ | ⟨e, hX, herror, hprefix⟩
        · exact Or.inl ⟨hresult', congrArg _ heffects'⟩
        · exact Or.inr ⟨e, hX, herror, (List.prefix_append_right_inj _).2 hprefix⟩
  · right
    rw [bind_run_error herror]
    refine ⟨e, hX, rfl, ?_⟩
    cases hr : (m s).1 with
    | error e' =>
        rw [bind_run_error hr]
        exact hprefix
    | ok a =>
        rw [bind_run_ok hr]
        exact hprefix.trans (List.prefix_append _ _)

/-- A result is the one of `m`, and so is what is left. -/
theorem MayStop.of_ok {m' : Durable σ ε' α} {m : Durable σ ε α} (h : MayStop g X m' m) {s : σ}
    {a : α} (hok : (m' s).1 = .ok a) : (m s).1 = .ok a ∧ m'.final s = m.final s := by
  rcases h s with ⟨hresult, heffects⟩ | ⟨e, -, herror, -⟩
  · refine ⟨?_, by rw [final, heffects, final]⟩
    cases hr : (m s).1 with
    | error e =>
        rw [hr, hok] at hresult
        cases hresult
    | ok b =>
        rw [hr, hok] at hresult
        cases hresult
        rfl
  · rw [hok] at herror
    cases herror

/-- What is left is what `m` leaves when it is cut. -/
theorem MayStop.final_eq_cut {m' : Durable σ ε' α} {m : Durable σ ε α} (h : MayStop g X m' m)
    (s : σ) : ∃ stop, m'.final s = m.cut s stop := by
  rcases h s with ⟨-, heffects⟩ | ⟨e, -, -, hprefix⟩
  · exact ⟨none, by rw [cut_none, final, heffects, final]⟩
  · refine ⟨some (m' s).2.length, ?_⟩
    rw [cut, Option.getD_some, stopAfter, ← List.prefix_iff_eq_take.1 hprefix, final]

/-- Without a reason to stop it does what `m` does. -/
theorem MayStop.run_eq {m' : Durable σ ε' α} {m : Durable σ ε α} (h : MayStop g X m' m)
    (hX : ∀ e, ¬ X e) (s : σ) : m' s = ((m s).1.mapError g, (m s).2) := by
  rcases h s with ⟨hresult, heffects⟩ | ⟨e, he, -⟩
  · exact Prod.ext hresult heffects
  · exact absurd he (hX e)

end MayStop

end Durable
