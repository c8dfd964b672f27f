import Fndr.Library.FirstByKey
import Fndr.Store.LanceWriter

set_option autoImplicit false

/-! # Memoized embedding

`memoize_by_text` and `GgufEmbedder::embed_documents` of `gguf_embedder.rs`. The llama.cpp call for
one text and the float arithmetic on its output are parameters.

The loop keeps the vectors it has computed in a cache. What the cache holds is what `compute` gives
(`MemoLoop.Sound`), and its keys are the texts that are not computed again (`memoizeLoop_eq`). So
the loop is the plain map with each distinct text computed once (`memoizeByText_memoized`). -/

namespace Fndr

open RustStd

/-- The state of the loop, with the texts that `compute` was called on. -/
structure MemoLoop where
  cache : List (Str × List F32)
  results : List (List F32)
  calls : List Str

/-- The loop before its first text. -/
def MemoLoop.start : MemoLoop where
  cache := []
  results := []
  calls := []

/-- What became of a call: the texts given to `compute`, in order, and the result. -/
structure MemoRun where
  calls : List Str
  result : Except EmbedError (List (List F32))

/-- Take a vector from the cache, or compute and cache it. -/
def memoizeLoop (compute : Str → Except EmbedError (List F32)) (loop : MemoLoop) :
    List Str → MemoRun
  | [] => ⟨loop.calls, .ok loop.results⟩
  | text :: rest =>
      match loop.cache.lookup text with
      | some cached => memoizeLoop compute { loop with results := loop.results ++ [cached] } rest
      | none =>
          match compute text with
          -- the first failure ends the batch
          | .error error => ⟨loop.calls ++ [text], .error error⟩
          | .ok value =>
              memoizeLoop compute
                { cache := (text, value) :: loop.cache
                  results := loop.results ++ [value]
                  calls := loop.calls ++ [text] } rest

/-- Compute each distinct text once and reuse the vector for its repeats. -/
def memoizeByText (texts : List Str) (compute : Str → Except EmbedError (List F32)) : MemoRun :=
  memoizeLoop compute .start texts

/-- `GgufEmbedder`: the native embedding of one text, and `truncate_and_renormalize`. -/
structure GgufEmbedder where
  spec : EmbeddingSpec
  embedOne : Str → Except EmbedError (List F32)
  truncateAndRenormalize : List F32 → ℕ → List F32

/-- The vector of one text, at the length that the spec asks for. -/
def GgufEmbedder.embedText (gguf : GgufEmbedder) (text : Str) : Except EmbedError (List F32) := do
  let native ← gguf.embedOne text
  return gguf.truncateAndRenormalize native gguf.spec.dim

/-- `Embedder for GgufEmbedder`. -/
def GgufEmbedder.embedder (gguf : GgufEmbedder) : Embedder where
  spec := gguf.spec
  embedDocuments := fun texts => (memoizeByText texts gguf.embedText).result

/-! ## What the loop keeps -/

section Memoize

variable (compute : Str → Except EmbedError (List F32))

/-- The texts up to the first that fails, that one included. -/
def upToFailure : List Str → List Str
  | [] => []
  | text :: rest =>
      match compute text with
      | .ok _ => text :: upToFailure rest
      | .error _ => [text]

/-- The cache holds what `compute` gives, for the texts of the calls. -/
structure MemoLoop.Sound (loop : MemoLoop) : Prop where
  computed : ∀ text value, loop.cache.lookup text = some value → compute text = .ok value

variable {compute}

theorem lookup_eq_none_iff_notMem {cache : List (Str × List F32)} {text : Str} :
    cache.lookup text = none ↔ text ∉ cache.map Prod.fst := by
  rw [List.lookup_eq_none_iff, List.mem_map]
  constructor
  · rintro h ⟨entry, hentry, rfl⟩
    exact absurd rfl (bne_iff_ne.1 (h entry hentry))
  · intro h entry hentry
    exact bne_iff_ne.2 (fun hsame => h ⟨entry, hentry, hsame.symm⟩)

/-- A computed vector may be cached. -/
theorem MemoLoop.Sound.insert {loop : MemoLoop} (h : loop.Sound compute) {text : Str}
    {value : List F32} (hcompute : compute text = .ok value) :
    MemoLoop.Sound compute
      ⟨(text, value) :: loop.cache, loop.results ++ [value], loop.calls ++ [text]⟩ where
  computed := by
    intro other found hfound
    rw [List.lookup_cons] at hfound
    split at hfound
    · next hsame =>
      cases hfound
      rw [eq_of_beq hsame, hcompute]
    · exact h.computed other found hfound

/-- What the plain map gives behind the results of the loop. -/
theorem map_append_mapM_cons {text : Str} {value : List F32} (h : compute text = .ok value)
    (rest : List Str) (results : List (List F32)) :
    ((text :: rest).mapM compute).map (results ++ ·) =
      (rest.mapM compute).map (results ++ [value] ++ ·) := by
  rw [List.mapM_cons, h]
  cases rest.mapM compute <;> simp [Except.map, bind, Except.bind, pure, Except.pure]

/-- **The loop from any state.** Its result is that of the plain map behind what it has already, and
    it calls `compute` once on each text that is not cached, up to the first failure. -/
theorem memoizeLoop_eq (texts : List Str) : ∀ loop : MemoLoop, loop.Sound compute →
    (memoizeLoop compute loop texts).result = (texts.mapM compute).map (loop.results ++ ·) ∧
      (memoizeLoop compute loop texts).calls = loop.calls ++
        FirstByKey.firsts id (loop.cache.map Prod.fst) (upToFailure compute texts) := by
  induction texts with
  | nil =>
      intro loop hsound
      simp [memoizeLoop, upToFailure, FirstByKey.firsts, Except.map, pure, Except.pure]
  | cons text rest ih =>
      intro loop hsound
      rw [memoizeLoop, upToFailure]
      -- the cache holds what `compute` answers, so a cached text is as good as a computed one
      cases hcached : loop.cache.lookup text with
      | some cached =>
          have hcompute := hsound.computed text cached hcached
          have hmem : text ∈ loop.cache.map Prod.fst := by
            by_contra hnone
            rw [lookup_eq_none_iff_notMem.2 hnone] at hcached
            cases hcached
          obtain ⟨hresult, hcalls⟩ := ih { loop with results := loop.results ++ [cached] }
            ⟨hsound.computed⟩
          rw [map_append_mapM_cons hcompute]
          simp only [hcompute, FirstByKey.firsts, id_eq, if_pos hmem]
          exact ⟨hresult, hcalls⟩
      | none =>
          have hnew := lookup_eq_none_iff_notMem.1 hcached
          cases hcompute : compute text with
          | error error =>
              simp [List.mapM_cons, hcompute, FirstByKey.firsts, hnew, Except.map, bind,
                Except.bind]
          | ok value =>
              obtain ⟨hresult, hcalls⟩ := ih _ (hsound.insert hcompute)
              rw [map_append_mapM_cons hcompute]
              simp only [FirstByKey.firsts, id_eq, if_neg hnew]
              refine ⟨hresult, ?_⟩
              rw [hcalls, List.append_assoc, List.singleton_append, List.map_cons]

theorem memoizeByText_result (texts : List Str) :
    (memoizeByText texts compute).result = texts.mapM compute := by
  have hsound : MemoLoop.start.Sound compute := ⟨nofun⟩
  obtain ⟨hresult, -⟩ := memoizeLoop_eq texts .start hsound
  rw [memoizeByText, hresult]
  cases texts.mapM compute <;> rfl

theorem memoizeByText_calls (texts : List Str) :
    (memoizeByText texts compute).calls =
      FirstByKey.firsts id [] (upToFailure compute texts) :=
  (memoizeLoop_eq texts .start ⟨nofun⟩).2

/-! ## The plain map -/

theorem mapM_eq_ok_iff {texts : List Str} {vectors : List (List F32)} :
    texts.mapM compute = .ok vectors ↔ texts.map compute = vectors.map .ok := by
  induction texts generalizing vectors with
  | nil =>
      cases vectors with
      | nil => simp [pure, Except.pure]
      | cons vector vectors => simp [pure, Except.pure]
  | cons text rest ih =>
      rw [List.mapM_cons, Except.bind_eq_ok, List.map_cons]
      constructor
      · rintro ⟨vector, hvector, hrest⟩
        obtain ⟨others, hothers, hdone⟩ := Except.bind_eq_ok.1 hrest
        cases hdone
        rw [hvector, ih.1 hothers, List.map_cons]
      · intro h
        cases vectors with
        | nil => cases h
        | cons vector others =>
            obtain ⟨hvector, hothers⟩ := List.cons.inj h
            exact ⟨vector, hvector, Except.bind_eq_ok.2 ⟨others, ih.2 hothers, rfl⟩⟩

/-- The first text that fails, fails with this error. -/
def FailsFirst (compute : Str → Except EmbedError (List F32)) (texts : List Str)
    (error : EmbedError) : Prop :=
  ∃ front text back, texts = front ++ text :: back ∧
    (∀ before ∈ front, ∃ vector, compute before = .ok vector) ∧ compute text = .error error

theorem failsFirst_cons_iff {text : Str} {rest : List Str} {error : EmbedError} :
    FailsFirst compute (text :: rest) error ↔ compute text = .error error ∨
      (∃ vector, compute text = .ok vector) ∧ FailsFirst compute rest error := by
  constructor
  · rintro ⟨front, failed, back, htexts, hfront, hfailed⟩
    cases front with
    | nil =>
        cases htexts
        exact Or.inl hfailed
    | cons first front =>
        cases htexts
        obtain ⟨hfirst, hothers⟩ := List.forall_mem_cons.1 hfront
        exact Or.inr ⟨hfirst, front, failed, back, rfl, hothers, hfailed⟩
  · rintro (hfailed | ⟨hfirst, front, failed, back, rfl, hfront, hfailed⟩)
    · exact ⟨[], text, rest, rfl, nofun, hfailed⟩
    · exact ⟨text :: front, failed, back, rfl, List.forall_mem_cons.2 ⟨hfirst, hfront⟩, hfailed⟩

theorem mapM_eq_error_iff {texts : List Str} {error : EmbedError} :
    texts.mapM compute = .error error ↔ FailsFirst compute texts error := by
  induction texts with
  | nil =>
      refine iff_of_false nofun ?_
      rintro ⟨front, text, back, htexts, -⟩
      exact absurd htexts (by simp)
  | cons text rest ih =>
      rw [failsFirst_cons_iff, ← ih, List.mapM_cons]
      cases compute text with
      | error other => simp [bind, Except.bind]
      | ok vector =>
          cases rest.mapM compute with
          | error other => simp [bind, Except.bind]
          | ok vectors => simp [bind, Except.bind, pure, Except.pure]

/-! ## Memoized and plain -/

/-- What is said of a memoized call: it is the plain map in order, or the first error, and each
    distinct text up to the first failure is computed once, in order of first occurrence. -/
structure Memoized (compute : Str → Except EmbedError (List F32)) (texts : List Str)
    (run : MemoRun) : Prop where
  succeeds : (∃ vectors, run.result = .ok vectors) ↔
    ∀ text ∈ texts, ∃ vector, compute text = .ok vector
  plain : ∀ vectors, run.result = .ok vectors → texts.map compute = vectors.map .ok
  firstError : ∀ error, run.result = .error error ↔ FailsFirst compute texts error
  calls : run.calls = FirstByKey.firsts id [] (upToFailure compute texts)

variable (compute) in
/-- **Memoized embedding is plain embedding**, with each distinct text computed once. -/
theorem memoizeByText_memoized (texts : List Str) :
    Memoized compute texts (memoizeByText texts compute) where
  succeeds := by
    rw [memoizeByText_result]
    constructor
    · rintro ⟨vectors, hvectors⟩ text htext
      have hmem : compute text ∈ vectors.map Except.ok := by
        rw [← mapM_eq_ok_iff.1 hvectors]
        exact List.mem_map_of_mem htext
      obtain ⟨vector, -, hvector⟩ := List.mem_map.1 hmem
      exact ⟨vector, hvector.symm⟩
    · intro hall
      cases hresult : texts.mapM compute with
      | ok vectors => exact ⟨vectors, rfl⟩
      | error error =>
          obtain ⟨front, text, back, rfl, -, hfailed⟩ := mapM_eq_error_iff.1 hresult
          obtain ⟨vector, hvector⟩ := hall text (by simp)
          rw [hfailed] at hvector
          cases hvector
  plain vectors hvectors := mapM_eq_ok_iff.1 (memoizeByText_result texts ▸ hvectors)
  firstError error := by rw [memoizeByText_result, mapM_eq_error_iff]
  calls := memoizeByText_calls texts

end Memoize

/-- Two texts, five times: two calls. -/
example : (memoizeByText (["alpha", "beta", "alpha", "alpha", "beta"].map String.toList)
    (fun text => .ok [UInt32.ofNat text.length])).calls = ["alpha", "beta"].map String.toList := by
  decide

/-- An embedder that succeeds on every text, with vectors of the contract's dimension, is complete
    for the writer. -/
theorem GgufEmbedder.complete (gguf : GgufEmbedder) (h : ∀ text, ∃ vector,
    gguf.embedText text = .ok vector ∧ vector.length = gguf.spec.dim) : gguf.embedder.Complete := by
  intro texts
  have hrun := memoizeByText_memoized gguf.embedText texts
  obtain ⟨vectors, hvectors⟩ := hrun.succeeds.2
    (fun text _ => (h text).imp (fun _ hvector => hvector.1))
  have hplain := hrun.plain vectors hvectors
  refine ⟨vectors, hvectors, ?_, fun vector hvector => ?_⟩
  · have hlength := congrArg List.length hplain
    rw [List.length_map, List.length_map] at hlength
    exact hlength.symm
  · have hmem : Except.ok vector ∈ texts.map gguf.embedText := by
      rw [hplain]
      exact List.mem_map_of_mem hvector
    obtain ⟨text, -, htext⟩ := List.mem_map.1 hmem
    obtain ⟨other, hother, hlength⟩ := h text
    rw [htext] at hother
    cases hother
    exact hlength

end Fndr
