import Fndr.Retrieval.MergedSearch
import Fndr.Library.Words

set_option autoImplicit false

/-! # The terms of a query and the tokens of the index

`fts_terms` strips a word of its punctuation, except `_` and `-`, and keeps what is left as one
term; the index splits a text at everything that is not alphanumeric. So a word of punctuation
leaves a term without a token when it has a `_` or a `-` (`insert_punctuation_iff`), and a word such
as `don't` becomes a term whose token stands in no text with that word. A word finds its chunk when
none of its pieces are glued (`found_by_own_words_iff`). -/

namespace Fndr

open RustStd Rows

section Terms

variable [UnicodeTables]

/-- The characters at which the index ends a token. -/
def isTokenBreak (c : Char) : Bool := !isAlphanumeric c

/-- The tokens of a text, before case folding and stemming. -/
def ftsTokens (text : Str) : List Str := fields isTokenBreak text

/-- The punctuation that `fts_terms` keeps. -/
def isKeptPunctuation (c : Char) : Bool := c == '_' || c == '-'

/-- What `fts_terms` keeps of a word. -/
def ftsTerm (word : Str) : Str := word.filter (fun c => isAlphanumeric c || c == '_' || c == '-')

theorem ftsTerms_eq (query : Str) :
    ftsTerms query = ((splitWhitespace query).map ftsTerm).filter (· ≠ []) := rfl

theorem mem_ftsTerm {word : Str} {c : Char} :
    c ∈ ftsTerm word ↔ c ∈ word ∧ (isAlphanumeric c = true ∨ isKeptPunctuation c = true) := by
  simp [ftsTerm, isKeptPunctuation, or_assoc]

theorem ftsTerm_append (s t : Str) : ftsTerm (s ++ t) = ftsTerm s ++ ftsTerm t := List.filter_append ..

theorem ftsTerm_eq_nil_iff (word : Str) :
    ftsTerm word = [] ↔ ∀ c ∈ word, isAlphanumeric c = false ∧ isKeptPunctuation c = false := by
  rw [List.eq_nil_iff_forall_not_mem]
  refine forall_congr' (fun c => ?_)
  rw [mem_ftsTerm, not_and, not_or, Bool.not_eq_true, Bool.not_eq_true]

/-- A word without alphanumerics leaves a term when it has kept punctuation. -/
theorem ftsTerm_eq_nil_iff_of_punctuation {word : Str}
    (h : ∀ c ∈ word, isAlphanumeric c = false) :
    ftsTerm word = [] ↔ '_' ∉ word ∧ '-' ∉ word := by
  rw [ftsTerm_eq_nil_iff]
  constructor
  · intro hnil
    exact ⟨fun hmem => absurd (hnil _ hmem).2 (by decide),
      fun hmem => absurd (hnil _ hmem).2 (by decide)⟩
  · rintro ⟨hlow, hdash⟩ c hc
    refine ⟨h c hc, ?_⟩
    simp only [isKeptPunctuation, Bool.or_eq_false_iff, beq_eq_false_iff_ne]
    exact ⟨fun heq => hlow (heq ▸ hc), fun heq => hdash (heq ▸ hc)⟩

theorem ftsTokens_eq_nil_iff (text : Str) :
    ftsTokens text = [] ↔ ∀ c ∈ text, isAlphanumeric c = false := by
  simp [ftsTokens, fields_eq_nil_iff, isTokenBreak]

/-- Stripping punctuation leaves a word its alphanumerics. -/
theorem ftsTokens_ftsTerm_ne_nil {word : Str} (h : ∃ c ∈ word, isAlphanumeric c = true) :
    ftsTokens (ftsTerm word) ≠ [] := by
  obtain ⟨c, hc, halnum⟩ := h
  intro hnil
  have := (ftsTokens_eq_nil_iff _).1 hnil c (mem_ftsTerm.2 ⟨hc, Or.inl halnum⟩)
  rw [halnum] at this
  cases this

theorem quote_not_mem_ftsTerms [LawfulUnicode] {query term : Str} (h : term ∈ ftsTerms query) :
    '"' ∉ term := by
  intro hquote
  rw [ftsTerms_eq, List.mem_filter, List.mem_map] at h
  obtain ⟨⟨word, -, rfl⟩, -⟩ := h
  rcases (mem_ftsTerm.1 hquote).2 with halnum | hkept
  · rw [LawfulUnicode.isAlphanumeric_ascii '"' (by decide)] at halnum
    cases halnum
  · cases hkept

theorem ftsTerms_append_word (a p b : Str) (hp : p ≠ []) (hword : ∀ c ∈ p, isWhitespace c = false) :
    ftsTerms (a ++ ' ' :: p ++ ' ' :: b)
      = ftsTerms a ++ (if ftsTerm p = [] then [] else [ftsTerm p]) ++ ftsTerms b := by
  have hspace : isWhitespace ' ' = true := by decide
  have hwords : splitWhitespace (a ++ ' ' :: p ++ ' ' :: b)
      = splitWhitespace a ++ [p] ++ splitWhitespace b := by
    rw [splitWhitespace_eq_fields, fields_append_cons _ _ hspace, fields_append_cons _ _ hspace,
      fields_of_forall hp hword]
    rfl
  simp only [ftsTerms_eq, hwords, List.map_append, List.filter_append, List.map_singleton]
  by_cases hnil : ftsTerm p = []
  · simp [hnil]
  · simp [hnil]

/-- The terms of the query made of words that each keep something. -/
theorem ftsTerms_join {ws : List Str}
    (h : ∀ w ∈ ws, (w ≠ [] ∧ ∀ c ∈ w, isWhitespace c = false) ∧ ftsTerm w ≠ []) :
    ftsTerms (join " ".toList ws) = ws.map ftsTerm := by
  have hwords : splitWhitespace (join " ".toList ws) = ws :=
    fields_join_words (by decide) (fun w hw => (h w hw).1)
  rw [ftsTerms_eq, hwords, List.filter_eq_self]
  intro term hterm
  obtain ⟨w, hw, rfl⟩ := List.mem_map.1 hterm
  exact decide_eq_true (h w hw).2

omit [UnicodeTables] in
/-- Different numbers of terms make different expressions: a term brings two quotes. -/
theorem count_quote_join (terms : List Str) (h : ∀ term ∈ terms, '"' ∉ term) :
    (join " AND ".toList (terms.map quoted)).count '"' = 2 * terms.length := by
  induction terms with
  | nil => rfl
  | cons term rest ih =>
      obtain ⟨hterm, hrest⟩ := List.forall_mem_cons.1 h
      have hquoted : (quoted term).count '"' = 2 := by
        simp [quoted, List.count_append, List.count_eq_zero.2 hterm]
      cases rest with
      | nil => simpa [join] using hquoted
      | cons next rest =>
          have hsep : " AND ".toList.count '"' = 0 := by decide
          have hquotes := ih hrest
          rw [List.map_cons] at hquotes
          rw [List.map_cons, List.map_cons, join_cons_cons, List.count_append, List.count_append,
            hquoted, hsep, hquotes]
          simp only [List.length_cons]
          omega

/-! ## Glued words -/

/-- No two runs of alphanumerics of the word meet when its punctuation is stripped: between two
    kept characters there is one run at most. -/
def Unglued (word : Str) : Prop :=
  ∀ piece ∈ split isKeptPunctuation word, (ftsTokens piece).length ≤ 1

instance (word : Str) : Decidable (Unglued word) := inferInstanceAs (Decidable (∀ _ ∈ _, _))

/-- Stripping a piece without kept punctuation glues its tokens. -/
theorem ftsTerm_eq_flatten {piece : Str} (h : ∀ c ∈ piece, isKeptPunctuation c = false) :
    ftsTerm piece = (ftsTokens piece).flatten := by
  rw [ftsTokens, flatten_fields, ftsTerm]
  refine List.filter_congr (fun c hc => ?_)
  have hkept := h c hc
  rw [isKeptPunctuation] at hkept
  rw [isTokenBreak, Bool.not_not, Bool.or_assoc, hkept, Bool.or_false]

theorem ftsTokens_ftsTerm_of_length_le_one {piece : Str}
    (hkept : ∀ c ∈ piece, isKeptPunctuation c = false) (h : (ftsTokens piece).length ≤ 1) :
    ftsTokens (ftsTerm piece) = ftsTokens piece := by
  rw [ftsTerm_eq_flatten hkept]
  rcases htokens : ftsTokens piece with _ | ⟨token, rest⟩
  · rfl
  · have hrest : rest = [] := by simpa [htokens] using h
    have hmem : token ∈ fields isTokenBreak piece := by
      rw [← ftsTokens, htokens]
      exact List.mem_cons_self
    obtain ⟨hne, hfree⟩ := of_mem_fields hmem
    rw [hrest, List.flatten_singleton, ftsTokens, fields_of_forall hne hfree]

/-- **An unglued word keeps its tokens.** -/
theorem ftsTokens_ftsTerm_of_unglued [LawfulUnicode] {word : Str} (h : Unglued word) :
    ftsTokens (ftsTerm word) = ftsTokens word := by
  induction word using fields_induction isKeptPunctuation with
  | word s hs =>
      refine ftsTokens_ftsTerm_of_length_le_one hs (h s ?_)
      rw [split_of_forall hs]
      exact List.mem_singleton_self s
  | separator v c t hv hc ih =>
      have hsplit : split isKeptPunctuation (v ++ c :: t) = v :: split isKeptPunctuation t :=
        List.splitOnP_append_cons_of_forall_mem hv c hc t
      rw [Unglued, hsplit, List.forall_mem_cons] at h
      have hbreak : isTokenBreak c = true := by
        have hc' : c = '_' ∨ c = '-' := by simpa [isKeptPunctuation] using hc
        rcases hc' with rfl | rfl
        · rw [isTokenBreak, LawfulUnicode.isAlphanumeric_ascii '_' (by decide)]
          rfl
        · rw [isTokenBreak, LawfulUnicode.isAlphanumeric_ascii '-' (by decide)]
          rfl
      have hkeep : ftsTerm (v ++ c :: t) = ftsTerm v ++ c :: ftsTerm t := by
        rw [ftsTerm_append]
        congr 1
        refine List.filter_cons_of_pos ?_
        rw [isKeptPunctuation] at hc
        rw [Bool.or_assoc, hc, Bool.or_true]
      rw [hkeep, ftsTokens, fields_append_cons _ _ hbreak, ftsTokens, fields_append_cons _ _ hbreak]
      exact congrArg₂ _ (ftsTokens_ftsTerm_of_length_le_one hv h.1) (ih h.2)

/-! ## The index -/

section Index

variable [Fts5]

/-- FTS5 over `unicode61`: a quoted term matches when it has a token and its tokens stand one after
    the other in the text, up to the `fold` of the tokenizer (case, diacritics, stem). -/
def Unicode61 (fold : Str → Str) : Prop :=
  ∀ terms text, terms ≠ [] → (∀ term ∈ terms, '"' ∉ term) →
    (isMatch (join " AND ".toList (terms.map quoted)) text = true ↔
      ∀ term ∈ terms, ftsTokens term ≠ [] ∧
        (ftsTokens term).map fold <:+: (ftsTokens text).map fold)

/-- A conjunction with a quoted term that has no token matches nothing. -/
def TokenlessMatchesNothing : Prop :=
  ∀ (terms : List Str) (text : Str), (∀ term ∈ terms, '"' ∉ term) →
    (∃ term ∈ terms, ftsTokens term = []) →
    isMatch (join " AND ".toList (terms.map quoted)) text = false

theorem Unicode61.tokenlessMatchesNothing {fold : Str → Str} (hfts : Unicode61 fold) :
    TokenlessMatchesNothing := by
  rintro terms text hquote ⟨term, hterm, htokens⟩
  rw [← Bool.not_eq_true, hfts terms text (List.ne_nil_of_mem hterm) hquote]
  exact fun h => (h term hterm).1 htokens

/-- The tokens of the term stand one after the other in the text. -/
def StandsIn (fold : Str → Str) (term text : Str) : Prop :=
  (ftsTokens term).map fold <:+: (ftsTokens text).map fold

instance (fold : Str → Str) (term text : Str) : Decidable (StandsIn fold term text) :=
  inferInstanceAs (Decidable (_ <:+: _))

/-- The chunk is among the rows that the search ranks for the query. -/
def Store.Matches (store : Store) (query : Str) (c : Chunk) : Prop :=
  ∃ expression, ftsQuery query = some expression ∧
    ∃ row ∈ store.db.searchRows expression, row.2.1 = c

omit [UnicodeTables] in
theorem Store.exists_searchRow_iff (store : Store) {c : Chunk} (hc : c ∈ store.db.chunks)
    (expression : Str) :
    (∃ row ∈ store.db.searchRows expression, row.2.1 = c) ↔ isMatch expression c.text = true := by
  have hentry : c.ftsEntry ∈ store.db.chunksFts :=
    store.ftsCurrent.mem_iff.2 (List.mem_map_of_mem hc)
  constructor
  · rintro ⟨row, hrow, rfl⟩
    obtain ⟨hmatching, -, hrowid⟩ := Db.mem_searchRows hrow
    obtain ⟨hfts, hmatch⟩ := List.mem_filter.1 hmatching
    obtain ⟨c', hc', hentry'⟩ := List.mem_map.1 (store.ftsCurrent.subset hfts)
    have hsame : c' = row.2.1 :=
      eq_of_key_eq store.constraints.rowids hc' hc (by rw [hrowid, ← hentry']; rfl)
    rw [← hsame]
    rwa [← hentry'] at hmatch
  · intro hmatch
    obtain ⟨row, hrow, hrowentry, hfilter⟩ := store.joined_of_entry hentry
    refine ⟨(c.ftsEntry, row), ?_, ?_⟩
    · refine List.mem_flatMap.2 ⟨c.ftsEntry, List.mem_filter.2 ⟨hentry, hmatch⟩, ?_⟩
      rw [hfilter]
      exact List.mem_singleton_self _
    · have hchunk : row.1 ∈ store.db.chunks := by
        rw [← store.joined_fst]
        exact List.mem_map_of_mem hrow
      exact eq_of_key_eq store.constraints.rowids hchunk hc (congrArg FtsEntry.rowid hrowentry)

/-- Within the limits, the search returns the chunk when the index matches it. -/
theorem Store.exists_hit_iff (store : Store) {c : Chunk} (hc : c ∈ store.db.chunks) (query : Str)
    (scan : ScanOrder SearchRow) {limit : ℕ}
    (hlimit : store.db.totalMatches query ≤ min limit SEARCH_LIMIT_CAP) :
    (∃ hits, store.searchChunks noReadFaults scan query limit = .ok hits ∧
      ∃ hit ∈ hits, hit.chunkId = c.id) ↔ store.Matches query c := by
  have hok : ∀ hits, store.searchChunks noReadFaults scan query limit = .ok hits ↔
      hits = store.db.hits scan query limit := by
    intro hits
    rw [Store.searchChunks_eq_ok]
    exact and_iff_right (fun _ => rfl)
  simp only [hok, exists_eq_left, Store.Matches, Db.hits]
  unfold Db.totalMatches at hlimit
  cases hquery : ftsQuery query with
  | none => simp
  | some expression =>
      rw [hquery] at hlimit
      dsimp only at hlimit
      have hcap : min limit SEARCH_LIMIT_CAP < 2 ^ 63 :=
        Nat.lt_of_le_of_lt (Nat.min_le_right _ _) (by decide)
      rw [← store.searchRows_length] at hlimit
      have hperm : (orderLimit (BestFirst expression store.db.chunksFts) scan
          (min limit SEARCH_LIMIT_CAP : ℕ) (store.db.searchRows expression)).Perm
            (store.db.searchRows expression) := perm_orderLimit scan hlimit
      simp only [asI64_of_lt hcap, Option.some.injEq, exists_eq_left', List.mem_map,
        exists_exists_and_eq_and, hperm.mem_iff]
      refine exists_congr (fun row => and_congr_right (fun hrow => ?_))
      have hchunk : row.2.1 ∈ store.db.chunks :=
        (Db.mem_joined.1 (Db.mem_searchRows hrow).2.1).1
      exact ⟨eq_of_key_eq store.constraints.chunkIds hchunk hc, fun h => congrArg Chunk.id h⟩

variable [LawfulUnicode]

/-- The chunk matches when the index matches every term of the query. -/
theorem Store.matches_iff {fold : Str → Str} (hfts : Unicode61 fold) (store : Store) {c : Chunk}
    (hc : c ∈ store.db.chunks) (query : Str) :
    store.Matches query c ↔ ftsTerms query ≠ [] ∧
      ∀ term ∈ ftsTerms query, ftsTokens term ≠ [] ∧ StandsIn fold term c.text := by
  unfold Store.Matches ftsQuery
  by_cases hnil : ftsTerms query = []
  · simp [hnil]
  · simp only [if_neg hnil, Option.some.injEq, exists_eq_left', store.exists_searchRow_iff hc]
    rw [hfts _ _ hnil (fun _ h => quote_not_mem_ftsTerms h)]
    exact (and_iff_right hnil).symm

/-- A query made of words of the chunk finds it **exactly when no word is glued**, or the glued
    spelling happens to stand in the text as well. -/
theorem found_by_own_words_iff {fold : Str → Str} (hfts : Unicode61 fold) (store : Store)
    {c : Chunk} (hc : c ∈ store.db.chunks) {words : List Str} (hne : words ≠ [])
    (hwords : ∀ w ∈ words, w ∈ splitWhitespace c.text ∧ ∃ ch ∈ w, isAlphanumeric ch = true) :
    (store.Matches (join " ".toList words) c ↔
      ∀ w ∈ words, Unglued w ∨ StandsIn fold (ftsTerm w) c.text) ∧
    ∀ scan limit,
      store.db.totalMatches (join " ".toList words) ≤ min limit SEARCH_LIMIT_CAP →
      ((∃ hits, store.searchChunks noReadFaults scan (join " ".toList words) limit = .ok hits ∧
          ∃ hit ∈ hits, hit.chunkId = c.id) ↔
        ∀ w ∈ words, Unglued w ∨ StandsIn fold (ftsTerm w) c.text) := by
  have hterm : ∀ w ∈ words, ftsTokens (ftsTerm w) ≠ [] :=
    fun w hw => ftsTokens_ftsTerm_ne_nil (hwords w hw).2
  have hterms : ftsTerms (join " ".toList words) = words.map ftsTerm :=
    ftsTerms_join (fun w hw => ⟨of_mem_fields (hwords w hw).1, fun hnil => hterm w hw (by
      rw [hnil]
      rfl)⟩)
  -- the tokens of a word stand side by side in the text it is from
  have hstands : ∀ w ∈ words, Unglued w → StandsIn fold (ftsTerm w) c.text := by
    intro w hw hunglued
    rw [StandsIn, ftsTokens_ftsTerm_of_unglued hunglued]
    have hbreak : ∀ ch, isWhitespace ch = true → isTokenBreak ch = true := by
      intro ch hspace
      rw [isTokenBreak, LawfulUnicode.isAlphanumeric_of_isWhitespace ch hspace]
      rfl
    exact (fields_isInfix_of_mem hbreak (hwords w hw).1).map fold
  have hmatches : store.Matches (join " ".toList words) c ↔
      ∀ w ∈ words, Unglued w ∨ StandsIn fold (ftsTerm w) c.text := by
    rw [store.matches_iff hfts hc, hterms, List.forall_mem_map]
    constructor
    · exact fun h w hw => Or.inr (h.2 w hw).2
    · intro h
      refine ⟨fun hnil => hne (List.map_eq_nil_iff.1 hnil), fun w hw => ⟨hterm w hw, ?_⟩⟩
      exact (h w hw).elim (hstands w hw) id
  exact ⟨hmatches, fun scan limit hlimit => (store.exists_hit_iff hc _ scan hlimit).trans hmatches⟩

/-- A word of punctuation between two words of a query. -/
def insertWord (a p b : Str) : Str := a ++ ' ' :: p ++ ' ' :: b

/-- What a word that changes nothing leaves alone: the expression, the search and the
    explanation. -/
structure SameQuery (query query' : Str) : Prop where
  expression : ftsQuery query' = ftsQuery query
  search : ∀ (reads : ReadFaults) (scan : ScanOrder SearchRow) (store : Store) (limit : ℕ),
    store.searchChunks reads scan query' limit = store.searchChunks reads scan query limit
  explanation : ∀ (reads : ReadFaults) (store : Store),
    store.explainChunkSearch reads query' = store.explainChunkSearch reads query

omit [LawfulUnicode] in
theorem SameQuery.of_ftsTerms_eq {query query' : Str} (h : ftsTerms query' = ftsTerms query) :
    SameQuery query query' := by
  have hquery : ftsQuery query' = ftsQuery query := by rw [ftsQuery, ftsQuery, h]
  refine ⟨hquery, fun _ _ _ _ => ?_, fun _ _ => ?_⟩
  · simp only [Store.searchChunks, Db.hits, hquery]
  · simp only [Store.explainChunkSearch, Db.totalMatches, hquery, h]

omit [Fts5] in
/-- A query with a term more has another expression. -/
theorem ftsQuery_ne_of_length {query query' : Str}
    (h : (ftsTerms query).length < (ftsTerms query').length) :
    ftsQuery query' ≠ ftsQuery query := by
  intro heq
  have hne' : ftsTerms query' ≠ [] := by
    intro hnil
    rw [hnil] at h
    exact Nat.not_lt_zero _ h
  unfold ftsQuery at heq
  rw [if_neg hne'] at heq
  split at heq
  · cases heq
  · have hcount := congrArg (List.count '"') (Option.some.inj heq)
    rw [count_quote_join _ (fun _ => quote_not_mem_ftsTerms),
      count_quote_join _ (fun _ => quote_not_mem_ftsTerms)] at hcount
    omega

omit [Fts5] [LawfulUnicode] in
theorem alphanumeric_terms_iff (query : Str) :
    (∀ term ∈ ftsTerms query, ∃ c ∈ term, isAlphanumeric c = true) ↔
      ∀ w ∈ splitWhitespace query,
        (∃ c ∈ w, isAlphanumeric c = true) ∨ '_' ∉ w ∧ '-' ∉ w := by
  have halnum : ∀ w : Str, (∃ c ∈ ftsTerm w, isAlphanumeric c = true) ↔
      ∃ c ∈ w, isAlphanumeric c = true := by
    intro w
    constructor
    · rintro ⟨c, hc, h⟩
      exact ⟨c, (mem_ftsTerm.1 hc).1, h⟩
    · rintro ⟨c, hc, h⟩
      exact ⟨c, mem_ftsTerm.2 ⟨hc, Or.inl h⟩, h⟩
  simp only [ftsTerms_eq, List.forall_mem_filter, List.forall_mem_map, decide_eq_true_eq, halnum]
  refine forall₂_congr (fun w _ => ?_)
  by_cases hw : ∃ c ∈ w, isAlphanumeric c = true
  · exact ⟨fun _ => Or.inl hw, fun _ _ => hw⟩
  · have hpunct : ∀ c ∈ w, isAlphanumeric c = false :=
      fun c hc => Bool.eq_false_iff.2 (fun h => hw ⟨c, hc, h⟩)
    rw [← ftsTerm_eq_nil_iff_of_punctuation hpunct, or_iff_right hw]
    exact ⟨fun h => by_contra (fun hne => hw (h hne)), fun h hne => absurd h hne⟩

/-- **Punctuation on its own changes nothing exactly when it has no `_` and no `-`**; with one of
    them the query matches nothing at all. Every term of a query has an alphanumeric exactly when no
    word of it is punctuation with a `_` or a `-`. -/
theorem insert_punctuation_iff {a p b : Str}
    (hcut : splitWhitespace (a ++ b) = splitWhitespace a ++ splitWhitespace b) (hp : p ≠ [])
    (hword : ∀ c ∈ p, isWhitespace c = false) (hpunct : ∀ c ∈ p, isAlphanumeric c = false) :
    (SameQuery (a ++ b) (insertWord a p b) ↔ '_' ∉ p ∧ '-' ∉ p) ∧
    (TokenlessMatchesNothing → ¬ ('_' ∉ p ∧ '-' ∉ p) → ∀ store : Store,
      store.db.totalMatches (insertWord a p b) = 0) ∧
    (∀ query, (∀ term ∈ ftsTerms query, ∃ c ∈ term, isAlphanumeric c = true) ↔
      ∀ w ∈ splitWhitespace query,
        (∃ c ∈ w, isAlphanumeric c = true) ∨ '_' ∉ w ∧ '-' ∉ w) := by
  have hterms : ftsTerms (insertWord a p b)
      = ftsTerms a ++ (if ftsTerm p = [] then [] else [ftsTerm p]) ++ ftsTerms b :=
    ftsTerms_append_word a p b hp hword
  have htermsOld : ftsTerms (a ++ b) = ftsTerms a ++ ftsTerms b := by
    simp only [ftsTerms_eq, hcut, List.map_append, List.filter_append]
  rw [← ftsTerm_eq_nil_iff_of_punctuation hpunct]
  refine ⟨⟨fun hsame => ?_, fun hnil => ?_⟩, fun hfts hkept store => ?_,
    alphanumeric_terms_iff⟩
  · -- a word that keeps a character is one term more
    by_contra hkept
    refine ftsQuery_ne_of_length ?_ hsame.expression
    rw [hterms, htermsOld, if_neg hkept]
    simp only [List.length_append, List.length_singleton]
    omega
  · refine SameQuery.of_ftsTerms_eq ?_
    rw [hterms, htermsOld, if_pos hnil, List.append_nil]
  · have hmem : ftsTerm p ∈ ftsTerms (insertWord a p b) := by
      rw [hterms, if_neg hkept]
      simp
    -- a term of punctuation has no token, so the whole conjunction finds nothing
    have htokens : ftsTokens (ftsTerm p) = [] :=
      (ftsTokens_eq_nil_iff _).2 (fun c hc => hpunct c (mem_ftsTerm.1 hc).1)
    rw [Db.totalMatches, ftsQuery, if_neg (List.ne_nil_of_mem hmem), List.length_eq_zero_iff,
      Db.matching, List.filter_eq_nil_iff]
    intro entry _
    rw [hfts _ _ (fun _ => quote_not_mem_ftsTerms) ⟨_, hmem, htokens⟩]
    exact Bool.false_ne_true

end Index

end Terms

/-! ## An index over ASCII tokens -/

/-- The quoted pieces of an expression cut at its quotes: every second one. -/
def quotedPieces : List Str → List Str
  | _ :: piece :: rest => piece :: quotedPieces rest
  | _ => []

/-- FTS5 over ASCII tokens, without stems. -/
@[reducible] def tokenFts [UnicodeTables] : Fts5 where
  isMatch expression text :=
    (quotedPieces (split (· == '"') expression)).all (fun term => ftsTokens term ≠ [] &&
      decide ((ftsTokens term).map toAsciiLowercase <:+: (ftsTokens text).map toAsciiLowercase))
  bm25 _ _ _ := 0
  snippet _ text := text

theorem quotedPieces_split (front : Str) (hfront : '"' ∉ front) (term : Str) (rest : List Str)
    (h : ∀ t ∈ term :: rest, '"' ∉ t) :
    quotedPieces (split (· == '"') (front ++ join " AND ".toList ((term :: rest).map quoted)))
      = term :: rest := by
  have hsplit : ∀ s t : Str, '"' ∉ s →
      split (· == '"') (s ++ '"' :: t) = s :: split (· == '"') t := by
    intro s t hs
    exact List.splitOnP_append_cons_of_forall_mem
      (fun c hc => beq_eq_false_iff_ne.2 (ne_of_mem_of_not_mem hc hs)) '"' rfl t
  induction rest generalizing front term with
  | nil =>
      have hterm := h term List.mem_cons_self
      have : front ++ join " AND ".toList (([term] : List Str).map quoted)
          = front ++ '"' :: (term ++ '"' :: []) := by simp [join, quoted]
      rw [this, hsplit _ _ hfront, hsplit _ _ hterm]
      rfl
  | cons next rest ih =>
      have hterm := h term List.mem_cons_self
      have : front ++ join " AND ".toList ((term :: next :: rest).map quoted)
          = front ++ '"' :: (term ++ '"' :: (" AND ".toList ++
              join " AND ".toList ((next :: rest).map quoted))) := by
        simp [join_cons_cons, quoted]
      rw [this, hsplit _ _ hfront, hsplit _ _ hterm, quotedPieces,
        ih " AND ".toList (by decide) next (fun t ht => h t (List.mem_cons_of_mem _ ht))]

theorem tokenFts_unicode61 [UnicodeTables] : @Unicode61 _ tokenFts toAsciiLowercase := by
  intro terms text hne hquote
  cases terms with
  | nil => exact absurd rfl hne
  | cons term rest =>
      have hpieces := quotedPieces_split [] List.not_mem_nil term rest hquote
      rw [List.nil_append] at hpieces
      simp only [isMatch, hpieces, List.all_eq_true, Bool.and_eq_true, decide_eq_true_eq]

section Example

attribute [local instance] asciiTables lawful_asciiTables tokenFts

theorem cargo_found_by_own_words :
    (noteStore "run cargo-test now".toList).Matches "now cargo-test".toList
      ⟨1, "c".toList, "r".toList, 0, "run cargo-test now".toList, 0⟩ :=
  (found_by_own_words_iff tokenFts_unicode61 (noteStore "run cargo-test now".toList) (by decide)
    (by decide : ["now".toList, "cargo-test".toList] ≠ []) (by decide +kernel)).1.2
      (by decide +kernel)

/-- `don't` is a word of the note and does not find it. -/
theorem contraction_does_not_find : Unicode61 toAsciiLowercase ∧
    "don't".toList ∈ splitWhitespace "I don't know".toList ∧
    (∃ ch ∈ "don't".toList, isAlphanumeric ch = true) ∧
    (noteStore "I don't know".toList).searchChunks noReadFaults (tableOrder _) "don't".toList 10
      = .ok [] :=
  ⟨tokenFts_unicode61, by decide +kernel⟩

theorem dash_between_cargo_test :
    (noteStore "cargo test".toList).db.totalMatches
      (insertWord "cargo".toList "-".toList " test".toList) = 0 :=
  (insert_punctuation_iff (by decide) (by decide) (by decide +kernel) (by decide +kernel)).2.1
    tokenFts_unicode61.tokenlessMatchesNothing (by decide) _

/-- A dash between its two words makes the query find nothing. -/
theorem dash_changes_query : TokenlessMatchesNothing ∧
    splitWhitespace ("cargo".toList ++ " test".toList)
      = splitWhitespace "cargo".toList ++ splitWhitespace " test".toList ∧
    (∀ c ∈ "-".toList, isWhitespace c = false ∧ isAlphanumeric c = false) ∧
    ftsQuery (insertWord "cargo".toList "-".toList " test".toList) ≠ ftsQuery "cargo test".toList ∧
    (noteStore "cargo test".toList).db.totalMatches "cargo test".toList = 1 ∧
    (noteStore "cargo test".toList).db.totalMatches
      (insertWord "cargo".toList "-".toList " test".toList) = 0 :=
  ⟨tokenFts_unicode61.tokenlessMatchesNothing, by decide +kernel⟩

end Example

end Fndr
