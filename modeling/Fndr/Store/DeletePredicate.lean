import Fndr.Library.Quoted
import Fndr.Store.LanceWriter

set_option autoImplicit false

/-! # The deletion predicate

`LanceWriter::delete_records` hands the index a text, `record_id IN ('..', '..')`, with the quotes
of every id doubled. Whatever the ids are, the text is read as exactly these ids in this order
(`deletePredicate_reads`), so the rows that go are the rows of these records. -/

namespace Fndr

open RustStd Rows

/-- `id.replace('\'', "''")`. -/
def doubleQuotes (id : Str) : Str :=
  id.flatMap (fun c => if c = '\'' then "''".toList else [c])

/-- The predicate of a deletion. -/
def deletePredicate (recordIds : List Str) : Str :=
  let ids := join ", ".toList (recordIds.map (fun id => '\'' :: (doubleQuotes id ++ ['\''])))
  "record_id IN (".toList ++ (ids ++ ")".toList)

/-- The predicate is `record_id IN (l₁, .., lₙ)` with literals of these values. -/
def ReadsAs (predicate : Str) (recordIds : List Str) : Prop :=
  ∃ list, predicate = "record_id IN (".toList ++ (list ++ ")".toList) ∧
    Quoted.Literals '\'' ',' ' ' list recordIds

/-- The row of such a record is deleted. -/
def Selects (predicate recordId : Str) : Prop :=
  ∃ recordIds, ReadsAs predicate recordIds ∧ recordId ∈ recordIds

theorem readsAs_deletePredicate {recordIds : List Str} (h : recordIds ≠ []) :
    ReadsAs (deletePredicate recordIds) recordIds :=
  ⟨_, rfl, Quoted.literals_intercalate h⟩

theorem ReadsAs.unique {predicate : Str} {recordIds recordIds' : List Str}
    (h : ReadsAs predicate recordIds) (h' : ReadsAs predicate recordIds') :
    recordIds = recordIds' := by
  obtain ⟨list, rfl, hlist⟩ := h
  obtain ⟨list', hsame, hlist'⟩ := h'
  obtain rfl := List.append_cancel_right (List.append_cancel_left hsame)
  exact hlist.unique (by decide) (by decide) hlist'

theorem selects_deletePredicate_iff {recordIds : List Str} (h : recordIds ≠ []) (recordId : Str) :
    Selects (deletePredicate recordIds) recordId ↔ recordId ∈ recordIds := by
  constructor
  · rintro ⟨ids, hreads, hmem⟩
    rwa [(readsAs_deletePredicate h).unique hreads]
  · intro hmem
    exact ⟨recordIds, readsAs_deletePredicate h, hmem⟩

/-- **The deletion predicate selects exactly the given ids.** -/
theorem deletePredicate_reads {recordIds : List Str} (h : recordIds ≠ []) :
    (∀ ids, ReadsAs (deletePredicate recordIds) ids ↔ ids = recordIds) ∧
      ∀ (v : Vault) (row : LanceRow), row ∈ (v.deleteRows recordIds).rows ↔
        row ∈ v.rows ∧ ¬ Selects (deletePredicate recordIds) row.recordId := by
  constructor
  · intro ids
    constructor
    · intro hreads
      exact hreads.unique (readsAs_deletePredicate h)
    · rintro rfl
      exact readsAs_deletePredicate h
  · intro v row
    rw [Vault.rows_deleteRows, mem_deleteWhere, selects_deletePredicate_iff h,
      decide_eq_false_iff_not]

/-- An id that looks like the end of a predicate. -/
theorem deletePredicate_reads_injection :
    ReadsAs (deletePredicate ["a') OR ('1'='1".toList, "b, \\".toList])
      ["a') OR ('1'='1".toList, "b, \\".toList] :=
  ((deletePredicate_reads (by decide)).1 _).2 rfl

example : deletePredicate ["it's".toList, "b".toList] = "record_id IN ('it''s', 'b')".toList := by
  decide

end Fndr
