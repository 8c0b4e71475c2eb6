import Uwuubox.Table.Keyed

/-!
# Rows that are not committed yet

A transaction sees the committed rows, but for those of which it has a version of its own.

* `Keyed.put` — a version of a row, in place of the one with its key.
* `Keyed.overlay` — the committed rows under the versions of a transaction; what is left of it when it
  commits.
* `mem_put`, `mem_overlay` — what is in them.
-/

namespace Table
namespace Keyed

variable {R C : Type} {col : R → C} [DecidableEq C] {t pending : Keyed col} {r s : R}

/-- A version of a row. -/
def put (t : Keyed col) (r : R) : Keyed col where
  rows := r :: deleteWhere (fun s => col s = col r) t.rows
  unique := t.unique.deleteWhere.cons fun _ hs => of_decide_eq_false (mem_deleteWhere.1 hs).2

theorem mem_put : s ∈ t.put r ↔ s = r ∨ s ∈ t ∧ col s ≠ col r := by
  simp [mem_def, put]

/-- The rows under their versions. -/
def overlay (t pending : Keyed col) : Keyed col where
  rows := pending.rows ++ deleteWhere (fun s => col s ∈ pending.rows.map col) t.rows
  unique := by
    unfold UniqueOn
    rw [List.map_append, List.nodup_append]
    refine ⟨pending.unique, t.unique.deleteWhere, ?_⟩
    rintro c hc _ hc' rfl
    obtain ⟨s, hs, rfl⟩ := List.mem_map.1 hc'
    exact of_decide_eq_false (mem_deleteWhere.1 hs).2 hc

/-- **What a transaction sees**: its own versions, and the committed rows of which it has none. -/
theorem mem_overlay : s ∈ t.overlay pending ↔ s ∈ pending ∨ s ∈ t ∧ ∀ r ∈ pending, col r ≠ col s := by
  simp [mem_def, overlay]

/-- A transaction that has written nothing sees the committed rows. -/
theorem overlay_empty : t.overlay empty = t := by
  cases t
  simp [overlay, empty, deleteWhere]

end Keyed
end Table
