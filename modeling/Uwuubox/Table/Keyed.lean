import Uwuubox.Table.Rows

/-!
# Tables with a primary key

`Keyed col` is a table whose rows differ in the column `col`: the constraint is a field, so a
table that violates it cannot be built.

* `find?`, `insert?`, `update`, `delete` — the statements; `insert?` is `none` where the
  constraint is violated, `update` asks for a proof that the key stays.
* One membership lemma for each (`mem_of_find?`, `mem_insert?`, `mem_update`, `mem_delete`).
-/

namespace Table

/-- A table with the primary key `col`. -/
structure Keyed {R C : Type} (col : R → C) where
  rows : List R
  unique : UniqueOn col rows

namespace Keyed

variable {R C : Type} {col : R → C} {t t' : Keyed col} {r s : R}

instance : Membership R (Keyed col) := ⟨fun t r => r ∈ t.rows⟩

theorem mem_def : r ∈ t ↔ r ∈ t.rows := Iff.rfl

def empty : Keyed col := ⟨[], List.nodup_nil⟩

@[simp] theorem notMem_empty : r ∉ (empty : Keyed col) := List.not_mem_nil

/-- `UPDATE .. WHERE p`, of columns other than the key. -/
def update (t : Keyed col) (p : R → Bool) (f : R → R) (hf : ∀ r, col (f r) = col r) : Keyed col :=
  ⟨updateWhere p f t.rows, t.unique.updateWhere hf⟩

/-- `DELETE .. WHERE p`. -/
def delete (t : Keyed col) (p : R → Bool) : Keyed col :=
  ⟨deleteWhere p t.rows, t.unique.deleteWhere⟩

theorem mem_update {p : R → Bool} {f : R → R} {hf : ∀ r, col (f r) = col r} :
    r ∈ t.update p f hf ↔ (r ∈ t ∧ p r = false) ∨ ∃ s ∈ t, p s = true ∧ f s = r := mem_updateWhere

@[simp] theorem mem_delete {p : R → Bool} : r ∈ t.delete p ↔ r ∈ t ∧ p r = false := mem_deleteWhere

/-- Two rows with one key are one row. -/
theorem eq_of_col (hr : r ∈ t) (hs : s ∈ t) (h : col r = col s) : r = s := t.unique.eq hr hs h

variable [DecidableEq C]

/-- `SELECT .. WHERE col = c`. -/
def find? (t : Keyed col) (c : C) : Option R := t.rows.find? fun r => col r = c

/-- `INSERT`, or nothing where a row has the key. -/
def insert? (t : Keyed col) (r : R) : Option (Keyed col) :=
  if h : ∀ s ∈ t.rows, col s ≠ col r then some ⟨r :: t.rows, t.unique.cons h⟩ else none

theorem mem_of_find? {c : C} (h : t.find? c = some r) : r ∈ t ∧ col r = c := find?_col h

theorem find?_eq_some {c : C} : t.find? c = some r ↔ r ∈ t ∧ col r = c :=
  ⟨mem_of_find?, fun h => t.unique.find? h.1 h.2⟩

/-- The row of a key, after an update of that row. -/
theorem find?_update_self {c : C} {f : R → R} (hf : ∀ r, col (f r) = col r) (h : t.find? c = some r) :
    (t.update (fun r => col r = c) f hf).find? c = some (f r) := by
  obtain ⟨hr, hc⟩ := mem_of_find? h
  refine find?_eq_some.2 ⟨mem_update.2 (.inr ⟨r, hr, decide_eq_true hc, rfl⟩), ?_⟩
  rw [hf, hc]

/-- A row that an update does not hit. -/
theorem find?_update_of_not {p : R → Bool} {f : R → R} (hf : ∀ r, col (f r) = col r) (hr : r ∈ t)
    (hp : p r = false) : (t.update p f hf).find? (col r) = some r :=
  find?_eq_some.2 ⟨mem_update.2 (.inl ⟨hr, hp⟩), rfl⟩

theorem find?_eq_none {c : C} : t.find? c = none ↔ ∀ r ∈ t, col r ≠ c := by
  constructor
  · exact find?_col_none
  · intro h
    rw [Option.eq_none_iff_forall_ne_some]
    intro r hr
    exact h r (mem_of_find? hr).1 (mem_of_find? hr).2

/-- An insertion that succeeds puts the row in front; its key was not there. -/
theorem insert?_eq_some (h : t.insert? r = some t') :
    t'.rows = r :: t.rows ∧ ∀ s ∈ t, col s ≠ col r := by
  unfold insert? at h
  split at h
  · rename_i hkey
    cases h
    exact ⟨rfl, hkey⟩
  · cases h

theorem mem_insert? (h : t.insert? r = some t') : s ∈ t' ↔ s = r ∨ s ∈ t := by
  rw [mem_def, (insert?_eq_some h).1]
  exact List.mem_cons

end Keyed

end Table
