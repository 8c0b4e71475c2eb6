import Mathlib

/-!
# Tables as lists of rows

A database table is a list of rows.  A statement that selects rows by a condition is a
function of the condition; a `UNIQUE` column is one on which the rows differ pairwise.

* `updateWhere`, `deleteWhere` — `UPDATE .. WHERE` and `DELETE .. WHERE`; what they
  return is a `find?` of the same condition.
* `UniqueOn` — the constraint of a unique column, kept by both (`UniqueOn.updateWhere`,
  `UniqueOn.deleteWhere`), and by an insertion of a value that is not there (`UniqueOn.cons`).
* `UniqueOn.find?`, `UniqueOn.perm_deleteWhere`, `UniqueOn.perm_updateWhere` — selecting by a
  unique column finds the one row that has the value, deleting by it takes that row away, and
  updating by it changes that row.
-/

namespace Table

variable {R C : Type}

/-- `UPDATE .. SET f WHERE p`. -/
def updateWhere (p : R → Bool) (f : R → R) (rows : List R) : List R :=
  rows.map fun r => if p r then f r else r

/-- `DELETE .. WHERE p`. -/
def deleteWhere (p : R → Bool) (rows : List R) : List R := rows.filter fun r => !p r

/-- No two rows have the same value in the column. -/
def UniqueOn (col : R → C) (rows : List R) : Prop := (rows.map col).Nodup

instance [DecidableEq C] (col : R → C) (rows : List R) : Decidable (UniqueOn col rows) :=
  inferInstanceAs (Decidable (rows.map col).Nodup)

variable {p : R → Bool} {f : R → R} {col : R → C} {rows : List R} {r : R}

theorem mem_updateWhere :
    r ∈ updateWhere p f rows ↔ (r ∈ rows ∧ p r = false) ∨ ∃ s ∈ rows, p s = true ∧ f s = r := by
  unfold updateWhere
  rw [List.mem_map]
  constructor
  · rintro ⟨s, hs, rfl⟩
    cases hp : p s with
    | false => exact .inl ⟨hs, hp⟩
    | true => exact .inr ⟨s, hs, hp, rfl⟩
  · rintro (⟨hr, hp⟩ | ⟨s, hs, hp, rfl⟩)
    · exact ⟨r, hr, by rw [hp]; rfl⟩
    · exact ⟨s, hs, by rw [hp]; rfl⟩

@[simp] theorem mem_deleteWhere : r ∈ deleteWhere p rows ↔ r ∈ rows ∧ p r = false := by
  unfold deleteWhere
  rw [List.mem_filter, Bool.not_eq_true']

/-- An update leaves the columns alone that it does not set. -/
theorem map_updateWhere (hcol : ∀ r, col (f r) = col r) :
    (updateWhere p f rows).map col = rows.map col := by
  unfold updateWhere
  rw [List.map_map]
  apply List.map_congr_left
  intro r _
  show col (if p r then f r else r) = col r
  split
  · exact hcol r
  · rfl

namespace UniqueOn

theorem updateWhere (h : UniqueOn col rows) (hcol : ∀ r, col (f r) = col r) :
    UniqueOn col (updateWhere p f rows) := by
  unfold UniqueOn
  rw [map_updateWhere hcol]
  exact h

theorem deleteWhere (h : UniqueOn col rows) : UniqueOn col (deleteWhere p rows) :=
  List.Nodup.sublist (List.filter_sublist.map col) h

theorem cons (h : UniqueOn col rows) (hr : ∀ s ∈ rows, col s ≠ col r) : UniqueOn col (r :: rows) := by
  refine List.nodup_cons.2 ⟨fun hmem => ?_, h⟩
  obtain ⟨s, hs, heq⟩ := List.mem_map.1 hmem
  exact hr s hs heq

/-- Rows with the same value are the same row. -/
theorem eq (h : UniqueOn col rows) {s : R} (hr : r ∈ rows) (hs : s ∈ rows) (heq : col r = col s) :
    r = s :=
  List.inj_on_of_nodup_map h hr hs heq

/-- **Selecting by a unique column** finds the row with the value. -/
theorem find? [DecidableEq C] (h : UniqueOn col rows) {c : C} (hr : r ∈ rows) (hc : col r = c) :
    rows.find? (fun s => col s = c) = some r := by
  cases hfind : rows.find? (fun s => col s = c) with
  | none =>
    have := List.find?_eq_none.1 hfind r hr
    simp [hc] at this
  | some s =>
    have hs := List.find?_some hfind
    simp only [decide_eq_true_eq] at hs
    rw [h.eq hr (List.mem_of_find?_eq_some hfind) (hc.trans hs.symm)]

/-- Deleting by a unique column takes away the one row that has the value. -/
theorem perm_deleteWhere [DecidableEq C] (h : UniqueOn col rows) {c : C} (hr : r ∈ rows)
    (hc : col r = c) : rows.Perm (r :: Table.deleteWhere (fun s => col s = c) rows) := by
  have hnodup : rows.Nodup := List.Nodup.of_map col h
  have hnot : r ∉ Table.deleteWhere (fun s => col s = c) rows := by
    rw [mem_deleteWhere]
    simp [hc]
  rw [List.perm_ext_iff_of_nodup hnodup (List.nodup_cons.2 ⟨hnot, hnodup.filter _⟩)]
  intro s
  rw [List.mem_cons, mem_deleteWhere, decide_eq_false_iff_not]
  constructor
  · intro hs
    by_cases hsc : col s = c
    · exact .inl (h.eq hs hr (hsc.trans hc.symm))
    · exact .inr ⟨hs, hsc⟩
  · rintro (rfl | ⟨hs, -⟩)
    · exact hr
    · exact hs

/-- Updating by a unique column changes the one row that has the value. -/
theorem perm_updateWhere [DecidableEq C] (h : UniqueOn col rows) {c : C} (hr : r ∈ rows)
    (hc : col r = c) (f : R → R) : (Table.updateWhere (fun s => col s = c) f rows).Perm
      (f r :: Table.deleteWhere (fun s => col s = c) rows) := by
  have hrest : Table.updateWhere (fun s => col s = c) f (Table.deleteWhere (fun s => col s = c) rows) =
      Table.deleteWhere (fun s => col s = c) rows := by
    unfold Table.updateWhere
    refine (List.map_congr_left fun s hs => ?_).trans (List.map_id _)
    exact if_neg (ne_true_of_eq_false (mem_deleteWhere.1 hs).2)
  have hperm := (h.perm_deleteWhere hr hc).map fun s => if decide (col s = c) then f s else s
  rw [List.map_cons, if_pos (decide_eq_true hc)] at hperm
  exact hperm.trans (List.Perm.of_eq (congrArg (f r :: ·) hrest))

end UniqueOn

/-- What a selection by a value of a column finds. -/
theorem find?_col [DecidableEq C] {c : C} (h : rows.find? (fun s => col s = c) = some r) :
    r ∈ rows ∧ col r = c :=
  ⟨List.mem_of_find?_eq_some h, by simpa using List.find?_some h⟩

theorem find?_col_none [DecidableEq C] {c : C} (h : rows.find? (fun s => col s = c) = none) :
    ∀ r ∈ rows, col r ≠ c := by
  intro r hr hc
  simpa [hc] using List.find?_eq_none.1 h r hr

end Table
