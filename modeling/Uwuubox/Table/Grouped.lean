import Uwuubox.Table.Rows

/-!
# Groups of rows

`GROUP BY` makes one group of the rows that have the same value in a column, and an aggregate makes one value of a
group.  `UPDATE .. FROM` changes a row by a row of another table that it is joined with.

* `Group col` — rows with one value in the column, at least one; `Group.min`, `Group.max`, `Group.count` — `MIN`,
  `MAX` and `COUNT(*)`, of which the first two are values of some row (`Group.exists_min`, `Group.exists_max`).
* `groupBy` — the groups of a table: one for each value of the column (`map_value_groupBy`), with all rows that
  have it (`rows_of_mem_groupBy`).
* `updateFrom` — the joined update.  Where a row can be joined with one row only, this is the one it is changed by
  (`joined_eq`).
-/

namespace Table

variable {R S C K : Type}

/-- Rows with one value in the column. -/
structure Group (col : R → C) where
  value : C
  rows : List R
  nonempty : rows ≠ []
  same : ∀ r ∈ rows, col r = value

namespace Group

variable {col : R → C}

/-- `MIN(f)`. -/
def min [LinearOrder K] (g : Group col) (f : R → K) : K :=
  (g.rows.map f).min fun h => g.nonempty (List.map_eq_nil_iff.1 h)

/-- `MAX(f)`. -/
def max [LinearOrder K] (g : Group col) (f : R → K) : K :=
  (g.rows.map f).max fun h => g.nonempty (List.map_eq_nil_iff.1 h)

/-- `COUNT(*)`. -/
def count (g : Group col) : ℕ := g.rows.length

theorem exists_min [LinearOrder K] (g : Group col) (f : R → K) : ∃ r ∈ g.rows, f r = g.min f :=
  List.mem_map.1 (List.min_mem _)

theorem exists_max [LinearOrder K] (g : Group col) (f : R → K) : ∃ r ∈ g.rows, f r = g.max f :=
  List.mem_map.1 (List.max_mem _)

theorem count_pos (g : Group col) : 0 < g.count := List.length_pos_of_ne_nil g.nonempty

end Group

/-! ## Grouping -/

section

variable [DecidableEq C] {col : R → C} {rows : List R} {g g' : Group col} {r : R}

/-- The group of a value that occurs. -/
def groupOf (col : R → C) (rows : List R) (c : C) (hc : c ∈ rows.map col) : Group col where
  value := c
  rows := rows.filter fun r => col r = c
  nonempty h := by
    obtain ⟨r, hr, hrc⟩ := List.mem_map.1 hc
    exact List.filter_eq_nil_iff.1 h r hr (decide_eq_true hrc)
  same r hr := of_decide_eq_true (List.mem_filter.1 hr).2

/-- `GROUP BY col`. -/
def groupBy (col : R → C) (rows : List R) : List (Group col) :=
  (rows.map col).dedup.pmap (groupOf col rows) fun _ hc => List.mem_dedup.1 hc

/-- **One group for each value.** -/
theorem map_value_groupBy (col : R → C) (rows : List R) :
    (groupBy col rows).map Group.value = (rows.map col).dedup := by
  unfold groupBy
  rw [List.map_pmap]
  exact (List.pmap_eq_map _).trans (List.map_id _)

/-- **A group has all rows with its value.** -/
theorem rows_of_mem_groupBy (hg : g ∈ groupBy col rows) : g.rows = rows.filter fun r => col r = g.value := by
  obtain ⟨c, hc, rfl⟩ := List.mem_pmap.1 hg
  rfl

theorem mem_rows_of_mem_groupBy (hg : g ∈ groupBy col rows) : r ∈ g.rows ↔ r ∈ rows ∧ col r = g.value := by
  rw [rows_of_mem_groupBy hg, List.mem_filter, decide_eq_true_eq]

theorem count_of_mem_groupBy (hg : g ∈ groupBy col rows) : g.count = rows.countP fun r => col r = g.value := by
  unfold Group.count
  rw [rows_of_mem_groupBy hg, List.countP_eq_length_filter]

theorem exists_mem_groupBy (col : R → C) (hr : r ∈ rows) : ∃ g ∈ groupBy col rows, g.value = col r := by
  rw [← List.mem_map, map_value_groupBy, List.mem_dedup]
  exact List.mem_map_of_mem hr

theorem groupBy_nodup (col : R → C) (rows : List R) : UniqueOn Group.value (groupBy col rows) := by
  unfold UniqueOn
  rw [map_value_groupBy]
  exact List.nodup_dedup _

end

/-! ## Joined updates -/

/-- A row, changed by the first row of the source that it is joined with. -/
def joined (source : List S) (p : R → S → Bool) (f : R → S → R) (r : R) : R :=
  match source.find? (p r) with
  | some s => f r s
  | none => r

/-- `UPDATE r SET f r s FROM source s WHERE p r s`. -/
def updateFrom (source : List S) (p : R → S → Bool) (f : R → S → R) (rows : List R) : List R :=
  rows.map (joined source p f)

section

variable {source : List S} {p : R → S → Bool} {f : R → S → R} {rows : List R} {r : R}

/-- An update leaves the columns alone that it does not set. -/
theorem map_updateFrom {col : R → C} (hcol : ∀ r s, col (f r s) = col r) :
    (updateFrom source p f rows).map col = rows.map col := by
  unfold updateFrom
  rw [List.map_map]
  refine List.map_congr_left fun r _ => ?_
  show col (joined source p f r) = col r
  unfold joined
  split
  · exact hcol _ _
  · rfl

theorem UniqueOn.updateFrom {col : R → C} (h : UniqueOn col rows) (hcol : ∀ r s, col (f r s) = col r) :
    UniqueOn col (updateFrom source p f rows) := by
  unfold UniqueOn
  rw [map_updateFrom hcol]
  exact h

/-- **A row with one partner** is changed by it, also where the condition leaves it out because it would not
change. -/
theorem joined_eq {s : S} (hs : s ∈ source) (hone : ∀ s' ∈ source, p r s' = true → s' = s)
    (hsame : p r s = false → f r s = r) : joined source p f r = f r s := by
  unfold joined
  cases hfind : source.find? (p r) with
  | none => exact (hsame (by simpa using List.find?_eq_none.1 hfind s hs)).symm
  | some s' => exact congrArg (f r) (hone s' (List.mem_of_find?_eq_some hfind) (List.find?_some hfind))

end

end Table
