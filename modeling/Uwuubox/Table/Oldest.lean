import Mathlib

/-!
# The oldest rows first

What is served is a batch of the rows with the least keys.

* `oldest` — `ORDER BY key LIMIT limit`.
* `le_of_mem_oldest` — a row that is not in the batch waits for rows that are no younger.
* `length_left` — **whoever waits comes closer**: serving the batch takes `limit` of the rows up to a key, or all of
  them.
-/

namespace Table

/-- `ORDER BY key LIMIT limit` -/
def oldest {α : Type*} (key : α → ℤ) (limit : ℕ) (rows : List α) : List α :=
  (rows.insertionSort fun a b => key a ≤ key b).take limit

section

variable {α : Type*} {key : α → ℤ} {limit : ℕ} {rows : List α} {x y : α}

theorem mem_of_mem_oldest (h : x ∈ oldest key limit rows) : x ∈ rows :=
  (List.mem_insertionSort _).1 (List.mem_of_mem_take h)

theorem nodup_oldest (h : rows.Nodup) : (oldest key limit rows).Nodup :=
  ((List.perm_insertionSort _ _).nodup_iff.2 h).sublist (List.take_sublist _ _)

/-- A row that is not in the batch comes after it. -/
theorem mem_drop_of_not_mem (hx : x ∈ rows) (hnot : x ∉ oldest key limit rows) :
    x ∈ (rows.insertionSort fun a b => key a ≤ key b).drop limit := by
  have hsorted : x ∈ rows.insertionSort fun a b => key a ≤ key b := (List.mem_insertionSort _).2 hx
  rw [← List.take_append_drop limit (rows.insertionSort _)] at hsorted
  exact (List.mem_append.1 hsorted).resolve_left hnot

theorem le_of_mem_oldest (hx : x ∈ rows) (hnot : x ∉ oldest key limit rows) (hy : y ∈ oldest key limit rows) :
    key y ≤ key x := by
  have : Std.Total fun a b : α => key a ≤ key b := ⟨fun a b => le_total (key a) (key b)⟩
  have : IsTrans α fun a b : α => key a ≤ key b := ⟨fun _ _ _ => le_trans⟩
  have hpairwise := List.pairwise_insertionSort (fun a b => key a ≤ key b) rows
  rw [← List.take_append_drop limit (rows.insertionSort _)] at hpairwise
  exact (List.pairwise_append.1 hpairwise).2.2 y hy x (mem_drop_of_not_mem hx hnot)

theorem length_oldest_of_not_mem (hx : x ∈ rows) (hnot : x ∉ oldest key limit rows) :
    (oldest key limit rows).length = limit := by
  have hpos := List.length_pos_of_mem (mem_drop_of_not_mem hx hnot)
  rw [List.length_drop] at hpos
  unfold oldest
  rw [List.length_take]
  omega

/-- **Whoever waits comes closer.** -/
theorem length_left [DecidableEq α] (hnodup : rows.Nodup) (t : ℤ) :
    ((rows.filter fun x => key x ≤ t).filter fun x => x ∉ oldest key limit rows).length ≤
      (rows.filter fun x => key x ≤ t).length - limit := by
  by_cases hwaits : ∃ x ∈ rows, key x ≤ t ∧ x ∉ oldest key limit rows
  · obtain ⟨x, hx, ht, hnot⟩ := hwaits
    -- all that is served is up to the key
    have hserved : oldest key limit rows ⊆
        (rows.filter fun x => key x ≤ t).filter fun x => x ∈ oldest key limit rows := by
      intro y hy
      have hle : key y ≤ t := (le_of_mem_oldest hx hnot hy).trans ht
      exact List.mem_filter.2 ⟨List.mem_filter.2 ⟨mem_of_mem_oldest hy, decide_eq_true hle⟩, decide_eq_true hy⟩
    have hlength := ((nodup_oldest hnodup).subperm hserved).length_le
    rw [length_oldest_of_not_mem hx hnot] at hlength
    have hsplit := List.length_eq_length_filter_add (l := rows.filter fun x => key x ≤ t)
      fun x => decide (x ∈ oldest key limit rows)
    have hnot : ∀ x, (!decide (x ∈ oldest key limit rows)) = decide (x ∉ oldest key limit rows) := fun x => by simp
    simp only [hnot] at hsplit
    omega
  · have hnone : (rows.filter fun x => key x ≤ t).filter (fun x => x ∉ oldest key limit rows) = [] := by
      refine List.filter_eq_nil_iff.2 fun x hx => ?_
      obtain ⟨hrows, ht⟩ := List.mem_filter.1 hx
      rw [decide_eq_true_eq]
      exact fun hnot => hwaits ⟨x, hrows, of_decide_eq_true ht, hnot⟩
    rw [hnone]
    exact Nat.zero_le _

end

end Table
