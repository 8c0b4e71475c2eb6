import Mathlib

/-!
# Rows in the order of a key

`ORDER BY key DESC` returns the rows with the greatest keys first, and rows with equal keys in any order;
so does a sort that is not stable.

* `Ranked key xs ranked` — `ranked` is `xs` in such an order.
* `Ranked.map_key_eq` — the keys do not depend on the order of ties; `eq_of_map_key` — nor do the rows, if
  no two of them have the same key.
* `take_merge_take` — the first elements of a merge are merged from the first elements of its parts.
* `Ranked.take_append` — **the first rows of two tables** are found among the first rows of each.
-/

namespace Table

/-- Where no two rows have the same key, rows with the same keys are the same. -/
theorem eq_of_map_key {α κ : Type*} {key : α → κ} {xs as bs : List α} (hkey : Set.InjOn key {a | a ∈ xs})
    (has : ∀ a ∈ as, a ∈ xs) (hbs : ∀ b ∈ bs, b ∈ xs) (h : as.map key = bs.map key) : as = bs := by
  induction as generalizing bs with
  | nil => exact (List.map_eq_nil_iff.1 h.symm).symm
  | cons a as ih =>
    cases bs with
    | nil => cases h
    | cons b bs =>
      obtain ⟨hhead, htail⟩ := List.cons.inj h
      obtain ⟨ha, has⟩ := List.forall_mem_cons.1 has
      obtain ⟨hb, hbs⟩ := List.forall_mem_cons.1 hbs
      rw [hkey ha hb hhead, ih has hbs htail]

/-! ## One table -/

/-- `ranked` is `xs` with the greatest keys first. -/
structure Ranked {α κ : Type*} [LinearOrder κ] (key : α → κ) (xs ranked : List α) : Prop where
  perm : ranked.Perm xs
  descending : ranked.Pairwise fun a b => key b ≤ key a

section

variable {α β κ : Type*} [LinearOrder κ] {key : α → κ} {xs ys ranked ranked' : List α}

theorem exists_ranked (key : α → κ) (xs : List α) : ∃ ranked, Ranked key xs ranked := by
  refine ⟨xs.mergeSort fun a b => key b ≤ key a, List.mergeSort_perm _ _, ?_⟩
  have hpairwise : (xs.mergeSort fun a b => key b ≤ key a).Pairwise
      fun a b => decide (key b ≤ key a) = true := by
    refine List.pairwise_mergeSort (fun a b c hab hbc => ?_) (fun a b => ?_) xs
    · exact decide_eq_true (le_trans (of_decide_eq_true hbc) (of_decide_eq_true hab))
    · simpa using le_total (key b) (key a)
  exact hpairwise.imp of_decide_eq_true

theorem Ranked.length_eq (h : Ranked key xs ranked) : ranked.length = xs.length := h.perm.length_eq

theorem Ranked.of_perm (h : Ranked key xs ranked) (hxs : xs.Perm ys) : Ranked key ys ranked :=
  ⟨h.perm.trans hxs, h.descending⟩

/-- The rows of a table, each made into something that keeps its key. -/
theorem Ranked.map {key' : β → κ} {xs ranked : List β} {f : β → α} (h : Ranked key' xs ranked)
    (hf : ∀ b, key (f b) = key' b) : Ranked key (xs.map f) (ranked.map f) := by
  refine ⟨h.perm.map f, List.pairwise_map.2 (h.descending.imp fun {a b} hab => ?_)⟩
  rw [hf, hf]
  exact hab

/-- The keys are those of any list of them that descends. -/
theorem Ranked.map_key_eq {keys : List κ} (h : Ranked key xs ranked) (hkeys : keys.Perm (xs.map key))
    (hdescending : keys.Pairwise fun a b => b ≤ a) : ranked.map key = keys :=
  ((h.perm.map key).trans hkeys.symm).eq_of_pairwise (fun _ _ _ _ hab hba => le_antisymm hba hab)
    (List.pairwise_map.2 h.descending) hdescending

theorem Ranked.mem (h : Ranked key xs ranked) {a : α} (ha : a ∈ ranked) : a ∈ xs := h.perm.mem_iff.1 ha

end

/-! ## Two tables -/

/-- **The first `k` elements of a merge** are merged from the first `k` elements of its parts, or more of them. -/
theorem take_merge_take {α : Type*} (le : α → α → Bool) {k m n : ℕ} (hm : k ≤ m) (hn : k ≤ n) (as bs : List α) :
    ((as.take m).merge (bs.take n) le).take k = (as.merge bs le).take k := by
  induction k generalizing m n as bs with
  | zero => rfl
  | succ k ih =>
    obtain ⟨m, rfl⟩ := Nat.exists_eq_add_of_le' (Nat.one_le_of_lt hm)
    obtain ⟨n, rfl⟩ := Nat.exists_eq_add_of_le' (Nat.one_le_of_lt hn)
    cases as with
    | nil => simp only [List.take_nil, List.nil_merge, List.take_take, min_eq_left hn]
    | cons a as =>
      cases bs with
      | nil => simp only [List.take_nil, List.merge_right, List.take_take, min_eq_left hm]
      | cons b bs =>
        simp only [List.take_succ_cons, List.cons_merge_cons]
        by_cases hle : le a b = true
        · have hrest := @ih m (n + 1) (by omega) (by omega) as (b :: bs)
          rw [if_pos hle, if_pos hle, List.take_succ_cons, List.take_succ_cons, ← hrest, List.take_succ_cons]
        · have hrest := @ih (m + 1) n (by omega) (by omega) (a :: as) bs
          rw [if_neg hle, if_neg hle, List.take_succ_cons, List.take_succ_cons, ← hrest, List.take_succ_cons]

section

variable {α κ : Type*} [LinearOrder κ] {key : α → κ} {xs ys as bs cs ranked : List α} {k m n : ℕ}

/-- The keys of two tables that are ranked together are the merge of those that are ranked apart. -/
theorem Ranked.map_key_append (hall : Ranked key (as ++ bs) ranked) (has : as.Pairwise fun a b => key b ≤ key a)
    (hbs : bs.Pairwise fun a b => key b ≤ key a) :
    ranked.map key = (as.map key).merge (bs.map key) fun a b => decide (b ≤ a) := by
  refine hall.map_key_eq ?_ ?_
  · rw [List.map_append]
    exact List.merge_perm_append _
  · have hmerge : ((as.map key).merge (bs.map key) fun a b => decide (b ≤ a)).Pairwise
        fun a b => decide (b ≤ a) = true := by
      refine List.pairwise_merge (fun a b c hab hbc => ?_) (fun a b => ?_) _ _ ?_ ?_
      · exact decide_eq_true (le_trans (of_decide_eq_true hbc) (of_decide_eq_true hab))
      · simpa using le_total b a
      · exact List.pairwise_map.2 (has.imp decide_eq_true)
      · exact List.pairwise_map.2 (hbs.imp decide_eq_true)
    exact hmerge.imp of_decide_eq_true

/-- **The first rows of two tables** are the first of the first rows of each. -/
theorem Ranked.take_append (hxs : Ranked key xs as) (hys : Ranked key ys bs)
    (hcs : Ranked key (as.take m ++ bs.take n) cs) (hall : Ranked key (xs ++ ys) ranked) (hm : k ≤ m) (hn : k ≤ n) :
    (cs.take k).map key = (ranked.take k).map key := by
  have hall' : Ranked key (as ++ bs) ranked := hall.of_perm (hxs.perm.append hys.perm).symm
  have hparts := hcs.map_key_append (hxs.descending.sublist (List.take_sublist m as))
    (hys.descending.sublist (List.take_sublist n bs))
  rw [List.map_take, List.map_take, hparts, hall'.map_key_append hxs.descending hys.descending, List.map_take,
    List.map_take, take_merge_take _ hm hn]

end

end Table
