import Mathlib

/-!
# Pages of a list

A page is asked for with one row more than it shows, which tells whether there is a next one.

* `Page`, `pageOf` — the page with a number, the first being page `0`.
* `Page.map`, `pageOf_map` — what is shown of the rows.
* `follow` — a reader who turns the page as long as there is a next one; `follow_pageOf`: **it reads every row once,
  in their order**.
* `seen_of_grows` — **who turns the page until there is no next one misses no row that was there at first**, though rows
  are written before it meanwhile.
-/

namespace Table

/-- The rows that are shown, and whether there are more. -/
structure Page (α : Type*) where
  rows : List α
  hasNext : Bool
deriving DecidableEq

/-- What is shown of the rows that `LIMIT size + 1` has fetched. -/
def cut {α : Type*} (size : ℕ) (fetched : List α) : Page α := ⟨fetched.take size, decide (size < fetched.length)⟩

/-- Page `n` of a list, fetched with `LIMIT size + 1 OFFSET size * n`. -/
def pageOf {α : Type*} (size n : ℕ) (xs : List α) : Page α := cut size ((xs.drop (size * n)).take (size + 1))

section

variable {α β : Type*} {size n : ℕ} {xs : List α}

theorem rows_pageOf (size n : ℕ) (xs : List α) : (pageOf size n xs).rows = (xs.drop (size * n)).take size := by
  unfold pageOf cut
  rw [List.take_take, min_eq_left (Nat.le_succ size)]

/-- There is a next page if it would not be empty. -/
theorem hasNext_pageOf (size n : ℕ) (xs : List α) :
    (pageOf size n xs).hasNext = true ↔ size * (n + 1) < xs.length := by
  unfold pageOf cut
  rw [decide_eq_true_eq, List.length_take, List.length_drop, Nat.mul_succ]
  omega

def Page.map (f : α → β) (p : Page α) : Page β := ⟨p.rows.map f, p.hasNext⟩

theorem cut_map (f : α → β) (size : ℕ) (fetched : List α) : cut size (fetched.map f) = (cut size fetched).map f := by
  unfold cut Page.map
  rw [List.map_take, List.length_map]

theorem pageOf_map (f : α → β) (size n : ℕ) (xs : List α) : pageOf size n (xs.map f) = (pageOf size n xs).map f := by
  unfold pageOf
  rw [← List.map_drop, ← List.map_take, cut_map]

/-- A row that is before the end of the last page is shown on it, if it is not before its start. -/
theorem mem_pageOf {i : ℕ} {x : α} (hget : xs[i]? = some x) (hlo : size * n ≤ i) (hhi : i < size * (n + 1)) :
    x ∈ (pageOf size n xs).rows := by
  rw [rows_pageOf]
  refine List.mem_of_getElem? (i := i - size * n) ?_
  rw [List.getElem?_take_of_lt (by rw [Nat.mul_succ] at hhi; omega), List.getElem?_drop, Nat.add_sub_cancel' hlo, hget]

/-! ## Turning the page -/

/-- What a reader sees who starts on page `n` and turns the page as long as there is a next one, `fuel` times at
most. -/
def follow (page : ℕ → Page α) : ℕ → ℕ → List α
  | 0, n => (page n).rows
  | fuel + 1, n => (page n).rows ++ if (page n).hasNext then follow page fuel (n + 1) else []

/-- It depends on the pages that are reached. -/
theorem follow_congr {page page' : ℕ → Page α} {fuel : ℕ} (h : ∀ m, n ≤ m → m ≤ n + fuel → page m = page' m) :
    follow page fuel n = follow page' fuel n := by
  induction fuel generalizing n with
  | zero =>
    unfold follow
    rw [h n le_rfl le_rfl]
  | succ fuel ih =>
    unfold follow
    rw [h n le_rfl (by omega), ih fun m hlo hhi => h m (by omega) (by omega)]

/-- **Who turns the page as long as there is a next one reads every row once, in their order**, and `length / size`
turns are enough. -/
theorem follow_pageOf {fuel : ℕ} (hfuel : xs.length ≤ size * (n + fuel + 1)) :
    follow (fun n => pageOf size n xs) fuel n = xs.drop (size * n) := by
  induction fuel generalizing n with
  | zero =>
    unfold follow
    rw [rows_pageOf, List.take_of_length_le]
    rw [List.length_drop]
    rw [Nat.add_zero, Nat.mul_succ] at hfuel
    omega
  | succ fuel ih =>
    unfold follow
    rw [rows_pageOf]
    split
    · have hlater : xs.length ≤ size * (n + 1 + fuel + 1) := by
        rwa [show n + 1 + fuel + 1 = n + (fuel + 1) + 1 by omega]
      rw [ih hlater, Nat.mul_succ, ← List.drop_drop]
      exact List.take_append_drop size _
    · rename_i hlast
      rw [hasNext_pageOf, Nat.mul_succ] at hlast
      rw [List.append_nil, List.take_of_length_le]
      rw [List.length_drop]
      omega

/-- Where a row is, after rows have been written before it. -/
theorem getElem?_of_suffix {ys : List α} (h : xs <:+ ys) {i : ℕ} {x : α} (hget : xs[i]? = some x) :
    ∃ j, i ≤ j ∧ ys[j]? = some x := by
  obtain ⟨new, rfl⟩ := h
  exact ⟨new.length + i, Nat.le_add_left _ _, by rw [List.getElem?_append_right (Nat.le_add_right _ _),
    Nat.add_sub_cancel_left, hget]⟩

/-- **A reader misses no row that was there at first.**  The list is another one each time the page is turned, with rows
written before the old ones; but when there is no next page, every row of the first list has been shown. -/
theorem seen_of_grows {last : ℕ} {lists : ℕ → List α} (hgrows : ∀ n < last, lists n <:+ lists (n + 1))
    (hlast : (pageOf size last (lists last)).hasNext = false) {x : α} (hx : x ∈ lists 0) :
    ∃ n ≤ last, x ∈ (pageOf size n (lists n)).rows := by
  -- on the way the row has been shown, or it is still to come
  have hway : ∀ n ≤ last, (∃ m < n, x ∈ (pageOf size m (lists m)).rows) ∨
      ∃ i, size * n ≤ i ∧ (lists n)[i]? = some x := by
    intro n
    induction n with
    | zero =>
      intro _
      obtain ⟨i, hget⟩ := List.getElem?_of_mem hx
      exact .inr ⟨i, by simp, hget⟩
    | succ n ih =>
      intro hn
      rcases ih (by omega) with ⟨m, hm, hseen⟩ | ⟨i, hlo, hget⟩
      · exact .inl ⟨m, by omega, hseen⟩
      · by_cases hhi : i < size * (n + 1)
        · exact .inl ⟨n, by omega, mem_pageOf hget hlo hhi⟩
        · obtain ⟨j, hij, hget'⟩ := getElem?_of_suffix (hgrows n hn) hget
          exact .inr ⟨j, by omega, hget'⟩
  rcases hway last le_rfl with ⟨m, hm, hseen⟩ | ⟨i, hlo, hget⟩
  · exact ⟨m, hm.le, hseen⟩
  · refine ⟨last, le_rfl, mem_pageOf hget hlo ?_⟩
    have hend := mt (hasNext_pageOf size last (lists last)).2 (by rw [hlast]; exact Bool.false_ne_true)
    obtain ⟨hi, -⟩ := List.getElem?_eq_some_iff.1 hget
    omega

end

end Table
