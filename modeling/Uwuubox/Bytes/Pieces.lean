import Mathlib

/-!
# Cutting a list into pieces of equal length

A stream format cuts its input into pieces of a fixed length `c`, the last one
possibly shorter, treats each piece on its own, and lays the results end to end.
This file is the arithmetic of that: which positions a piece covers, how many
pieces there are, and where the image of a piece lies in the result.

* `piece c i xs` — the `i`-th piece; `length_piece`.
* `pieceCount c n` — how many pieces a list of length `n` has
  (`lt_pieceCount_iff`); `flatten_pieces` says that together they are the list
  and `flatten_take_pieces` that the first `m` of them are a prefix of it.
* `piece_take`, `pieceCount_take` — the pieces of such a prefix.
* `length_layout_add` — the length of the result when each image is `t` longer
  than its piece.
* `drop_layout`, `read_layout` — if the images of the pieces before `j` all have
  length `l`, then the image of piece `j` starts at `j * l`, and reading `l`
  elements from there returns it.
* `take_split` — a span is what one piece gives of it followed by the rest.
-/

namespace Pieces

variable {α : Type}

/-- The elements of `xs` from `i * c` up to, at most, `(i + 1) * c`. -/
def piece (c i : ℕ) (xs : List α) : List α := (xs.drop (i * c)).take c

/-- `n` divided by `c`, rounded up. -/
def pieceCount (c n : ℕ) : ℕ := if 0 < n % c then n / c + 1 else n / c

@[simp] theorem length_piece (c i : ℕ) (xs : List α) :
    (piece c i xs).length = min c (xs.length - i * c) := by
  simp [piece]

/-- Piece `i` exists exactly when it starts inside the list. -/
theorem lt_pieceCount_iff {c : ℕ} (hc : 0 < c) (i n : ℕ) : i < pieceCount c n ↔ i * c < n := by
  have hdiv : c * (n / c) + n % c = n := Nat.div_add_mod n c
  have hmod : n % c < c := Nat.mod_lt n hc
  have hkey : i * c < n ↔ i < n / c ∨ i = n / c ∧ 0 < n % c := by
    constructor
    · intro h
      have hle : i ≤ n / c := (Nat.le_div_iff_mul_le hc).2 h.le
      rcases hle.lt_or_eq with hlt | rfl
      · exact Or.inl hlt
      · refine Or.inr ⟨rfl, ?_⟩
        rw [Nat.mul_comm] at h
        omega
    · rintro (h | ⟨rfl, h⟩)
      · have hle : (i + 1) * c ≤ n / c * c := Nat.mul_le_mul_right c h
        have hsucc : (i + 1) * c = i * c + c := Nat.succ_mul i c
        rw [Nat.mul_comm (n / c)] at hle
        omega
      · rw [Nat.mul_comm]
        omega
  rw [hkey, pieceCount]
  split <;> omega

/-- A piece that is not the last one is full. -/
theorem length_piece_of_succ_lt {c i : ℕ} (hc : 0 < c) {xs : List α}
    (h : i + 1 < pieceCount c xs.length) : (piece c i xs).length = c := by
  have hnext := (lt_pieceCount_iff hc (i + 1) xs.length).1 h
  rw [length_piece]
  have hsucc : (i + 1) * c = i * c + c := Nat.succ_mul i c
  omega

/-- The first `m` pieces are the first `m * c` elements. -/
theorem flatten_take_pieces (c m : ℕ) (xs : List α) :
    ((List.range m).map (piece c · xs)).flatten = xs.take (m * c) := by
  induction m with
  | zero => simp
  | succ m ih =>
    rw [List.range_succ, List.map_append, List.flatten_append, ih, Nat.succ_mul, List.take_add]
    simp [piece]

theorem length_le_pieceCount_mul {c : ℕ} (hc : 0 < c) (n : ℕ) : n ≤ pieceCount c n * c := by
  by_contra h
  exact lt_irrefl _ ((lt_pieceCount_iff hc _ n).2 (not_le.1 h))

/-- One piece is taken off the front. -/
theorem pieceCount_step {c n : ℕ} (hc : 0 < c) (hn : 0 < n) :
    pieceCount c n = pieceCount c (n - min n c) + 1 := by
  refine eq_of_forall_lt_iff fun i => ?_
  cases i with
  | zero =>
    rw [lt_pieceCount_iff hc]
    omega
  | succ i =>
    rw [lt_pieceCount_iff hc, Nat.succ_lt_succ_iff, lt_pieceCount_iff hc, Nat.succ_mul]
    omega

theorem pieceCount_mono {c : ℕ} (hc : 0 < c) {m n : ℕ} (h : m ≤ n) :
    pieceCount c m ≤ pieceCount c n := by
  refine le_of_forall_lt fun i hi => ?_
  rw [lt_pieceCount_iff hc] at hi ⊢
  omega

/-- **The pieces are the list.** -/
theorem flatten_pieces {c : ℕ} (hc : 0 < c) (xs : List α) :
    ((List.range (pieceCount c xs.length)).map (piece c · xs)).flatten = xs := by
  rw [flatten_take_pieces, List.take_of_length_le (length_le_pieceCount_mul hc _)]

/-- The first `m` pieces are also those of what they cover. -/
theorem piece_take {c i m : ℕ} (h : i < m) (xs : List α) :
    piece c i (xs.take (m * c)) = piece c i xs := by
  have hle : (i + 1) * c ≤ m * c := Nat.mul_le_mul_right c h
  rw [Nat.succ_mul] at hle
  rw [piece, piece, List.drop_take, List.take_take, min_eq_left (by omega)]

theorem pieceCount_take {c m : ℕ} (hc : 0 < c) {xs : List α} (hm : m ≤ pieceCount c xs.length) :
    pieceCount c (xs.take (m * c)).length = m := by
  refine eq_of_forall_lt_iff fun i => ?_
  rw [lt_pieceCount_iff hc, List.length_take, lt_min_iff]
  constructor
  · rintro ⟨hlt, -⟩
    exact Nat.lt_of_mul_lt_mul_right hlt
  · intro hlt
    exact ⟨Nat.mul_lt_mul_of_pos_right hlt hc, (lt_pieceCount_iff hc i _).1 (by omega)⟩

/-! ## Where the image of a piece lies -/

variable {f : ℕ → List α} {l n j : ℕ}

theorem length_layout (hl : ∀ i < j, (f i).length = l) :
    ((List.range j).map f).flatten.length = j * l := by
  induction j with
  | zero => simp
  | succ j ih =>
    rw [List.range_succ, List.map_append, List.flatten_append, List.length_append,
      ih fun i hi => hl i (by omega)]
    simp [hl j (by omega), Nat.succ_mul]

/-- If every image is `t` longer than the piece it comes from, so is the result, for
each piece. -/
theorem length_layout_add {g : ℕ → List α} {t : ℕ} (n : ℕ)
    (h : ∀ i, (f i).length = (g i).length + t) :
    ((List.range n).map f).flatten.length = ((List.range n).map g).flatten.length + n * t := by
  induction n with
  | zero => simp
  | succ n ih =>
    simp only [List.range_succ, List.map_append, List.flatten_append, List.length_append, ih,
      List.map_cons, List.map_nil, List.flatten_singleton, h, Nat.succ_mul]
    omega

/-- Skipping the images of the first `j` pieces. -/
theorem drop_layout (hl : ∀ i < j, (f i).length = l) (hj : j < n) :
    ((List.range n).map f).flatten.drop (j * l) =
      f j ++ ((List.range' (j + 1) (n - (j + 1))).map f).flatten := by
  obtain ⟨t, rfl⟩ : ∃ t, n = j + (t + 1) := ⟨n - (j + 1), by omega⟩
  have hrange : List.range (j + (t + 1)) = List.range j ++ j :: List.range' (j + 1) t := by
    rw [List.range_eq_range', List.range_eq_range', ← List.range'_succ, ← List.range'_append_1,
      Nat.zero_add]
  rw [show j + (t + 1) - (j + 1) = t by omega]
  rw [hrange, List.map_append, List.flatten_append, List.map_cons, List.flatten_cons,
    ← length_layout hl, List.drop_left]

/-- **Reading at `j * l` returns image `j`**, whether it has the full length or
is the shorter last one. -/
theorem read_layout (hl : ∀ i < j, (f i).length = l) (hj : j < n)
    (hfj : (f j).length = l ∨ (j + 1 = n ∧ (f j).length ≤ l)) :
    (((List.range n).map f).flatten.drop (j * l)).take l = f j := by
  rw [drop_layout hl hj]
  rcases hfj with hfull | ⟨rfl, hshort⟩
  · rw [← hfull, List.take_left]
  · simp [List.take_of_length_le hshort]

/-- A span of length `r` is its first `q` elements and the rest. -/
theorem take_split (xs : List α) {a q r : ℕ} (h : q ≤ r) :
    (xs.drop a).take r = (xs.drop a).take q ++ (xs.drop (a + q)).take (r - q) := by
  obtain ⟨t, rfl⟩ := Nat.exists_eq_add_of_le h
  rw [List.take_add, List.drop_drop, Nat.add_sub_cancel_left]

end Pieces
