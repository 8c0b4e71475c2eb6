import Mathlib

/-!
# Byte strings, fixed-size arrays and big-endian integers

The wire formats of the repository are concatenations of byte strings: a magic
prefix, a big-endian integer, a nonce, a ciphertext.

* `Bytes` — a byte string; `Arr n` — a byte string of length `n`, the `[u8; n]`
  of the source, which carries its length as a proof.
* `toBeBytes k n` / `ofBeBytes` — the `k`-byte big-endian encoding of `n` and its
  inverse: `ofBeBytes_toBeBytes` reads back `n` modulo `256 ^ k`, so on numbers
  that fit the encoding is injective (`toBeBytes_inj`).
* `Arr.slice` — the fixed-size array read out of a longer byte string.
-/

/-- A byte string. -/
abbrev Bytes := List UInt8

/-- A byte array of fixed length. -/
abbrev Arr (n : ℕ) := {b : Bytes // b.length = n}

/-- `n` in `k` bytes, most significant first; higher digits are dropped. -/
def toBeBytes : ℕ → ℕ → Bytes
  | 0, _ => []
  | k + 1, n => toBeBytes k (n / 256) ++ [UInt8.ofNat n]

/-- The number a big-endian byte string denotes. -/
def ofBeBytes (bs : Bytes) : ℕ := bs.foldl (fun acc b => acc * 256 + b.toNat) 0

@[simp] theorem length_toBeBytes (k n : ℕ) : (toBeBytes k n).length = k := by
  induction k generalizing n with
  | zero => rfl
  | succ k ih => simp [toBeBytes, ih]

/-- **Reading back** what was written gives the number modulo `256 ^ k`. -/
theorem ofBeBytes_toBeBytes (k n : ℕ) : ofBeBytes (toBeBytes k n) = n % 256 ^ k := by
  induction k generalizing n with
  | zero => simp [toBeBytes, ofBeBytes, Nat.mod_one]
  | succ k ih =>
    have hlast : (UInt8.ofNat n).toNat = n % 256 := by simp
    have hrest := ih (n / 256)
    rw [ofBeBytes] at hrest
    rw [toBeBytes, ofBeBytes, List.foldl_append, List.foldl_cons, List.foldl_nil, hrest, hlast,
      pow_succ', Nat.mod_mul]
    ring

/-- Numbers that fit are told apart by their encodings. -/
theorem toBeBytes_inj {k m n : ℕ} (hm : m < 256 ^ k) (hn : n < 256 ^ k)
    (h : toBeBytes k m = toBeBytes k n) : m = n := by
  have hread := congrArg ofBeBytes h
  rwa [ofBeBytes_toBeBytes, ofBeBytes_toBeBytes, Nat.mod_eq_of_lt hm, Nat.mod_eq_of_lt hn] at hread

/-- The `n` bytes of `bs` from position `i` on. -/
def Arr.slice (bs : Bytes) (i n : ℕ) (h : i + n ≤ bs.length) : Arr n :=
  ⟨(bs.drop i).take n, by rw [List.length_take, List.length_drop]; omega⟩

@[simp] theorem Arr.val_slice (bs : Bytes) (i n : ℕ) (h : i + n ≤ bs.length) :
    (Arr.slice bs i n h).val = (bs.drop i).take n := rfl
