import Uwuubox.Storage.Fetch

/-!
# The spool file and the pump

The pump task of `Store::put_file` reads the spool file into a buffer of
`STREAM_CHUNK_PT` bytes, seals each full buffer (and the last, shorter one), and sends
it to the uploader.  What the uploader sees of a failing read is a closed
channel; the error itself is in the result of the task.

* `Spool` — the file as its reader meets it: the bytes of successive reads, cut
  anywhere, and the error that ends them, if one does.
* `fill` — the inner read loop; `fill_eq` says what it returns.
* `pump`, `pumpLoop` — the pieces sent and the result of the task.
* `pump_spec` — **which pieces are sent**: all pieces of the file if no read
  fails, and otherwise those completed before the failing read.
-/

namespace Uwuubox
namespace Storage

open ObjectCrypt Pieces

/-- What a read that does not meet the end of the file returns. -/
abbrev ReadBytes := {b : Bytes // b ≠ []}

/-- A spool file being read. -/
structure Spool where
  /-- What is still to be read, cut as the reads return it. -/
  reads : List ReadBytes
  /-- The error of the read after these; without one it meets the end of the file. -/
  failure : Option String

/-- The bytes of a sequence of reads. -/
def readBytes (reads : List ReadBytes) : Bytes := (reads.map Subtype.val).flatten

/-- The bytes that can be read. -/
def Spool.bytes (spool : Spool) : Bytes := readBytes spool.reads

@[simp] theorem readBytes_nil : readBytes [] = [] := rfl

@[simp] theorem readBytes_cons (r : ReadBytes) (reads : List ReadBytes) :
    readBytes (r :: reads) = r.val ++ readBytes reads := rfl

/-- The inner loop of the pump: read until `room` bytes are in the buffer or a read
returns none.  A read fills at most the room there is. -/
def fill : (reads : List ReadBytes) → (failure : Option String) → (room : ℕ) →
    Except StorageError (Bytes × List ReadBytes)
  | [], none, _ => .ok ([], [])
  | [], some e, room => if room = 0 then .ok ([], []) else .error (.backend e)
  | r :: reads, failure, room =>
    if room = 0 then .ok ([], r :: reads)
    else if h : room < r.val.length then
      .ok (r.val.take room, ⟨r.val.drop room, by simpa using h⟩ :: reads)
    else match fill reads failure (room - r.val.length) with
      | .error e => .error e
      | .ok (buf, rest) => .ok (r.val ++ buf, rest)

/-- **What the inner loop returns**: a buffer as full as the file allows, unless the
failing read comes first. -/
theorem fill_eq (reads : List ReadBytes) (failure : Option String) (room : ℕ) :
    (∃ rest, fill reads failure room = .ok ((readBytes reads).take room, rest) ∧
      readBytes rest = (readBytes reads).drop room ∧
        (failure ≠ none → room ≤ (readBytes reads).length)) ∨
    ∃ e, failure = some e ∧ (readBytes reads).length < room ∧
      fill reads failure room = .error (.backend e) := by
  induction reads generalizing room with
  | nil =>
    cases failure with
    | none => exact .inl ⟨[], by simp [fill], by simp, by simp⟩
    | some e =>
      by_cases hroom : room = 0
      · subst hroom
        exact .inl ⟨[], by simp [fill], by simp, by simp⟩
      · exact .inr ⟨e, rfl, by simp; omega, by rw [fill, if_neg hroom]⟩
  | cons r reads ih =>
    rw [fill, readBytes_cons, List.length_append]
    by_cases hroom : room = 0
    · subst hroom
      exact .inl ⟨r :: reads, by simp, rfl, by simp⟩
    rw [if_neg hroom]
    by_cases hlong : room < r.val.length
    · left
      refine ⟨_, by rw [dif_pos hlong, List.take_append_of_le_length hlong.le], ?_, by omega⟩
      rw [readBytes_cons, List.drop_append_of_le_length hlong.le]
    · rw [dif_neg hlong]
      have htake : (r.val ++ readBytes reads).take room =
          r.val ++ (readBytes reads).take (room - r.val.length) := by
        rw [List.take_append, List.take_of_length_le (not_lt.1 hlong)]
      have hdrop : (r.val ++ readBytes reads).drop room =
          (readBytes reads).drop (room - r.val.length) := by
        rw [List.drop_append, List.drop_eq_nil_of_le (not_lt.1 hlong), List.nil_append]
      rcases ih (room - r.val.length) with ⟨rest, hfill, hrest, hlen⟩ | ⟨e, hf, hlen, hfill⟩
      · left
        refine ⟨rest, by rw [hfill, htake], by rw [hrest, hdrop], ?_⟩
        intro hfail
        have := hlen hfail
        omega
      · exact .inr ⟨e, hf, by omega, by rw [hfill]⟩

theorem fill_ok {reads rest : List ReadBytes} {failure : Option String} {room : ℕ} {buf : Bytes}
    (h : fill reads failure room = .ok (buf, rest)) :
    buf = (readBytes reads).take room ∧ readBytes rest = (readBytes reads).drop room := by
  rcases fill_eq reads failure room with ⟨rest', hfill, hrest, -⟩ | ⟨e, -, -, hfill⟩
  · rw [hfill] at h
    cases h
    exact ⟨rfl, hrest⟩
  · rw [hfill] at h
    cases h

/-- A piece as the pump sends it: sealed under its index, when there is a key. -/
def pumpPiece (A : Cipher) (sealWith : Option (Key × Base)) (index : ℕ) (buf : Bytes) : Bytes :=
  match sealWith with
  | some (k, base) => sealChunk A k base index buf
  | none => buf

/-- The loop of the pump, with a buffer of `c` bytes: the pieces sent and the
result of the task. -/
def pumpLoop (A : Cipher) (sealWith : Option (Key × Base)) (c : ℕ) (index pieces : ℕ)
    (reads : List ReadBytes) (failure : Option String) :
    List Bytes × Except StorageError ℕ :=
  match _h : fill reads failure c with
  | .error e => ([], .error e)
  | .ok (buf, rest) =>
    if _hbuf : buf = [] then ([], .ok pieces)
    else
      let piece := pumpPiece A sealWith index buf
      if buf.length < c then ([piece], .ok (pieces + 1))
      else
        let (sent, result) := pumpLoop A sealWith c (index + 1) (pieces + 1) rest failure
        (piece :: sent, result)
termination_by (readBytes reads).length
decreasing_by
  obtain ⟨hbuf', hrest⟩ := fill_ok _h
  have hpos := List.length_pos_of_ne_nil _hbuf
  rw [hbuf', List.length_take] at hpos
  rw [hrest, List.length_drop]
  omega

/-- The pump task.  The file may fail to open. -/
def pump (A : Cipher) (sealWith : Option (Key × Base)) (c : ℕ) (spool : Except String Spool) :
    List Bytes × Except StorageError ℕ :=
  match spool with
  | .error e => ([], .error (.backend e))
  | .ok spool => pumpLoop A sealWith c 0 0 spool.reads spool.failure

/-- How many pieces of a file of `n` readable bytes are sent. -/
def sentCount (c n : ℕ) (failure : Option String) : ℕ :=
  match failure with
  | none => pieceCount c n
  | some _ => n / c

theorem sentCount_of_lt {c n : ℕ} (hn : n < c) (failure : Option String) :
    sentCount c n failure = if failure = none ∧ 0 < n then 1 else 0 := by
  cases failure with
  | none => simp [sentCount, pieceCount, Nat.mod_eq_of_lt hn, Nat.div_eq_of_lt hn]
  | some e => simp [sentCount, Nat.div_eq_of_lt hn]

theorem sentCount_of_le {c n : ℕ} (hc : 0 < c) (hn : c ≤ n) (failure : Option String) :
    sentCount c n failure = sentCount c (n - c) failure + 1 := by
  cases failure with
  | none =>
    show pieceCount c n = pieceCount c (n - c) + 1
    rw [pieceCount_step hc (by omega), min_eq_right hn]
  | some e => exact Nat.div_eq_sub_div hc hn

/-- One round of the pump, by what the inner loop returned. -/
theorem pumpLoop_of_error {A : Cipher} {sealWith : Option (Key × Base)} {c index pieces : ℕ}
    {reads : List ReadBytes} {failure : Option String} {e : StorageError}
    (h : fill reads failure c = .error e) :
    pumpLoop A sealWith c index pieces reads failure = ([], .error e) := by
  rw [pumpLoop]
  split <;> simp_all

theorem pumpLoop_of_ok {A : Cipher} {sealWith : Option (Key × Base)} {c index pieces : ℕ}
    {reads rest : List ReadBytes} {failure : Option String} {buf : Bytes}
    (h : fill reads failure c = .ok (buf, rest)) :
    pumpLoop A sealWith c index pieces reads failure =
      if buf = [] then ([], .ok pieces)
      else if buf.length < c then ([pumpPiece A sealWith index buf], .ok (pieces + 1))
      else
        (pumpPiece A sealWith index buf ::
            (pumpLoop A sealWith c (index + 1) (pieces + 1) rest failure).1,
          (pumpLoop A sealWith c (index + 1) (pieces + 1) rest failure).2) := by
  rw [pumpLoop]
  split <;> simp_all

/-- The loop sends the pieces of what is still to be read, under successive
indices. -/
theorem pumpLoop_spec (A : Cipher) (sealWith : Option (Key × Base)) {c : ℕ} (hc : 0 < c)
    (failure : Option String) :
    ∀ (n index pieces : ℕ) (reads : List ReadBytes), (readBytes reads).length = n →
      pumpLoop A sealWith c index pieces reads failure =
        ((List.range (sentCount c n failure)).map fun j =>
            pumpPiece A sealWith (index + j) (piece c j (readBytes reads)),
          match failure with
          | none => .ok (pieces + sentCount c n failure)
          | some e => .error (.backend e)) := by
  intro n
  induction n using Nat.strong_induction_on with
  | _ n ih =>
    intro index pieces reads hn
    rcases fill_eq reads failure c with ⟨rest, hfill, hrest, hfail⟩ | ⟨e, rfl, hlt, hfill⟩
    · rw [pumpLoop_of_ok hfill]
      have hbuf : piece c 0 (readBytes reads) = (readBytes reads).take c := by simp [piece]
      have hlen : ((readBytes reads).take c).length = min c n := by rw [List.length_take, hn]
      have hempty : (readBytes reads).take c = [] ↔ min c n = 0 := by
        rw [← List.length_eq_zero_iff, hlen]
      by_cases hfull : c ≤ n
      · -- a full buffer, and the loop goes on behind it
        have hnext := ih (n - c) (by omega) (index + 1) (pieces + 1) rest
          (by rw [hrest, List.length_drop, hn])
        have hshift : ∀ j, piece c (j + 1) (readBytes reads) = piece c j (readBytes rest) := by
          intro j
          rw [hrest, piece, piece, List.drop_drop, Nat.succ_mul, Nat.add_comm c]
        rw [if_neg (by rw [hempty]; omega), if_neg (by omega), hnext, sentCount_of_le hc hfull,
          List.range_succ_eq_map, List.map_cons, List.map_map, hbuf]
        refine Prod.ext ?_ ?_
        · simp [Function.comp_def, hshift, Nat.add_comm, Nat.add_left_comm]
        · cases failure with
          | none => exact congrArg Except.ok (by omega)
          | some e => rfl
      · -- the file ends in this buffer
        have hnone : failure = none := by
          by_contra hsome
          have := hfail hsome
          omega
        subst hnone
        rw [sentCount_of_lt (not_le.1 hfull)]
        by_cases hzero : n = 0
        · rw [if_pos (by rw [hempty]; omega), if_neg (by omega)]
          rfl
        · rw [if_neg (by rw [hempty]; omega), if_pos (by omega), if_pos ⟨rfl, by omega⟩]
          simp [hbuf]
    · rw [pumpLoop_of_error hfill, sentCount_of_lt (by omega)]
      simp

/-- **Which pieces are sent**, and what the task returns. -/
theorem pump_spec (A : Cipher) (sealWith : Option (Key × Base)) {c : ℕ} (hc : 0 < c)
    (spool : Spool) :
    pump A sealWith c (.ok spool) =
      ((List.range (sentCount c spool.bytes.length spool.failure)).map fun i =>
          pumpPiece A sealWith i (piece c i spool.bytes),
        match spool.failure with
        | none => .ok (sentCount c spool.bytes.length spool.failure)
        | some e => .error (.backend e)) := by
  have hloop := pumpLoop_spec A sealWith hc spool.failure _ 0 0 spool.reads rfl
  simp only [Nat.zero_add] at hloop
  exact hloop

end Storage
end Uwuubox
