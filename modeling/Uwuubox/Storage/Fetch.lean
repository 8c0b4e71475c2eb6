import Uwuubox.Crypt.ObjectCrypt
import Uwuubox.Prog.Basic

/-!
# Object keys, stored objects, and what a fetch returns

The bottom of `src/storage.rs`: the two backends and the reads they answer.

* `assertSafeKey`, `SafeKey` — the key check every store method starts with.  A
  call with another key panics, so a key that gets past it carries its proof.
* `Content` — the bytes of a file or buffer; `Objects` — what a backend holds, key
  by key.
* `rawGet`, `rawGetRange`, `rawGetRangeRelaxed` — the reads of `LocalStore` and
  `S3Store` on what is stored.  `rawGetRange` is exact: it returns `len` bytes or
  an error (`rawGetRange_of_le`, `rawGetRange_ok`).  The relaxed read comes back
  short at the end of the object.
* `Fetch` — the fetches a read performs, as operations of a `Prog`.
  `Fetch.Answers` are the answers of a backend that works, with every way of
  cutting a raw stream into segments; `Fetch.Outcomes` also lets any fetch fail,
  and a raw stream break off.
-/

namespace Uwuubox
namespace Storage

open ObjectCrypt

/-- An object key, as the characters of the string. -/
abbrev ObjKey := List Char

instance lawfulBEqText : LawfulBEq (List Char) := inferInstance

/-- The assertion at the head of every store method: no `..`, no leading slash,
not empty. -/
def assertSafeKey (key : ObjKey) : Bool :=
  !decide (['.', '.'] <:+: key) && !decide (['/'] <+: key) && !key.isEmpty

/-- A key that passes `assertSafeKey`. -/
abbrev SafeKey := {key : ObjKey // assertSafeKey key = true}

/-- The errors of the store. -/
inductive StorageError where
  | notFound (key : ObjKey)
  | backend (msg : String)
deriving DecidableEq, Repr

/-- The two kinds of backend a `Store` dispatches to. -/
inductive Backend where
  | localFs
  | s3
deriving DecidableEq, Repr

/-- The uniform handle: a backend and the key it was configured with. -/
structure Store where
  backend : Backend
  encryptionKey : Option Key

/-- What is stored under each key. -/
abbrev Objects := SafeKey → Option Bytes

/-- The upper bound of a `u64`. -/
def u64Size : ℕ := 2 ^ 64

/-- The bytes of a file or of a buffer.  Their number is an `off_t` or an `isize`. -/
structure Content where
  bytes : Bytes
  fits : bytes.length < 2 ^ 63

/-- `u64::checked_add`. -/
def checkedAdd (a b : ℕ) : Option ℕ := if a + b < u64Size then some (a + b) else none

/-! ## The reads of a backend that works -/

def rawGet (objs : Objects) (key : SafeKey) : Except StorageError Bytes :=
  match objs key with
  | none => .error (.notFound key)
  | some o => .ok o

/-- `LocalStore::get_range`: open, seek, `read_exact`. -/
def LocalStore.getRange (objs : Objects) (key : SafeKey) (offset len : ℕ) :
    Except StorageError Bytes :=
  if len = 0 then .ok []
  else match objs key with
    | none => .error (.notFound key)
    | some o => if ((o.drop offset).take len).length < len then .error (.backend "early eof")
        else .ok ((o.drop offset).take len)

/-- What S3 sends for a `Range: bytes=first-last` request: the bytes there are,
or an error when the range starts behind the object. -/
def s3GetObjectRange (objs : Objects) (key : SafeKey) (first last : ℕ) :
    Except StorageError Bytes :=
  match objs key with
  | none => .error (.notFound key)
  | some o => if first < o.length then .ok ((o.drop first).take (last + 1 - first))
      else .error (.backend "service error")

/-- `S3Store::get_range`: a short answer is an error. -/
def S3Store.getRange (objs : Objects) (key : SafeKey) (offset len : ℕ) :
    Except StorageError Bytes :=
  if len = 0 then .ok []
  else match checkedAdd offset (len - 1) with
    | none => .error (.backend "requested range overflow")
    | some last =>
      match s3GetObjectRange objs key offset last with
      | .error e => .error e
      | .ok bytes =>
        if bytes.length ≠ len then
          .error (.backend s!"short ranged read: expected {len} bytes, got {bytes.length}")
        else .ok bytes

def rawGetRange (b : Backend) (objs : Objects) (key : SafeKey) (offset len : ℕ) :
    Except StorageError Bytes :=
  match b with
  | .localFs => LocalStore.getRange objs key offset len
  | .s3 => S3Store.getRange objs key offset len

/-- Best-effort ranged fetch: a short read at the end comes back short. -/
def rawGetRangeRelaxed (b : Backend) (objs : Objects) (key : SafeKey) (offset len : ℕ) :
    Except StorageError Bytes :=
  match b with
  | .localFs =>
    match objs key with
    | none => .error (.notFound key)
    | some o => .ok ((o.drop offset).take len)
  | .s3 =>
    if len = 0 then .ok []
    else match checkedAdd offset (len - 1) with
      | none => .error (.backend "requested range overflow")
      | some last => s3GetObjectRange objs key offset last

/-! ## The fetches of a read -/

/-- One fetch of a read. -/
inductive Fetch where
  | get (key : SafeKey)
  | getRange (key : SafeKey) (offset len : ℕ)
  | getRangeRelaxed (key : SafeKey) (offset len : ℕ)
  | stream (key : SafeKey)

/-- What a consumer of a stream receives, one item at a time. -/
abbrev Item := Except StorageError Bytes

/-- A raw stream is answered by all the items it delivers. -/
abbrev Fetch.Res : Fetch → Type
  | .get _ => Except StorageError Bytes
  | .getRange _ _ _ => Except StorageError Bytes
  | .getRangeRelaxed _ _ _ => Except StorageError Bytes
  | .stream _ => List Item

/-- The answers of a working backend.  A raw stream delivers the object in
segments, cut anywhere. -/
def Fetch.Answers (b : Backend) (objs : Objects) : (op : Fetch) → op.Res → Prop
  | .get key, r => r = rawGet objs key
  | .getRange key offset len, r => r = rawGetRange b objs key offset len
  | .getRangeRelaxed key offset len, r => r = rawGetRangeRelaxed b objs key offset len
  | .stream key, items =>
    match objs key with
    | none => items = [.error (.notFound key)]
    | some o => ∃ segments : List Bytes, segments.flatten = o ∧ items = segments.map .ok

/-- The outcomes of a backend whose fetches, where `faults` allows it, may also fail, each
on its own; a raw stream may fail before or after any segment. -/
def Fetch.Outcomes (faults : Prop) (b : Backend) (objs : Objects) : (op : Fetch) → op.Res → Prop
  | .get key, r => r = rawGet objs key ∨ faults ∧ ∃ e, r = .error e
  | .getRange key offset len, r =>
    r = rawGetRange b objs key offset len ∨ faults ∧ ∃ e, r = .error e
  | .getRangeRelaxed key offset len, r =>
    r = rawGetRangeRelaxed b objs key offset len ∨ faults ∧ ∃ e, r = .error e
  | .stream key, items => Fetch.Answers b objs (.stream key) items ∨
      faults ∧ ∃ (segments : List Bytes) (e : StorageError),
        segments.flatten <+: (objs key).getD [] ∧ items = segments.map .ok ++ [.error e]

/-! ## Exactness of the ranged read -/

variable {b : Backend} {objs : Objects} {key : SafeKey} {o : Bytes} {offset len : ℕ}

private theorem length_span : ((o.drop offset).take len).length = min len (o.length - offset) := by
  simp

/-- A span inside the object is returned. -/
theorem rawGetRange_of_le (ho : objs key = some o) (h : offset + len ≤ o.length)
    (hfits : o.length ≤ u64Size) :
    rawGetRange b objs key offset len = .ok ((o.drop offset).take len) := by
  by_cases hlen : len = 0
  · subst hlen
    cases b <;> simp [rawGetRange, LocalStore.getRange, S3Store.getRange]
  have hspan : ((o.drop offset).take len).length = len := by rw [length_span]; omega
  cases b with
  | localFs =>
    simp only [rawGetRange, LocalStore.getRange, ho]
    rw [if_neg hlen, if_neg (by omega)]
  | s3 =>
    have hadd : checkedAdd offset (len - 1) = some (offset + (len - 1)) := by
      rw [checkedAdd, if_pos (by omega)]
    have hlast : offset + (len - 1) + 1 - offset = len := by omega
    simp only [rawGetRange, S3Store.getRange, hadd, s3GetObjectRange, ho, hlast]
    rw [if_neg hlen, if_pos (by omega)]
    simp only [hspan, ne_eq, not_true_eq_false, if_false]

/-- What an exact read returns is the span asked for, and it lies in the object. -/
theorem rawGetRange_ok {r : Bytes} (ho : objs key = some o) (hlen : 0 < len)
    (h : rawGetRange b objs key offset len = .ok r) :
    offset + len ≤ o.length ∧ r = (o.drop offset).take len := by
  cases b with
  | localFs =>
    simp only [rawGetRange, LocalStore.getRange, ho] at h
    rw [if_neg (by omega)] at h
    split at h
    · cases h
    · rename_i hfull
      cases h
      rw [length_span] at hfull
      exact ⟨by omega, rfl⟩
  | s3 =>
    simp only [rawGetRange, S3Store.getRange, checkedAdd] at h
    rw [if_neg (by omega)] at h
    by_cases hadd : offset + (len - 1) < u64Size
    · have hlast : offset + (len - 1) + 1 - offset = len := by omega
      simp only [if_pos hadd, s3GetObjectRange, ho, hlast] at h
      by_cases hstart : offset < o.length
      · simp only [if_pos hstart] at h
        split at h
        · cases h
        · rename_i hfull
          cases h
          rw [length_span] at hfull
          exact ⟨by omega, rfl⟩
      · simp only [if_neg hstart] at h
        cases h
    · simp only [if_neg hadd] at h
      cases h

/-- A span that reaches behind the object is a backend error. -/
theorem rawGetRange_of_gt (ho : objs key = some o) (hlen : 0 < len) (h : o.length < offset + len) :
    ∃ msg, rawGetRange b objs key offset len = .error (.backend msg) := by
  cases hr : rawGetRange b objs key offset len with
  | ok r => exact absurd (rawGetRange_ok ho hlen hr).1 (by omega)
  | error e =>
    cases e with
    | backend msg => exact ⟨msg, rfl⟩
    | notFound missing =>
      cases b with
      | localFs =>
        simp only [rawGetRange, LocalStore.getRange, ho] at hr
        split at hr
        · cases hr
        · split at hr <;> cases hr
      | s3 =>
        simp only [rawGetRange, S3Store.getRange, s3GetObjectRange, ho] at hr
        split at hr
        · cases hr
        · split at hr
          · cases hr
          · split at hr
            · rename_i e hobj
              split at hobj <;> cases hobj
              cases hr
            · split at hr <;> cases hr

/-- The four-byte probe of an object that has four bytes. -/
theorem rawGetRange_probe (ho : objs key = some o) (h : 4 ≤ o.length) (hfits : o.length ≤ u64Size) :
    rawGetRange b objs key 0 4 = .ok (o.take 4) := by
  rw [rawGetRange_of_le ho (by omega) hfits, List.drop_zero]

/-- What a relaxed read returns is what the object has of the span. -/
theorem rawGetRangeRelaxed_ok {r : Bytes} (ho : objs key = some o) (hlen : 0 < len)
    (h : rawGetRangeRelaxed b objs key offset len = .ok r) : r = (o.drop offset).take len := by
  cases b with
  | localFs =>
    simp only [rawGetRangeRelaxed, ho] at h
    cases h
    rfl
  | s3 =>
    simp only [rawGetRangeRelaxed, checkedAdd] at h
    rw [if_neg (by omega)] at h
    by_cases hadd : offset + (len - 1) < u64Size
    · have hlast : offset + (len - 1) + 1 - offset = len := by omega
      simp only [if_pos hadd, s3GetObjectRange, ho, hlast] at h
      split at h
      · cases h; rfl
      · cases h
    · simp only [if_neg hadd] at h
      cases h

/-- A relaxed read that starts inside the object returns what there is. -/
theorem rawGetRangeRelaxed_of_lt (ho : objs key = some o) (hlen : 0 < len)
    (hstart : offset < o.length) (hfits : offset + len ≤ u64Size) :
    rawGetRangeRelaxed b objs key offset len = .ok ((o.drop offset).take len) := by
  cases b with
  | localFs => simp only [rawGetRangeRelaxed, ho]
  | s3 =>
    have hlast : offset + (len - 1) + 1 - offset = len := by omega
    simp only [rawGetRangeRelaxed, checkedAdd]
    rw [if_neg (by omega), if_pos (by omega)]
    simp only [s3GetObjectRange, ho, hlast, if_pos hstart]

/-- One answer of a working backend: a raw stream in a single segment. -/
def Fetch.answer (b : Backend) (objs : Objects) : (op : Fetch) → op.Res
  | .get key => rawGet objs key
  | .getRange key offset len => rawGetRange b objs key offset len
  | .getRangeRelaxed key offset len => rawGetRangeRelaxed b objs key offset len
  | .stream key =>
    match objs key with
    | none => [.error (.notFound key)]
    | some o => [.ok o]

theorem Fetch.answers_answer (b : Backend) (objs : Objects) (op : Fetch) :
    Fetch.Answers b objs op (Fetch.answer b objs op) := by
  cases op with
  | get key => rfl
  | getRange key offset len => rfl
  | getRangeRelaxed key offset len => rfl
  | stream key =>
    cases ho : objs key with
    | none => simp only [Fetch.Answers, Fetch.answer, ho]
    | some o =>
      simp only [Fetch.Answers, Fetch.answer, ho]
      exact ⟨[o], List.append_nil o, rfl⟩

theorem Fetch.Answers.outcomes (faults : Prop) {op : Fetch} {r : op.Res}
    (h : Fetch.Answers b objs op r) : Fetch.Outcomes faults b objs op r := by
  cases op with
  | get key => exact Or.inl h
  | getRange key offset len => exact Or.inl h
  | getRangeRelaxed key offset len => exact Or.inl h
  | stream key => exact Or.inl h

end Storage
end Uwuubox
