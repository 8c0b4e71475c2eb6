import Uwuubox.Dedupe.Keys
import Uwuubox.Prog.Pool
import Uwuubox.Table.Rows

/-!
# The database and the object store of uploads

The tables `objects`, `files` and `used_id_cores` with the constraints of the migrations,
the object store beside them, and the statements that uploads and removals
execute, each of them atomic.

* `ObjectTable`, `FileTable` — tables that satisfy their unique constraints by construction.
* `World` — what all requests share.
* `DbOp` — the statements and store operations; `answer` — what each returns and does when
  nothing fails.
* `exec faults` — what can happen: the answer, or, where `faults` allows it, an error.  A
  failed statement has no effect; after a failed store operation the key it was
  about may hold anything.
-/

namespace Uwuubox
namespace Dedupe

open Storage Table

/-- A SHA-256 digest. -/
abbrev Digest := Arr 32

/-- A string of a column or a header. -/
abbrev Text := List Char

/-- A row of `objects`. -/
structure ObjectRow where
  sha256 : Digest
  storageKey : SafeKey
  sizeBytes : ℕ
  mimeStored : Text
  /-- `CHECK (refcount >= 0)` makes it a natural number. -/
  refcount : ℕ
deriving DecidableEq

/-- A row of `files`, as far as storage is concerned. -/
structure FileRow where
  idCore : Core
  ext : Ext
  sizeBytes : ℕ
  mimeStored : Text
  sha256 : Digest
  storageKey : SafeKey
  thumbKey : Option SafeKey
deriving DecidableEq

/-- The keys a row refers to. -/
def FileRow.keys (row : FileRow) : List SafeKey := row.storageKey :: row.thumbKey.toList

/-! ## The tables -/

/-- `objects`: primary key `sha256`, unique `storage_key`. -/
structure ObjectTable where
  rows : List ObjectRow
  uniqueSha : UniqueOn ObjectRow.sha256 rows
  uniqueKey : UniqueOn ObjectRow.storageKey rows

namespace ObjectTable

def empty : ObjectTable := ⟨[], List.nodup_nil, List.nodup_nil⟩

/-- Insert a row whose digest and key are not there. -/
def insert (t : ObjectTable) (row : ObjectRow) (hsha : ∀ s ∈ t.rows, s.sha256 ≠ row.sha256)
    (hkey : ∀ s ∈ t.rows, s.storageKey ≠ row.storageKey) : ObjectTable where
  rows := row :: t.rows
  uniqueSha := t.uniqueSha.cons hsha
  uniqueKey := t.uniqueKey.cons hkey

/-- Set the reference count of the rows that meet `p`. -/
def setRefcount (t : ObjectTable) (p : ObjectRow → Bool) (f : ℕ → ℕ) : ObjectTable where
  rows := updateWhere p (fun row => { row with refcount := f row.refcount }) t.rows
  uniqueSha := t.uniqueSha.updateWhere fun _ => rfl
  uniqueKey := t.uniqueKey.updateWhere fun _ => rfl

def delete (t : ObjectTable) (p : ObjectRow → Bool) : ObjectTable where
  rows := deleteWhere p t.rows
  uniqueSha := t.uniqueSha.deleteWhere
  uniqueKey := t.uniqueKey.deleteWhere

end ObjectTable

/-- `files`: primary key `id_core`. -/
structure FileTable where
  rows : List FileRow
  uniqueCore : UniqueOn FileRow.idCore rows

namespace FileTable

def empty : FileTable := ⟨[], List.nodup_nil⟩

def insert (t : FileTable) (row : FileRow) (hcore : ∀ s ∈ t.rows, s.idCore ≠ row.idCore) :
    FileTable where
  rows := row :: t.rows
  uniqueCore := t.uniqueCore.cons hcore

def delete (t : FileTable) (p : FileRow → Bool) : FileTable where
  rows := deleteWhere p t.rows
  uniqueCore := t.uniqueCore.deleteWhere

/-- Give a row a thumbnail, if it has none. -/
def linkThumb (t : FileTable) (core : Core) (key : SafeKey) : FileTable where
  rows := updateWhere (fun row => row.idCore = core && row.thumbKey.isNone)
    (fun row => { row with thumbKey := some key }) t.rows
  uniqueCore := t.uniqueCore.updateWhere fun _ => rfl

end FileTable

/-- What all requests share. -/
structure World where
  /-- `used_id_cores`; nothing is ever removed from it. -/
  usedIdCores : List Core
  objects : ObjectTable
  files : FileTable
  /-- The object store, with the plaintext an object stands for. -/
  store : SafeKey → Option Bytes

/-- A fresh instance. -/
def World.empty : World := ⟨[], .empty, .empty, fun _ => none⟩

/-! ## The operations -/

/-- The errors of a statement. -/
inductive SqlError where
  | rowNotFound
  | uniqueViolation (constraint : String)
  | checkViolation (constraint : String)
  | outOfRange
  | io (msg : String)
deriving DecidableEq

/-- The errors of an operation: of the database or of the store. -/
inductive Failure where
  | sql (e : SqlError)
  | storage (e : StorageError)

/-- One statement, or one operation of the store. -/
inductive DbOp where
  /-- `INSERT INTO used_id_cores .. ON CONFLICT (core) DO NOTHING` -/
  | claimCore (core : Core)
  /-- `INSERT INTO objects .. ON CONFLICT (sha256) DO NOTHING RETURNING storage_key` -/
  | insertObject (sha256 : Digest) (storageKey : SafeKey) (sizeBytes : ℕ) (mimeStored : Text)
  /-- `UPDATE objects SET refcount = refcount + 1 WHERE sha256 = $1 RETURNING storage_key` -/
  | bumpObject (sha256 : Digest)
  /-- `UPDATE objects SET refcount = refcount - 1 WHERE storage_key = $1 RETURNING refcount` -/
  | dropObject (key : SafeKey)
  /-- `DELETE FROM objects WHERE storage_key = $1` -/
  | deleteObject (key : SafeKey)
  /-- `INSERT INTO files ..` -/
  | insertFile (row : FileRow)
  /-- `DELETE FROM files WHERE id_core = $1 RETURNING storage_key, thumb_key` -/
  | deleteFile (core : Core)
  /-- `Store::put`, `Store::put_file` -/
  | put (key : SafeKey) (bytes : Bytes)
  /-- `Store::delete` -/
  | delete (key : SafeKey)

namespace DbOp

/-- What an operation returns when it does not fail. -/
abbrev Val : DbOp → Type
  | claimCore _ => Bool
  | insertObject _ _ _ _ => Option SafeKey
  | bumpObject _ => SafeKey
  | dropObject _ => Option ℕ
  | deleteObject _ => Unit
  | insertFile _ => Unit
  | deleteFile _ => Option (SafeKey × Option SafeKey)
  | put _ _ => Unit
  | delete _ => Unit

abbrev Res (op : DbOp) : Type := Except Failure op.Val

/-- The key of the store an operation is about. -/
def storeKey : DbOp → Option SafeKey
  | put key _ => some key
  | delete key => some key
  | _ => none

end DbOp

/-- The range of a Postgres `INTEGER`. -/
def integerMax : ℕ := 2 ^ 31 - 1

/-- What an operation returns and does when nothing fails. -/
def answer (w : World) : (op : DbOp) → op.Res × World
  | .claimCore core =>
    if core ∈ w.usedIdCores then (.ok false, w)
    else (.ok true, { w with usedIdCores := core :: w.usedIdCores })
  | .insertObject sha256 storageKey sizeBytes mimeStored =>
    if hsha : ∀ s ∈ w.objects.rows, s.sha256 ≠ sha256 then
      if hkey : ∀ s ∈ w.objects.rows, s.storageKey ≠ storageKey then
        (.ok (some storageKey),
          { w with objects := w.objects.insert ⟨sha256, storageKey, sizeBytes, mimeStored, 1⟩ hsha hkey })
      else (.error (.sql (.uniqueViolation "objects_storage_key_key")), w)
    else (.ok none, w)
  | .bumpObject sha256 =>
    match w.objects.rows.find? (fun row => row.sha256 = sha256) with
    | none => (.error (.sql .rowNotFound), w)
    | some row =>
      if row.refcount + 1 ≤ integerMax then
        (.ok row.storageKey,
          { w with objects := w.objects.setRefcount (fun row => row.sha256 = sha256) (· + 1) })
      else (.error (.sql .outOfRange), w)
  | .dropObject key =>
    match w.objects.rows.find? (fun row => row.storageKey = key) with
    | none => (.ok none, w)
    | some row =>
      if row.refcount = 0 then (.error (.sql (.checkViolation "objects_refcount_check")), w)
      else (.ok (some (row.refcount - 1)),
        { w with objects := w.objects.setRefcount (fun row => row.storageKey = key) (· - 1) })
  | .deleteObject key =>
    (.ok (), { w with objects := w.objects.delete fun row => row.storageKey = key })
  | .insertFile row =>
    if hcore : ∀ s ∈ w.files.rows, s.idCore ≠ row.idCore then
      (.ok (), { w with files := w.files.insert row hcore })
    else (.error (.sql (.uniqueViolation "files_pkey")), w)
  | .deleteFile core =>
    match w.files.rows.find? (fun row => row.idCore = core) with
    | none => (.ok none, w)
    | some row =>
      (.ok (some (row.storageKey, row.thumbKey)),
        { w with files := w.files.delete fun row => row.idCore = core })
  | .put key bytes => (.ok (), { w with store := Function.update w.store key (some bytes) })
  | .delete key => (.ok (), { w with store := Function.update w.store key none })

/-- An operation that fails. -/
structure Fails (w : World) (op : DbOp) (r : op.Res) (w' : World) : Prop where
  error : ∃ e, r = .error e
  usedIdCores : w'.usedIdCores = w.usedIdCores
  objects : w'.objects = w.objects
  files : w'.files = w.files
  store : ∀ key, op.storeKey ≠ some key → w'.store key = w.store key

/-- What one operation can do. -/
def exec (faults : Prop) (w : World) (op : DbOp) (r : op.Res) (w' : World) : Prop :=
  (r, w') = answer w op ∨ faults ∧ Fails w op r w'

/-! ## What one operation can do

One inversion lemma for each operation; everything that is proved of a run goes through
these. -/

section Inversion

variable {faults : Prop} {w w' : World}

/-- A failed statement has no effect. -/
theorem Fails.eq {op : DbOp} {r : op.Res} (h : Fails w op r w') (hop : op.storeKey = none) :
    w' = w := by
  obtain ⟨used, objects, files, store⟩ := w
  obtain ⟨used', objects', files', store'⟩ := w'
  obtain ⟨-, rfl, rfl, rfl, hstore⟩ := h
  obtain rfl : store' = store := funext fun key => hstore key (by rw [hop]; simp)
  rfl

theorem exec_claimCore {core : Core} {r : (DbOp.claimCore core).Res}
    (h : exec faults w (.claimCore core) r w') :
    (r = .ok true ∧ core ∉ w.usedIdCores ∧
      w' = { w with usedIdCores := core :: w.usedIdCores }) ∨
    (r ≠ .ok true ∧ w' = w) := by
  rcases h with h | ⟨-, h⟩
  · simp only [answer] at h
    split at h
    · cases h
      exact .inr ⟨by simp, rfl⟩
    · rename_i hnew
      cases h
      exact .inl ⟨rfl, hnew, rfl⟩
  · obtain ⟨e, rfl⟩ := h.error
    exact .inr ⟨by simp, h.eq rfl⟩

theorem exec_insertObject {sha : Digest} {key : SafeKey} {size : ℕ} {mime : Text}
    {r : (DbOp.insertObject sha key size mime).Res}
    (h : exec faults w (.insertObject sha key size mime) r w') :
    (∃ hsha hkey, r = .ok (some key) ∧
      w' = { w with objects := w.objects.insert ⟨sha, key, size, mime, 1⟩ hsha hkey }) ∨
    (r = .ok none ∧ w' = w) ∨ (∃ e, r = .error e ∧ w' = w) := by
  rcases h with h | ⟨-, h⟩
  · simp only [answer] at h
    split at h
    · rename_i hsha
      split at h
      · rename_i hkey
        cases h
        exact .inl ⟨hsha, hkey, rfl, rfl⟩
      · cases h
        exact .inr (.inr ⟨_, rfl, rfl⟩)
    · cases h
      exact .inr (.inl ⟨rfl, rfl⟩)
  · obtain ⟨e, rfl⟩ := h.error
    exact .inr (.inr ⟨e, rfl, h.eq rfl⟩)

theorem exec_bumpObject {sha : Digest} {r : (DbOp.bumpObject sha).Res}
    (h : exec faults w (.bumpObject sha) r w') :
    (∃ row ∈ w.objects.rows, row.sha256 = sha ∧ r = .ok row.storageKey ∧
      w' = { w with objects := w.objects.setRefcount (fun row => row.sha256 = sha) (· + 1) }) ∨
    (∃ e, r = .error e ∧ w' = w) := by
  rcases h with h | ⟨-, h⟩
  · simp only [answer] at h
    split at h
    · cases h
      exact .inr ⟨_, rfl, rfl⟩
    · rename_i row hfind
      obtain ⟨hrow, hsha⟩ := find?_col hfind
      split at h
      · cases h
        exact .inl ⟨row, hrow, hsha, rfl, rfl⟩
      · cases h
        exact .inr ⟨_, rfl, rfl⟩
  · obtain ⟨e, rfl⟩ := h.error
    exact .inr ⟨e, rfl, h.eq rfl⟩

theorem exec_dropObject {key : SafeKey} {r : (DbOp.dropObject key).Res}
    (h : exec faults w (.dropObject key) r w') :
    (∃ row ∈ w.objects.rows, row.storageKey = key ∧ row.refcount ≠ 0 ∧
      r = .ok (some (row.refcount - 1)) ∧
      w' = { w with objects := w.objects.setRefcount (fun row => row.storageKey = key) (· - 1) }) ∨
    ((∀ n, r ≠ .ok (some n)) ∧ w' = w) := by
  rcases h with h | ⟨-, h⟩
  · simp only [answer] at h
    split at h
    · cases h
      exact .inr ⟨fun n => by simp, rfl⟩
    · rename_i row hfind
      obtain ⟨hrow, hkey⟩ := find?_col hfind
      split at h
      · cases h
        exact .inr ⟨fun n => by simp, rfl⟩
      · rename_i hpos
        cases h
        exact .inl ⟨row, hrow, hkey, hpos, rfl, rfl⟩
  · obtain ⟨e, rfl⟩ := h.error
    exact .inr ⟨fun n => by simp, h.eq rfl⟩

theorem exec_deleteObject {key : SafeKey} {r : (DbOp.deleteObject key).Res}
    (h : exec faults w (.deleteObject key) r w') :
    (r = .ok () ∧ w' = { w with objects := w.objects.delete fun row => row.storageKey = key }) ∨
    (∃ e, r = .error e ∧ w' = w) := by
  rcases h with h | ⟨-, h⟩
  · cases h
    exact .inl ⟨rfl, rfl⟩
  · obtain ⟨e, rfl⟩ := h.error
    exact .inr ⟨e, rfl, h.eq rfl⟩

theorem exec_insertFile {row : FileRow} {r : (DbOp.insertFile row).Res}
    (h : exec faults w (.insertFile row) r w') :
    (∃ hcore, r = .ok () ∧ w' = { w with files := w.files.insert row hcore }) ∨
    (∃ e, r = .error e ∧ w' = w) := by
  rcases h with h | ⟨-, h⟩
  · simp only [answer] at h
    split at h
    · rename_i hcore
      cases h
      exact .inl ⟨hcore, rfl, rfl⟩
    · cases h
      exact .inr ⟨_, rfl, rfl⟩
  · obtain ⟨e, rfl⟩ := h.error
    exact .inr ⟨e, rfl, h.eq rfl⟩

theorem exec_deleteFile {core : Core} {r : (DbOp.deleteFile core).Res}
    (h : exec faults w (.deleteFile core) r w') :
    (∃ row ∈ w.files.rows, row.idCore = core ∧ r = .ok (some (row.storageKey, row.thumbKey)) ∧
      w' = { w with files := w.files.delete fun row => row.idCore = core }) ∨
    ((∀ keys, r ≠ .ok (some keys)) ∧ w' = w) := by
  rcases h with h | ⟨-, h⟩
  · simp only [answer] at h
    split at h
    · cases h
      exact .inr ⟨fun keys => by simp, rfl⟩
    · rename_i row hfind
      obtain ⟨hrow, hcore⟩ := find?_col hfind
      cases h
      exact .inl ⟨row, hrow, hcore, rfl, rfl⟩
  · obtain ⟨e, rfl⟩ := h.error
    exact .inr ⟨fun keys => by simp, h.eq rfl⟩

/-- Two worlds that differ at most in what the store has at `key`. -/
structure SameBut (key : SafeKey) (w w' : World) : Prop where
  usedIdCores : w'.usedIdCores = w.usedIdCores
  objects : w'.objects = w.objects
  files : w'.files = w.files
  store : ∀ key', key' ≠ key → w'.store key' = w.store key'

theorem Fails.sameBut {op : DbOp} {r : op.Res} {key : SafeKey} (h : Fails w op r w')
    (hop : op.storeKey = some key) : SameBut key w w' where
  usedIdCores := h.usedIdCores
  objects := h.objects
  files := h.files
  store key' hne := h.store key' fun heq => hne (Option.some.inj (heq.symm.trans hop))

theorem exec_put {key : SafeKey} {bytes : Bytes} {r : (DbOp.put key bytes).Res}
    (h : exec faults w (.put key bytes) r w') :
    SameBut key w w' ∧ ((r = .ok () ∧ w'.store key = some bytes) ∨ (faults ∧ ∃ e, r = .error e)) := by
  rcases h with h | ⟨hf, h⟩
  · cases h
    exact ⟨⟨rfl, rfl, rfl, fun key' hne => Function.update_of_ne hne _ _⟩,
      .inl ⟨rfl, Function.update_self key _ _⟩⟩
  · exact ⟨h.sameBut rfl, .inr ⟨hf, h.error⟩⟩

theorem exec_delete {key : SafeKey} {r : (DbOp.delete key).Res}
    (h : exec faults w (.delete key) r w') : SameBut key w w' := by
  rcases h with h | ⟨-, h⟩
  · cases h
    exact ⟨rfl, rfl, rfl, fun key' hne => Function.update_of_ne hne _ _⟩
  · exact h.sameBut rfl

end Inversion

theorem exec_answer (faults : Prop) (w : World) (op : DbOp) :
    exec faults w op (answer w op).1 (answer w op).2 := .inl rfl

end Dedupe
end Uwuubox
