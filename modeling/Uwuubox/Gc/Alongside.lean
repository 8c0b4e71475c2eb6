import Uwuubox.Dedupe.Backfill
import Uwuubox.Gc.Reclaim
import Uwuubox.Server.Avatars

/-!
# A collection beside uploads

A collection of `src/routes/gc.rs` and uploads of files and avatars on the local backend, which take their
steps in any order.  A collection looks at the store before it looks at the tables, and an upload
writes bytes before or after the row that refers to them.

* `Shows` — the site that a collection sees; `leftBy` — what one of its operations leaves.
  `Shows.leftBy`: that is what it leaves of the site.
* `Action`, `execAction` — the operations of all of them, none of which fails by itself.
* `Job` — a collection, an upload of a file, an upload of an avatar.
* `Holding`, `track` — what a request has begun, and the locks of its transaction.
* `Awaited` — the statements that do not have to wait for the lock of a row.
* `Spares` — **the condition**: a collection deletes no bytes that an upload has not recorded yet or
  that have been recorded since it looked, and no row that an upload has found and not counted yet.
-/

namespace Uwuubox
namespace Gc

open Dedupe Storage Table Fallible Server

/-! ## What a collection sees and leaves -/

/-- A collection sees the site.  The sizes that it lists are those of the files on the disk. -/
structure Shows (s : AvatarWorld) (site : Site) : Prop where
  objects : site.objects.rows =
    s.server.dedupe.objects.rows.map fun row => ⟨row.storageKey.val, row.sizeBytes, row.refcount⟩
  files : site.files =
    s.server.dedupe.files.rows.map fun row => ⟨row.storageKey.val, row.thumbKey.map Subtype.val⟩
  avatarKeys : ∀ key, some key ∈ site.avatarKeys ↔ ∃ id avatar, s.avatarKey id = some avatar ∧ avatar.val = key
  stored : ∀ key, site.Stored key ↔ ∃ object : SafeKey, s.Stored object ∧ object.val = key

/-- What an operation of a collection leaves.  The row is deleted when the transaction is committed. -/
def leftBy (s : AvatarWorld) : Op → AvatarWorld
  | .delete key => s.store key none
  | .commit key true => { s with
      server.dedupe.objects :=
        s.server.dedupe.objects.delete fun row => row.storageKey.val = key && row.refcount ≤ 0 }
  | _ => s

section

variable {s : AvatarWorld} {site : Site}

/-- The refcount that a collection reads. -/
theorem Shows.refcount (h : Shows s site) {key : ObjKey} {n : ℕ} : site.refcount? key = some n ↔
    ∃ row ∈ s.server.dedupe.objects.rows, row.storageKey.val = key ∧ row.refcount = n := by
  unfold Site.refcount?
  rw [Option.map_eq_some_iff]
  constructor
  · rintro ⟨object, hfind, rfl⟩
    obtain ⟨hmem, rfl⟩ := Keyed.mem_of_find? hfind
    rw [Keyed.mem_def, h.objects] at hmem
    obtain ⟨row, hrow, rfl⟩ := List.mem_map.1 hmem
    exact ⟨row, hrow, rfl, rfl⟩
  · rintro ⟨row, hrow, rfl, rfl⟩
    refine ⟨⟨row.storageKey.val, row.sizeBytes, row.refcount⟩, Keyed.find?_eq_some.2 ⟨?_, rfl⟩, rfl⟩
    rw [Keyed.mem_def, h.objects]
    exact List.mem_map.2 ⟨row, hrow, rfl⟩

/-- What a collection lists is stored. -/
theorem Shows.inventory (h : Shows s site) {o : ObjKey × ℕ} (ho : o ∈ site.reads.inventory) :
    ∃ object : SafeKey, s.Stored object ∧ object.val = o.1 := by
  refine (h.stored o.1).1 ?_
  unfold Site.Stored
  rw [Keyed.find?_eq_some.2 ⟨(List.mem_filter.1 ho).1, rfl⟩]
  rfl

/-- **What an operation leaves** is what it leaves of the site. -/
theorem Shows.leftBy (h : Shows s site) (op : Op) : Shows (leftBy s op) (answer site op).2 := by
  cases op with
  | delete key =>
    refine ⟨h.objects, h.files, h.avatarKeys, fun key' => ?_⟩
    by_cases heq : key' = key.val
    · subst heq
      have hgone : ¬ (site.deleteBytes key.val).Stored key.val := by
        unfold Site.Stored
        rw [find?_deleteBytes]
        exact Bool.false_ne_true
      refine iff_of_false hgone ?_
      rintro ⟨object, hstored, hval⟩
      obtain rfl := Subtype.ext hval
      have hnone := stored_store.1 hstored
      rw [if_pos rfl] at hnone
      cases hnone
    · refine ((sameBut_deleteBytes key.val site).stored heq).trans ((h.stored key').trans ?_)
      refine exists_congr fun object => and_congr_left fun hval => ?_
      have hne : object ≠ key := fun hobject => heq (hobject ▸ hval.symm)
      exact (stored_store.trans (by rw [if_neg hne])).symm
  | commit key deleted =>
    cases deleted with
    | false => exact h
    | true =>
      refine ⟨?_, h.files, h.avatarKeys, h.stored⟩
      show deleteWhere _ site.objects.rows = _
      rw [h.objects]
      exact List.filter_map
  | _ => exact h

end

/-! ## Operations -/

/-- An operation of a collection, of an upload of a file, or of an upload of an avatar. -/
inductive Action where
  | collect (op : Op)
  | file (op : FileOp)
  | avatar (op : AvatarOp)

abbrev Action.Res : Action → Type
  | collect op => op.Res
  | file op => op.Res
  | avatar op => op.Res

/-- What an operation can do, on the local backend. -/
def execAction (s : AvatarWorld) : (a : Action) → a.Res → AvatarWorld → Prop
  | .collect op, r, s' => (∃ site, Shows s site ∧ (answer site op).1 = r) ∧ s' = leftBy s op
  | .file op, r, s' => ∃ d, execFile False s.server.dedupe op r d ∧ s' = { s with server.dedupe := d }
  | .avatar op, r, s' => execAvatar .localFs False s op r s'

/-- What can be asked for. -/
inductive Job where
  | collection
  | upload (u : Upload)
  | avatar (caller : Caller) (fields : List AvatarField)

/-- The program of a request. -/
def Job.code (env : Env) (sha256 : Bytes → Digest) : Job → Prog Action Action.Res Unit
  | collection => do
    let _ ← (run false).run.interp fun op => Prog.perform (Action.collect op)
    pure ()
  | upload u => do
    let _ ← (onBackend .localFs (uploadInner sha256 u)).interp fun op => Prog.perform (Action.file op)
    pure ()
  | avatar caller fields => do
    let _ ← (uploadAvatar env .localFs caller fields).run.interp fun op => Prog.perform (Action.avatar op)
    pure ()

/-! ## What a request has begun -/

/-- The lock of a row, with what its transaction knows and has done. -/
inductive Lock where
  /-- `FOR UPDATE`, and the refcount it returned. -/
  | counted (refcount : ℕ)
  /-- The refcount is zero, and the bytes have been deleted. -/
  | bare
  /-- The row has been deleted. -/
  | dying
deriving DecidableEq

/-- The refcount of the row. -/
def Lock.refcount : Lock → ℕ
  | counted n => n
  | bare | dying => 0

/-- What only the upload that has claimed a core writes: the row of the file, the key of its bytes, and that
of its thumbnail. -/
inductive Slot where
  | row (core : Core)
  | object (core : Core)
  | thumb (core : Core)
deriving DecidableEq

namespace Slot

def core : Slot → Core
  | row core | object core | thumb core => core

/-- The key is one of the slot. -/
def Holds : Slot → ObjKey → Prop
  | row _, _ => False
  | object core, key => filesPrefix ++ core.val <+: key
  | thumb core, key => thumbsPrefix ++ core.val <+: key

instance (slot : Slot) (key : ObjKey) : Decidable (slot.Holds key) :=
  match slot with
  | row _ => inferInstanceAs (Decidable False)
  | object _ | thumb _ => inferInstanceAs (Decidable (_ <+: _))

end Slot

/-- What a request has begun, or knows. -/
inductive Holding where
  /-- The core of the slot has been claimed, and the slot has not been used. -/
  | free (slot : Slot)
  /-- A row of this digest was there, and is to be counted. -/
  | found (sha256 : Digest)
  /-- The row has been inserted, and the bytes are to be stored. -/
  | fresh (key : SafeKey)
  /-- A reference has been counted. -/
  | held (key : SafeKey)
  /-- A temporary file, to be renamed. -/
  | temp (tmp : SafeKey)
  /-- An avatar that has been put, and not yet recorded. -/
  | put (key : SafeKey)
  /-- An avatar that has been deleted, and may still be recorded. -/
  | deleted (key : SafeKey)
  /-- The key has been listed. -/
  | listed (key : ObjKey)
  /-- The key has been listed, and had no row when it was looked up. -/
  | vacant (key : ObjKey)
  /-- The row of the key is locked. -/
  | locks (key : ObjKey) (lock : Lock)
deriving DecidableEq

abbrev Holdings := Multiset Holding

namespace Holding

/-- A slot that has the key. -/
def frees (key : ObjKey) : Holding → Bool
  | free slot => slot.Holds key
  | _ => false

/-- A lock of the row of the key. -/
def locksRow (key : ObjKey) : Holding → Bool
  | locks key' _ => key' = key
  | _ => false

/-- What the store has, or no longer has, of an avatar. -/
def ofAvatar : Holding → Bool
  | put _ | deleted _ => true
  | _ => false

end Holding

/-- A transaction ends, and gives back its lock. -/
def unlock (key : ObjKey) (g : Holdings) : Holdings := g.filter fun h => h.locksRow key = false

def trackCollect (g : Holdings) : (op : Op) → op.Res → Holdings
  | .inventory, .ok inventory => (inventory.map fun o => Holding.listed o.1 : List Holding) + g
  | .lockObject key, .ok none => if .listed key ∈ g then .vacant key ::ₘ g else g
  | .lockObject key, .ok (some refcount) => .locks key (.counted refcount) ::ₘ g
  | .delete key, .ok () =>
    if .locks key.val (.counted 0) ∈ g then .locks key.val .bare ::ₘ unlock key.val g else g
  | .deleteZeroRef key, .ok () => .locks key .dying ::ₘ unlock key g
  | .rollback key, .ok () => unlock key g
  | .commit key _, .ok () => unlock key g
  | _, _ => g

def trackFile (g : Holdings) : (op : FileOp) → op.Res → Holdings
  | .db (.claimCore core), .ok true => .free (.row core) ::ₘ .free (.object core) ::ₘ .free (.thumb core) ::ₘ g
  | .db (.insertObject _ _ _ _), .ok (some key) =>
    .fresh key ::ₘ .held key ::ₘ g.filter fun h => h.frees key.val = false
  | .db (.insertObject sha256 _ _ _), .ok none => .found sha256 ::ₘ g
  | .db (.bumpObject sha256), .ok key => .held key ::ₘ g.filter (· ≠ .found sha256)
  | .db (.bumpObject sha256), .error _ => g.filter (· ≠ .found sha256)
  | .db (.insertFile row), .ok () => g.filter (· ≠ .free (.row row.idCore))
  | .create _ _, r => .temp r.1 ::ₘ g
  | .rename tmp key, .ok () => (g.filter (· ≠ .temp tmp)).filter (· ≠ .fresh key)
  | _, _ => g

def trackAvatar (g : Holdings) : (op : AvatarOp) → op.Res → Holdings
  | .file (.create _ _), r => .temp r.1 ::ₘ g
  | .file (.rename tmp key), .ok () => .put key ::ₘ g.filter (· ≠ .temp tmp)
  | .delete key, .ok () => .deleted key ::ₘ g
  | .setAvatarKey _ _, .ok () => g.filter fun h => h.ofAvatar = false
  | _, _ => g

/-- What a request has begun after an operation. -/
def track (g : Holdings) : (a : Action) → a.Res → Holdings
  | .collect op, r => trackCollect g op r
  | .file op, r => trackFile g op r
  | .avatar op, r => trackAvatar g op r

/-! ## Locks, and the condition -/

/-- The statement does not have to wait: the row is not locked, or, where a row is inserted, none that stands in
its way is being deleted.  `t` is what all requests have begun. -/
def Awaited (s : AvatarWorld) (t : Holdings) : Action → Prop
  | .collect (.lockObject key) => ∀ lock, .locks key lock ∉ t
  | .file (.db (.insertObject sha256 key _ _)) => ∀ row ∈ s.server.dedupe.objects.rows,
      row.sha256 = sha256 ∨ row.storageKey = key → .locks row.storageKey.val .dying ∉ t
  | .file (.db (.bumpObject sha256)) => ∀ row ∈ s.server.dedupe.objects.rows,
      row.sha256 = sha256 → ∀ lock, .locks row.storageKey.val lock ∉ t
  | _ => True

/-- **The condition**: a collection does not delete a temporary file, an avatar that has been put and not yet
recorded, or one that is recorded; it does not delete a row that an upload has found and not yet counted; and
no upload deletes an avatar that another one has put and not yet recorded. -/
def Spares (s : AvatarWorld) (t : Holdings) : Action → Prop
  | .collect (.delete key) => .temp key ∉ t ∧ .put key ∉ t ∧ ∀ id, s.avatarKey id ≠ some key
  | .collect (.commit key true) => ∀ row ∈ s.server.dedupe.objects.rows,
      row.storageKey.val = key → .found row.sha256 ∉ t
  | .avatar (.delete key) => .put key ∉ t
  | _ => True

end Gc
end Uwuubox
