import Uwuubox.Dedupe.Database
import Uwuubox.Prog.Protocol

/-!
# Uploads and removals

The handlers that share the `objects` table, as programs over its statements:
`acquire_object` and `release_object` of `src/db.rs`, `store_thumbnail` and `remove_file` of
`src/routes/files.rs`, and `upload_inner` of `src/routes/upload.rs` from the point on where
the file has been spooled and hashed.

* `acquireObject`, `releaseObject` — the two halves of the reference count, two statements
  each.
* `rollbackObject` — undo an acquisition.
* `uploadInner` — claim a core, acquire, store, insert the row.
* `removeFile` — delete the row, then release what it referred to.
* `DbOp.isRelease` — the operations of a release, which leave the rows of `files` alone.
* `ObjectsOnly` — the programs that work on objects and their bytes only.
* `InsertsNoFile` — the programs that insert no row of `files`.
-/

namespace Uwuubox
namespace Dedupe

open Storage Table

/-- A handler: a program of statements. -/
abbrev Handler (α : Type) := Prog DbOp DbOp.Res α

/-- The errors a handler answers with. -/
inductive AppError where
  | notFound
  | internal (msg : String)
deriving DecidableEq

/-- `AppError::internal`: the message is logged, not shown. -/
def AppError.somethingWentWrong : AppError := .internal "something went wrong"

/-- `AppError::from`. -/
def AppError.from : Failure → AppError
  | .storage (.notFound _) => .notFound
  | .storage (.backend _) => .somethingWentWrong
  | .sql _ => .somethingWentWrong

/-! ## Reference counting -/

/-- Dedupe bookkeeping: the key of the object with this digest, and whether it is new, so
that the caller must store the bytes. -/
def acquireObject (sha256 : Digest) (candidateKey : SafeKey) (sizeBytes : ℕ) (mimeStored : Text) :
    Handler (Except Failure (SafeKey × Bool)) := do
  match ← Prog.perform (DbOp.insertObject sha256 candidateKey sizeBytes mimeStored) with
  | .error e => pure (.error e)
  | .ok (some key) => pure (.ok (key, true))
  | .ok none =>
    match ← Prog.perform (DbOp.bumpObject sha256) with
    | .error e => pure (.error e)
    | .ok key => pure (.ok (key, false))

/-- Drop one reference; true when the caller must now delete the bytes. -/
def releaseObject (key : SafeKey) : Handler (Except Failure Bool) := do
  match ← Prog.perform (DbOp.dropObject key) with
  | .error e => pure (.error e)
  | .ok none => pure (.ok false)
  | .ok (some n) =>
    if n ≤ 0 then do
      match ← Prog.perform (DbOp.deleteObject key) with
      | .error e => pure (.error e)
      | .ok () => pure (.ok true)
    else pure (.ok false)

/-- `rollback_object`: errors are only logged. -/
def rollbackObject (key : SafeKey) : Handler Unit := do
  match ← releaseObject key with
  | .ok true => do
    let _ ← Prog.perform (DbOp.delete key)
    pure ()
  | .ok false => pure ()
  | .error _ => pure ()

/-- `rollback_thumbnail`, which does the same. -/
def rollbackThumbnail (key : SafeKey) : Handler Unit := rollbackObject key

/-! ## Uploads -/

/-- `thumbnailed_mime`: the video types that are embedded. -/
def thumbnailedMime (mime : Text) : Bool :=
  mime = ['v', 'i', 'd', 'e', 'o', '/', 'm', 'p', '4'] ||
  mime = ['v', 'i', 'd', 'e', 'o', '/', 'w', 'e', 'b', 'm'] ||
  mime = ['v', 'i', 'd', 'e', 'o', '/', 'q', 'u', 'i', 'c', 'k', 't', 'i', 'm', 'e']

/-- `image/jpeg`. -/
def imageJpeg : Text := ['i', 'm', 'a', 'g', 'e', '/', 'j', 'p', 'e', 'g']

/-- What an upload request comes to when its file has been spooled: its content, what is
known of it, and what the environment contributes. -/
structure Upload where
  content : Content
  /-- Of the sanitized file name. -/
  ext : Ext
  sniffed : Text
  burnAfterRead : Bool
  hasPassword : Bool
  /-- What the five calls of `generate_core` draw. -/
  draws : Fin 5 → Core
  /-- What `generate_video_thumb` gives, if it succeeds. -/
  frame : Option Content

/-- The contents an upload may store. -/
def Upload.contents (u : Upload) : List Bytes :=
  u.content.bytes :: (u.frame.map Content.bytes).toList

/-- The loop that claims a core: the first draw that nobody has claimed. -/
def claimCore : List Core → Handler (Except Failure (Option Core))
  | [] => pure (.ok none)
  | candidate :: rest => do
    match ← Prog.perform (DbOp.claimCore candidate) with
    | .error e => pure (.error e)
    | .ok true => pure (.ok (some candidate))
    | .ok false => claimCore rest

/-- `store_thumbnail`: best effort, `none` when it does not work out. -/
def storeThumbnail (sha256 : Bytes → Digest) (core : Core) (jpeg : Content) :
    Handler (Option SafeKey) := do
  match ← acquireObject (sha256 jpeg.bytes) (thumbKey core) jpeg.bytes.length imageJpeg with
  | .error _ => pure none
  | .ok (key, isNew) =>
    if isNew then do
      match ← Prog.perform (DbOp.put key jpeg.bytes) with
      | .error _ => do
        rollbackThumbnail key
        pure none
      | .ok () => pure (some key)
    else pure (some key)

/-- The thumbnail of an upload: videos only, and none of a file that burns or has a
password. -/
def uploadThumbnail (sha256 : Bytes → Digest) (u : Upload) (core : Core) :
    Handler (Option SafeKey) :=
  if thumbnailedMime u.sniffed && !u.burnAfterRead && !u.hasPassword then
    match u.frame with
    | some jpeg => storeThumbnail sha256 core jpeg
    | none => pure none
  else pure none

/-- The row of an upload. -/
def uploadRow (sha256 : Bytes → Digest) (u : Upload) (core : Core) (storageKey : SafeKey)
    (thumbKey : Option SafeKey) : FileRow where
  idCore := core
  ext := u.ext
  sizeBytes := u.content.bytes.length
  mimeStored := u.sniffed
  sha256 := sha256 u.content.bytes
  storageKey := storageKey
  thumbKey := thumbKey

/-- The end of an upload whose bytes have been stored. -/
def publish (sha256 : Bytes → Digest) (u : Upload) (core : Core) (storageKey : SafeKey) :
    Handler (Except AppError Core) := do
  let thumbKey ← uploadThumbnail sha256 u core
  match ← Prog.perform (DbOp.insertFile (uploadRow sha256 u core storageKey thumbKey)) with
  | .ok () => pure (.ok core)
  | .error e => do
    rollbackObject storageKey
    match thumbKey with
    | some thumbKey => do
      rollbackObject thumbKey
      pure (.error (AppError.from e))
    | none => pure (.error (AppError.from e))

/-- `upload_inner`, with the core its response names. -/
def uploadInner (sha256 : Bytes → Digest) (u : Upload) : Handler (Except AppError Core) := do
  match ← claimCore (List.ofFn u.draws) with
  | .error e => pure (.error (AppError.from e))
  | .ok none => pure (.error .somethingWentWrong)
  | .ok (some core) =>
    match ← acquireObject (sha256 u.content.bytes) (fileKey core u.ext) u.content.bytes.length
      u.sniffed with
    | .error e => pure (.error (AppError.from e))
    | .ok (storageKey, isNew) =>
      if isNew then do
        match ← Prog.perform (DbOp.put storageKey u.content.bytes) with
        | .error e => do
          rollbackObject storageKey
          pure (.error (AppError.from e))
        | .ok () => publish sha256 u core storageKey
      else publish sha256 u core storageKey

/-! ## Removals -/

/-- Release the object at `key`, and delete its bytes if that was the last reference. -/
def releaseAndDelete (key : SafeKey) : Handler (Except AppError Unit) := do
  match ← releaseObject key with
  | .error e => pure (.error (AppError.from e))
  | .ok false => pure (.ok ())
  | .ok true =>
    match ← Prog.perform (DbOp.delete key) with
    | .error e => pure (.error (AppError.from e))
    | .ok () => pure (.ok ())

/-- `remove_file`; false when another request has removed the row. -/
def removeFile (idCore : Core) : Handler (Except AppError Bool) := do
  match ← Prog.perform (DbOp.deleteFile idCore) with
  | .error e => pure (.error (AppError.from e))
  | .ok none => pure (.ok false)
  | .ok (some (storageKey, thumbKey)) =>
    match ← releaseAndDelete storageKey with
    | .error e => pure (.error e)
    | .ok () =>
      match thumbKey with
      | none => pure (.ok true)
      | some thumbKey =>
        match ← releaseAndDelete thumbKey with
        | .error e => pure (.error e)
        | .ok () => pure (.ok true)

/-! ## What a release executes -/

/-- The operations that give back a reference. -/
def DbOp.isRelease : DbOp → Bool
  | dropObject _ | deleteObject _ | delete _ => true
  | _ => false

theorem releaseObject_isRelease (key : SafeKey) :
    (releaseObject key).Obeys (.flat (fun op => op.isRelease = true) fun _ _ => True)
      (fun _ _ => True) () := by
  refine ⟨rfl, fun r _ _ => ?_⟩
  match r with
  | .error e => exact trivial
  | .ok none => exact trivial
  | .ok (some n) =>
    simp only [Prog.bind]
    split
    · refine ⟨rfl, fun r _ _ => ?_⟩
      match r with
      | .error e => exact trivial
      | .ok () => exact trivial
    · exact trivial

theorem releaseAndDelete_isRelease (key : SafeKey) :
    (releaseAndDelete key).Obeys (.flat (fun op => op.isRelease = true) fun _ _ => True)
      (fun _ _ => True) () := by
  refine (Prog.obeys_bind _ _ _).2 ((releaseObject_isRelease key).mono ?_)
  rintro result _ -
  match result with
  | .error e => exact trivial
  | .ok false => exact trivial
  | .ok true =>
    refine ⟨rfl, fun r _ _ => ?_⟩
    match r with
    | .error e => exact trivial
    | .ok () => exact trivial

theorem exec_isRelease {faults : Prop} {w w' : World} {op : DbOp} {r : op.Res}
    (h : exec faults w op r w') (hop : op.isRelease = true) :
    w'.files = w.files ∧ w'.usedIdCores = w.usedIdCores := by
  cases op with
  | dropObject key =>
    rcases exec_dropObject h with ⟨row, -, -, -, -, rfl⟩ | ⟨-, rfl⟩
    · exact ⟨rfl, rfl⟩
    · exact ⟨rfl, rfl⟩
  | deleteObject key =>
    rcases exec_deleteObject h with ⟨-, rfl⟩ | ⟨e, -, rfl⟩
    · exact ⟨rfl, rfl⟩
    · exact ⟨rfl, rfl⟩
  | delete key => exact ⟨(exec_delete h).files, (exec_delete h).usedIdCores⟩
  | _ => cases hop

/-! ## The other operations -/

/-- `INSERT INTO files`. -/
def DbOp.isInsertFile : DbOp → Bool
  | insertFile _ => true
  | _ => false

/-- The rows of files that are there after an operation other than the insertion were there
before. -/
theorem exec_files {faults : Prop} {w w' : World} {op : DbOp} {r : op.Res}
    (h : exec faults w op r w') (hop : op.isInsertFile = false) {row : FileRow}
    (hrow : row ∈ w'.files.rows) : row ∈ w.files.rows := by
  by_cases hrelease : op.isRelease = true
  · rwa [(exec_isRelease h hrelease).1] at hrow
  · cases op with
    | claimCore core => rcases exec_claimCore h with ⟨-, -, rfl⟩ | ⟨-, rfl⟩ <;> exact hrow
    | insertObject sha key size mime =>
      rcases exec_insertObject h with ⟨_, _, -, rfl⟩ | ⟨-, rfl⟩ | ⟨_, -, rfl⟩ <;> exact hrow
    | bumpObject sha => rcases exec_bumpObject h with ⟨_, -, -, -, rfl⟩ | ⟨_, -, rfl⟩ <;> exact hrow
    | put key bytes => rwa [(exec_put h).1.files] at hrow
    | deleteFile core =>
      rcases exec_deleteFile h with ⟨_, -, -, -, rfl⟩ | ⟨-, rfl⟩
      · exact (mem_deleteWhere.1 hrow).1
      · exact hrow
    | insertFile row => cases hop
    | dropObject | deleteObject | delete => exact absurd rfl hrelease

/-- Nothing but a claim changes the claimed cores. -/
theorem exec_usedIdCores {faults : Prop} {w w' : World} {op : DbOp} {r : op.Res}
    (h : exec faults w op r w') (hop : ∀ core, op ≠ .claimCore core) :
    w'.usedIdCores = w.usedIdCores := by
  by_cases hrelease : op.isRelease = true
  · exact (exec_isRelease h hrelease).2
  · cases op with
    | claimCore core => exact absurd rfl (hop core)
    | insertObject sha key size mime =>
      rcases exec_insertObject h with ⟨_, _, -, rfl⟩ | ⟨-, rfl⟩ | ⟨_, -, rfl⟩ <;> rfl
    | bumpObject sha => rcases exec_bumpObject h with ⟨_, -, -, -, rfl⟩ | ⟨_, -, rfl⟩ <;> rfl
    | put key bytes => exact (exec_put h).1.usedIdCores
    | insertFile row => rcases exec_insertFile h with ⟨_, -, rfl⟩ | ⟨_, -, rfl⟩ <;> rfl
    | deleteFile core => rcases exec_deleteFile h with ⟨_, -, -, -, rfl⟩ | ⟨-, rfl⟩ <;> rfl
    | dropObject | deleteObject | delete => exact absurd rfl hrelease

/-! ## What works on objects only -/

/-- The operations on objects and their bytes. -/
def DbOp.isObjectOp : DbOp → Bool
  | claimCore _ | insertFile _ | deleteFile _ => false
  | _ => true

/-- A program that works on objects and their bytes only. -/
def ObjectsOnly {α : Type} (p : Handler α) : Prop :=
  p.Obeys (.flat (fun op => op.isObjectOp = true) fun _ _ => True) (fun _ _ => True) ()

namespace ObjectsOnly

variable {α β : Type}

theorem pure {a : α} : ObjectsOnly (pure a : Handler α) := trivial

theorem bind {p : Handler α} {f : α → Handler β} (hp : ObjectsOnly p) (hf : ∀ a, ObjectsOnly (f a)) :
    ObjectsOnly (p >>= f) := by
  unfold ObjectsOnly at hp ⊢
  rw [Prog.obeys_bind]
  exact hp.mono fun a _ _ => hf a

theorem perform {op : DbOp} (h : op.isObjectOp = true) : ObjectsOnly (Prog.perform op) :=
  ⟨h, fun _ _ _ => trivial⟩

theorem of_isRelease {p : Handler α}
    (h : p.Obeys (.flat (fun op => op.isRelease = true) fun _ _ => True) (fun _ _ => True) ()) :
    ObjectsOnly p :=
  h.weaken fun op hop => by cases op <;> first | rfl | cases hop

theorem rollbackObject (key : SafeKey) : ObjectsOnly (rollbackObject key) := by
  refine .bind (.of_isRelease (releaseObject_isRelease key)) fun result => ?_
  match result with
  | .ok true => exact .bind (.perform rfl) fun _ => .pure
  | .ok false => exact .pure
  | .error _ => exact .pure

theorem acquireObject (sha256 : Digest) (key : SafeKey) (size : ℕ) (mime : Text) :
    ObjectsOnly (acquireObject sha256 key size mime) := by
  refine .bind (.perform rfl) fun r => ?_
  match r with
  | .error e => exact .pure
  | .ok (some key) => exact .pure
  | .ok none =>
    refine .bind (.perform rfl) fun r => ?_
    match r with
    | .error e => exact .pure
    | .ok key => exact .pure

theorem storeThumbnail (sha256 : Bytes → Digest) (core : Core) (jpeg : Content) :
    ObjectsOnly (storeThumbnail sha256 core jpeg) := by
  refine .bind (acquireObject _ _ _ _) fun result => ?_
  match result with
  | .error _ => exact .pure
  | .ok (key, false) => exact .pure
  | .ok (key, true) =>
    refine .bind (.perform rfl) fun r => ?_
    match r with
    | .error _ => exact .bind (rollbackObject key) fun _ => .pure
    | .ok () => exact .pure

theorem uploadThumbnail (sha256 : Bytes → Digest) (u : Upload) (core : Core) :
    ObjectsOnly (uploadThumbnail sha256 u core) := by
  unfold Dedupe.uploadThumbnail
  split
  · split
    · exact storeThumbnail _ _ _
    · exact .pure
  · exact .pure

end ObjectsOnly

/-! ## What inserts no row -/

/-- A program that inserts no row of `files`. -/
def InsertsNoFile {α : Type} (p : Handler α) : Prop :=
  p.Obeys (.flat (fun op => op.isInsertFile = false) fun _ _ => True) (fun _ _ => True) ()

namespace InsertsNoFile

variable {α β : Type}

theorem pure {a : α} : InsertsNoFile (pure a : Handler α) := trivial

theorem bind {p : Handler α} {f : α → Handler β} (hp : InsertsNoFile p)
    (hf : ∀ a, InsertsNoFile (f a)) : InsertsNoFile (p >>= f) := by
  unfold InsertsNoFile at hp ⊢
  rw [Prog.obeys_bind]
  exact hp.mono fun a _ _ => hf a

theorem perform {op : DbOp} (h : op.isInsertFile = false) : InsertsNoFile (Prog.perform op) :=
  ⟨h, fun _ _ _ => trivial⟩

theorem of_objects {p : Handler α} (h : ObjectsOnly p) : InsertsNoFile p :=
  h.weaken fun op hop => by cases op <;> first | rfl | cases hop

theorem claimCore (draws : List Core) : InsertsNoFile (claimCore draws) := by
  induction draws with
  | nil => exact .pure
  | cons candidate rest ih =>
    refine .bind (.perform rfl) fun r => ?_
    match r with
    | .error e => exact .pure
    | .ok true => exact .pure
    | .ok false => exact ih

theorem removeFile (core : Core) : InsertsNoFile (removeFile core) := by
  refine .bind (.perform rfl) fun r => ?_
  match r with
  | .error e => exact .pure
  | .ok none => exact .pure
  | .ok (some (storageKey, thumbKey)) =>
    refine .bind (.of_objects (.of_isRelease (releaseAndDelete_isRelease storageKey))) fun result => ?_
    match result with
    | .error e => exact .pure
    | .ok () =>
      cases thumbKey with
      | none => exact .pure
      | some thumbKey =>
        refine .bind (.of_objects (.of_isRelease (releaseAndDelete_isRelease thumbKey))) fun result => ?_
        match result with
        | .error e => exact .pure
        | .ok () => exact .pure

end InsertsNoFile

end Dedupe
end Uwuubox
