import Uwuubox.Dedupe.Requests

/-!
# Which programs delete a row of a file

* `DeletesNoFile` — the programs that delete no row of `files`, uploads among them, with one rule for each way to
  build one.
* `removeFile_deletes` — a removal deletes the row of its core, and no other.
* `exec_files_kept` — a row that is not deleted stays.
-/

namespace Uwuubox
namespace Dedupe

open Storage Table

/-- `DELETE FROM files`. -/
def DbOp.isDeleteFile : DbOp → Bool
  | deleteFile _ => true
  | _ => false

/-- A program that deletes no row of `files`. -/
def DeletesNoFile {α : Type} (p : Handler α) : Prop :=
  p.Obeys (.flat (fun op => op.isDeleteFile = false) fun _ _ => True) (fun _ _ => True) ()

namespace DeletesNoFile

variable {α β : Type}

theorem pure {a : α} : DeletesNoFile (pure a : Handler α) := trivial

theorem bind {p : Handler α} {f : α → Handler β} (hp : DeletesNoFile p)
    (hf : ∀ a, DeletesNoFile (f a)) : DeletesNoFile (p >>= f) := by
  unfold DeletesNoFile at hp ⊢
  rw [Prog.obeys_bind]
  exact hp.mono fun a _ _ => hf a

theorem perform {op : DbOp} (h : op.isDeleteFile = false) : DeletesNoFile (Prog.perform op) :=
  ⟨h, fun _ _ _ => trivial⟩

theorem of_objects {p : Handler α} (h : ObjectsOnly p) : DeletesNoFile p :=
  h.weaken fun op hop => by cases op <;> first | rfl | cases hop

theorem claimCore (draws : List Core) : DeletesNoFile (claimCore draws) := by
  induction draws with
  | nil => exact .pure
  | cons candidate rest ih =>
    refine .bind (.perform rfl) fun r => ?_
    match r with
    | .error e => exact .pure
    | .ok true => exact .pure
    | .ok false => exact ih

theorem publish (sha256 : Bytes → Digest) (u : Upload) (core : Core) (key : SafeKey) :
    DeletesNoFile (publish sha256 u core key) := by
  refine .bind (.of_objects (.uploadThumbnail sha256 u core)) fun thumbKey => .bind (.perform rfl) fun r => ?_
  match r with
  | .ok () => exact .pure
  | .error e =>
    refine .bind (.of_objects (.rollbackObject key)) fun _ => ?_
    cases thumbKey with
    | none => exact .pure
    | some thumbKey => exact .bind (.of_objects (.rollbackObject thumbKey)) fun _ => .pure

theorem uploadInner (sha256 : Bytes → Digest) (u : Upload) : DeletesNoFile (uploadInner sha256 u) := by
  refine .bind (claimCore _) fun result => ?_
  match result with
  | .error e => exact .pure
  | .ok none => exact .pure
  | .ok (some core) =>
    refine .bind (.of_objects (.acquireObject _ _ _ _)) fun acquired => ?_
    match acquired with
    | .error e => exact .pure
    | .ok (key, false) => exact publish sha256 u core key
    | .ok (key, true) =>
      refine .bind (.perform rfl) fun r => ?_
      match r with
      | .error e => exact .bind (.of_objects (.rollbackObject key)) fun _ => .pure
      | .ok () => exact publish sha256 u core key

end DeletesNoFile

/-- A removal deletes the row of its core, and then only gives back references. -/
theorem removeFile_deletes (core : Core) : (removeFile core).Obeys
    (.flat (fun op => op = .deleteFile core ∨ op.isDeleteFile = false) fun _ _ => True) (fun _ _ => True) () := by
  have hrest : ∀ {α : Type} {p : Handler α}, DeletesNoFile p →
      p.Obeys (.flat (fun op => op = .deleteFile core ∨ op.isDeleteFile = false) fun _ _ => True)
        (fun _ _ => True) () := fun hp => hp.weaken fun _ hop => .inr hop
  refine (Prog.obeys_bind _ _ _).2 ⟨.inl rfl, fun r _ _ => hrest ?_⟩
  have hrelease : ∀ key, DeletesNoFile (releaseAndDelete key) := fun key =>
    .of_objects (.of_isRelease (releaseAndDelete_isRelease key))
  match r with
  | .error e => exact .pure
  | .ok none => exact .pure
  | .ok (some (storageKey, thumbKey)) =>
    refine .bind (hrelease storageKey) fun result => ?_
    match result with
    | .error e => exact .pure
    | .ok () =>
      cases thumbKey with
      | none => exact .pure
      | some thumbKey =>
        refine .bind (hrelease thumbKey) fun result => ?_
        match result with
        | .error e => exact .pure
        | .ok () => exact .pure

/-- A row stays unless it is deleted. -/
theorem exec_files_kept {faults : Prop} {w w' : World} {op : DbOp} {r : op.Res} (h : exec faults w op r w')
    {row : FileRow} (hop : op ≠ .deleteFile row.idCore) (hrow : row ∈ w.files.rows) : row ∈ w'.files.rows := by
  by_cases hrelease : op.isRelease = true
  · rwa [(exec_isRelease h hrelease).1]
  · cases op with
    | claimCore core => rcases exec_claimCore h with ⟨-, -, rfl⟩ | ⟨-, rfl⟩ <;> exact hrow
    | insertObject sha key size mime =>
      rcases exec_insertObject h with ⟨_, _, -, rfl⟩ | ⟨-, rfl⟩ | ⟨_, -, rfl⟩ <;> exact hrow
    | bumpObject sha => rcases exec_bumpObject h with ⟨_, -, -, -, rfl⟩ | ⟨_, -, rfl⟩ <;> exact hrow
    | put key bytes => rwa [(exec_put h).1.files]
    | insertFile new =>
      rcases exec_insertFile h with ⟨_, -, rfl⟩ | ⟨_, -, rfl⟩
      · exact List.mem_cons_of_mem _ hrow
      · exact hrow
    | deleteFile core =>
      rcases exec_deleteFile h with ⟨_, -, -, -, rfl⟩ | ⟨-, rfl⟩
      · have hother : row.idCore ≠ core := fun heq => hop (congrArg DbOp.deleteFile heq.symm)
        exact mem_deleteWhere.2 ⟨hrow, decide_eq_false hother⟩
      · exact hrow
    | dropObject | deleteObject | delete => exact absurd rfl hrelease

end Dedupe
end Uwuubox
