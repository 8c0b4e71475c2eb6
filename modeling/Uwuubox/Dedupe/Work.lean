import Uwuubox.Dedupe.Requests

/-!
# Work on files, on either backend

What works on stored files besides reading them: uploads, thumbnail backfills and removals.  On the
local backend bytes are written to a temporary file beside their place and renamed, so a request
can end in between.

* `FileOp` — the operations; `answerFile`, `execFile faults` — what each of them can do, with an
  inversion lemma for those that are new.
* `localPut` — `LocalStore::put`, `LocalStore::stream_write`; `onBackend` — a handler on a backend.
* `ensureThumbnail` — a backfill.
* `Work` — the requests, with their programs.
-/

namespace Uwuubox
namespace Dedupe

open Storage Table

/-! ## Temporary files -/

/-- The directory of a key, with its slash. -/
def directory (key : SafeKey) : ObjKey := key.val.rdropWhile (· ≠ '/')

/-- The directory of a path ends at its last slash. -/
theorem directory_append {pre rest : ObjKey} {key : SafeKey} (hkey : key.val = pre ++ '/' :: rest)
    (hrest : '/' ∉ rest) : directory key = pre ++ ['/'] := by
  unfold directory
  rw [hkey, List.rdropWhile, List.reverse_append, List.reverse_cons, List.append_assoc,
    List.dropWhile_append_of_pos]
  · simp
  · intro c hc
    have hmem : c ≠ '/' := fun h => hrest (h ▸ List.mem_reverse.1 hc)
    simpa using hmem

/-- `Uuid::as_simple`. -/
abbrev Simple := {cs : List Char // cs.length = 32 ∧ ∀ c ∈ cs, c ∈ "0123456789abcdef".toList}

/-- `.tmp-{uuid}`, beside the key. -/
def TempName (key tmp : SafeKey) : Prop :=
  ∃ id : Simple, tmp.val = directory key ++ ['.', 't', 'm', 'p', '-'] ++ id.val

/-! ## Operations -/

/-- One step of a request that works on files. -/
inductive FileOp where
  /-- A statement, or an operation of the store that is one step on the backend. -/
  | db (op : DbOp)
  /-- A temporary file is created beside `key`, and `bytes` are written to it. -/
  | create (key : SafeKey) (bytes : Bytes)
  /-- `tokio::fs::rename` -/
  | rename (tmp key : SafeKey)
  /-- `UPDATE files SET thumb_key = $1 WHERE id_core = $2 AND thumb_key IS NULL` -/
  | linkThumb (core : Core) (key : SafeKey)
  /-- `find_file` -/
  | findFile (core : Core)

/-- What an operation returns; a temporary file is known even if it could not be written. -/
abbrev FileOp.Res : FileOp → Type
  | db op => op.Res
  | create _ _ => SafeKey × Except Failure Unit
  | rename _ _ => Except Failure Unit
  | linkThumb _ _ => Except Failure ℕ
  | findFile _ => Except Failure (Option FileRow)

/-- What an operation returns and does when nothing fails; a temporary file gets the name `tmp`. -/
def answerFile (tmp : SafeKey) (w : World) : (op : FileOp) → op.Res × World
  | .db op => answer w op
  | .create _ bytes => ((tmp, .ok ()), { w with store := Function.update w.store tmp (some bytes) })
  | .rename tmp key =>
    match w.store tmp with
    | some bytes =>
      (.ok (), { w with store := Function.update (Function.update w.store tmp none) key (some bytes) })
    | none => (.error (.storage (.backend "No such file or directory (os error 2)")), w)
  | .linkThumb core key =>
    (.ok (w.files.rows.countP fun row => row.idCore = core && row.thumbKey.isNone),
      { w with files := w.files.linkThumb core key })
  | .findFile core => (.ok (w.files.rows.find? fun row => row.idCore = core), w)

/-- The name of a temporary file is a new one. -/
def FileOp.Draws (w : World) (tmp : SafeKey) : FileOp → Prop
  | create key _ => TempName key tmp ∧ w.store tmp = none
  | _ => True

/-- An operation that fails. -/
def FailsFile (tmp : SafeKey) (w : World) : (op : FileOp) → op.Res → World → Prop
  | .db op, r, w' => Fails w op r w'
  | .create _ _, r, w' => r.1 = tmp ∧ (∃ e, r.2 = .error e) ∧ SameBut tmp w w'
  | .rename _ _, r, w' => (∃ e, r = .error e) ∧ w' = w
  | .linkThumb _ _, r, w' => (∃ e, r = .error e) ∧ w' = w
  | .findFile _, r, w' => (∃ e, r = .error e) ∧ w' = w

/-- What one operation can do. -/
def execFile (faults : Prop) (w : World) (op : FileOp) (r : op.Res) (w' : World) : Prop :=
  ∃ tmp, op.Draws w tmp ∧ ((r, w') = answerFile tmp w op ∨ faults ∧ FailsFile tmp w op r w')

section

variable {faults : Prop} {w w' : World} {core : Core} {key tmp : SafeKey}

theorem execFile_db {op : DbOp} {r : op.Res} : execFile faults w (.db op) r w' ↔ exec faults w op r w' :=
  ⟨fun ⟨_, _, h⟩ => h, fun h => ⟨⟨['x'], by decide⟩, trivial, h⟩⟩

theorem execFile_create {bytes : Bytes} {r : (FileOp.create key bytes).Res}
    (h : execFile faults w (.create key bytes) r w') :
    TempName key r.1 ∧ w.store r.1 = none ∧ SameBut r.1 w w' ∧
      ((r.2 = .ok () ∧ w'.store r.1 = some bytes) ∨ (faults ∧ ∃ e, r.2 = .error e)) := by
  obtain ⟨tmp, ⟨hname, hnew⟩, h | ⟨hf, rfl, herror, hsame⟩⟩ := h
  · cases h
    refine ⟨hname, hnew, ⟨rfl, rfl, rfl, fun _ hne => Function.update_of_ne hne _ _⟩, .inl ⟨rfl, ?_⟩⟩
    exact Function.update_self _ _ _
  · exact ⟨hname, hnew, hsame, .inr ⟨hf, herror⟩⟩

theorem execFile_rename {r : (FileOp.rename tmp key).Res} (h : execFile faults w (.rename tmp key) r w') :
    (∃ bytes, w.store tmp = some bytes ∧ r = .ok () ∧
      w' = { w with store := Function.update (Function.update w.store tmp none) key (some bytes) }) ∨
    ((∃ e, r = .error e) ∧ (faults ∨ w.store tmp = none) ∧ w' = w) := by
  obtain ⟨_, -, h | ⟨hf, herror, rfl⟩⟩ := h
  · simp only [answerFile] at h
    split at h
    · rename_i bytes hbytes
      cases h
      exact .inl ⟨bytes, hbytes, rfl, rfl⟩
    · rename_i hnone
      cases h
      exact .inr ⟨⟨_, rfl⟩, .inr hnone, rfl⟩
  · exact .inr ⟨herror, .inl hf, rfl⟩

/-- No row is changed where none is selected. -/
theorem FileTable.linkThumb_eq {t : FileTable}
    (h : ∀ row ∈ t.rows, ¬ (decide (row.idCore = core) && row.thumbKey.isNone) = true) :
    t.linkThumb core key = t := by
  obtain ⟨rows, hunique⟩ := t
  simp only [FileTable.linkThumb, FileTable.mk.injEq]
  unfold updateWhere
  exact (List.map_congr_left fun row hrow => if_neg (h row hrow)).trans (List.map_id' _)

theorem execFile_linkThumb {r : (FileOp.linkThumb core key).Res}
    (h : execFile faults w (.linkThumb core key) r w') :
    (∃ row ∈ w.files.rows, row.idCore = core ∧ row.thumbKey = none ∧ r = .ok 1 ∧
      w' = { w with files := w.files.linkThumb core key }) ∨ ((∀ n, r ≠ .ok (n + 1)) ∧ w' = w) := by
  obtain ⟨_, -, h | ⟨-, ⟨e, rfl⟩, rfl⟩⟩ := h
  · cases h
    cases hfind : w.files.rows.find? fun row => row.idCore = core && row.thumbKey.isNone with
    | none =>
      have hnone := List.find?_eq_none.1 hfind
      refine .inr ⟨fun n h => ?_, by rw [FileTable.linkThumb_eq hnone]⟩
      rw [List.countP_eq_zero.2 hnone] at h
      cases h
    | some row =>
      have hrow := List.mem_of_find?_eq_some hfind
      have hp := List.find?_some hfind
      rw [Bool.and_eq_true, decide_eq_true_eq, Option.isNone_iff_eq_none] at hp
      refine .inl ⟨row, hrow, hp.1, hp.2, ?_, rfl⟩
      have hperm := w.files.uniqueCore.perm_deleteWhere hrow hp.1
      have hrest : (deleteWhere (fun s : FileRow => s.idCore = core) w.files.rows).countP
          (fun row => row.idCore = core && row.thumbKey.isNone) = 0 := by
        rw [List.countP_eq_zero]
        intro s hs
        simp [of_decide_eq_false (mem_deleteWhere.1 hs).2]
      rw [hperm.countP_eq, List.countP_cons, hrest]
      simp [hp.1, hp.2]
  · exact .inr ⟨fun n => by simp, rfl⟩

theorem execFile_findFile {r : (FileOp.findFile core).Res} (h : execFile faults w (.findFile core) r w') :
    w' = w := by
  obtain ⟨_, -, h | ⟨-, -, h⟩⟩ := h
  · cases h
    rfl
  · exact h

end

/-! ## Handlers on a backend -/

/-- A program of such steps. -/
abbrev FileHandler (α : Type) := Prog FileOp FileOp.Res α

/-- `LocalStore::put`; `LocalStore::stream_write` does the same. -/
def localPut (key : SafeKey) (bytes : Bytes) : FileHandler (Except Failure Unit) := do
  let created ← Prog.perform (FileOp.create key bytes)
  match created.2 with
  | .error e => pure (.error e)
  | .ok () => Prog.perform (FileOp.rename created.1 key)

/-- How an operation is carried out on a backend. -/
def carryOut (backend : Backend) : (op : DbOp) → FileHandler op.Res
  | .put key bytes =>
    match backend with
    | .localFs => localPut key bytes
    | .s3 => Prog.perform (FileOp.db (.put key bytes))
  | op => Prog.perform (FileOp.db op)

/-- A handler on a backend. -/
def onBackend {α : Type} (backend : Backend) (p : Handler α) : FileHandler α :=
  p.interp (carryOut backend)

/-- `ensure_thumbnail`; `frame` is what `generate_video_thumb` gives for the stored bytes, if they
can be read. -/
def ensureThumbnail (backend : Backend) (sha256 : Bytes → Digest) (file : FileRow)
    (burnAfterRead hasPassword : Bool) (frame : Option Content) : FileHandler (Option SafeKey) :=
  match file.thumbKey with
  | some key => pure (some key)
  | none =>
    if !thumbnailedMime file.mimeStored || burnAfterRead || hasPassword then pure none
    else match frame with
    | none => pure none
    | some jpeg => do
      match ← onBackend backend (storeThumbnail sha256 file.idCore jpeg) with
      | none => pure none
      | some key =>
        match ← Prog.perform (FileOp.linkThumb file.idCore key) with
        | .error _ => pure none
        | .ok linked =>
          if linked = 0 then do
            -- another backfill was first, or the file is gone
            onBackend backend (rollbackThumbnail key)
            match ← Prog.perform (FileOp.findFile file.idCore) with
            | .ok row => pure (row.bind FileRow.thumbKey)
            | .error _ => pure none
          else pure (some key)

/-- What can be asked for. -/
inductive Work where
  | upload (u : Upload)
  /-- The preview of a file that has no thumbnail. -/
  | backfill (core : Core) (burnAfterRead hasPassword : Bool) (frame : Option Content)
  | remove (core : Core)

/-- The programs. -/
def Work.code (backend : Backend) (sha256 : Bytes → Digest) : Work → FileHandler Unit
  | upload u => do
    let _ ← onBackend backend (uploadInner sha256 u)
    pure ()
  | backfill core burnAfterRead hasPassword frame => do
    match ← Prog.perform (FileOp.findFile core) with
    | .ok (some file) => do
      let _ ← ensureThumbnail backend sha256 file burnAfterRead hasPassword frame
      pure ()
    | _ => pure ()
  | remove core => do
    let _ ← onBackend backend (removeFile core)
    pure ()

/-- One part after another. -/
theorem onBackend_bind {α β : Type} (backend : Backend) (p : Handler α) (f : α → Handler β) :
    onBackend backend (p >>= f) = onBackend backend p >>= fun a => onBackend backend (f a) := by
  unfold onBackend
  induction p with
  | ret a => rfl
  | call op k ih =>
    rw [Prog.call_bind, Prog.interp_call, Prog.interp_call, Prog.bind_assoc]
    congr 1
    funext r
    exact ih r

end Dedupe
end Uwuubox
