import Uwuubox.Storage.Write
import Uwuubox.Prog.Faults

/-!
# Errors that come one write later

`LocalStore::stream_write` writes through a tokio `File`.  Such a file copies what it is given into a
buffer, lets another thread write the buffer, and reports an error of that thread when it is written to
again; when it is dropped, the error is lost.

* `Fate` — how an underlying write ends.
* `TokioFile`, `writeBuffers` — the file, with the error that nobody has seen.
* `LocalDisk.respond` — what such a disk answers to `LocalStore.streamWrite`.
* `LosesLast` — the last write does not put everything into the file, and all else goes well.
* `stream_write_complete_iff` — **what is published is complete** exactly if this is not so.
* `stream_write_lost` — one write, which fails.
-/

namespace Uwuubox
namespace Storage

open Pieces

/-! ## The file -/

/-- How an underlying write ends: with all of the buffer in the file, or with an error after `kept` bytes. -/
inductive Fate where
  | whole
  | broken (kept : ℕ) (msg : String)
deriving DecidableEq

namespace Fate

/-- What of a buffer reaches the file. -/
def kept : Fate → Bytes → Bytes
  | whole, buf => buf
  | broken n _, buf => buf.take n

def error : Fate → Option String
  | whole => none
  | broken _ msg => some msg

/-- Some of the buffer is lost. -/
def Loses (fate : Fate) (buf : Bytes) : Prop := ∃ n msg, fate = broken n msg ∧ n < buf.length

theorem kept_ne_iff {fate : Fate} {buf : Bytes} : fate.kept buf ≠ buf ↔ fate.Loses buf := by
  cases fate with
  | whole => exact iff_of_false (fun h => h rfl) (by rintro ⟨n, msg, ⟨⟩, -⟩)
  | broken n msg =>
    have htake : buf.take n = buf ↔ buf.length ≤ n := List.take_eq_self_iff buf
    show ¬ buf.take n = buf ↔ _
    rw [htake, not_le]
    constructor
    · exact fun h => ⟨n, msg, rfl, h⟩
    · rintro ⟨_, _, ⟨⟩, h⟩
      exact h

end Fate

/-- `max_buf_size` of a tokio `File`. -/
def maxBufSize : ℕ := 2 * 1024 * 1024

theorem maxBufSize_pos : 0 < maxBufSize := by decide

/-- The buffers that `write_all` cuts its argument into. -/
def buffers (part : Bytes) : List Bytes :=
  (List.range (pieceCount maxBufSize part.length)).map fun i => piece maxBufSize i part

theorem flatten_buffers (part : Bytes) : (buffers part).flatten = part := flatten_pieces maxBufSize_pos part

/-- A tokio `File`: its content, the number of underlying writes, and the error of the last one until it is
reported. -/
structure TokioFile where
  content : Bytes
  writes : ℕ
  lastError : Option String

/-- The file that `File::create` opens. -/
def TokioFile.new : TokioFile := ⟨[], 0, none⟩

/-- The writes of some buffers: each of them first reports the error of the one before it. -/
def writeBuffers (fates : ℕ → Fate) : List Bytes → TokioFile → Except String Unit × TokioFile
  | [], file => (.ok (), file)
  | buf :: bufs, file =>
    match file.lastError with
    | some msg => (.error msg, { file with lastError := none })
    | none =>
      writeBuffers fates bufs
        ⟨file.content ++ (fates file.writes).kept buf, file.writes + 1, (fates file.writes).error⟩

theorem writeBuffers_append (fates : ℕ → Fate) (bufs bufs' : List Bytes) (file : TokioFile) :
    writeBuffers fates (bufs ++ bufs') file =
      match writeBuffers fates bufs file with
      | (.error msg, file') => (.error msg, file')
      | (.ok (), file') => writeBuffers fates bufs' file' := by
  induction bufs generalizing file with
  | nil => rfl
  | cons buf bufs ih =>
    simp only [List.cons_append, writeBuffers]
    cases file.lastError with
    | some msg => rfl
    | none => exact ih _

/-- **The errors are one write behind**: the loop does not see how its last write ends. -/
theorem writeBuffers_ok_iff {fates : ℕ → Fate} {bufs : List Bytes} {last : Bytes} {file : TokioFile}
    (hfile : file.lastError = none) :
    (writeBuffers fates (bufs ++ [last]) file).1 = .ok () ↔
      ∀ i < bufs.length, (fates (file.writes + i)).error = none := by
  induction bufs generalizing file with
  | nil =>
    have hok : (writeBuffers fates [last] file).1 = .ok () := by
      simp only [writeBuffers, hfile]
    exact iff_of_true hok fun i hi => absurd hi (Nat.not_lt_zero i)
  | cons buf bufs ih =>
    have hsplit : (∀ i < (buf :: bufs).length, (fates (file.writes + i)).error = none) ↔
        (fates file.writes).error = none ∧ ∀ i < bufs.length, (fates (file.writes + 1 + i)).error = none := by
      constructor
      · intro h
        refine ⟨h 0 (Nat.succ_pos _), fun i hi => ?_⟩
        rw [Nat.add_assoc, Nat.add_comm 1 i]
        exact h (i + 1) (Nat.succ_lt_succ hi)
      · rintro ⟨hfirst, hrest⟩ i hi
        cases i with
        | zero => exact hfirst
        | succ i =>
          rw [Nat.add_comm i 1, ← Nat.add_assoc]
          exact hrest i (Nat.lt_of_succ_lt_succ hi)
    rw [hsplit]
    simp only [List.cons_append, writeBuffers, hfile]
    cases herror : (fates file.writes).error with
    | none => simpa using @ih ⟨_, file.writes + 1, none⟩ rfl
    | some msg =>
      have hstop : ∀ rest : List Bytes, rest ≠ [] → ∀ content n,
          (writeBuffers fates rest ⟨content, n, some msg⟩).1 = .error msg := by
        intro rest hrest content n
        obtain ⟨b, rest, rfl⟩ := List.exists_cons_of_ne_nil hrest
        rfl
      rw [hstop _ (List.append_ne_nil_of_right_ne_nil _ (List.cons_ne_nil _ _))]
      exact iff_of_false nofun fun h => by cases h.1

/-- Writes that all go well. -/
theorem writeBuffers_whole {fates : ℕ → Fate} {bufs : List Bytes} {file : TokioFile} (hfile : file.lastError = none)
    (h : ∀ i < bufs.length, (fates (file.writes + i)).error = none) :
    writeBuffers fates bufs file = (.ok (), ⟨file.content ++ bufs.flatten, file.writes + bufs.length, none⟩) := by
  induction bufs generalizing file with
  | nil =>
    obtain ⟨content, writes, lastError⟩ := file
    cases hfile
    simp [writeBuffers]
  | cons buf bufs ih =>
    have hfirst := h 0 (Nat.succ_pos _)
    have hkept : (fates file.writes).kept buf = buf := by
      cases hfate : fates file.writes with
      | whole => rfl
      | broken n msg =>
        rw [Nat.add_zero, hfate] at hfirst
        cases hfirst
    have hrest : ∀ i < bufs.length, (fates (file.writes + 1 + i)).error = none := by
      intro i hi
      rw [Nat.add_assoc, Nat.add_comm 1 i]
      exact h (i + 1) (Nat.succ_lt_succ hi)
    simp only [writeBuffers, hfile]
    rw [ih hfirst hrest, hkept]
    simp [Nat.add_comm, Nat.add_left_comm]

/-- What is in the file when the loop has not seen an error. -/
theorem writeBuffers_content {fates : ℕ → Fate} {bufs : List Bytes} {last : Bytes} {file : TokioFile}
    (hfile : file.lastError = none) (h : ∀ i < bufs.length, (fates (file.writes + i)).error = none) :
    (writeBuffers fates (bufs ++ [last]) file).2.content =
      file.content ++ bufs.flatten ++ (fates (file.writes + bufs.length)).kept last := by
  rw [writeBuffers_append, writeBuffers_whole hfile h]
  rfl

/-! ## The disk -/

/-- What a disk makes of the requests of one `stream_write`. -/
structure LocalDisk where
  createDirAll : Except StorageError Unit
  create : Except StorageError Unit
  fates : ℕ → Fate
  setPermissions : Except StorageError Unit
  rename : Except StorageError Unit

/-- The temporary file, and what is published. -/
structure LocalState where
  file : TokioFile
  published : SafeKey → Option Bytes

namespace LocalDisk

/-- The answers to the requests of `stream_write`, which makes no others.  To drop the file is no request: the
permissions and the rename are those of a path, and nobody asks for the error of the last write. -/
def respond (disk : LocalDisk) (s : LocalState) : (op : WriteOp) → op.Res × LocalState
  | .request (.createDirAll _) => (disk.createDirAll, s)
  | .request .createTmp => (disk.create, { s with file := .new })
  | .request (.writeAll part) =>
    let (result, file) := writeBuffers disk.fates (buffers part) s.file
    (result.mapError .backend, { s with file := file })
  | .request .setPermissions => (disk.setPermissions, s)
  | .request (.rename key) =>
    match disk.rename with
    | .ok () => (.ok (), { s with published := Function.update s.published key (some s.file.content) })
    | .error e => (.error e, s)
  | .request (.writeTmp _) => (.error (.backend "unsupported"), s)
  | .request (.putObject _ _) => (.error (.backend "unsupported"), s)
  | .request (.createMultipart _) => (.error (.backend "unsupported"), s)
  | .multipart _ _ => (.error (.backend "unsupported"), s)
  | .joinPump _ _ => (.error (.backend "unsupported"), s)

/-- `stream_write` on this disk. -/
def streamWrite (disk : LocalDisk) (key : SafeKey) (parts : List Bytes) (s : LocalState) :
    Except StorageError Unit × LocalState := (LocalStore.streamWrite key parts).eval disk.respond s

variable {disk : LocalDisk} {s : LocalState}

theorem eval_andThen {α β : Type} (p : Write (Except StorageError α)) (f : α → Write (Except StorageError β))
    (s : LocalState) : (andThen p f).eval disk.respond s =
      match p.eval disk.respond s with
      | (.error e, s') => (.error e, s')
      | (.ok a, s') => (f a).eval disk.respond s' := by
  unfold andThen
  rw [Prog.eval_bind]
  match p.eval disk.respond s with
  | (.error e, s') => rfl
  | (.ok a, s') => rfl

/-- **The loop over the parts** writes their buffers. -/
theorem eval_writeParts (parts : List Bytes) (s : LocalState) : (writeParts parts).eval disk.respond s =
    ((writeBuffers disk.fates (parts.flatMap buffers) s.file).1.mapError .backend,
      { s with file := (writeBuffers disk.fates (parts.flatMap buffers) s.file).2 }) := by
  induction parts generalizing s with
  | nil => rfl
  | cons part parts ih =>
    rw [writeParts, eval_andThen, List.flatMap_cons, writeBuffers_append]
    have hwrite : (request (.writeAll part)).eval disk.respond s =
        ((writeBuffers disk.fates (buffers part) s.file).1.mapError .backend,
          { s with file := (writeBuffers disk.fates (buffers part) s.file).2 }) := rfl
    rw [hwrite]
    rcases writeBuffers disk.fates (buffers part) s.file with ⟨msg | _, file⟩
    · rfl
    · exact ih _

/-- The requests other than writes do not fail. -/
structure Answers (disk : LocalDisk) : Prop where
  createDirAll : disk.createDirAll = .ok ()
  create : disk.create = .ok ()
  setPermissions : disk.setPermissions = .ok ()
  rename : disk.rename = .ok ()

/-- The writes of the parts, with the buffers that they have. -/
def written (disk : LocalDisk) (parts : List Bytes) : Except String Unit × TokioFile :=
  writeBuffers disk.fates (parts.flatMap buffers) .new

/-- `stream_write`, request by request. -/
theorem streamWrite_eq (key : SafeKey) (parts : List Bytes) : disk.streamWrite key parts s =
    match disk.createDirAll with
    | .error e => (.error e, s)
    | .ok () =>
      match disk.create with
      | .error e => (.error e, { s with file := .new })
      | .ok () =>
        match disk.written parts with
        | (.error msg, file) => (.error (.backend msg), { s with file := file })
        | (.ok (), file) =>
          match disk.setPermissions with
          | .error e => (.error e, { s with file := file })
          | .ok () => disk.respond { s with file := file } (.request (.rename key)) := by
  have hdir : (request (.createDirAll key)).eval disk.respond s = (disk.createDirAll, s) := rfl
  have hcreate : (request .createTmp).eval disk.respond s = (disk.create, { s with file := .new }) := rfl
  have hpermissions : ∀ s', (request .setPermissions).eval disk.respond s' = (disk.setPermissions, s') := fun _ => rfl
  unfold streamWrite LocalStore.streamWrite
  rw [eval_andThen, hdir]
  cases disk.createDirAll with
  | error e => rfl
  | ok u =>
    dsimp only
    rw [eval_andThen, hcreate]
    cases disk.create with
    | error e => rfl
    | ok u =>
      dsimp only
      rw [eval_andThen, eval_writeParts]
      unfold written
      match writeBuffers disk.fates (parts.flatMap buffers) .new with
      | (.error msg, file) => rfl
      | (.ok (), file) =>
        simp only [Except.mapError]
        rw [eval_andThen, hpermissions]
        cases disk.setPermissions with
        | error e => rfl
        | ok u => rfl

/-- It returns `Ok` if nothing fails that it sees. -/
theorem streamWrite_ok_iff {key : SafeKey} {parts : List Bytes} :
    (disk.streamWrite key parts s).1 = .ok () ↔ disk.Answers ∧ (disk.written parts).1 = .ok () := by
  rw [streamWrite_eq]
  constructor
  · intro h
    cases hdir : disk.createDirAll with
    | error e => simp [hdir] at h
    | ok u =>
      cases hcreate : disk.create with
      | error e => simp [hdir, hcreate] at h
      | ok u =>
        match hwritten : disk.written parts with
        | (.error msg, file) => simp [hdir, hcreate, hwritten] at h
        | (.ok (), file) =>
          cases hpermissions : disk.setPermissions with
          | error e => simp [hdir, hcreate, hwritten, hpermissions] at h
          | ok u =>
            cases hrename : disk.rename with
            | error e => simp [hdir, hcreate, hwritten, hpermissions, respond, hrename] at h
            | ok u => exact ⟨⟨hdir, hcreate, hpermissions, hrename⟩, rfl⟩
  · rintro ⟨⟨hdir, hcreate, hpermissions, hrename⟩, hwritten⟩
    match hfile : disk.written parts with
    | (.error msg, file) =>
      rw [hfile] at hwritten
      cases hwritten
    | (.ok (), file) => simp [hdir, hcreate, hpermissions, respond, hrename]

/-- **What it publishes then** is what its writes have put into the file. -/
theorem streamWrite_published {key : SafeKey} {parts : List Bytes} (h : (disk.streamWrite key parts s).1 = .ok ()) :
    (disk.streamWrite key parts s).2.published key = some (disk.written parts).2.content := by
  obtain ⟨⟨hdir, hcreate, hpermissions, hrename⟩, hwritten⟩ := streamWrite_ok_iff.1 h
  rw [streamWrite_eq]
  match hfile : disk.written parts with
  | (.error msg, file) =>
    rw [hfile] at hwritten
    cases hwritten
  | (.ok (), file) => simp [hdir, hcreate, hpermissions, respond, hrename]

/-- No write but the last one fails, nor anything else, and the last one does not put everything into the file. -/
structure LosesLast (disk : LocalDisk) (parts : List Bytes) : Prop where
  answers : disk.Answers
  last : ∃ bufs last, parts.flatMap buffers = bufs ++ [last] ∧ (∀ i < bufs.length, (disk.fates i).error = none) ∧
    (disk.fates bufs.length).Loses last

theorem flatten_flatMap_buffers (parts : List Bytes) : (parts.flatMap buffers).flatten = parts.flatten := by
  induction parts with
  | nil => rfl
  | cons part parts ih => rw [List.flatMap_cons, List.flatten_append, flatten_buffers, ih, List.flatten_cons]

/-- What has been written without an error that was seen is everything, or the end of it is lost. -/
theorem written_content {parts : List Bytes} (hanswers : disk.Answers) (h : (disk.written parts).1 = .ok ()) :
    (disk.written parts).2.content = parts.flatten ↔ ¬ disk.LosesLast parts := by
  rw [← flatten_flatMap_buffers]
  unfold written at h ⊢
  rcases List.eq_nil_or_concat (parts.flatMap buffers) with hnil | ⟨bufs, last, hbufs⟩
  · rw [hnil]
    refine iff_of_true rfl fun hloses => ?_
    obtain ⟨bufs, last, hbufs, -⟩ := hloses.last
    rw [hnil] at hbufs
    exact List.append_ne_nil_of_right_ne_nil _ (List.cons_ne_nil _ _) hbufs.symm
  · rw [List.concat_eq_append] at hbufs
    rw [hbufs] at h ⊢
    have hwhole : ∀ i < bufs.length, (disk.fates (TokioFile.new.writes + i)).error = none :=
      (writeBuffers_ok_iff rfl).1 h
    have hindex : ∀ i, TokioFile.new.writes + i = i := Nat.zero_add
    rw [writeBuffers_content rfl hwhole, List.flatten_append, List.flatten_singleton, hindex]
    simp only [hindex] at hwhole
    show bufs.flatten ++ (disk.fates bufs.length).kept last = _ ↔ _
    rw [List.append_right_inj, ← not_iff_not, not_not]
    constructor
    · exact fun hlost => ⟨hanswers, bufs, last, hbufs, hwhole, Fate.kept_ne_iff.1 hlost⟩
    · rintro ⟨-, bufs', last', hbufs', -, hlost⟩
      obtain ⟨rfl, hlast⟩ := List.append_inj' (hbufs.symm.trans hbufs') rfl
      cases hlast
      exact Fate.kept_ne_iff.2 hlost

/-- Where the last write is lost, `stream_write` does not notice. -/
theorem LosesLast.ok {key : SafeKey} {parts : List Bytes} (h : disk.LosesLast parts) :
    (disk.streamWrite key parts s).1 = .ok () := by
  obtain ⟨bufs, last, hbufs, hwhole, -⟩ := h.last
  refine streamWrite_ok_iff.2 ⟨h.answers, ?_⟩
  unfold written
  rw [hbufs, writeBuffers_ok_iff rfl]
  intro i hi
  rw [show TokioFile.new.writes + i = i from Nat.zero_add i]
  exact hwhole i hi

/-- **What is published is all of the parts**, where `stream_write` returns `Ok`, exactly if the last write is not
lost. -/
theorem stream_write_complete_iff (disk : LocalDisk) (key : SafeKey) (parts : List Bytes) (s : LocalState) :
    ((disk.streamWrite key parts s).1 = .ok () → (disk.streamWrite key parts s).2.published key = some parts.flatten) ↔
      ¬ disk.LosesLast parts := by
  constructor
  · intro h hloses
    have hok : (disk.streamWrite key parts s).1 = .ok () := hloses.ok
    obtain ⟨hanswers, hwritten⟩ := streamWrite_ok_iff.1 hok
    have hcontent := Option.some.inj ((streamWrite_published hok).symm.trans (h hok))
    exact (written_content hanswers hwritten).1 hcontent hloses
  · intro hkeeps hok
    obtain ⟨hanswers, hwritten⟩ := streamWrite_ok_iff.1 hok
    rw [streamWrite_published hok, (written_content hanswers hwritten).2 hkeeps]

/-- A disk that is full. -/
def full : LocalDisk := ⟨.ok (), .ok (), fun _ => .broken 0 "no space left on device", .ok (), .ok ()⟩

/-- `files/f` -/
def publishedKey : SafeKey := ⟨['f', 'i', 'l', 'e', 's', '/', 'f'], by decide⟩

/-- One byte is written, and an empty file is published. -/
theorem stream_write_lost : ¬ ((full.streamWrite publishedKey [[1]] ⟨.new, fun _ => none⟩).1 = .ok () →
    (full.streamWrite publishedKey [[1]] ⟨.new, fun _ => none⟩).2.published publishedKey = some [[1]].flatten) := by
  intro h
  have hempty : (full.streamWrite publishedKey [[1]] ⟨.new, fun _ => none⟩).2.published publishedKey = some [] := rfl
  cases hempty.symm.trans (h rfl)

end LocalDisk

end Storage
end Uwuubox
