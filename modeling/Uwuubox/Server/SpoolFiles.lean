import Uwuubox.Server.Requests

/-!
# The spool files of an upload

`upload_inner` of `src/routes/upload.rs` again, down to the temporary files.  A file field is spooled to
a file of its own, which the guard `SpooledUpload` deletes when it goes out of scope.

* `FileBody`, `MultipartField` — the body of a request, cut into chunks, with what the disk makes of it.
* `spoolFileField` — creates the file first; the guard is there only at the end.
* `spoolFields` — the loop over the fields; a new guard replaces the one before it.
* `spooledUpload` — the whole handler: at every exit the guard that is alive is dropped.
* `Tidy` — **the condition**: of the fields that are reached, no file is given up half-way, and no
  removal fails.
* `removed_iff_tidy` — the temporary files are gone exactly then.
* `spool_left_behind` — a body larger than the cap.
-/

namespace Uwuubox
namespace Server

open Dedupe Storage Fallible

/-! ## Requests -/

/-- The name of a temporary file, with the UUID in it. -/
abbrev SpoolPath := Uuid

/-- A chunk of a body, and what writing it comes to. -/
structure Chunk where
  bytes : Bytes
  write : Except String Unit

/-- The body of a file field, and what the disk makes of it. -/
structure FileBody where
  path : SpoolPath
  opening : Except String Unit
  chunks : List Chunk
  /-- After the chunks the body ends, or it cannot be read. -/
  ending : Except String Unit
  removal : Except String Unit

/-- A field of the multipart body. -/
inductive MultipartField where
  | file (name : Option Text) (body : FileBody)
  | text (field : TextField) (value : Except String Text)

/-- What reading the spool file back comes to, and writing the stripped image to it. -/
structure SpoolReads where
  prefix' : Except String Unit
  image : Except String Unit
  overwrite : Except String Unit
  digest : Except String Unit

/-- A request for an upload. -/
structure SpoolRequest where
  fields : List MultipartField
  /-- After the fields the body ends, or it is malformed. -/
  ending : Except String Unit
  reads : SpoolReads
  limiterAllows : Bool
  draws : Fin 5 → Core
  frame : Option Content
  salt : Text
  deleteToken : Text

/-! ## Spooling -/

/-- `SpooledUpload`, with what its removal will come to. -/
structure SpooledUpload where
  path : SpoolPath
  bytes : Bytes
  removal : Except String Unit

/-- The temporary files of a request that are on the disk. -/
abbrev SpoolFiles := List SpoolPath

/-- `Drop`: the result of `remove_file` is ignored. -/
def SpooledUpload.drop (spooled : SpooledUpload) (files : SpoolFiles) : SpoolFiles :=
  match spooled.removal with
  | .ok () => files.erase spooled.path
  | .error _ => files

/-- A guard goes out of scope, if there is one. -/
def dropSpooled (guard : Option SpooledUpload) (files : SpoolFiles) : SpoolFiles :=
  (guard.map fun spooled => spooled.drop files).getD files

/-- An error of the operating system. -/
def ioResult (x : Except String Unit) : Except Abort Unit := x.mapError fun _ => AppError.somethingWentWrong

/-- The loop over the chunks, after `written`. -/
def writeChunks (cap : ℕ) (ending : Except String Unit) : List Chunk → Bytes → Except Abort Bytes
  | [], written =>
    match ending with
    | .ok () => .ok written
    | .error msg => .error (AppError.badRequest s!"unreadable file field: {msg}")
  | chunk :: chunks, written =>
    if chunk.bytes.length > cap - written.length then .error (AppError.tooLarge cap)
    else match ioResult chunk.write with
      | .error e => .error e
      | .ok () => writeChunks cap ending chunks (written ++ chunk.bytes)

/-- `spool_file_field`.  Where it fails after the file is opened, there is no guard for it. -/
def spoolFileField (cap : ℤ) (body : FileBody) (files : SpoolFiles) :
    Except Abort SpooledUpload × SpoolFiles :=
  match ioResult body.opening with
  | .error e => (.error e, files)
  | .ok () =>
    match writeChunks (max cap 0).toNat body.ending body.chunks [] with
    | .error e => (.error e, body.path :: files)
    | .ok bytes => (.ok ⟨body.path, bytes, body.removal⟩, body.path :: files)

/-- What has been read of the form. -/
structure SpoolForm where
  filename : Option Text
  spooled : Option SpooledUpload
  text : TextField → Option Text

/-- The form of `readFields`. -/
def SpoolForm.form (form : SpoolForm) : UploadForm :=
  ⟨form.filename, form.spooled.map SpooledUpload.bytes, form.text⟩

/-- The loop over the fields: the form, or an error and the guard that is alive then. -/
def spoolFields (cap : ℤ) (ending : Except String Unit) : List MultipartField → SpoolForm → SpoolFiles →
    Except (Abort × Option SpooledUpload) SpoolForm × SpoolFiles
  | [], form, files =>
    match ending with
    | .ok () => (.ok form, files)
    | .error msg => (.error (AppError.badRequest s!"malformed multipart: {msg}", form.spooled), files)
  | .file name body :: fields, form, files =>
    match spoolFileField cap body files with
    | (.error e, files) => (.error (e, form.spooled), files)
    | (.ok upload, files) =>
      -- the last field wins; dropping the previous spool deletes its file
      spoolFields cap ending fields ⟨some (name.getD uploadName), some upload, form.text⟩
        (dropSpooled form.spooled files)
  | .text .other _ :: fields, form, files => spoolFields cap ending fields form files
  | .text field (.ok value) :: fields, form, files =>
    spoolFields cap ending fields { form with text := Function.update form.text field (some value) } files
  | .text field (.error msg) :: _, form, files =>
    (.error (AppError.badRequest s!"{field.label}: {msg}", form.spooled), files)

/-! ## The handler -/

/-- Who uploads, and how much at most. -/
structure Admission where
  user : Option User
  cfg : InstanceConfig
  limits : EffectiveLimits
  /-- `stream_cap` -/
  cap : ℤ

/-- `upload_inner` up to the first field. -/
def admitUpload (env : Env) (caller : Caller) (limiterAllows : Bool) : Handler Admission := do
  let identity ← always (currentIdentity env caller)
  requireScopeIfBearer caller identity .upload
  let user := identity.map Identity.user
  let cfg ← ask .instanceConfig
  reject (user.isNone && !cfg.allowAnonymous) (AppError.forbidden "anonymous uploads are disabled")
  reject (user.isNone && !limiterAllows) AppError.rateLimited
  let limits ← effectiveLimits cfg user
  let roleCap := if user.isSome then limits.maxFileBytes
    else min limits.maxFileBytes cfg.anonymousMaxBytes
  let remaining ← quotaRemaining user limits
  pure ⟨user, cfg, limits, (remaining.map (min roleCap)).getD roleCap⟩

/-- The metadata of images is stripped on the disk. -/
def stripSpooled (env : Env) (reads : SpoolReads) (strip : Bool) (bytes : Bytes) :
    Except Abort (Bytes × Bool) :=
  if strip && isStrippableImage (env.sniffMime (bytes.take sniffPrefix)) then
    if bytes.length > stripMaxBytes then .error (AppError.badRequest
      "image is too large for metadata stripping; retry with it disabled")
    else do
      ioResult reads.image
      let stripped ← (env.stripImageMetadata bytes).mapError fun _ =>
        (AppError.badRequest "could not strip metadata from malformed image" : Abort)
      ioResult reads.overwrite
      pure stripped
  else .ok (bytes, false)

/-- The checks between the form and the claim of a core, with the reads of the spool file. -/
def planSpooled (env : Env) (admission : Admission) (req : SpoolRequest) (form : UploadForm) :
    Handler UploadPlan := do
  let filename := form.filename.getD uploadName
  let bytes ← orThrow form.spooled (AppError.badRequest "missing file field")
  reject bytes.isEmpty (AppError.badRequest "empty file")
  let strip ← check (formBool (form.text .stripExif)
    ((admission.user.map User.stripExifDefault).getD false) "strip_exif")
  check (ioResult req.reads.prefix')
  let (bytes, exifStripped) ← check (stripSpooled env req.reads strip bytes)
  let sniffed := env.sniffMime (bytes.take sniffPrefix)
  check (checkMime env admission.cfg sniffed bytes)
  let visibility ← check (parseVisibility (form.text .visibility) admission.user.isSome
    admission.limits.canPublishPublic "your role cannot publish public uploads")
  let burnAfterRead ← check (formBool (form.text .burnAfterRead) false "burn_after_read")
  reject (burnAfterRead && !admission.limits.canBurn)
    (AppError.badRequest "burn-after-read is not allowed for your role")
  let accessPasswordHash ← check (parseAccessPassword env req.salt (form.text .accessPassword))
  let requested ← check ((parseExpiryParam (form.text .expiresInSecs)).mapError badExpiry)
  let expiresAt ← newExpiry env admission.limits requested (admission.cfg.allowNever admission.user.isSome)
  let scanStatus ← check (scanStatus env admission.cfg filename bytes sniffed)
  check (ioResult req.reads.digest)
  pure {
    filename := filename
    bytes := bytes
    exifStripped := exifStripped
    sniffed := sniffed
    columns := fun originalName => {
      ownerId := admission.user.map User.id
      originalName := originalName
      visibility := visibility
      burnAfterRead := burnAfterRead
      accessPasswordHash := accessPasswordHash
      scanStatus := scanStatus
      expiresAt := expiresAt
      deleteTokenHash := some (env.deleteTokenHash req.deleteToken) } }

/-- The request of `storeUpload`. -/
def SpoolRequest.request (req : SpoolRequest) : UploadRequest :=
  ⟨[], req.limiterAllows, req.draws, req.frame, req.salt, req.deleteToken⟩

/-- `upload_inner` from the end of the form on. -/
def finishUpload (env : Env) (caller : Caller) (req : SpoolRequest) (admission : Admission)
    (form : UploadForm) : Handler Response := do
  let plan ← planSpooled env admission req form
  let core ← storeUpload env plan req.request
  let path := core.val ++ (normalizeExt env plan.filename).val
  let previewUrl := env.baseUrl ++ ['/', 'f', '/'] ++ path
  if wantsHtml caller.headers then pure (.seeOther previewUrl)
  else pure (.json [("id_core", .text core.val), ("preview_url", .text previewUrl),
    ("raw_url", .text (env.baseUrl ++ ['/'] ++ path)), ("expires_at", .time (plan.columns []).expiresAt),
    ("delete_token", .text req.deleteToken), ("exif_stripped", .flag plan.exifStripped)])

/-- `upload_inner`, with the temporary files that are left when it has returned.  Whatever it returns,
a panic included, the guard that is alive is dropped. -/
def spooledUpload (env : Env) (caller : Caller) (req : SpoolRequest) :
    Query (Except Abort Response × SpoolFiles) := do
  match ← (admitUpload env caller req.limiterAllows).run with
  | .error e => pure (.error e, [])
  | .ok admission =>
    match spoolFields admission.cap req.ending req.fields ⟨none, none, fun _ => none⟩ [] with
    | (.error (e, guard), files) => pure (.error e, dropSpooled guard files)
    | (.ok form, files) => do
      let result ← (finishUpload env caller req admission form.form).run
      pure (result, dropSpooled form.spooled files)

/-! ## Which fields are accepted -/

/-- How long a body is. -/
def FileBody.length (body : FileBody) : ℕ := (body.chunks.map fun chunk => chunk.bytes.length).sum

/-- The body is read and written to its end. -/
structure FileBody.Complete (cap : ℤ) (body : FileBody) : Prop where
  fits : (body.length : ℤ) ≤ max cap 0
  written : ∀ chunk ∈ body.chunks, chunk.write = .ok ()
  readable : body.ending = .ok ()

/-- The loop goes on after the field. -/
def MultipartField.Accepted (cap : ℤ) : MultipartField → Prop
  | .file _ body => body.opening = .ok () ∧ body.Complete cap
  | .text field value => field = .other ∨ ∃ t, value = .ok t

/-- **The condition**: every file field that is reached, and whose file is created, is read and written to
its end, and the file can be removed. -/
def Tidy (cap : ℤ) (fields : List MultipartField) : Prop :=
  ∀ before name body after, fields = before ++ .file name body :: after →
    (∀ field ∈ before, field.Accepted cap) → body.opening = .ok () →
    body.Complete cap ∧ body.removal = .ok ()

/-! ## One file -/

theorem ioResult_ok {x : Except String Unit} : ioResult x = .ok () ↔ x = .ok () := by
  cases x <;> simp [ioResult, Except.mapError]

/-- The loop over the chunks comes to its end exactly when they fit and can be written and read. -/
theorem writeChunks_ok {cap : ℕ} {ending : Except String Unit} (chunks : List Chunk) {written : Bytes}
    (hcap : written.length ≤ cap) :
    (∃ bytes, writeChunks cap ending chunks written = .ok bytes) ↔
      written.length + (chunks.map fun chunk => chunk.bytes.length).sum ≤ cap ∧
        (∀ chunk ∈ chunks, chunk.write = .ok ()) ∧ ending = .ok () := by
  induction chunks generalizing written with
  | nil =>
    cases ending with
    | ok u => simp [writeChunks, hcap]
    | error msg => simp [writeChunks]
  | cons chunk chunks ih =>
    simp only [writeChunks, List.map_cons, List.sum_cons, List.forall_mem_cons]
    by_cases hbig : chunk.bytes.length > cap - written.length
    · rw [if_pos hbig]
      constructor
      · rintro ⟨bytes, ⟨⟩⟩
      · rintro ⟨hfits, -⟩
        omega
    · rw [if_neg hbig]
      have hnext : (written ++ chunk.bytes).length ≤ cap := by
        rw [List.length_append]
        omega
      cases hwrite : chunk.write with
      | error e => simp [ioResult, Except.mapError]
      | ok u =>
        have hstep := ih hnext
        rw [List.length_append, Nat.add_assoc] at hstep
        simpa [ioResult, Except.mapError] using hstep

theorem FileBody.complete_iff {cap : ℤ} {body : FileBody} : body.Complete cap ↔
    ∃ bytes, writeChunks (max cap 0).toNat body.ending body.chunks [] = .ok bytes := by
  rw [writeChunks_ok _ (Nat.zero_le _), List.length_nil, Nat.zero_add]
  show _ ↔ body.length ≤ _ ∧ _
  constructor
  · rintro ⟨hfits, hwritten, hreadable⟩
    exact ⟨by omega, hwritten, hreadable⟩
  · rintro ⟨hfits, hwritten, hreadable⟩
    exact ⟨by omega, hwritten, hreadable⟩

/-- **What `spool_file_field` leaves**: no file, a file with its guard, or a file without one. -/
theorem spoolFileField_cases (cap : ℤ) (body : FileBody) (files : SpoolFiles) :
    (body.opening ≠ .ok () ∧ ∃ e, spoolFileField cap body files = (.error e, files)) ∨
    (body.opening = .ok () ∧ body.Complete cap ∧ ∃ bytes,
      spoolFileField cap body files = (.ok ⟨body.path, bytes, body.removal⟩, body.path :: files)) ∨
    (body.opening = .ok () ∧ ¬ body.Complete cap ∧
      ∃ e, spoolFileField cap body files = (.error e, body.path :: files)) := by
  unfold spoolFileField
  cases hopen : body.opening with
  | error e => exact .inl ⟨by simp, _, rfl⟩
  | ok u =>
    right
    cases hwrite : writeChunks (max cap 0).toNat body.ending body.chunks [] with
    | ok bytes => exact .inl ⟨rfl, FileBody.complete_iff.2 ⟨bytes, hwrite⟩, bytes, rfl⟩
    | error e =>
      refine .inr ⟨rfl, fun hcomplete => ?_, e, rfl⟩
      obtain ⟨bytes, hbytes⟩ := FileBody.complete_iff.1 hcomplete
      rw [hwrite] at hbytes
      cases hbytes

/-! ## Guards -/

/-- The file of the guard is on the disk. -/
def Held (guard : Option SpooledUpload) (files : SpoolFiles) : Prop :=
  ∀ spooled, guard = some spooled → spooled.path ∈ files

/-- What a guard does to its file does not concern a file beside it. -/
theorem erase_dropSpooled (guard : Option SpooledUpload) (path : SpoolPath) (files : SpoolFiles) :
    (dropSpooled guard (path :: files)).erase path = dropSpooled guard files := by
  cases guard with
  | none => exact List.erase_cons_head ..
  | some spooled =>
    show (spooled.drop (path :: files)).erase path = spooled.drop files
    unfold SpooledUpload.drop
    cases spooled.removal with
    | ok u => rw [List.erase_comm, List.erase_cons_head]
    | error e => exact List.erase_cons_head ..

/-- A guard leaves the file of another field where it is. -/
theorem mem_dropSpooled (path : SpoolPath) {guard : Option SpooledUpload} {files : SpoolFiles}
    (h : Held guard files) : path ∈ dropSpooled guard (path :: files) := by
  cases guard with
  | none => exact List.mem_cons_self
  | some spooled =>
    show path ∈ spooled.drop (path :: files)
    unfold SpooledUpload.drop
    cases spooled.removal with
    | error e => exact List.mem_cons_self
    | ok u =>
      by_cases heq : path = spooled.path
      · rw [heq, List.erase_cons_head]
        exact h spooled rfl
      · exact (List.mem_erase_of_ne heq).2 List.mem_cons_self

/-- The file of a new guard is removed if it can be. -/
theorem dropSpooled_new {guard : Option SpooledUpload} {body : FileBody} {bytes : Bytes}
    {files : SpoolFiles} (h : Held guard files) :
    dropSpooled (some ⟨body.path, bytes, body.removal⟩) (dropSpooled guard (body.path :: files)) = [] ↔
      dropSpooled guard files = [] ∧ body.removal = .ok () := by
  show SpooledUpload.drop _ _ = [] ↔ _
  unfold SpooledUpload.drop
  cases hremoval : body.removal with
  | ok u => simp [erase_dropSpooled]
  | error e =>
    have hmem := mem_dropSpooled body.path h
    simp only [reduceCtorEq, and_false, iff_false]
    exact List.ne_nil_of_mem hmem

/-! ## The loop over the fields -/

variable {cap : ℤ}

/-- A field at which the loop ends leaves nothing to ask for, if it is no file that was opened. -/
theorem tidy_of_stop {field : MultipartField} {fields : List MultipartField} (hstop : ¬ field.Accepted cap)
    (hfile : ∀ name body, field = .file name body → body.opening ≠ .ok ()) : Tidy cap (field :: fields) := by
  intro before name body after hsplit hbefore hopen
  cases before with
  | nil =>
    obtain ⟨rfl, -⟩ := List.cons.inj hsplit
    exact absurd hopen (hfile name body rfl)
  | cons first before =>
    obtain ⟨rfl, -⟩ := List.cons.inj hsplit
    exact absurd (hbefore _ List.mem_cons_self) hstop

/-- A field that is accepted has to be tidy, and so have the others. -/
theorem tidy_cons {field : MultipartField} {fields : List MultipartField} (haccepted : field.Accepted cap) :
    Tidy cap (field :: fields) ↔
      (∀ name body, field = .file name body → body.removal = .ok ()) ∧ Tidy cap fields := by
  constructor
  · intro h
    refine ⟨?_, fun before name body after hsplit hbefore hopen => ?_⟩
    · rintro name body rfl
      exact (h [] name body fields rfl (fun _ h => absurd h List.not_mem_nil) haccepted.1).2
    · refine h (field :: before) name body after (by rw [hsplit]; rfl) ?_ hopen
      exact List.forall_mem_cons.2 ⟨haccepted, hbefore⟩
  · rintro ⟨hremoval, h⟩ before name body after hsplit hbefore hopen
    cases before with
    | nil =>
      obtain ⟨rfl, -⟩ := List.cons.inj hsplit
      exact ⟨haccepted.2, hremoval name body rfl⟩
    | cons first before =>
      obtain ⟨-, hsplit⟩ := List.cons.inj hsplit
      exact h before name body after hsplit (fun field hfield => hbefore field (.tail _ hfield)) hopen

/-- What is left when the guard that is alive after the fields is dropped. -/
def leftAfter : Except (Abort × Option SpooledUpload) SpoolForm × SpoolFiles → SpoolFiles
  | (.error (_, guard), files) => dropSpooled guard files
  | (.ok form, files) => dropSpooled form.spooled files

/-- **The loop**: nothing is left exactly when nothing would be left now and the fields are tidy. -/
theorem leftAfter_spoolFields (ending : Except String Unit) (fields : List MultipartField)
    {form : SpoolForm} {files : SpoolFiles} (hheld : Held form.spooled files) :
    leftAfter (spoolFields cap ending fields form files) = [] ↔
      dropSpooled form.spooled files = [] ∧ Tidy cap fields := by
  induction fields generalizing form files with
  | nil =>
    have htidy : Tidy cap [] := fun before name body after hsplit => by simp at hsplit
    cases ending with
    | ok u => simp [spoolFields, leftAfter, htidy]
    | error msg => simp [spoolFields, leftAfter, htidy]
  | cons field fields ih =>
    cases field with
    | text field value =>
      by_cases haccepted : (MultipartField.text field value).Accepted cap
      · have htidy : Tidy cap (.text field value :: fields) ↔ Tidy cap fields := by
          rw [tidy_cons haccepted]
          exact and_iff_right (by rintro name body ⟨⟩)
        rw [htidy]
        match field, value, haccepted with
        | .other, _, _ => exact ih hheld
        | .expiresInSecs, .ok _, _ | .visibility, .ok _, _ | .burnAfterRead, .ok _, _
        | .accessPassword, .ok _, _ | .stripExif, .ok _, _ => exact ih hheld
        | .expiresInSecs, .error _, h | .visibility, .error _, h | .burnAfterRead, .error _, h
        | .accessPassword, .error _, h | .stripExif, .error _, h =>
          simp [MultipartField.Accepted] at h
      · have htidy : Tidy cap (.text field value :: fields) :=
          tidy_of_stop haccepted (by rintro name body ⟨⟩)
        rw [and_iff_left htidy]
        match field, value, haccepted with
        | .other, _, h => exact absurd (.inl rfl) h
        | .expiresInSecs, .error _, _ | .visibility, .error _, _ | .burnAfterRead, .error _, _
        | .accessPassword, .error _, _ | .stripExif, .error _, _ => exact Iff.rfl
        | .expiresInSecs, .ok _, h | .visibility, .ok _, h | .burnAfterRead, .ok _, h
        | .accessPassword, .ok _, h | .stripExif, .ok _, h => exact absurd (.inr ⟨_, rfl⟩) h
    | file name body =>
      simp only [spoolFields]
      rcases spoolFileField_cases cap body files with ⟨hopen, e, hfield⟩ |
        ⟨hopen, hcomplete, bytes, hfield⟩ | ⟨hopen, hcomplete, e, hfield⟩
      · -- no file is created
        have htidy : Tidy cap (.file name body :: fields) := by
          refine tidy_of_stop (fun h => hopen h.1) ?_
          rintro _ _ ⟨⟩
          exact hopen
        rw [hfield, and_iff_left htidy]
        exact Iff.rfl
      · -- the guard of the file replaces the one before it
        rw [hfield]
        have hnew : Held (some ⟨body.path, bytes, body.removal⟩)
            (dropSpooled form.spooled (body.path :: files)) := by
          rintro _ ⟨⟩
          exact mem_dropSpooled _ hheld
        have haccepted : (MultipartField.file name body).Accepted cap := ⟨hopen, hcomplete⟩
        rw [ih hnew, tidy_cons haccepted, dropSpooled_new hheld, and_assoc]
        refine and_congr_right fun _ => and_congr_left fun _ => ⟨?_, fun h => h _ _ rfl⟩
        rintro h _ _ ⟨⟩
        exact h
      · -- the file is left without a guard
        rw [hfield]
        constructor
        · intro hnone
          have hmem := mem_dropSpooled body.path hheld
          exact absurd hnone (List.ne_nil_of_mem hmem)
        · rintro ⟨-, htidy⟩
          exact absurd (htidy [] name body fields rfl (fun _ h => absurd h List.not_mem_nil) hopen).1
            hcomplete

/-! ## The whole request -/

/-- **The temporary files are gone exactly when the request is tidy**, for every request, whatever the
database and the store answer and however the request ends. -/
theorem removed_iff_tidy (env : Env) (caller : Caller) (req : SpoolRequest)
    (ans : ℕ → (op : Op) → op.Res) (n : ℕ) :
    ((spooledUpload env caller req).run ans n).1.2 = [] ↔
      ∀ admission, ((admitUpload env caller req.limiterAllows).run.run ans n).1 = .ok admission →
        Tidy admission.cap req.fields := by
  unfold spooledUpload
  rw [Prog.run_bind]
  cases hadmit : ((admitUpload env caller req.limiterAllows).run.run ans n).1 with
  | error e =>
    simp only [reduceCtorEq, false_implies, implies_true, iff_true]
    rfl
  | ok admission =>
    have hleft : leftAfter (spoolFields admission.cap req.ending req.fields ⟨none, none, fun _ => none⟩ []) = [] ↔
        dropSpooled none [] = [] ∧ Tidy admission.cap req.fields :=
      leftAfter_spoolFields req.ending req.fields (by rintro _ ⟨⟩)
    have hstart : dropSpooled none [] = [] := rfl
    rw [and_iff_right hstart] at hleft
    simp only [Except.ok.injEq, forall_eq']
    rw [← hleft]
    split
    · rename_i e guard files heq
      rw [heq]
      exact Iff.rfl
    · rename_i form files heq
      rw [heq, Prog.run_bind]
      exact Iff.rfl

/-! ## The same handler, without its disk -/

/-- A field as `readField` sees it. -/
def MultipartField.field : MultipartField → Field
  | .file name body =>
    match body.ending with
    | .ok () => .file name (body.chunks.flatMap Chunk.bytes)
    | .error msg => .brokenFile msg
  | .text field value => .text field value

/-- The request as `upload` sees it. -/
def SpoolRequest.plain (req : SpoolRequest) : UploadRequest where
  fields := req.fields.map MultipartField.field ++ match req.ending with
    | .ok () => []
    | .error msg => [.malformed msg]
  limiterAllows := req.limiterAllows
  draws := req.draws
  frame := req.frame
  salt := req.salt
  deleteToken := req.deleteToken

/-- The disk does not fail, and a body that cannot be read breaks off before it is too long. -/
structure DiskWorks (cap : ℤ) (body : FileBody) : Prop where
  opening : body.opening = .ok ()
  written : ∀ chunk ∈ body.chunks, chunk.write = .ok ()
  fits : body.ending ≠ .ok () → (body.length : ℤ) ≤ max cap 0

theorem writeChunks_eq {cap : ℕ} {ending : Except String Unit} (chunks : List Chunk) {written : Bytes}
    (hcap : written.length ≤ cap) (hwritten : ∀ chunk ∈ chunks, chunk.write = .ok ()) :
    writeChunks cap ending chunks written =
      if written.length + (chunks.map fun chunk => chunk.bytes.length).sum ≤ cap then
        match ending with
        | .ok () => .ok (written ++ chunks.flatMap Chunk.bytes)
        | .error msg => .error (AppError.badRequest s!"unreadable file field: {msg}")
      else .error (AppError.tooLarge cap) := by
  induction chunks generalizing written with
  | nil =>
    cases ending with
    | ok u => simp [writeChunks, hcap]
    | error msg => simp [writeChunks, hcap]
  | cons chunk chunks ih =>
    obtain ⟨hwrite, hrest⟩ := List.forall_mem_cons.1 hwritten
    simp only [writeChunks, List.map_cons, List.sum_cons, List.flatMap_cons]
    by_cases hbig : chunk.bytes.length > cap - written.length
    · rw [if_pos hbig, if_neg (by omega)]
    · have hnext : (written ++ chunk.bytes).length ≤ cap := by
        rw [List.length_append]
        omega
      rw [if_neg hbig, ioResult_ok.2 hwrite]
      simp only
      rw [ih hnext hrest, List.length_append, Nat.add_assoc, List.append_assoc]

/-- One file field, where the disk works. -/
theorem spoolFileField_eq {cap : ℤ} {body : FileBody} (h : DiskWorks cap body) (name : Option Text)
    (form : SpoolForm) (files : SpoolFiles) :
    readField cap form.form (MultipartField.file name body).field =
      match (spoolFileField cap body files).1 with
      | .ok upload => .ok ⟨some (name.getD uploadName), some upload.bytes, form.text⟩
      | .error e => .error e := by
  have hlen : ((body.chunks.flatMap Chunk.bytes).length : ℤ) = body.length := by
    rw [List.length_flatMap]
    rfl
  have hmax : ((max cap 0).toNat : ℤ) = max cap 0 := Int.toNat_of_nonneg (le_max_right _ _)
  have hsum : ([] : Bytes).length + (body.chunks.map fun chunk => chunk.bytes.length).sum = body.length :=
    Nat.zero_add _
  unfold spoolFileField
  rw [ioResult_ok.2 h.opening]
  simp only
  rw [writeChunks_eq _ (Nat.zero_le _) h.written, hsum]
  cases hending : body.ending with
  | ok u =>
    simp only [MultipartField.field, hending, readField]
    by_cases hfits : body.length ≤ (max cap 0).toNat
    · rw [if_pos hfits, if_neg (by omega)]
      rfl
    · rw [if_neg hfits, if_pos (by omega), hmax]
  | error msg =>
    have hfits := h.fits (by rw [hending]; simp)
    simp only [MultipartField.field, hending, readField]
    rw [if_pos (by omega)]

/-- **The loop over the fields** is that of `readFields`. -/
theorem spoolFields_eq {cap : ℤ} (ending : Except String Unit) (fields : List MultipartField)
    (h : ∀ name body, .file name body ∈ fields → DiskWorks cap body) (form : SpoolForm) (files : SpoolFiles) :
    (fields.map MultipartField.field ++ match ending with
      | .ok () => []
      | .error msg => [.malformed msg]).foldlM (readField cap) form.form =
      match (spoolFields cap ending fields form files).1 with
      | .ok form => .ok form.form
      | .error (e, _) => .error e := by
  induction fields generalizing form files with
  | nil =>
    cases ending with
    | ok u => rfl
    | error msg => rfl
  | cons field fields ih =>
    have hrest : ∀ name body, .file name body ∈ fields → DiskWorks cap body := fun name body hmem =>
      h name body (.tail _ hmem)
    rw [List.map_cons, List.cons_append, List.foldlM_cons]
    cases field with
    | file name body =>
      rw [spoolFileField_eq (h name body List.mem_cons_self) name form files]
      simp only [spoolFields]
      match spoolFileField cap body files with
      | (.error e, files') => rfl
      | (.ok upload, files') =>
        exact ih hrest ⟨some (name.getD uploadName), some upload, form.text⟩ _
    | text field value =>
      match field, value with
      | .other, _ => exact ih hrest form files
      | .expiresInSecs, .ok value | .visibility, .ok value | .burnAfterRead, .ok value
      | .accessPassword, .ok value | .stripExif, .ok value =>
        exact ih hrest { form with text := Function.update form.text _ (some value) } files
      | .expiresInSecs, .error _ | .visibility, .error _ | .burnAfterRead, .error _
      | .accessPassword, .error _ | .stripExif, .error _ => rfl

/-- Reading back does not fail. -/
structure SpoolReads.Work (reads : SpoolReads) : Prop where
  prefix' : reads.prefix' = .ok ()
  image : reads.image = .ok ()
  overwrite : reads.overwrite = .ok ()
  digest : reads.digest = .ok ()

theorem planSpooled_eq {env : Env} {admission : Admission} {req : SpoolRequest} {form : UploadForm}
    (h : req.reads.Work) : planSpooled env admission req form =
      uploadPlan env admission.cfg admission.limits admission.user req.plain form := by
  have hok : ioResult (.ok ()) = .ok () := rfl
  have hstrip : stripSpooled env req.reads = stripMetadata env := by
    funext strip bytes
    unfold stripSpooled stripMetadata
    rw [h.image, h.overwrite]
    split
    · split
      · rfl
      · cases env.stripImageMetadata bytes <;> rfl
    · rfl
  unfold planSpooled uploadPlan
  rw [h.prefix', h.digest, hstrip]
  simp only [hok, SpoolRequest.plain]
  rfl

theorem upload_eq (env : Env) (caller : Caller) (req : UploadRequest) :
    upload env caller req = (do
      let admission ← admitUpload env caller req.limiterAllows
      let form ← check (readFields admission.cap req.fields)
      let plan ← uploadPlan env admission.cfg admission.limits admission.user req form
      let core ← storeUpload env plan req
      let path := core.val ++ (normalizeExt env plan.filename).val
      let previewUrl := env.baseUrl ++ ['/', 'f', '/'] ++ path
      if wantsHtml caller.headers then pure (.seeOther previewUrl)
      else pure (.json [("id_core", .text core.val), ("preview_url", .text previewUrl),
        ("raw_url", .text (env.baseUrl ++ ['/'] ++ path)), ("expires_at", .time (plan.columns []).expiresAt),
        ("delete_token", .text req.deleteToken), ("exif_stripped", .flag plan.exifStripped)])) := by
  unfold upload admitUpload
  simp only [bind_assoc, pure_bind]

/-- **Where the disk works, it is the handler of before.** -/
theorem spooledUpload_result {env : Env} {caller : Caller} {req : SpoolRequest}
    {ans : ℕ → (op : Op) → op.Res} {n : ℕ} (hreads : req.reads.Work)
    (hdisk : ∀ admission, ((admitUpload env caller req.limiterAllows).run.run ans n).1 = .ok admission →
      ∀ name body, .file name body ∈ req.fields → DiskWorks admission.cap body) :
    ((spooledUpload env caller req).run ans n).1.1 = ((upload env caller req.plain).run.run ans n).1 := by
  rw [upload_eq]
  unfold spooledUpload
  have hlimiter : req.plain.limiterAllows = req.limiterAllows := rfl
  rw [ExceptT.run_bind, Prog.run_bind, Prog.run_bind, hlimiter]
  cases hadmit : ((admitUpload env caller req.limiterAllows).run.run ans n).1 with
  | error e => rfl
  | ok admission =>
    have hform := spoolFields_eq req.ending req.fields (hdisk admission hadmit)
      ⟨none, none, fun _ => none⟩ []
    have hread : readFields admission.cap req.plain.fields = _ := hform
    simp only
    rw [hread]
    match spoolFields admission.cap req.ending req.fields ⟨none, none, fun _ => none⟩ [] with
    | (.error (e, guard), files) => rfl
    | (.ok form, files) =>
      have hfinish : ∀ m, ((do
          let result ← (finishUpload env caller req admission form.form).run
          pure (result, dropSpooled form.spooled files) :
            Query (Except Abort Response × SpoolFiles)).run ans m).1.1 =
          ((finishUpload env caller req admission form.form).run.run ans m).1 := by
        intro m
        rw [Prog.run_bind]
        rfl
      refine (hfinish _).trans ?_
      unfold finishUpload
      rw [planSpooled_eq hreads]
      rfl

/-! ## A file that is left behind -/

theorem isCore_replicate_n : (List.replicate idLen 'n').length = idLen ∧
    ∀ c ∈ List.replicate idLen 'n', c ∈ alphabet := by
  refine ⟨List.length_replicate, fun c hc => ?_⟩
  rw [List.eq_of_mem_replicate hc]
  decide

/-- An upload of one byte whose body cannot be read after it. -/
def brokenUpload : SpoolRequest where
  fields := [.file none ⟨1, .ok (), [⟨[7], .ok ()⟩], .error "connection reset", .ok ()⟩]
  ending := .ok ()
  reads := ⟨.ok (), .ok (), .ok (), .ok ()⟩
  limiterAllows := true
  draws := fun _ => ⟨List.replicate idLen 'n', isCore_replicate_n⟩
  frame := none
  salt := []
  deleteToken := []

/-- Its temporary file is still there when the request has been rejected. -/
theorem spool_left_behind : ((spooledUpload .plain ⟨0, .none⟩ brokenUpload).run
    (fun _ op => (answer World.empty op).1) 0).1.2 = [1] := rfl

end Server
end Uwuubox
