import Uwuubox.Server.SpoolFiles
import Uwuubox.Server.Quota

/-!
# The cap of an upload

`spool_file_field` of `src/routes/upload.rs` counts the bytes of a file while it writes them, and stops
in front of the chunk that would be too much.

* `spoolLoop` — the loop with its counter, and what is in the temporary file when it stops.
* `spoolFileField_loop` — `spoolFileField` is this loop.
* `SpoolsExactly` — accepted is what fits the cap, whole and counted; of the rest no more is written
  than fits.
* `receiveUpload` — `upload_inner` up to the last field; `spooledUpload_receive` puts it in its place.
* `upload_cap_exact` — **the cap is exact**, and what is accepted fits the file cap and the quota.
-/

namespace Uwuubox
namespace Server

open Dedupe Storage Fallible

/-! ## The loop over the chunks -/

/-- The loop of `spool_file_field` after `size` bytes: the size, or an error, and the content of the file.
No more than `cap` is ever counted, so the sum stays a `u64`. -/
def spoolLoop (cap : ℕ) (ending : Except String Unit) : List Chunk → ℕ → Bytes → Except Abort ℕ × Bytes
  | [], size, file =>
    match ending with
    | .ok () => (.ok size, file)
    | .error msg => (.error (AppError.badRequest s!"unreadable file field: {msg}"), file)
  | chunk :: chunks, size, file =>
    if chunk.bytes.length > cap - size then (.error (AppError.tooLarge cap), file)
    else match ioResult chunk.write with
      -- what is in the file of this chunk is not said
      | .error e => (.error e, file)
      | .ok () => spoolLoop cap ending chunks (size + chunk.bytes.length) (file ++ chunk.bytes)

/-- `spool_file_field`, once the file is open. -/
def spoolBody (cap : ℤ) (body : FileBody) : Except Abort ℕ × Bytes :=
  spoolLoop (max cap 0).toNat body.ending body.chunks 0 []

/-- The chunks of a body, one behind the other. -/
def FileBody.bytes (body : FileBody) : Bytes := body.chunks.flatMap Chunk.bytes

/-- No chunk fails to be written, and the body can be read to its end. -/
structure FileBody.Unbroken (body : FileBody) : Prop where
  written : ∀ chunk ∈ body.chunks, chunk.write = .ok ()
  readable : body.ending = .ok ()

theorem FileBody.length_bytes (body : FileBody) : body.bytes.length = body.length := List.length_flatMap

/-- The counter is the length of the file, so the loop is that of `writeChunks`. -/
theorem spoolLoop_eq (cap : ℕ) (ending : Except String Unit) (chunks : List Chunk) (file : Bytes) :
    writeChunks cap ending chunks file =
      (spoolLoop cap ending chunks file.length file).1.map
        fun _ => (spoolLoop cap ending chunks file.length file).2 := by
  induction chunks generalizing file with
  | nil =>
    cases ending with
    | ok u => rfl
    | error msg => rfl
  | cons chunk chunks ih =>
    simp only [writeChunks, spoolLoop]
    by_cases hbig : chunk.bytes.length > cap - file.length
    · rw [if_pos hbig, if_pos hbig]
      rfl
    · rw [if_neg hbig, if_neg hbig]
      cases ioResult chunk.write with
      | error e => rfl
      | ok u =>
        have hnext := ih (file ++ chunk.bytes)
        rw [List.length_append] at hnext
        exact hnext

/-- **`spool_file_field` is the loop**, once the file is open. -/
theorem spoolFileField_loop {cap : ℤ} {body : FileBody} (hopen : body.opening = .ok ()) (files : SpoolFiles) :
    spoolFileField cap body files =
      ((spoolBody cap body).1.map (fun _ => ⟨body.path, (spoolBody cap body).2, body.removal⟩),
        body.path :: files) := by
  unfold spoolFileField spoolBody
  rw [hopen, spoolLoop_eq]
  simp only [ioResult, Except.mapError, List.length_nil]
  cases (spoolLoop (max cap 0).toNat body.ending body.chunks 0 []).1 with
  | ok size => rfl
  | error e => rfl

/-- What was counted is what was written, and it fits. -/
theorem spoolLoop_bounds {cap : ℕ} {ending : Except String Unit} (chunks : List Chunk) {file : Bytes}
    (hfile : file.length ≤ cap) : (spoolLoop cap ending chunks file.length file).2.length ≤ cap ∧
      ∀ size, (spoolLoop cap ending chunks file.length file).1 = .ok size →
        size = (spoolLoop cap ending chunks file.length file).2.length ∧
          (spoolLoop cap ending chunks file.length file).2 = file ++ chunks.flatMap Chunk.bytes := by
  induction chunks generalizing file with
  | nil =>
    cases ending with
    | ok u =>
      refine ⟨hfile, ?_⟩
      rintro _ ⟨⟩
      exact ⟨rfl, (List.append_nil _).symm⟩
    | error msg => exact ⟨hfile, nofun⟩
  | cons chunk chunks ih =>
    simp only [spoolLoop]
    by_cases hbig : chunk.bytes.length > cap - file.length
    · rw [if_pos hbig]
      exact ⟨hfile, nofun⟩
    · rw [if_neg hbig]
      cases ioResult chunk.write with
      | error e => exact ⟨hfile, nofun⟩
      | ok u =>
        have hlength : (file ++ chunk.bytes).length = file.length + chunk.bytes.length := List.length_append
        have hnext := ih (show (file ++ chunk.bytes).length ≤ cap by omega)
        rw [hlength, List.append_assoc] at hnext
        exact hnext

/-- Without an error of the disk or of the body, only the cap stops the loop. -/
theorem spoolLoop_fst {cap : ℕ} {ending : Except String Unit} {chunks : List Chunk} (size : ℕ) (file : Bytes)
    (hwritten : ∀ chunk ∈ chunks, chunk.write = .ok ()) (hending : ending = .ok ()) (hsize : size ≤ cap) :
    (spoolLoop cap ending chunks size file).1 =
      if size + (chunks.map fun chunk => chunk.bytes.length).sum ≤ cap
      then .ok (size + (chunks.map fun chunk => chunk.bytes.length).sum) else .error (AppError.tooLarge cap) := by
  induction chunks generalizing size file with
  | nil => simp [spoolLoop, hending, hsize]
  | cons chunk chunks ih =>
    obtain ⟨hwrite, hrest⟩ := List.forall_mem_cons.1 hwritten
    simp only [spoolLoop, List.map_cons, List.sum_cons]
    by_cases hbig : chunk.bytes.length > cap - size
    · rw [if_pos hbig, if_neg (by omega)]
    · rw [if_neg hbig, ioResult_ok.2 hwrite, ← Nat.add_assoc]
      exact ih _ _ hrest (by omega)

/-! ## The cap -/

/-- A body is accepted if it fits, whole and with its size; otherwise no more than fits has been written. -/
structure SpoolsExactly (cap : ℤ) (body : FileBody) : Prop where
  accepted : (∃ size, (spoolBody cap body).1 = .ok size) ↔ (body.length : ℤ) ≤ max cap 0
  whole : ∀ size, (spoolBody cap body).1 = .ok size → size = body.length ∧ (spoolBody cap body).2 = body.bytes
  refused : max cap 0 < body.length → (spoolBody cap body).1 = .error (AppError.tooLarge (max cap 0))
  written : ((spoolBody cap body).2.length : ℤ) ≤ max cap 0

theorem FileBody.Unbroken.spoolsExactly {body : FileBody} (h : body.Unbroken) (cap : ℤ) : SpoolsExactly cap body := by
  have hmax : ((max cap 0).toNat : ℤ) = max cap 0 := Int.toNat_of_nonneg (le_max_right _ _)
  have hresult : (spoolBody cap body).1 = if body.length ≤ (max cap 0).toNat then .ok body.length
      else .error (AppError.tooLarge (max cap 0)) := by
    have := spoolLoop_fst 0 [] h.written h.readable (Nat.zero_le (max cap 0).toNat)
    rw [Nat.zero_add, hmax] at this
    exact this
  obtain ⟨hwritten, hwhole⟩ := @spoolLoop_bounds (max cap 0).toNat body.ending body.chunks [] (Nat.zero_le _)
  refine ⟨?_, fun size hsize => ?_, fun hbig => ?_, ?_⟩
  · rw [hresult]
    by_cases hfits : body.length ≤ (max cap 0).toNat
    · rw [if_pos hfits]
      exact iff_of_true ⟨_, rfl⟩ (by omega)
    · rw [if_neg hfits]
      exact iff_of_false nofun (by omega)
  · obtain ⟨hcount, hfile⟩ := hwhole size hsize
    rw [List.nil_append] at hfile
    refine ⟨?_, hfile⟩
    rw [hcount, ← body.length_bytes]
    exact congrArg List.length hfile
  · rw [hresult, if_neg (by omega)]
  · have : (spoolBody cap body).2.length ≤ (max cap 0).toNat := hwritten
    omega

/-! ## The fields of a request -/

/-- `upload_inner` up to the last field. -/
def receiveUpload (env : Env) (caller : Caller) (req : SpoolRequest) : Handler (Admission × SpoolForm) := do
  let admission ← admitUpload env caller req.limiterAllows
  let read := (spoolFields admission.cap req.ending req.fields ⟨none, none, fun _ => none⟩ []).1
  let form ← check (read.mapError Prod.fst)
  pure (admission, form)

/-- **The handler begins with it.** -/
theorem spooledUpload_receive (env : Env) (caller : Caller) (req : SpoolRequest) :
    Prod.fst <$> spooledUpload env caller req =
      (receiveUpload env caller req >>= fun received =>
        finishUpload env caller req received.1 received.2.form).run := by
  unfold spooledUpload receiveUpload
  simp only [bind_assoc, pure_bind, ExceptT.run_bind, map_bind]
  refine congrArg _ (funext fun r => ?_)
  cases r with
  | error e => rfl
  | ok admission =>
    dsimp only
    generalize spoolFields admission.cap req.ending req.fields ⟨none, none, fun _ => none⟩ [] = read
    match read with
    | (.error (e, guard), files) => rfl
    | (.ok form, files) =>
      simp only [map_bind, map_pure, bind_pure]
      rfl

/-- What a field leaves in the form fits the cap. -/
def Fits (cap : ℤ) (form : SpoolForm) : Prop :=
  ∀ spooled, form.spooled = some spooled → (spooled.bytes.length : ℤ) ≤ max cap 0

theorem Fits.mono {cap cap' : ℤ} {form : SpoolForm} (h : Fits cap form) (hcap : cap ≤ cap') : Fits cap' form := by
  intro spooled hspooled
  have := h spooled hspooled
  omega

theorem spoolFileField_fits {cap : ℤ} {body : FileBody} {files : SpoolFiles} {spooled : SpooledUpload}
    (h : (spoolFileField cap body files).1 = .ok spooled) : (spooled.bytes.length : ℤ) ≤ max cap 0 := by
  cases hopen : body.opening with
  | error e =>
    unfold spoolFileField at h
    rw [hopen] at h
    cases h
  | ok u =>
    rw [spoolFileField_loop hopen] at h
    cases hsize : (spoolBody cap body).1 with
    | error e =>
      rw [hsize] at h
      cases h
    | ok size =>
      rw [hsize] at h
      cases h
      have : (spoolBody cap body).2.length ≤ (max cap 0).toNat :=
        (@spoolLoop_bounds (max cap 0).toNat body.ending body.chunks [] (Nat.zero_le _)).1
      show ((spoolBody cap body).2.length : ℤ) ≤ _
      omega

/-- **Whatever the fields are**, the form that is read of them fits. -/
theorem spoolFields_fits {cap : ℤ} {ending : Except String Unit} (fields : List MultipartField)
    {form form' : SpoolForm} {files : SpoolFiles} (hform : Fits cap form)
    (h : (spoolFields cap ending fields form files).1 = .ok form') : Fits cap form' := by
  induction fields generalizing form files with
  | nil =>
    cases ending with
    | ok u =>
      cases h
      exact hform
    | error msg => cases h
  | cons field fields ih =>
    cases field with
    | file name body =>
      simp only [spoolFields] at h
      rcases hfield : spoolFileField cap body files with ⟨e | upload, files'⟩
      · rw [hfield] at h
        cases h
      · rw [hfield] at h
        refine ih ?_ h
        rintro _ ⟨⟩
        exact spoolFileField_fits (congrArg Prod.fst hfield)
    | text field value =>
      have hstep : ∀ name value, (spoolFields cap ending fields ⟨form.filename, form.spooled,
          Function.update form.text name (some value)⟩ files).1 = .ok form' → Fits cap form' := fun name value h =>
        @ih ⟨form.filename, form.spooled, Function.update form.text name (some value)⟩ files hform h
      cases value with
      | ok value =>
        cases field with
        | other => exact ih hform h
        | _ => exact hstep _ value h
      | error msg =>
        cases field with
        | other => exact ih hform h
        | _ => cases h

/-! ## The limits of a request -/

/-- `role_cap`: the file cap of the caller. -/
def Admission.roleCap (admission : Admission) : ℤ :=
  if admission.user.isSome then admission.limits.maxFileBytes
  else min admission.limits.maxFileBytes admission.cfg.anonymousMaxBytes

/-- The operations of a request are carried out in some states of the instance; others act in between. -/
def inStates (mayFail : Op → Prop) (seen : List World) (op : Op) (r : op.Res) (seen' : List World) : Prop :=
  ∃ w w', exec mayFail w op r w' ∧ seen' = w :: seen

/-- The cap is the file cap, and not more than was left of the quota in one of the states. -/
structure Admission.Capped (admission : Admission) (seen : List World) : Prop where
  file : admission.cap ≤ admission.roleCap
  quota : ∀ user quota, admission.user = some user → admission.limits.quotaBytes = some quota →
    ∃ w ∈ seen, admission.cap ≤ max (quota - w.used user.id) 0

theorem ends_quotaRemaining {mayFail : Op → Prop} (user : Option User) (limits : EffectiveLimits) :
    Ends (inStates mayFail) (fun remaining seen => ∀ u quota, user = some u → limits.quotaBytes = some quota →
      ∃ w ∈ seen, remaining = some (max (quota - w.used u.id) 0)) (quotaRemaining user limits) := by
  intro seen
  unfold quotaRemaining
  cases user with
  | none => exact nofun
  | some user =>
    cases hquota : limits.quotaBytes with
    | none => exact fun _ _ _ => nofun
    | some quota =>
      refine (obeys_bind _ _).2 (obeys_ask.2 ⟨trivial, fun r seen' hr => ⟨?_, fun _ _ => trivial⟩⟩)
      rintro used rfl
      refine (obeys_bind _ _).2 (obeys_reject.2 ⟨fun _ => trivial, fun _ => obeys_pure.2 ?_⟩)
      rintro _ _ ⟨⟩ ⟨⟩
      obtain ⟨w, w', hexec, rfl⟩ := hr
      refine ⟨w, List.mem_cons_self, ?_⟩
      rcases hexec with h | ⟨-, h⟩
      · rw [answer_storageUsed] at h
        cases h
        rfl
      · cases h

theorem ends_admitUpload {mayFail : Op → Prop} (env : Env) (caller : Caller) (limiterAllows : Bool) :
    Ends (inStates mayFail) Admission.Capped (admitUpload env caller limiterAllows) := by
  unfold admitUpload
  refine .skip fun identity => .skip fun _ => .skip fun cfg => .skip fun _ => .skip fun _ => .skip fun limits => ?_
  refine (ends_quotaRemaining (identity.map Identity.user) limits).bind fun remaining seen hremaining => ?_
  refine obeys_pure.2 ⟨?_, fun user quota huser hquota => ?_⟩
  · cases remaining with
    | none => exact le_rfl
    | some left => exact min_le_left _ _
  · obtain ⟨w, hw, rfl⟩ := hremaining user quota huser hquota
    exact ⟨w, hw, min_le_right _ _⟩

/-- What is accepted fits the file cap, and what was left of the quota in a state of the instance. -/
structure Receives (received : Admission × SpoolForm) (seen : List World) : Prop where
  file : Fits received.1.roleCap received.2
  quota : ∀ user quota, received.1.user = some user → received.1.limits.quotaBytes = some quota →
    ∃ w ∈ seen, Fits (quota - w.used user.id) received.2

theorem ends_receiveUpload {mayFail : Op → Prop} (env : Env) (caller : Caller) (req : SpoolRequest) :
    Ends (inStates mayFail) Receives (receiveUpload env caller req) := by
  unfold receiveUpload
  refine (ends_admitUpload env caller req.limiterAllows).bind fun admission seen hcapped => ?_
  refine (obeys_bind _ _).2 (obeys_check.2 ⟨fun _ _ => trivial, fun form hform => obeys_pure.2 ?_⟩)
  have hform : (spoolFields admission.cap req.ending req.fields ⟨none, none, fun _ => none⟩ []).1 = .ok form := by
    revert hform
    cases (spoolFields admission.cap req.ending req.fields ⟨none, none, fun _ => none⟩ []).1 with
    | error e => exact nofun
    | ok form' =>
      rintro ⟨⟩
      rfl
  have hfits : Fits admission.cap form := spoolFields_fits req.fields (by rintro _ ⟨⟩) hform
  refine ⟨hfits.mono hcapped.file, fun user quota huser hquota => ?_⟩
  obtain ⟨w, hw, hcap⟩ := hcapped.quota user quota huser hquota
  refine ⟨w, hw, fun spooled hspooled => ?_⟩
  have := hfits spooled hspooled
  omega

/-- **The cap of an upload is exact**: a file of any chunks is accepted if and only if it fits, whole and with its
size, and what the handler accepts fits the file cap of the caller and what was left of the quota. -/
theorem upload_cap_exact (env : Env) (caller : Caller) (mayFail : Op → Prop) :
    (∀ (cap : ℤ) (body : FileBody), body.Unbroken → SpoolsExactly cap body) ∧
      ∀ req, Ends (inStates mayFail) Receives (receiveUpload env caller req) :=
  ⟨fun cap _ h => h.spoolsExactly cap, fun req => ends_receiveUpload env caller req⟩

/-- Two bytes and one, as a client may send them. -/
def threeBytes : FileBody := ⟨0, .ok (), [⟨[1, 2], .ok ()⟩, ⟨[3], .ok ()⟩], .ok (), .ok ()⟩

theorem upload_cap_exact_threeBytes : SpoolsExactly 3 threeBytes ∧ SpoolsExactly 2 threeBytes ∧
    SpoolsExactly (-1) threeBytes := by
  have hbody : threeBytes.Unbroken := ⟨by decide, rfl⟩
  have hcap := (upload_cap_exact .plain ⟨0, .none⟩ fun _ => False).1
  exact ⟨hcap 3 threeBytes hbody, hcap 2 threeBytes hbody, hcap (-1) threeBytes hbody⟩

end Server
end Uwuubox
