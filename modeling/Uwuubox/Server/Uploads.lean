import Uwuubox.Server.Pastes

/-!
# Uploads

`upload_inner` of `src/routes/upload.rs` from its first line: who may upload, the fields of the
form, the checks, and `Dedupe.uploadInner` for the rest.

* `readField` — one multipart field; the last one of a name wins.
* `uploadPlan` — every check between the form and the claim of a core.
* `storeUpload` — `Dedupe.uploadInner` with the other columns of the row.  The file name is
  sanitized where the `INSERT` is built, after the bytes have been stored; a panic there drops
  the request.
-/

namespace Uwuubox
namespace Server

open Dedupe Storage Fallible

/-! ## The form -/

/-- The text fields of an upload. -/
inductive TextField where
  | expiresInSecs
  | visibility
  | burnAfterRead
  | accessPassword
  | stripExif
  | other
deriving DecidableEq

/-- A field of the multipart body. -/
inductive Field where
  | file (name : Option Text) (bytes : Bytes)
  /-- A file whose chunks cannot be read. -/
  | brokenFile (msg : String)
  /-- A text field; an error where it is not a string. -/
  | text (field : TextField) (value : Except String Text)
  | malformed (msg : String)

/-- What has been read of the form. -/
structure UploadForm where
  filename : Option Text
  spooled : Option Bytes
  text : TextField → Option Text

/-- The name of a field in messages. -/
def TextField.label : TextField → String
  | expiresInSecs => "bad expires_in_secs"
  | visibility => "bad visibility"
  | burnAfterRead => "bad burn_after_read"
  | accessPassword => "bad access_password field"
  | stripExif => "bad strip_exif"
  | other => ""

/-- `upload`. -/
def uploadName : Text := ['u', 'p', 'l', 'o', 'a', 'd']

/-- One turn of the loop over the fields, with the cap of `spool_file_field`. -/
def readField (cap : ℤ) (form : UploadForm) : Field → Except Abort UploadForm
  | .file name bytes =>
    if (bytes.length : ℤ) > max cap 0 then .error (AppError.tooLarge (max cap 0))
    else .ok { form with filename := some (name.getD uploadName), spooled := some bytes }
  | .brokenFile msg => .error (AppError.badRequest s!"unreadable file field: {msg}")
  | .text .other _ => .ok form
  | .text field (.ok value) => .ok { form with text := Function.update form.text field (some value) }
  | .text field (.error msg) => .error (AppError.badRequest s!"{field.label}: {msg}")
  | .malformed msg => .error (AppError.badRequest s!"malformed multipart: {msg}")

/-- The loop over the fields. -/
def readFields (cap : ℤ) (fields : List Field) : Except Abort UploadForm :=
  fields.foldlM (readField cap) ⟨none, none, fun _ => none⟩

/-- A request for an upload, with what the environment contributes to it. -/
structure UploadRequest where
  fields : List Field
  /-- Whether `anon_limiter` lets an anonymous caller pass. -/
  limiterAllows : Bool
  /-- What the five calls of `generate_core` draw. -/
  draws : Fin 5 → Core
  /-- What `generate_video_thumb` gives, if it succeeds. -/
  frame : Option Content
  salt : Text
  deleteToken : Text

/-! ## Checks -/

/-- `SNIFF_PREFIX`. -/
def sniffPrefix : ℕ := 32 * 1024

/-- `STRIP_MAX_BYTES`. -/
def stripMaxBytes : ℕ := 64 * 1024 * 1024

/-- `is_strippable_image`. -/
def isStrippableImage (sniffed : Text) : Bool :=
  sniffed = imageJpeg || sniffed = ['i', 'm', 'a', 'g', 'e', '/', 'p', 'n', 'g'] ||
  sniffed = ['i', 'm', 'a', 'g', 'e', '/', 'w', 'e', 'b', 'p']

/-- `application/`. -/
def applicationPrefix : Text := ['a', 'p', 'p', 'l', 'i', 'c', 'a', 't', 'i', 'o', 'n', '/']

/-- `application/zip`. -/
def applicationZip : Text := applicationPrefix ++ ['z', 'i', 'p']

/-- `is_upload_blocked`. -/
def isUploadBlocked (mime : Text) : Bool :=
  mime = textHtml ||
  (stripPrefix applicationPrefix mime).any fun rest => rest ∈
    [['x', 'h', 't', 'm', 'l', '+', 'x', 'm', 'l'], ['x', '-', 's', 'h'],
      ['x', '-', 'm', 's', 'd', 'o', 'w', 'n', 'l', 'o', 'a', 'd'],
      ['x', '-', 'e', 'x', 'e', 'c', 'u', 't', 'a', 'b', 'l', 'e'],
      ['x', '-', 'm', 'a', 'c', 'h', '-', 'b', 'i', 'n', 'a', 'r', 'y'], ['x', '-', 'e', 'l', 'f']]

/-- `normalize_ext`. -/
def normalizeExt (env : Env) (originalName : Text) : Ext :=
  let base := originalName.rtakeWhile fun c => c ≠ '/' && c ≠ '\\'
  let tail := base.rtakeWhile (· ≠ '.')
  -- a dot, and something before it
  if base.length ≤ tail.length + 1 then ⟨[], isExt_nil⟩
  else if h : isExt ('.' :: env.toLowercase tail) = true then ⟨_, h⟩
  else ⟨[], isExt_nil⟩

/-- The metadata of images is stripped before anything else looks at the bytes. -/
def stripMetadata (env : Env) (strip : Bool) (bytes : Bytes) : Except Abort (Bytes × Bool) :=
  if strip && isStrippableImage (env.sniffMime (bytes.take sniffPrefix)) then
    if bytes.length > stripMaxBytes then .error (AppError.badRequest
      "image is too large for metadata stripping; retry with it disabled")
    else (env.stripImageMetadata bytes).mapError fun _ =>
      AppError.badRequest "could not strip metadata from malformed image"
  else .ok (bytes, false)

/-- The types that are refused. -/
def checkMime (env : Env) (cfg : InstanceConfig) (sniffed : Text) (bytes : Bytes) : Except Abort Unit :=
  if isUploadBlocked sniffed then .error (AppError.unsupportedMedia sniffed)
  else if cfg.blockEncryptedArchives && sniffed = applicationZip then
    match env.zipHasEncryptedEntry bytes with
    | .ok true => .error (AppError.unsupportedMedia
        (['e', 'n', 'c', 'r', 'y', 'p', 't', 'e', 'd', ' '] ++ applicationZip))
    | .ok false => .ok ()
    | .error _ => .error (AppError.badRequest "invalid zip archive")
  else .ok ()

/-- `clean` and `skipped`. -/
def scanStatus (env : Env) (cfg : InstanceConfig) (filename : Text) (bytes : Bytes) (sniffed : Text) :
    Except Abort Text :=
  let skipped : Text := ['s', 'k', 'i', 'p', 'p', 'e', 'd']
  if cfg.scanUploads then
    match env.scan filename bytes sniffed with
    | .clean => .ok ['c', 'l', 'e', 'a', 'n']
    | .skipped => .ok skipped
    | .infected reason => .error (AppError.unprocessable reason)
  else .ok skipped

/-- What is left of an upload once everything is checked. -/
structure UploadPlan where
  filename : Text
  bytes : Bytes
  exifStripped : Bool
  sniffed : Text
  /-- The columns, but for the name. -/
  columns : Text → FileColumns

/-- From the form to the claim of a core. -/
def uploadPlan (env : Env) (cfg : InstanceConfig) (limits : EffectiveLimits) (user : Option User)
    (req : UploadRequest) (form : UploadForm) : Handler UploadPlan := do
  let filename := form.filename.getD uploadName
  let bytes ← orThrow form.spooled (AppError.badRequest "missing file field")
  reject bytes.isEmpty (AppError.badRequest "empty file")
  let strip ← check (formBool (form.text .stripExif) ((user.map User.stripExifDefault).getD false)
    "strip_exif")
  let (bytes, exifStripped) ← check (stripMetadata env strip bytes)
  let sniffed := env.sniffMime (bytes.take sniffPrefix)
  check (checkMime env cfg sniffed bytes)
  let visibility ← check (parseVisibility (form.text .visibility) user.isSome limits.canPublishPublic
    "your role cannot publish public uploads")
  let burnAfterRead ← check (formBool (form.text .burnAfterRead) false "burn_after_read")
  reject (burnAfterRead && !limits.canBurn)
    (AppError.badRequest "burn-after-read is not allowed for your role")
  let accessPasswordHash ← check (parseAccessPassword env req.salt (form.text .accessPassword))
  let requested ← check ((parseExpiryParam (form.text .expiresInSecs)).mapError badExpiry)
  let expiresAt ← newExpiry env limits requested (cfg.allowNever user.isSome)
  let scanStatus ← check (scanStatus env cfg filename bytes sniffed)
  pure {
    filename := filename
    bytes := bytes
    exifStripped := exifStripped
    sniffed := sniffed
    columns := fun originalName => {
      ownerId := user.map User.id
      originalName := originalName
      visibility := visibility
      burnAfterRead := burnAfterRead
      accessPasswordHash := accessPasswordHash
      scanStatus := scanStatus
      expiresAt := expiresAt
      deleteTokenHash := some (env.deleteTokenHash req.deleteToken) } }

/-- What remains of the quota, if there is one. -/
def quotaRemaining (user : Option User) (limits : EffectiveLimits) : Handler (Option ℤ) :=
  match user, limits.quotaBytes with
  | some user, some quota => do
    let used ← ask (.storageUsed user.id)
    reject (used + 1 > quota) (AppError.tooLarge (max (quota - used) 0))
    pure (some (max (quota - used) 0))
  | _, _ => pure none

/-! ## Storing -/

/-- The upload as `Dedupe.uploadInner` sees it. -/
def UploadPlan.upload (env : Env) (plan : UploadPlan) (content : Content) (req : UploadRequest) :
    Upload where
  content := content
  ext := normalizeExt env plan.filename
  sniffed := plan.sniffed
  burnAfterRead := (plan.columns []).burnAfterRead
  hasPassword := (plan.columns []).accessPasswordHash.isSome
  draws := req.draws
  frame := req.frame

/-- How the operations of an upload are carried out.  The name is sanitized when the `INSERT` is
built. -/
def storeOp (filename : Text) (columns : Text → FileColumns) : (op : DbOp) → Handler op.Res
  | .insertFile row => do
    let originalName ← orThrow (sanitizeFilename filename) .panic
    perform (Op.insertFile row (columns originalName))
  | op => perform (Op.storage op)

/-- From the claim of a core to the row. -/
def storeUpload (env : Env) (plan : UploadPlan) (req : UploadRequest) : Handler Core :=
  if h : plan.bytes.length < 2 ^ 63 then do
    let stored ← (uploadInner env.sha256 (plan.upload env ⟨plan.bytes, h⟩ req)).interp
      (storeOp plan.filename plan.columns)
    check (stored.mapError fun e => AppError.ofDedupe e)
  else do
    let _core ← claimNewCore req.draws
    throw (Abort.error AppError.somethingWentWrong)

/-- `upload_inner`. -/
def upload (env : Env) (caller : Caller) (req : UploadRequest) : Handler Response := do
  let identity ← always (currentIdentity env caller)
  requireScopeIfBearer caller identity .upload
  let user := identity.map Identity.user
  let cfg ← ask .instanceConfig
  reject (user.isNone && !cfg.allowAnonymous) (AppError.forbidden "anonymous uploads are disabled")
  reject (user.isNone && !req.limiterAllows) AppError.rateLimited
  let limits ← effectiveLimits cfg user
  let roleCap := if user.isSome then limits.maxFileBytes
    else min limits.maxFileBytes cfg.anonymousMaxBytes
  let remaining ← quotaRemaining user limits
  let form ← check (readFields ((remaining.map (min roleCap)).getD roleCap) req.fields)
  let plan ← uploadPlan env cfg limits user req form
  let core ← storeUpload env plan req
  let path := core.val ++ (normalizeExt env plan.filename).val
  let previewUrl := env.baseUrl ++ ['/', 'f', '/'] ++ path
  if wantsHtml caller.headers then pure (.seeOther previewUrl)
  else pure (.json [("id_core", .text core.val), ("preview_url", .text previewUrl),
    ("raw_url", .text (env.baseUrl ++ ['/'] ++ path)), ("expires_at", .time (plan.columns []).expiresAt),
    ("delete_token", .text req.deleteToken), ("exif_stripped", .flag plan.exifStripped)])

end Server
end Uwuubox
