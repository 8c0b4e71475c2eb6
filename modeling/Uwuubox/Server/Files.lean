import Uwuubox.Server.Handler

/-!
# The handlers of files

`src/routes/files.rs`: raw bytes, thumbnails, preview pages, removal and visibility, and the
worker that makes missing thumbnails; with the downloads of `src/range.rs` and the inline
policy of `src/mime.rs`.

* `raw` — with `burnRead` for the files that are read once: the content is collected first, the
  row deleted then.
* `removeFile` — `Dedupe.removeFile`, on the server.
* `ensureThumbnail` — the worker.  The preview page starts it and does not wait; it is a request
  of its own here.
-/

namespace Uwuubox
namespace Server

open Dedupe Storage Fallible

/-! ## Content types -/

/-- `application/octet-stream`. -/
def octetStream : Text :=
  ['a', 'p', 'p', 'l', 'i', 'c', 'a', 't', 'i', 'o', 'n', '/', 'o', 'c', 't', 'e', 't', '-', 's', 't',
    'r', 'e', 'a', 'm']

/-- `text/plain`. -/
def textPlain : Text := ['t', 'e', 'x', 't', '/', 'p', 'l', 'a', 'i', 'n']

/-- The images that are shown inline. -/
def inlineImages : List Text :=
  [['i', 'm', 'a', 'g', 'e', '/', 'p', 'n', 'g'], imageJpeg, ['i', 'm', 'a', 'g', 'e', '/', 'g', 'i', 'f'],
    ['i', 'm', 'a', 'g', 'e', '/', 'w', 'e', 'b', 'p'], ['i', 'm', 'a', 'g', 'e', '/', 'a', 'v', 'i', 'f']]

/-- `audio/`. -/
def audioPrefix : Text := ['a', 'u', 'd', 'i', 'o', '/']

/-- `should_inline` of a stored type, with no bytes to look at. -/
def shouldInline (mime : Text) : Bool :=
  mime ∈ inlineImages || thumbnailedMime mime || audioPrefix.isPrefixOf mime || mime = textPlain

/-- `HeaderValue::from_str`. -/
def isHeaderValue (t : Text) : Bool := (utf8 t).all fun b => (32 ≤ b && b ≠ 127) || b == 9

/-- `download_headers`. -/
def downloadHeaders (file : File) : Except Abort (List (String × String)) :=
  let inline := shouldInline file.mimeStored
  let contentType := if inline then file.mimeStored else octetStream
  if !isHeaderValue contentType then .error AppError.somethingWentWrong
  else
    let headers := [("content-type", String.ofList contentType),
      ("x-content-type-options", "nosniff"), ("content-security-policy", "sandbox"),
      ("cache-control", if file.burnAfterRead || file.accessPasswordHash.isSome then
        "private, no-store" else "public, max-age=86400")]
    if inline then .ok headers
    else match sanitizeFilename file.originalName with
      | none => .error .panic
      | some name =>
        if !isHeaderValue name then .error AppError.somethingWentWrong
        else .ok (headers ++ [("content-disposition", s!"attachment; filename=\"{String.ofList name}\"")])

/-! ## Ranges -/

/-- `range::response_stream`; `range::response` is the case of a body of known length. -/
def Range.responseStream (outcome : RangeOutcome) (fullLen contentLen : ℕ) (body : List Piece)
    (brokenOff : Option StorageError) : Response :=
  let accept := ("accept-ranges", "bytes")
  match outcome with
  | .full => ⟨200, [accept, ("content-length", toString contentLen)], body, brokenOff⟩
  | .satisfiable start stop =>
    ⟨206, [accept, ("content-range", s!"bytes {start}-{stop}/{fullLen}"),
      ("content-length", toString contentLen)], body, brokenOff⟩
  | .invalid => ⟨400, [accept, ("content-length", "0")], [], none⟩
  | .unsatisfiable => ⟨416, [accept, ("content-range", s!"bytes */{fullLen}"), ("content-length", "0")],
    [], none⟩

/-- `range::response`. -/
def Range.response (outcome : RangeOutcome) (fullLen : ℕ) (item : Item) (bytes : Bytes) : Response :=
  Range.responseStream outcome fullLen bytes.length [.content item bytes] none

/-- The part of a collected content that a range asks for. -/
def RangeOutcome.slice (outcome : RangeOutcome) (all : Bytes) : Bytes :=
  match outcome with
  | .satisfiable start stop => (all.drop start).take (stop + 1 - start)
  | .full | .invalid | .unsatisfiable => all

/-- Headers added to a response. -/
def Response.withHeaders (response : Response) (headers : List (String × String)) : Response :=
  { response with headers := response.headers ++ headers }

/-- `raw_response` and `raw_response_stream`. -/
def rawResponse (file : File) (response : Response) : Except Abort Response :=
  match downloadHeaders file with
  | .ok headers => .ok (response.withHeaders headers)
  | .error e => .error e

/-! ## Reading -/

/-- `load_live_file`. -/
def loadLiveFile (segment : Text) : Handler File := do
  let core := stripToCore segment
  reject (core.isEmpty || isReserved core) AppError.notFound
  let file ← ask (.findFile core)
  let file ← orThrow file AppError.notFound
  let now ← ask .now
  reject (expired file.expiresAt now) AppError.notFound
  pure file

/-- `is_unlocked`, of files and of pastes. -/
def isUnlocked (sid : SessionId) (accessPasswordHash : Option Text) (core : Core) : Query Bool :=
  if accessPasswordHash.isNone then pure true
  else do
    match ← Prog.perform (Op.session sid) with
    | .ok session => pure (core ∈ session.unlocked)
    | .error _ => pure false

/-- The password of a raw read: an unlocked session, or the `password` of the query. -/
def checkPassword (env : Env) (sid : SessionId) (accessPasswordHash : Option Text) (core : Core)
    (password : Option Text) : Handler Unit :=
  match accessPasswordHash with
  | none => pure ()
  | some hash => do
    let sessionUnlocked ← always (isUnlocked sid accessPasswordHash core)
    let queryUnlocked := password.any fun password => env.verifyPassword hash password
    reject (!sessionUnlocked && !queryUnlocked) AppError.unauthorized

/-- The `Range` header, which has to be a string. -/
def rangeHeader (headers : Headers) : Except Abort (Option Text) :=
  match headers.range with
  | none => .ok none
  | some value =>
    match toStr value with
    | some text => .ok (some text)
    | none => .error (AppError.badRequest "invalid Range header")

/-- `collect_stream`. -/
def collectStream (delivery : Delivery) : Except Abort Bytes :=
  match delivery.failure with
  | none => .ok delivery.bytes
  | some e => .error (AppError.from' (.storage e))

/-- `remove_file`. -/
def removeFile (core : Core) : Handler Bool := do
  let removed ← always (storage (Dedupe.removeFile core))
  check (removed.mapError fun e => AppError.ofDedupe e)

/-- `raw` of a file that is read once.  The content is collected first, so that a failing store
does not consume the read; the `DELETE` then decides who gets it. -/
def burnRead (file : File) (outcome : RangeOutcome) : Handler Response := do
  let delivery ← ask (.getStream file.storageKey file.sizeBytes)
  let all ← check (collectStream delivery)
  reject (all.length ≠ file.sizeBytes) AppError.somethingWentWrong
  let removed ← removeFile file.idCore
  reject (!removed) AppError.notFound
  check (rawResponse file
    (Range.response outcome file.sizeBytes (.file file.idCore) (outcome.slice all)))

/-- The stream of a content, and how long it is to be. -/
def openStream (file : File) (outcome : RangeOutcome) : Handler (ℕ × Delivery) :=
  match outcome with
  | .full => do
    let delivery ← ask (.getStream file.storageKey file.sizeBytes)
    pure (file.sizeBytes, delivery)
  | .satisfiable start stop => do
    let delivery ← ask (.getRangeStream file.storageKey start (stop - start + 1))
    pure (stop - start + 1, delivery)
  | .invalid | .unsatisfiable => throw .panic

/-- `raw` of any other file: the store is streamed to the client. -/
def streamRead (file : File) (outcome : RangeOutcome) : Handler Response := do
  let (contentLen, delivery) ← openStream file outcome
  check (rawResponse file (Range.responseStream outcome file.sizeBytes contentLen
    [.content (.file file.idCore) delivery.bytes] delivery.failure))

/-- `raw`. -/
def raw (env : Env) (caller : Caller) (password : Option Text) (segment : Text) : Handler Response := do
  let file ← loadLiveFile segment
  checkPassword env caller.session file.accessPasswordHash file.idCore password
  let header ← check (rangeHeader caller.headers)
  let outcome := Range.parse header file.sizeBytes
  reject (outcome = .invalid) (AppError.badRequest "invalid Range header")
  if outcome = .unsatisfiable then
    check (rawResponse file (Range.response outcome file.sizeBytes (.file file.idCore) []))
  else if file.burnAfterRead then burnRead file outcome
  else streamRead file outcome

/-- `thumb`. -/
def thumb (segment : Text) : Handler Response := do
  let core := stripToCore segment
  reject (core.isEmpty || isReserved core) AppError.notFound
  let file ← ask (.findFile core)
  let file ← orThrow file AppError.notFound
  let now ← ask .now
  reject (expired file.expiresAt now || file.burnAfterRead || file.accessPasswordHash.isSome)
    AppError.notFound
  let key ← orThrow file.thumbKey AppError.notFound
  let bytes ← ask (.get key)
  pure ((Range.response .full bytes.length (.file file.idCore) bytes).withHeaders
    [("content-type", "image/jpeg"), ("cache-control", "public, max-age=31536000, immutable"),
      ("x-content-type-options", "nosniff")])

/-- `TEXT_PREVIEW_LIMIT`. -/
def textPreviewLimit : ℕ := 262144

/-- The text of a preview page: of short text files that neither burn nor are locked. -/
def textSnippet (env : Env) (file : File) (locked : Bool) : Query (List Piece) :=
  if !file.burnAfterRead && !locked && file.mimeStored = textPlain &&
      file.sizeBytes ≤ textPreviewLimit then do
    match ← Prog.perform (Op.get file.storageKey) with
    | .ok bytes => pure [.content (.file file.idCore) (utf8 ((env.utf8Lossy bytes).take 20000))]
    | .error _ => pure []
  else pure []

/-- `preview`. -/
def preview (env : Env) (caller : Caller) (segment : Text) : Handler Response := do
  let _user ← always (currentUser env caller)
  let file ← loadLiveFile segment
  let _cfg ← ask .instanceConfig
  let _owner ← ownerOf file.ownerId
  let unlocked ← always (isUnlocked caller.session file.accessPasswordHash file.idCore)
  let snippet ← always (textSnippet env file (file.accessPasswordHash.isSome && !unlocked))
  reject (!env.renders "file") AppError.somethingWentWrong
  pure (.html 200 "file" snippet)

/-- The `SEE_OTHER` of an unlocked item. -/
def unlockItem (env : Env) (sid : SessionId) (accessPasswordHash : Option Text) (core : Core)
    (password : Text) : Handler Unit :=
  match accessPasswordHash with
  | none => pure ()
  | some hash => do
    reject (!env.verifyPassword hash password) AppError.unauthorized
    ask (.setSession sid fun session => { session with unlocked := core :: session.unlocked })

/-- `unlock`. -/
def unlock (env : Env) (sid : SessionId) (segment password : Text) : Handler Response := do
  let file ← loadLiveFile segment
  unlockItem env sid file.accessPasswordHash file.idCore password
  pure (.seeOther (['/', 'f', '/'] ++ file.idCore.val ++ file.ext.val))

/-! ## Thumbnails -/

/-- `ensure_thumbnail`; `frame` is what `generate_video_thumb` gives, if it succeeds. -/
def ensureThumbnail (env : Env) (file : File) (frame : Option Content) : Query (Option SafeKey) :=
  match file.thumbKey with
  | some key => pure (some key)
  | none =>
    if !thumbnailedMime file.mimeStored || file.burnAfterRead || file.accessPasswordHash.isSome then
      pure none
    else do
      match ← Prog.perform (Op.getStream file.storageKey file.sizeBytes) with
      | .error _ => pure none
      | .ok delivery =>
        match delivery.failure, frame with
        | none, some jpeg => do
          match ← storage (storeThumbnail env.sha256 file.idCore jpeg) with
          | none => pure none
          | some key =>
            match ← Prog.perform (Op.linkThumb file.idCore key) with
            | .error _ => pure none
            | .ok linked =>
              if linked = 0 then do
                -- another backfill was first: the reference is given back
                storage (rollbackThumbnail key)
                match ← Prog.perform (Op.findFile file.idCore.val) with
                | .ok row => pure (row.bind fun row => row.thumbKey)
                | .error _ => pure none
              else pure (some key)
        | _, _ => pure none

/-! ## Removal and visibility -/

/-- `delete_file`. -/
def deleteFile (env : Env) (caller : Caller) (segment : Text) (deleteToken : Option Text) :
    Handler Response := do
  let user ← always (currentUser env caller)
  let core := stripToCore segment
  let row ← ask (.findFile core)
  let row ← orThrow row AppError.notFound
  reject (!checkDeleteAccess env user row.ownerId row.deleteTokenHash deleteToken)
    (AppError.forbidden "not allowed")
  let _ ← removeFile row.idCore
  pure (.json [("deleted", .text core)])

/-- `set_file_visibility`. -/
def setFileVisibility (core : Text) (userId : Uuid) (visibility : Text) : Handler Unit := do
  let visibility ← orThrow (Visibility.parse visibility)
    (AppError.badRequest "visibility must be public|unlisted")
  let row ← ask (.findFile core)
  let row ← orThrow row AppError.notFound
  reject (row.ownerId ≠ some userId) AppError.notFound
  ask (.setFileVisibility core visibility)

/-- `toggle_file`. -/
def toggleFile (env : Env) (caller : Caller) (segment visibility : Text) : Handler Response := do
  let user ← always (currentUser env caller)
  let user ← orThrow user AppError.unauthorized
  let core := stripToCore segment
  setFileVisibility core user.id (trim visibility)
  pure (.json [("id_core", .text core), ("visibility", .text (trim visibility))])

end Server
end Uwuubox
