import Uwuubox.Server.Files

/-!
# The handlers of pastes

`src/routes/pastes.rs`: creation from JSON or a form, pages, raw bytes, removal and visibility.

* `PasteBody`, `parseInput` — the two encodings of a new paste.
* `createPaste` — every check before the core is claimed and the row inserted.
* `rawPaste` — a paste that is read once is deleted before it is sent.
-/

namespace Uwuubox
namespace Server

open Dedupe Storage Fallible

/-! ## Input -/

/-- A JSON value of `expires_in_secs`. -/
inductive JsonExpiry where
  | null
  /-- A number, as far as it is an `i64`. -/
  | number (secs : Option ℤ)
  | string (s : Text)
  | other

/-- `parse_expiry_json`. -/
def parseExpiryJson : JsonExpiry → Except Unit ExpiryRequest
  | .null => .ok .default
  | .number (some secs) => .ok (if secs ≤ 0 then .never else .inSecs secs)
  | .number none => .error ()
  | .string s => parseExpiryParam (some s)
  | .other => .error ()

/-- The fields that both encodings have. -/
structure PasteFields where
  title : Option Text
  body : Option Text
  language : Option Text
  format : Option Text
  visibility : Option Text
  accessPassword : Option Text

/-- The body of a request for a new paste, decoded. -/
inductive PasteBody where
  | malformed (msg : String)
  | json (fields : PasteFields) (expiresInSecs : JsonExpiry) (burnAfterRead : Option Bool)
  | form (fields : PasteFields) (expiresInSecs burnAfterRead : Option Text)

/-- `PasteInput`. -/
structure PasteInput extends PasteFields where
  expiresInSecs : ExpiryRequest
  burnAfterRead : Bool

/-- `form_bool`, and `parse_bool_field` with its default. -/
def formBool (value : Option Text) (default : Bool) (field : String) : Except Abort Bool :=
  match value.map trim with
  | none | some [] => .ok default
  | some word =>
    match boolWord word with
    | some b => .ok b
    | none => .error (AppError.badRequest s!"{field} must be a boolean")

/-- `bad expires_in_secs`. -/
def badExpiry : Unit → Abort := fun _ => AppError.badRequest "bad expires_in_secs"

/-- `parse_input`. -/
def parseInput : PasteBody → Except Abort PasteInput
  | .malformed msg => .error (AppError.badRequest msg)
  | .json fields expiry burn => do
    let expiry ← (parseExpiryJson expiry).mapError badExpiry
    .ok ⟨fields, expiry, burn.getD false⟩
  | .form fields expiry burn => do
    let expiry ← (parseExpiryParam expiry).mapError badExpiry
    let burn ← formBool burn false "burn_after_read"
    .ok ⟨fields, expiry, burn⟩

/-- `markdown`. -/
def markdownWord : Text := ['m', 'a', 'r', 'k', 'd', 'o', 'w', 'n']

/-- `code`. -/
def codeWord : Text := ['c', 'o', 'd', 'e']

/-- The `format` field. -/
def parseFormat (value : Option Text) : Except Abort Format :=
  let word := (value.map trim).getD []
  if word = [] ∨ word = codeWord then .ok .code
  else if word = markdownWord then .ok .markdown
  else .error (AppError.badRequest "format must be code|markdown")

/-- The `visibility` field of an upload or a paste: publishing needs the right to, unless nobody
is logged in. -/
def parseVisibility (value : Option Text) (authed canPublishPublic : Bool) (refusal : String) :
    Except Abort Visibility :=
  let word := (value.map trim).getD []
  if word = [] ∨ word = unlistedWord then .ok .unlisted
  else if word = publicWord then
    if authed && !canPublishPublic then .error (AppError.forbidden refusal) else .ok .published
  else .error (AppError.badRequest s!"bad visibility: {(String.ofList word).quote}")

/-- The `access_password` field, hashed. -/
def parseAccessPassword (env : Env) (salt : Text) (value : Option Text) : Except Abort (Option Text) :=
  match value with
  | none | some [] => .ok none
  | some password =>
    if ¬ (8 ≤ password.length ∧ password.length ≤ 72) then
      .error (AppError.badRequest "access_password must be 8-72 characters")
    else match hashPassword env salt password with
      | .ok hash => .ok (some hash)
      | .error msg => .error (AppError.badRequest msg)

/-- The `title` field. -/
def parseTitle (value : Option Text) : Except Abort (Option Text) :=
  let title := (value.map trim).filter fun title => !title.isEmpty
  if title.any fun title => title.length > 140 then
    .error (AppError.badRequest "title must be <= 140 characters")
  else .ok title

/-! ## Creation -/

/-- A request for a new paste, with what the environment contributes to it. -/
structure PasteRequest where
  body : PasteBody
  /-- What the five calls of `generate_core` draw. -/
  draws : Fin 5 → Core
  salt : Text
  deleteToken : Text

/-- The core of a new item. -/
def claimNewCore (draws : Fin 5 → Core) : Handler Core := do
  let claimed ← always (storage (claimCore (List.ofFn draws)))
  let claimed ← check (claimed.mapError fun e => Abort.error (.from' e))
  orThrow claimed AppError.somethingWentWrong

/-- The row of a new paste, once its input is read; every refusal comes before the first
write. -/
def pasteColumns (env : Env) (limits : EffectiveLimits) (allowNever : Bool) (user : Option User)
    (req : PasteRequest) : Handler (Core → PasteRow) := do
  let input ← check (parseInput req.body)
  let body := input.body.getD []
  reject (body.isEmpty) (AppError.badRequest "empty paste")
  reject ((utf8Len body : ℤ) > limits.maxPasteBytes) (AppError.tooLarge limits.maxPasteBytes)
  let title ← check (parseTitle input.title)
  let format ← check (parseFormat input.format)
  let visibility ← check (parseVisibility input.visibility user.isSome limits.canPublishPublic
    "your role cannot publish public pastes")
  reject (input.burnAfterRead && !limits.canBurn)
    (AppError.badRequest "burn-after-read is not allowed for your role")
  let accessPasswordHash ← check (parseAccessPassword env req.salt input.accessPassword)
  let expiresAt ← newExpiry env limits input.expiresInSecs allowNever
  let language := if format = .code then env.detectLanguage input.language body else none
  pure fun core => {
    idCore := core
    ownerId := user.map User.id
    title := title
    body := body
    language := language
    format := format
    visibility := visibility
    burnAfterRead := input.burnAfterRead
    accessPasswordHash := accessPasswordHash
    expiresAt := expiresAt
    deleteTokenHash := some (env.deleteTokenHash req.deleteToken) }

/-- `create_paste_inner`. -/
def createPaste (env : Env) (caller : Caller) (req : PasteRequest) : Handler Response := do
  let identity ← always (currentIdentity env caller)
  requireScopeIfBearer caller identity .paste
  let user := identity.map Identity.user
  let cfg ← ask .instanceConfig
  reject (user.isNone && !cfg.allowAnonymous) (AppError.forbidden "anonymous pastes are disabled")
  let limits ← effectiveLimits cfg user
  let row ← pasteColumns env limits (cfg.allowNever user.isSome) user req
  let core ← claimNewCore req.draws
  ask (.insertPaste (row core))
  let previewUrl := env.baseUrl ++ ['/', 'p', '/'] ++ core.val
  if wantsHtml caller.headers then pure (.seeOther previewUrl)
  else pure (.json [("id_core", .text core.val), ("preview_url", .text previewUrl),
    ("raw_url", .text (previewUrl ++ ['/', 'r', 'a', 'w'])), ("expires_at", .time (row core).expiresAt),
    ("delete_token", .text req.deleteToken)])

/-! ## Reading -/

/-- `load_live_paste`. -/
def loadLivePaste (segment : Text) : Handler PasteRow := do
  let core := stripToCore segment
  reject (core.isEmpty || isReserved core) AppError.notFound
  let paste ← ask (.findPaste core)
  let paste ← orThrow paste AppError.notFound
  let now ← ask .now
  reject (expired paste.expiresAt now) AppError.notFound
  pure paste

/-- What the page of a paste shows of it: nothing where it is locked or burns. -/
def pasteContent (env : Env) (paste : PasteRow) (redacted : Bool) : Except Abort (List Piece) :=
  let item := Item.paste paste.idCore
  let desc := Piece.content item (utf8 (paste.body.take 160))
  if redacted then .ok []
  else if paste.format = .markdown then .ok [.content item (utf8 (env.renderMarkdown paste.body)), desc]
  else match env.renderHighlight paste.language paste.body with
    | .ok html => .ok [.content item (utf8 html), desc]
    | .error _ => .error AppError.somethingWentWrong

/-- `view_paste`. -/
def viewPaste (env : Env) (caller : Caller) (segment : Text) : Handler Response := do
  let _user ← always (currentUser env caller)
  let paste ← loadLivePaste segment
  let _cfg ← ask .instanceConfig
  let unlocked ← always (isUnlocked caller.session paste.accessPasswordHash paste.idCore)
  let locked := paste.accessPasswordHash.isSome && !unlocked
  let content ← check (pasteContent env paste (locked || paste.burnAfterRead))
  let _owner ← ownerOf paste.ownerId
  reject (!env.renders "paste") AppError.somethingWentWrong
  pure (.html 200 "paste" content)

/-- `raw_response` of pastes. -/
def rawPasteResponse (paste : PasteRow) (outcome : RangeOutcome) (fullLen : ℕ) (bytes : Bytes) :
    Response :=
  (Range.response outcome fullLen (.paste paste.idCore) bytes).withHeaders
    [("content-type", "text/plain; charset=utf-8"), ("x-content-type-options", "nosniff"),
      ("cache-control", if paste.burnAfterRead || paste.accessPasswordHash.isSome then
        "private, no-store" else "public, max-age=86400")]

/-- `raw_paste`. -/
def rawPaste (env : Env) (caller : Caller) (password : Option Text) (segment : Text) :
    Handler Response := do
  let paste ← loadLivePaste segment
  checkPassword env caller.session paste.accessPasswordHash paste.idCore password
  let header ← check (rangeHeader caller.headers)
  let all := utf8 paste.body
  let outcome := Range.parse header all.length
  reject (outcome = .invalid) (AppError.badRequest "invalid Range header")
  if outcome = .unsatisfiable then pure (rawPasteResponse paste outcome all.length [])
  else if paste.burnAfterRead then do
    -- the `DELETE` decides who gets the one read
    let deleted ← ask (.deletePaste paste.idCore.val)
    reject (!deleted) AppError.notFound
    pure (rawPasteResponse paste outcome all.length (outcome.slice all))
  else pure (rawPasteResponse paste outcome all.length (outcome.slice all))

/-- `unlock` of pastes. -/
def unlockPaste (env : Env) (sid : SessionId) (segment password : Text) : Handler Response := do
  let paste ← loadLivePaste segment
  unlockItem env sid paste.accessPasswordHash paste.idCore password
  pure (.seeOther (['/', 'p', '/'] ++ paste.idCore.val))

/-! ## Removal and visibility -/

/-- `delete_paste`. -/
def deletePaste (env : Env) (caller : Caller) (segment : Text) (deleteToken : Option Text) :
    Handler Response := do
  let identity ← always (currentIdentity env caller)
  requireScopeIfBearer caller identity .delete
  let core := stripToCore segment
  let row ← ask (.findPaste core)
  let row ← orThrow row AppError.notFound
  reject (!checkDeleteAccess env (identity.map Identity.user) row.ownerId row.deleteTokenHash deleteToken)
    (AppError.forbidden "not allowed")
  let deleted ← ask (.deletePaste core)
  reject (!deleted) AppError.notFound
  pure (.json [("deleted", .text core)])

/-- `toggle_paste`. -/
def togglePaste (env : Env) (caller : Caller) (segment visibility : Text) : Handler Response := do
  let identity ← always (currentIdentity env caller)
  let identity ← check (requireScope identity .delete)
  let visibility ← orThrow (Visibility.parse (trim visibility))
    (AppError.badRequest "visibility must be public|unlisted")
  let cfg ← ask .instanceConfig
  let limits ← effectiveLimits cfg (some identity.user)
  reject (visibility = .published && !limits.canPublishPublic)
    (AppError.forbidden "your role cannot publish public pastes")
  let core := stripToCore segment
  let row ← ask (.findPaste core)
  let row ← orThrow row AppError.notFound
  reject (row.ownerId ≠ some identity.user.id) AppError.notFound
  ask (.setPasteVisibility core visibility)
  pure (.json [("id_core", .text core), ("visibility", .text visibility.name)])

end Server
end Uwuubox
