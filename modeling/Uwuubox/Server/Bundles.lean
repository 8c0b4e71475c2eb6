import Uwuubox.Server.Uploads

/-!
# Bundles, collections and the sweeper

The endpoints that touch several items or none: `src/routes/zip.rs`, `src/routes/oembed.rs`,
`src/routes/collections.rs` as far as it writes collections, and the sweeper of
`src/expiry.rs`.

* `zip` — every item is checked before the first is read.
* `oembed` — titles and links, never content.
* `createCollection`, `updateCollection`, `deleteCollection`.
* `sweep` — `run_once`.
-/

namespace Uwuubox
namespace Server

open Dedupe Storage Fallible

/-! ## Archives -/

/-- `MAX_ITEMS`. -/
def maxItems : ℕ := 32

/-- A core of a request, if it can name anything. -/
def requestedCore (segment : Text) : Handler Text := do
  let core := stripToCore segment
  reject (core.isEmpty || isReserved core) AppError.notFound
  pure core

/-- The loop over the files: their rows, and the running total. -/
def zipFiles (limits : EffectiveLimits) : List Text → ℤ → Handler (List File × ℤ)
  | [], total => pure ([], total)
  | segment :: rest, total => do
    let core ← requestedCore segment
    let file ← ask (.findFile core)
    let now ← ask .now
    let file ← orThrow (file.filter fun file => !expired file.expiresAt now) AppError.notFound
    reject (file.burnAfterRead || file.accessPasswordHash.isSome)
      (AppError.badRequest "burn-armed and password-protected files cannot be archived")
    reject (total + file.sizeBytes > limits.maxFileBytes) (AppError.tooLarge limits.maxFileBytes)
    let (files, total) ← zipFiles limits rest (total + file.sizeBytes)
    pure (file :: files, total)

/-- The loop over the pastes. -/
def zipPastes (limits : EffectiveLimits) : List Text → ℤ → Handler (List PasteRow)
  | [], _ => pure []
  | segment :: rest, total => do
    let core ← requestedCore segment
    let paste ← ask (.findPaste core)
    let now ← ask .now
    let paste ← orThrow (paste.filter fun paste => !expired paste.expiresAt now) AppError.notFound
    reject (paste.burnAfterRead || paste.accessPasswordHash.isSome)
      (AppError.badRequest "burn-armed and password-protected pastes cannot be archived")
    reject (total + utf8Len paste.body > limits.maxFileBytes) (AppError.tooLarge limits.maxFileBytes)
    let pastes ← zipPastes limits rest (total + utf8Len paste.body)
    pure (paste :: pastes)

/-- The name of a further entry: ` (suffix)` before the extension. -/
def suffixedName (base : Text) (suffix : ℕ) : Text :=
  let extension := base.rtakeWhile (· ≠ '.')
  let stem := base.take (base.length - (extension.length + 1))
  let number := [' ', '('] ++ Nat.toDigits 10 suffix ++ [')']
  if extension.length < base.length && !stem.isEmpty then stem ++ number ++ ['.'] ++ extension
  else base ++ number

/-- `unique_name`: the first name that has not been seen.  One of the first `seen.length + 1`
suffixes is free. -/
def uniqueName (requested : Text) (seen : List Text) : Option Text :=
  (sanitizeFilename requested).map fun base =>
    if base ∉ seen then base
    else (((List.range (seen.length + 1)).map fun i => suffixedName base (i + 2)).find? fun name =>
      name ∉ seen).getD base

/-- The entries of the files: their names, and their contents. -/
def fileEntries : List File → List Text → Handler (List Text × List Piece)
  | [], seen => pure (seen, [])
  | file :: files, seen => do
    let name ← orThrow (uniqueName file.originalName seen) .panic
    let bytes ← ask (.get file.storageKey)
    let (seen, pieces) ← fileEntries files (name :: seen)
    pure (seen, .content (.file file.idCore) bytes :: pieces)

/-- The stem of a paste's entry. -/
def PasteRow.stem (paste : PasteRow) : Text :=
  (paste.title.filter fun title => !(trim title).isEmpty).getD paste.idCore.val

/-- The entries of the pastes. -/
def pasteEntries : List PasteRow → List Text → Handler (List Text × List Piece)
  | [], seen => pure (seen, [])
  | paste :: pastes, seen => do
    let stem ← orThrow (sanitizeFilename paste.stem) .panic
    let name ← orThrow (uniqueName (stem ++ ['.', 't', 'x', 't']) seen) .panic
    let (seen, pieces) ← pasteEntries pastes (name :: seen)
    pure (seen, .content (.paste paste.idCore) (utf8 paste.body) :: pieces)

/-- `create_inner` of `src/routes/zip.rs`. -/
def zip (env : Env) (caller : Caller) (files pastes : List Text) : Handler Response := do
  reject (files.length + pastes.length = 0) (AppError.badRequest "files or pastes must not be empty")
  reject (files.length + pastes.length > maxItems) (AppError.tooLarge maxItems)
  let identity ← always (currentIdentity env caller)
  requireScopeIfBearer caller identity .read
  let user := identity.map Identity.user
  let cfg ← ask .instanceConfig
  let limits ← effectiveLimits cfg user
  let (files, total) ← zipFiles limits files 0
  let pastes ← zipPastes limits pastes total
  let (seen, filePieces) ← fileEntries files []
  let (seen, pastePieces) ← pasteEntries pastes seen
  reject (!env.archives seen) AppError.somethingWentWrong
  pure ⟨200, [("content-type", "application/zip"),
    ("content-disposition", "attachment; filename=\"uwuubox.zip\""), ("x-content-type-options", "nosniff")],
    filePieces ++ pastePieces, none⟩

/-! ## oEmbed -/

/-- What a URL of this instance with two segments names. -/
inductive OembedTarget where
  | file (segment : Text)
  | paste (segment : Text)
  | collection (id : Uuid)
  /-- Another first segment, or a collection without an id. -/
  | other

/-- `author_name`. -/
def authorName (ownerId : Option Uuid) (fallback : Text) : Handler Text := do
  let owner ← ownerOf ownerId
  pure ((owner.map User.username).getD fallback)

/-- The fields of an oEmbed answer that come from the item. -/
def oembedAnswer (title author : Text) : Response :=
  .json [("title", .text title), ("author_name", .text author)]

/-- `oembed::get`; there is no target where the URL is of another origin or another shape. -/
def oembed (target : Option OembedTarget) : Handler Response := do
  let target ← orThrow target AppError.notFound
  let cfg ← ask .instanceConfig
  match target with
  | .file segment => do
    let file ← ask (.findFile (stripToCore segment))
    let file ← orThrow file AppError.notFound
    let now ← ask .now
    reject (expired file.expiresAt now) AppError.notFound
    let author ← authorName file.ownerId cfg.instanceName
    pure (oembedAnswer file.originalName author)
  | .paste segment => do
    let paste ← ask (.findPaste (stripToCore segment))
    let paste ← orThrow paste AppError.notFound
    let now ← ask .now
    reject (expired paste.expiresAt now) AppError.notFound
    let author ← authorName paste.ownerId cfg.instanceName
    pure (oembedAnswer (paste.title.getD (['p', 'a', 's', 't', 'e', ' '] ++ paste.idCore.val)) author)
  | .collection id => do
    let collection ← ask (.findCollection id)
    let collection ← orThrow collection AppError.notFound
    let author ← authorName (some collection.ownerId) cfg.instanceName
    pure (oembedAnswer collection.title author)
  | .other => throw (Abort.error .notFound)

/-! ## The sweeper -/

/-- The rows a scan has found; an error is only logged. -/
def found {R : Type} : Except Failure (List R) → List R
  | .ok rows => rows
  | .error _ => []

/-- The sweeper's loop over expired files; errors are only logged. -/
def sweepFiles : List File → Query Unit
  | [] => pure ()
  | file :: files => do
    let _ ← storage (Dedupe.removeFile file.idCore)
    sweepFiles files

/-- The sweeper's loop over expired pastes. -/
def sweepPastes : List PasteRow → Query Unit
  | [] => pure ()
  | paste :: pastes => do
    let _ ← Prog.perform (Op.deletePaste paste.idCore.val)
    sweepPastes pastes

/-- `run_once`, in batches of 500 rows. -/
def sweep : Query Unit := do
  let files ← Prog.perform (Op.expiredFiles 500)
  sweepFiles (found files)
  let pastes ← Prog.perform (Op.expiredPastes 500)
  sweepPastes (found pastes)

/-! ## Collections -/

/-- The fields of a collection. -/
structure CollectionFields where
  title : Option Text
  description : Option Text
  visibility : Option Text

/-- `validate_title`. -/
def validateTitle (value : Text) : Except Abort Text :=
  let title := trim value
  if title.isEmpty then .error (AppError.badRequest "title must not be empty")
  else if title.length > 120 then .error (AppError.badRequest "title must be <= 120 characters")
  else .ok title

/-- `validate_description`. -/
def validateDescription (value : Text) : Except Abort Text :=
  let description := trim value
  if description.length > 2000 then
    .error (AppError.badRequest "description must be <= 2000 characters")
  else .ok description

/-- `validate_visibility`. -/
def validateVisibility (value : Text) : Except Abort Visibility :=
  let word := trim value
  if word = [] ∨ word = unlistedWord then .ok .unlisted
  else if word = publicWord then .ok .published
  else .error (AppError.badRequest "visibility must be public|unlisted")

/-- `transpose` of a validated field. -/
def validateOption {α : Type} (validate : Text → Except Abort α) (value : Option Text) :
    Except Abort (Option α) :=
  match value with
  | none => .ok none
  | some value => (validate value).map some

/-- `write_identity`. -/
def writeIdentity (env : Env) (caller : Caller) : Handler Identity := do
  let identity ← always (currentIdentity env caller)
  check (requireScope identity .paste)

/-- `owned_collection`. -/
def ownedCollection (id ownerId : Uuid) : Handler Collection := do
  let collection ← ask (.findCollection id)
  let collection ← orThrow collection AppError.notFound
  reject (collection.ownerId ≠ ownerId) AppError.notFound
  pure collection

/-- `collections::create`; `fields` is the body, decoded, and `id` the new id. -/
def createCollection (env : Env) (caller : Caller) (fields : Except String CollectionFields)
    (id : Uuid) : Handler Response := do
  let identity ← writeIdentity env caller
  let cfg ← ask .instanceConfig
  let limits ← effectiveLimits cfg (some identity.user)
  reject (!limits.canCreateCollections)
    (AppError.badRequest "collection creation is not allowed for your role")
  let fields ← check (fields.mapError fun msg => AppError.badRequest msg)
  let title ← check (validateTitle (fields.title.getD []))
  let description ← check (validateDescription (fields.description.getD []))
  let visibility ← check (validateVisibility (fields.visibility.getD unlistedWord))
  reject (visibility = .published && !limits.canPublishPublic)
    (AppError.forbidden "your role cannot publish public collections")
  let collection ← ask (.insertCollection ⟨id, identity.user.id, title, description, visibility⟩)
  if wantsHtml caller.headers then pure ⟨303, [], [], none⟩
  else pure { Response.json [("title", .text collection.title),
    ("description", .text collection.description), ("visibility", .text collection.visibility.name)] with
    status := 201 }

/-- The publish check of `collections::update`: only a request for `public` reads the role. -/
def checkPublish (user : User) (visibility : Option Visibility) : Handler Unit :=
  if visibility = some .published then do
    let cfg ← ask .instanceConfig
    let limits ← effectiveLimits cfg (some user)
    reject (!limits.canPublishPublic)
      (AppError.forbidden "your role cannot publish public collections")
  else pure ()

/-- `collections::update`. -/
def updateCollection (env : Env) (caller : Caller) (id : Uuid) (fields : CollectionFields) :
    Handler Response := do
  let identity ← writeIdentity env caller
  let collection ← ownedCollection id identity.user.id
  reject (fields.title.isNone && fields.description.isNone && fields.visibility.isNone)
    (AppError.badRequest "no collection fields supplied")
  let title ← check (validateOption validateTitle fields.title)
  let description ← check (validateOption validateDescription fields.description)
  let visibility ← check (validateOption validateVisibility fields.visibility)
  checkPublish identity.user visibility
  let updated ← ask (.updateCollection collection.id (title.getD collection.title)
    (description.getD collection.description) (visibility.getD collection.visibility))
  pure (.json [("title", .text updated.title), ("description", .text updated.description),
    ("visibility", .text updated.visibility.name)])

/-- `collections::delete`. -/
def deleteCollection (env : Env) (caller : Caller) (id : Uuid) : Handler Response := do
  let identity ← writeIdentity env caller
  let _collection ← ownedCollection id identity.user.id
  let deleted ← ask (.deleteCollection id)
  reject (!deleted) AppError.notFound
  pure (.json [])

end Server
end Uwuubox
