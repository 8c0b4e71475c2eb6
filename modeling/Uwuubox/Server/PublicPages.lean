import Uwuubox.Server.CollectionItems
import Uwuubox.Server.Explore

/-!
# What everybody may read

Files and pastes are read by their links, in archives, embeds, comments and collections, on the explore page and on the
profiles of their owners: `list` of `src/routes/comments.rs`, `view` of `src/routes/collections.rs`, `profile` of
`src/routes/accounts.rs`; the other handlers are requests of the server.

* `listComments`, `viewCollection`, `Profiles` — the handlers.
* `Endpoint`, `Site.Answers` — the public endpoints, and what they may answer.
-/

namespace Uwuubox
namespace Server

open Dedupe Storage Table Fallible

/-! ## Comments -/

/-- A row of `comments`, with the name of its author. -/
structure CommentRow where
  id : ℤ
  authorId : Option Uuid
  authorName : Option Text
  body : Text
  createdAt : ℤ

structure CommentView where
  id : ℤ
  authorName : Text
  body : Text
  createdAt : ℤ
  canDelete : Bool

/-- `target_kind` and `target_core`, trimmed and parsed. -/
inductive CommentTarget where
  | file (suppliedCore : Text)
  | paste (suppliedCore : Text)
  | collection (id : Option Uuid)
  | other

/-- `Target`. -/
structure Target where
  commented : Item ⊕ Uuid
  ownerId : Option Uuid

/-- `resolve_target`.  Everything is public or unlisted, so the owner may see no more than others. -/
def resolveTarget : CommentTarget → Handler Target
  | .file suppliedCore => do
    let file ← ask (.findFile (stripToCore suppliedCore))
    let file ← orThrow file AppError.notFound
    let now ← ask .now
    reject (expired file.expiresAt now) AppError.notFound
    pure ⟨.inl (.file file.idCore), file.ownerId⟩
  | .paste suppliedCore => do
    let paste ← ask (.findPaste (stripToCore suppliedCore))
    let paste ← orThrow paste AppError.notFound
    let now ← ask .now
    reject (expired paste.expiresAt now) AppError.notFound
    pure ⟨.inl (.paste paste.idCore), paste.ownerId⟩
  | .collection id => do
    let id ← orThrow id AppError.notFound
    let collection ← ask (.findCollection id)
    let collection ← orThrow collection AppError.notFound
    pure ⟨.inr collection.id, some collection.ownerId⟩
  | .other => throw (Abort.error (.badRequest "target_kind must be file|paste|collection"))

/-- `deleted user` -/
def deletedUser : Text := ['d', 'e', 'l', 'e', 't', 'e', 'd', ' ', 'u', 's', 'e', 'r']

/-- `view_comment`. -/
def viewComment (comment : CommentRow) (identity : Option Identity) (targetOwnerId : Option Uuid)
    (canModerate : Bool) : CommentView where
  id := comment.id
  authorName := comment.authorName.getD deletedUser
  body := comment.body
  createdAt := comment.createdAt
  canDelete := identity.any fun identity =>
    comment.authorId = some identity.user.id || targetOwnerId = some identity.user.id || canModerate

structure CommentsPage where
  comments : List CommentView
  page : ℤ
  hasNext : Bool

/-- Whether the caller may moderate. -/
def moderates (identity : Option Identity) : Handler Bool :=
  match identity with
  | none => pure false
  | some identity => do
    let cfg ← ask .instanceConfig
    let limits ← effectiveLimits cfg (some identity.user)
    pure limits.canModerate

/-- `comments::list`; `comments` are the rows of a target, the newest first. -/
def listComments (env : Env) (comments : Item ⊕ Uuid → List CommentRow) (caller : Caller) (target : CommentTarget)
    (page : Option ℤ) : Handler CommentsPage := do
  let identity ← always (currentIdentity env caller)
  let target ← resolveTarget target
  let page := max 1 (page.getD 1)
  let offset := min ((page - 1) * 50) (2 ^ 63 - 1)
  let rows := ((comments target.commented).drop offset.toNat).take 51
  let canModerate ← moderates identity
  pure { comments := (rows.take 50).map fun comment => viewComment comment identity target.ownerId canModerate
         page := page
         hasNext := decide (rows.length > 50) }

/-! ## Collections -/

structure CollectionItemView where
  kind : Text
  core : Text
  title : Text
  url : Text
  detail : Text

/-- What a page says of an item that burns or has a password. -/
def flagged (burnAfterRead : Bool) (accessPasswordHash : Option Text) : Text :=
  (if burnAfterRead then [' ', '·', ' ', 'b', 'u', 'r', 'n', ' ', 'a', 'f', 't', 'e', 'r', ' ', 'r', 'e', 'a', 'd']
    else []) ++
  if accessPasswordHash.isSome then
    [' ', '·', ' ', 'p', 'a', 's', 's', 'w', 'o', 'r', 'd', ' ', 'p', 'r', 'o', 't', 'e', 'c', 't', 'e', 'd']
  else []

/-- The view of a file. -/
def collectedFile (humans : Humans) (file : File) : CollectionItemView where
  kind := kindFile
  core := file.idCore.val
  title := file.originalName
  url := ['/', 'f', '/'] ++ file.idCore.val ++ file.ext.val
  detail := humans.bytes file.sizeBytes ++ [' ', '·', ' '] ++ file.mimeStored ++ [' ', '·', ' '] ++
    file.visibility.name ++ flagged file.burnAfterRead file.accessPasswordHash

/-- The view of a paste. -/
def collectedPaste (paste : PasteRow) : CollectionItemView where
  kind := kindPaste
  core := paste.idCore.val
  title := paste.title.getD (['p', 'a', 's', 't', 'e', ' '] ++ paste.idCore.val)
  url := ['/', 'p', '/'] ++ paste.idCore.val
  detail := paste.format.word ++ [' ', '·', ' '] ++ paste.visibility.name ++
    flagged paste.burnAfterRead paste.accessPasswordHash

/-- The loop over the rows of a collection. -/
def collectionItems (humans : Humans) : List CollectionItem → Handler (List CollectionItemView)
  | [] => pure []
  | row :: rows =>
    match row.item with
    | .file core => do
      match ← ask (.findFile core.val) with
      | none => collectionItems humans rows
      | some file => do
        let now ← ask .now
        if expired file.expiresAt now then collectionItems humans rows
        else do
          let views ← collectionItems humans rows
          pure (collectedFile humans file :: views)
    | .paste core => do
      match ← ask (.findPaste core.val) with
      | none => collectionItems humans rows
      | some paste => do
        let now ← ask .now
        if expired paste.expiresAt now then collectionItems humans rows
        else do
          let views ← collectionItems humans rows
          pure (collectedPaste paste :: views)

/-- `collections::view`, with the items it shows; `items` are the rows of a collection by position.  Everything is
public or unlisted, so the owner may see no more than others. -/
def viewCollection (env : Env) (humans : Humans) (items : Uuid → List CollectionItem) (caller : Caller)
    (id : Option Uuid) : Handler (List CollectionItemView) := do
  let id ← orThrow id AppError.notFound
  let collection ← ask (.findCollection id)
  let collection ← orThrow collection AppError.notFound
  let _user ← always (currentUser env caller)
  let owner ← ask (.findUserById collection.ownerId)
  let _owner ← orThrow owner AppError.notFound
  let views ← collectionItems humans (items collection.id)
  let _cfg ← ask .instanceConfig
  reject (!env.renders "collection") AppError.somethingWentWrong
  pure views

/-! ## Profiles -/

/-- The public rows of a user. -/
def World.shared (w : World) (userId : Uuid) : Feed where
  files := (w.dedupe.files.rows.map w.fileOf).filter fun file =>
    file.ownerId = some userId && file.visibility = .published
  pastes := w.pastes.rows.filter fun paste => paste.ownerId = some userId && paste.visibility = .published

/-- The account of a profile. -/
def profileOwner (env : Env) (caller : Caller) (username : Text) : Handler User := do
  let _user ← always (currentUser env caller)
  let _cfg ← ask .instanceConfig
  let profile ← ask (.findUserByName (trim username))
  orThrow profile AppError.notFound

/-- What a profile shows of an item. -/
structure ProfileItemView where
  url : Text
  title : Text
  detail : Text

/-- The line of a file. -/
def sharedFile (file : File) : ProfileItemView where
  url := ['/', 'f', '/'] ++ file.idCore.val ++ file.ext.val
  title := file.originalName
  detail := pageText file.sizeBytes ++ [' ', 'B', ' ', '·', ' '] ++ file.mimeStored

/-- The line of a paste. -/
def sharedPaste (paste : PasteRow) : ProfileItemView where
  url := ['/', 'p', '/'] ++ paste.idCore.val
  title := paste.title.getD (['p', 'a', 's', 't', 'e', ' '] ++ paste.idCore.val)
  detail := []

/-- What a profile shows. -/
structure ProfilePage where
  username : Text
  files : List ProfileItemView
  pastes : List ProfileItemView
  collections : List (Uuid × Text)
  page : ℤ
  hasNext : Bool

/-! ## The endpoints -/

/-- The server, and what else its pages show. -/
structure Site where
  server : World
  dates : Dates
  collectionDates : Uuid → ℤ
  /-- `SELECT * FROM collection_items WHERE collection_id = $1 ORDER BY position, kind, core` -/
  items : Uuid → List CollectionItem
  /-- The rows of `comments` about a target, the newest first. -/
  comments : Item ⊕ Uuid → List CommentRow

/-- `OFFSET`, computed in 64 bits. -/
def pageOffset (page : ℤ) : ℤ := Int.bmod ((page - 1) * 20) (2 ^ 64)

/-- `profile`; a negative offset is an error of the database. -/
def Profiles (env : Env) (site : Site) (caller : Caller) (username : Text) (query : Option ℤ)
    (outcome : Except Abort ProfilePage) : Prop :=
  match ((profileOwner env caller username).run.eval answer site.server).1 with
  | .error e => outcome = .error e
  | .ok owner =>
    let page := max 1 (query.getD 1)
    if pageOffset page < 0 then outcome = .error AppError.somethingWentWrong
    else ∃ rows collections,
      PublicFeed site.dates (site.server.shared owner.id) 21 (pageOffset page) rows ∧
      Ranked (fun collection : Collection => site.collectionDates collection.id)
        (site.server.collections.rows.filter fun collection =>
          collection.ownerId = owner.id && collection.visibility = .published) collections ∧
      outcome = if env.renders "profile" then
        .ok { username := owner.username
              files := (rows.files.take 20).map sharedFile
              pastes := (rows.pastes.take 20).map sharedPaste
              collections := collections.map fun collection => (collection.id, collection.title)
              page := page
              hasNext := decide (rows.files.length > 20) || decide (rows.pastes.length > 20) }
      else .error AppError.somethingWentWrong

/-- What everybody may read, with the queries of the lists. -/
inductive Endpoint where
  | raw (caller : Caller) (password : Option Text) (segment : Text)
  | preview (caller : Caller) (segment : Text)
  | thumb (segment : Text)
  | rawPaste (caller : Caller) (password : Option Text) (segment : Text)
  | viewPaste (caller : Caller) (segment : Text)
  | zip (caller : Caller) (files pastes : List Text)
  | oembed (target : Option OembedTarget)
  | comments (caller : Caller) (target : CommentTarget) (page : Option ℤ)
  | collection (caller : Caller) (id : Option Uuid)
  | explore (query : Option ℤ)
  | profile (caller : Caller) (username : Text) (query : Option ℤ)
  /-- `public_feed`, which the explore page asks -/
  | publicFeed (limit offset : ℤ)
  /-- `public_items`, which a profile asks -/
  | publicItems (userId : Uuid) (limit offset : ℤ)

/-- A file, but for the date of its expiry. -/
def File.undated (file : File) : File := { file with expiresAt := none }

/-- A paste, but for the date of its expiry. -/
def PasteRow.undated (paste : PasteRow) : PasteRow := { paste with expiresAt := none }

def Feed.undated (rows : Feed) : Feed := ⟨rows.files.map File.undated, rows.pastes.map PasteRow.undated⟩

/-- An answer, without the dates of expiry that it may show. -/
inductive Answer where
  | response (outcome : Outcome)
  | comments (outcome : Except Abort CommentsPage)
  | collection (outcome : Except Abort (List CollectionItemView))
  | explore (served : ExplorePage)
  | profile (outcome : Except Abort ProfilePage)
  | rows (rows : Feed)

/-- What an endpoint may answer; a list shows rows with the same date in any order. -/
def Site.Answers (env : Env) (humans : Humans) (site : Site) : Endpoint → Answer → Prop
  | .raw caller password segment, a =>
    a = .response ((raw env caller password segment).run.eval answer site.server).1
  | .preview caller segment, a => a = .response ((preview env caller segment).run.eval answer site.server).1
  | .thumb segment, a => a = .response ((thumb segment).run.eval answer site.server).1
  | .rawPaste caller password segment, a =>
    a = .response ((rawPaste env caller password segment).run.eval answer site.server).1
  | .viewPaste caller segment, a => a = .response ((viewPaste env caller segment).run.eval answer site.server).1
  | .zip caller files pastes, a => a = .response ((zip env caller files pastes).run.eval answer site.server).1
  | .oembed target, a => a = .response ((oembed target).run.eval answer site.server).1
  | .comments caller target page, a =>
    a = .comments ((listComments env site.comments caller target page).run.eval answer site.server).1
  | .collection caller id, a =>
    a = .collection ((viewCollection env humans site.items caller id).run.eval answer site.server).1
  | .explore query, a => ∃ served, Explores env humans site.dates site.server.feed query served ∧ a = .explore served
  | .profile caller username query, a =>
    ∃ outcome, Profiles env site caller username query outcome ∧ a = .profile outcome
  | .publicFeed limit offset, a =>
    ∃ rows, PublicFeed site.dates site.server.feed limit offset rows ∧ a = .rows rows.undated
  | .publicItems userId limit offset, a =>
    ∃ rows, PublicFeed site.dates (site.server.shared userId) limit offset rows ∧ a = .rows rows.undated

end Server
end Uwuubox
