import Uwuubox.Server.Words
import Uwuubox.Table.Keyed

/-!
# The state all requests share

The tables of `migrations/` that the handlers read and write, the sessions, the settings and
the clock.

* `File`, `PasteRow`, `User`, `ApiToken`, `Collection` .. — the rows.  The columns of `files`
  that storage depends on are those of `Dedupe.FileRow`; the others are `FileColumns`.
* `World` — the database, the object store and the clock.
* `Op` — one statement, one transaction or one store operation; `answer` — what it returns and
  does when it does not fail.
* `exec mayFail` — what it can do where the operations `mayFail` may fail.  A failed statement
  or transaction has no effect.
-/

namespace Uwuubox
namespace Server

open Dedupe Storage Table

/-! ## Rows -/

/-- The columns of `files` beside those of `Dedupe.FileRow`. -/
structure FileColumns where
  ownerId : Option Uuid
  originalName : Text
  visibility : Visibility
  burnAfterRead : Bool
  accessPasswordHash : Option Text
  scanStatus : Text
  expiresAt : Option ℤ
  deleteTokenHash : Option Text
deriving DecidableEq

/-- A row of `files`. -/
structure File extends FileRow, FileColumns
deriving DecidableEq

/-- `CHECK (format IN ('code', 'markdown'))`. -/
inductive Format where
  | code
  | markdown
deriving DecidableEq

/-- A row of `pastes`. -/
structure PasteRow where
  idCore : Core
  ownerId : Option Uuid
  title : Option Text
  body : Text
  language : Option Text
  format : Format
  visibility : Visibility
  burnAfterRead : Bool
  accessPasswordHash : Option Text
  expiresAt : Option ℤ
  deleteTokenHash : Option Text
deriving DecidableEq

/-- A row of `users`, without the profile. -/
structure User where
  id : Uuid
  username : Text
  passwordHash : Option Text
  isAdmin : Bool
  roleId : Option Uuid
  quotaOverrideBytes : Option ℤ
  stripExifDefault : Bool
  email : Option Text
deriving DecidableEq

/-- A row of `api_tokens`. -/
structure ApiToken where
  id : Uuid
  userId : Uuid
  tokenHash : Text
  label : Text
  scopes : List Scope
  expiresAt : Option ℤ
deriving DecidableEq

/-- A row of `collections`. -/
structure Collection where
  id : Uuid
  ownerId : Uuid
  title : Text
  description : Text
  visibility : Visibility
deriving DecidableEq

/-- A row of `invite_codes`. -/
structure InviteCode where
  code : Text
  maxUses : Option ℕ
  uses : ℕ
  expiresAt : Option ℤ
deriving DecidableEq

/-- A row of `oidc_identities`. -/
structure OidcIdentity where
  issuer : Text
  sub : Text
  userId : Uuid
deriving DecidableEq

/-- A row of `role_oidc_groups`. -/
structure RoleOidcGroup where
  roleId : Uuid
  issuer : Text
  groupName : Text
  priority : ℤ
deriving DecidableEq

/-- A session, by the keys the handlers use.  It keeps its name when its id is cycled. -/
structure Session where
  /-- `SESSION_USER_ID`. -/
  uid : Option Uuid
  /-- The `uwu_unlock_` keys that are set. -/
  unlocked : List Core
  oidcCsrf : Option Text
  oidcVerifier : Option Text
  oidcNonce : Option Text
  oidcLinkUid : Option Uuid
  oidcInvite : Option Text
deriving DecidableEq

/-- A session nobody has written to. -/
def Session.fresh : Session := ⟨none, [], none, none, none, none, none⟩

/-! ## The world -/

/-- The name of a session, in the cookie. -/
abbrev SessionId := ℕ

/-- What all requests share. -/
structure World where
  /-- `objects`, the storage columns of `files`, `used_id_cores`, and the object store. -/
  dedupe : Dedupe.World
  /-- The other columns of the rows of `files`. -/
  fileColumns : Core → FileColumns
  pastes : Keyed PasteRow.idCore
  users : Keyed User.id
  roles : Keyed Role.id
  apiTokens : Keyed ApiToken.id
  collections : Keyed Collection.id
  inviteCodes : Keyed InviteCode.code
  oidcIdentities : Keyed fun i : OidcIdentity => (i.issuer, i.sub)
  roleOidcGroups : List RoleOidcGroup
  sessions : SessionId → Session
  /-- `instance_config`. -/
  config : InstanceConfig
  now : ℤ

/-- A fresh instance. -/
def World.empty : World where
  dedupe := .empty
  fileColumns := fun _ => ⟨none, [], .unlisted, false, none, [], none, none⟩
  pastes := .empty
  users := .empty
  roles := .empty
  apiTokens := .empty
  collections := .empty
  inviteCodes := .empty
  oidcIdentities := .empty
  roleOidcGroups := []
  sessions := fun _ => .fresh
  config := .default
  now := 0

namespace World

/-- The whole row. -/
def fileOf (w : World) (row : FileRow) : File := ⟨row, w.fileColumns row.idCore⟩

/-- The row of a core, as far as storage is concerned. -/
def fileRow? (w : World) (core : Text) : Option FileRow :=
  w.dedupe.files.rows.find? fun row => row.idCore.val = core

/-- `SELECT * FROM files WHERE id_core = $1` -/
def file? (w : World) (core : Text) : Option File := (w.fileRow? core).map w.fileOf

/-- `SELECT * FROM pastes WHERE id_core = $1` -/
def paste? (w : World) (core : Text) : Option PasteRow :=
  w.pastes.rows.find? fun row => row.idCore.val = core

end World

/-- `citext`: user names and addresses are ASCII where it matters. -/
def citext (t : Text) : Text := t.map Char.toLower

/-- `expires_at IS NULL OR expires_at > now()`. -/
def unexpired (expiresAt : Option ℤ) (now : ℤ) : Bool := expiresAt.all fun at' => now < at'

/-- `expires_at IS NOT NULL AND expires_at < now()`. -/
def expired (expiresAt : Option ℤ) (now : ℤ) : Bool := expiresAt.any fun at' => at' < now

/-! ## Operations -/

/-- What a stream of the store delivers before it ends, and the error that ended it, if one
did. -/
structure Delivery where
  bytes : Bytes
  failure : Option StorageError

/-- One statement, one transaction, or one operation of the store. -/
inductive Op where
  /-- What uploads and removals do to `objects`, `files`, `used_id_cores` and the store. -/
  | storage (op : DbOp)
  /-- `INSERT INTO files ..` -/
  | insertFile (row : FileRow) (columns : FileColumns)
  /-- `SELECT * FROM files WHERE id_core = $1` -/
  | findFile (core : Text)
  /-- `UPDATE files SET visibility = $1 WHERE id_core = $2` -/
  | setFileVisibility (core : Text) (visibility : Visibility)
  /-- `UPDATE files SET thumb_key = $1 WHERE id_core = $2 AND thumb_key IS NULL` -/
  | linkThumb (core : Core) (key : SafeKey)
  /-- `SELECT .. WHERE expires_at < now() ORDER BY expires_at LIMIT $1` -/
  | expiredFiles (limit : ℕ)
  | expiredPastes (limit : ℕ)
  /-- `SELECT COALESCE(SUM(size_bytes), 0) FROM files WHERE owner_id = $1` -/
  | storageUsed (userId : Uuid)
  /-- `Store::get` -/
  | get (key : SafeKey)
  /-- `Store::get_stream`, to its end -/
  | getStream (key : SafeKey) (len : ℕ)
  /-- `Store::get_range_stream`, to its end -/
  | getRangeStream (key : SafeKey) (start len : ℕ)
  /-- `SELECT * FROM pastes WHERE id_core = $1` -/
  | findPaste (core : Text)
  /-- `INSERT INTO pastes ..` -/
  | insertPaste (row : PasteRow)
  /-- `UPDATE pastes SET visibility = $1 WHERE id_core = $2` -/
  | setPasteVisibility (core : Text) (visibility : Visibility)
  /-- `DELETE FROM pastes WHERE id_core = $1`: whether there was a row -/
  | deletePaste (core : Text)
  /-- `SELECT * FROM collections WHERE id = $1` -/
  | findCollection (id : Uuid)
  /-- `INSERT INTO collections .. RETURNING *` -/
  | insertCollection (row : Collection)
  /-- `UPDATE collections SET title, description, visibility WHERE id = $1 RETURNING *` -/
  | updateCollection (id : Uuid) (title description : Text) (visibility : Visibility)
  /-- `DELETE FROM collections WHERE id = $1 RETURNING id` -/
  | deleteCollection (id : Uuid)
  /-- `SELECT key, value FROM instance_config` -/
  | instanceConfig
  /-- `SELECT * FROM roles WHERE id = $1` -/
  | findRole (id : Uuid)
  /-- `SELECT COUNT(*) FROM users` -/
  | userCount
  /-- `SELECT * FROM users WHERE id = $1` -/
  | findUserById (id : Uuid)
  /-- `SELECT * FROM users WHERE username = $1` -/
  | findUserByName (name : Text)
  /-- `INSERT INTO users .. RETURNING *` -/
  | insertUser (row : User)
  /-- The transaction of `invites::create_user`; `none` when the code is not valid. -/
  | createUser (row : User) (code : Text)
  /-- `UPDATE users SET is_admin = $1 WHERE id = $2`.  `by'` is the admin who asks for it; the
  statement does not depend on it. -/
  | setAdmin (id : Uuid) (admin : Bool) (by' : Uuid)
  /-- `SELECT u.* FROM users u JOIN oidc_identities o ..` -/
  | findOidcUser (issuer sub : Text)
  /-- `INSERT INTO oidc_identities .. ON CONFLICT (issuer, sub) DO UPDATE` -/
  | linkOidc (issuer sub : Text) (userId : Uuid)
  /-- The `SELECT` of `assign_from_oidc_groups` -/
  | groupRole (issuer : Text) (groups : List Text)
  /-- Its `UPDATE users SET role_id = $2 WHERE id = $1 AND role_id IS NULL RETURNING role_id` -/
  | assignRole (userId roleId : Uuid)
  /-- The `SELECT` of `bearer_identity` -/
  | tokenIdentity (tokenHash : Text)
  /-- `UPDATE api_tokens SET last_used_at = now() WHERE token_hash = $1` -/
  | touchToken (tokenHash : Text)
  /-- `INSERT INTO api_tokens ..` -/
  | insertToken (row : ApiToken)
  /-- `DELETE FROM api_tokens WHERE id = $1 AND user_id = $2` -/
  | revokeToken (id userId : Uuid)
  /-- The `SELECT`s of the dashboard, whose rows are only shown -/
  | dashboard (userId : Uuid)
  /-- `session.get` -/
  | session (sid : SessionId)
  /-- `session.insert`, `session.remove` -/
  | setSession (sid : SessionId) (set : Session → Session)
  /-- `INSERT INTO admin_audit_log ..`, which no handler here reads -/
  | audit (actor : Option Uuid) (action : String)
  /-- `Utc::now()` -/
  | now
  /-- Time passes. -/
  | tick (dt : ℕ)

namespace Op

/-- What an operation returns when it does not fail. -/
abbrev Val : Op → Type
  | storage op => op.Val
  | insertFile _ _ => Unit
  | findFile _ => Option File
  | setFileVisibility _ _ => Unit
  | linkThumb _ _ => ℕ
  | expiredFiles _ => List File
  | expiredPastes _ => List PasteRow
  | storageUsed _ => ℤ
  | get _ => Bytes
  | getStream _ _ => Delivery
  | getRangeStream _ _ _ => Delivery
  | findPaste _ => Option PasteRow
  | insertPaste _ => Unit
  | setPasteVisibility _ _ => Unit
  | deletePaste _ => Bool
  | findCollection _ => Option Collection
  | insertCollection _ => Collection
  | updateCollection _ _ _ _ => Collection
  | deleteCollection _ => Bool
  | instanceConfig => InstanceConfig
  | findRole _ => Option Role
  | userCount => ℕ
  | findUserById _ => Option User
  | findUserByName _ => Option User
  | insertUser _ => User
  | createUser _ _ => Option User
  | setAdmin _ _ _ => Unit
  | findOidcUser _ _ => Option User
  | linkOidc _ _ _ => Unit
  | groupRole _ _ => Option Uuid
  | assignRole _ _ => Option Uuid
  | tokenIdentity _ => Option (User × List Scope)
  | touchToken _ => Unit
  | insertToken _ => Unit
  | revokeToken _ _ => Unit
  | dashboard _ => Unit
  | session _ => Session
  | setSession _ _ => Unit
  | audit _ _ => Unit
  | now => ℤ
  | tick _ => Unit

abbrev Res : Op → Type
  | op => Except Failure op.Val

end Op

/-- `INSERT INTO users .. RETURNING *`: user names and addresses are unique. -/
def insertUser (w : World) (row : User) : Except Failure User × World :=
  if w.users.rows.any fun u => citext u.username = citext row.username then
    (.error (.sql (.uniqueViolation "users_username_key")), w)
  else if row.email.isSome && w.users.rows.any fun u => u.email.map citext = row.email.map citext then
    (.error (.sql (.uniqueViolation "users_email_key")), w)
  else match w.users.insert? row with
    | none => (.error (.sql (.uniqueViolation "users_pkey")), w)
    | some users => (.ok row, { w with users := users })

/-- The code can still be used. -/
def InviteCode.usable (invite : InviteCode) (now : ℤ) : Bool :=
  invite.maxUses.all (fun max => invite.uses < max) && unexpired invite.expiresAt now

/-- The groups of an issuer, the first by priority first. -/
def groupRole (w : World) (issuer : Text) (groups : List Text) : Option Uuid :=
  let matching := w.roleOidcGroups.filter fun g => g.issuer = issuer && g.groupName ∈ groups
  ((matching.insertionSort fun g h => g.priority < h.priority ∨
    (g.priority = h.priority ∧ g.roleId ≤ h.roleId)).head?).map RoleOidcGroup.roleId

/-- What an operation returns and does when it does not fail. -/
def answer (w : World) : (op : Op) → op.Res × World
  | .storage op => ((Dedupe.answer w.dedupe op).1, { w with dedupe := (Dedupe.answer w.dedupe op).2 })
  | .insertFile row columns =>
    match Dedupe.answer w.dedupe (.insertFile row) with
    | (.ok (), dedupe) => (.ok (), { w with
        dedupe := dedupe, fileColumns := Function.update w.fileColumns row.idCore columns })
    | (.error e, _) => (.error e, w)
  | .findFile core => (.ok (w.file? core), w)
  | .setFileVisibility core visibility =>
    match w.fileRow? core with
    | none => (.ok (), w)
    | some row =>
      let columns := { w.fileColumns row.idCore with visibility := visibility }
      (.ok (), { w with fileColumns := Function.update w.fileColumns row.idCore columns })
  | .linkThumb core key =>
    if w.dedupe.files.rows.any fun row => row.idCore = core && row.thumbKey.isNone then
      (.ok 1, { w with dedupe := { w.dedupe with files := w.dedupe.files.linkThumb core key } })
    else (.ok 0, w)
  | .expiredFiles limit =>
    let rows := (w.dedupe.files.rows.map w.fileOf).filter fun file => expired file.expiresAt w.now
    (.ok ((rows.insertionSort fun a b => a.expiresAt.getD 0 ≤ b.expiresAt.getD 0).take limit), w)
  | .expiredPastes limit =>
    let rows := w.pastes.rows.filter fun paste => expired paste.expiresAt w.now
    (.ok ((rows.insertionSort fun a b => a.expiresAt.getD 0 ≤ b.expiresAt.getD 0).take limit), w)
  | .storageUsed userId =>
    (.ok (((w.dedupe.files.rows.map w.fileOf).filter fun file => file.ownerId = some userId).map
      fun file => (file.sizeBytes : ℤ)).sum, w)
  | .get key =>
    match w.dedupe.store key with
    | some bytes => (.ok bytes, w)
    | none => (.error (.storage (.notFound key)), w)
  | .getStream key _ =>
    match w.dedupe.store key with
    | some bytes => (.ok ⟨bytes, none⟩, w)
    | none => (.error (.storage (.notFound key)), w)
  | .getRangeStream key start len =>
    match w.dedupe.store key with
    | some bytes => (.ok ⟨(bytes.drop start).take len, none⟩, w)
    | none => (.error (.storage (.notFound key)), w)
  | .findPaste core => (.ok (w.paste? core), w)
  | .insertPaste row =>
    match w.pastes.insert? row with
    | none => (.error (.sql (.uniqueViolation "pastes_pkey")), w)
    | some pastes => (.ok (), { w with pastes := pastes })
  | .setPasteVisibility core visibility =>
    let pastes := w.pastes.update (fun row => row.idCore.val = core)
      (fun row => { row with visibility := visibility }) fun _ => rfl
    (.ok (), { w with pastes := pastes })
  | .deletePaste core =>
    (.ok (w.paste? core).isSome, { w with pastes := w.pastes.delete fun row => row.idCore.val = core })
  | .findCollection id => (.ok (w.collections.find? id), w)
  | .insertCollection row =>
    match w.collections.insert? row with
    | none => (.error (.sql (.uniqueViolation "collections_pkey")), w)
    | some collections => (.ok row, { w with collections := collections })
  | .updateCollection id title description visibility =>
    match w.collections.find? id with
    | none => (.error (.sql .rowNotFound), w)
    | some row =>
      let set (row : Collection) : Collection :=
        { row with title := title, description := description, visibility := visibility }
      let collections := w.collections.update (fun row => row.id = id) set fun _ => rfl
      (.ok (set row), { w with collections := collections })
  | .deleteCollection id =>
    (.ok (w.collections.find? id).isSome,
      { w with collections := w.collections.delete fun row => row.id = id })
  | .instanceConfig => (.ok w.config, w)
  | .findRole id => (.ok (w.roles.find? id), w)
  | .userCount => (.ok w.users.rows.length, w)
  | .findUserById id => (.ok (w.users.find? id), w)
  | .findUserByName name => (.ok (w.users.rows.find? fun u => citext u.username = citext name), w)
  | .insertUser row => insertUser w row
  | .createUser row code =>
    if (w.inviteCodes.find? code).any (InviteCode.usable · w.now) then
      match insertUser w row with
      | (.error e, _) => (.error e, w)
      | (.ok user, w') =>
        let inviteCodes := w.inviteCodes.update (fun invite => invite.code = code)
          (fun invite => { invite with uses := invite.uses + 1 }) fun _ => rfl
        (.ok (some user), { w' with inviteCodes := inviteCodes })
    else (.ok none, w)
  | .setAdmin id admin _ =>
    let users := w.users.update (fun u => u.id = id) (fun u => { u with isAdmin := admin }) fun _ => rfl
    (.ok (), { w with users := users })
  | .findOidcUser issuer sub =>
    (.ok ((w.oidcIdentities.find? (issuer, sub)).bind fun i => w.users.find? i.userId), w)
  | .linkOidc issuer sub userId =>
    match w.oidcIdentities.insert? ⟨issuer, sub, userId⟩ with
    | some identities => (.ok (), { w with oidcIdentities := identities })
    | none =>
      let identities := w.oidcIdentities.update (fun i => (i.issuer, i.sub) = (issuer, sub))
        (fun i => { i with userId := userId }) fun _ => rfl
      (.ok (), { w with oidcIdentities := identities })
  | .groupRole issuer groups => (.ok (groupRole w issuer groups), w)
  | .assignRole userId roleId =>
    if w.users.rows.any fun u => u.id = userId && u.roleId.isNone then
      let users := w.users.update (fun u => u.id = userId && u.roleId.isNone)
        (fun u => { u with roleId := some roleId }) fun _ => rfl
      (.ok (some roleId), { w with users := users })
    else (.ok none, w)
  | .tokenIdentity tokenHash =>
    (.ok ((w.apiTokens.rows.find? fun t => t.tokenHash = tokenHash && unexpired t.expiresAt w.now).bind
      fun t => (w.users.find? t.userId).map fun u => (u, t.scopes)), w)
  | .touchToken _ => (.ok (), w)
  | .insertToken row =>
    if w.apiTokens.rows.any fun t => t.tokenHash = row.tokenHash then
      (.error (.sql (.uniqueViolation "api_tokens_token_hash_key")), w)
    else match w.apiTokens.insert? row with
      | none => (.error (.sql (.uniqueViolation "api_tokens_pkey")), w)
      | some tokens => (.ok (), { w with apiTokens := tokens })
  | .revokeToken id userId =>
    (.ok (), { w with apiTokens := w.apiTokens.delete fun t => t.id = id && t.userId = userId })
  | .dashboard _ => (.ok (), w)
  | .session sid => (.ok (w.sessions sid), w)
  | .setSession sid set => (.ok (), { w with
      sessions := Function.update w.sessions sid (set (w.sessions sid)) })
  | .audit _ _ => (.ok (), w)
  | .now => (.ok w.now, w)
  | .tick dt => (.ok (), { w with now := w.now + dt })

/-- An operation that fails. -/
inductive Fails (w : World) : (op : Op) → op.Res → World → Prop
  /-- A statement or a transaction, without effect. -/
  | statement (op : Op) (e : Failure) : Fails w op (.error e) w
  /-- An operation of the store may leave anything at its key. -/
  | storage {op : DbOp} {r : op.Res} {dedupe : Dedupe.World} : Dedupe.Fails w.dedupe op r dedupe →
      Fails w (.storage op) r { w with dedupe := dedupe }
  /-- A stream breaks off. -/
  | getStream (key : SafeKey) (len : ℕ) (bytes : Bytes) (e : StorageError) :
      Fails w (.getStream key len) (.ok ⟨bytes, some e⟩) w
  | getRangeStream (key : SafeKey) (start len : ℕ) (bytes : Bytes) (e : StorageError) :
      Fails w (.getRangeStream key start len) (.ok ⟨bytes, some e⟩) w

/-- What one operation can do. -/
def exec (mayFail : Op → Prop) (w : World) (op : Op) (r : op.Res) (w' : World) : Prop :=
  (r, w') = answer w op ∨ mayFail op ∧ Fails w op r w'

theorem exec_answer (mayFail : Op → Prop) (w : World) (op : Op) :
    exec mayFail w op (answer w op).1 (answer w op).2 := .inl rfl

end Server
end Uwuubox
