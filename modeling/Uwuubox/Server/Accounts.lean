import Uwuubox.Server.Bundles

/-!
# Accounts, tokens and administrators

`src/routes/accounts.rs` as far as accounts are made and items managed, `create_user` of
`src/routes/invites.rs`, the callback of `src/oidc.rs`, and `grant` of `src/routes/admin.rs`.

* `TokenForm.parse`, `createToken` — a new API token, for whoever `current_user` finds.
* `dashboardDeleteFile` .. — the actions of the dashboard.
* `registerPost`, `oidcCallback` — the two ways to an account.  Both count the users, and insert
  a row whose `is_admin` says whether there were none.
* `grant` — `require_admin`, the check against revoking oneself, and the `UPDATE`.
-/

namespace Uwuubox
namespace Server

open Dedupe Storage Fallible

/-- `/account`. -/
def accountPath : Text := ['/', 'a', 'c', 'c', 'o', 'u', 'n', 't']

/-- `/admin`. -/
def adminPath : Text := ['/', 'a', 'd', 'm', 'i', 'n']

/-- The user of a dashboard request. -/
def requireUser (env : Env) (caller : Caller) : Handler User := do
  let user ← always (currentUser env caller)
  orThrow user AppError.unauthorized

/-! ## Tokens -/

/-- `TokenForm`. -/
structure TokenForm where
  label : Option Text
  scopeUpload : Option Text
  scopePaste : Option Text
  scopeDelete : Option Text
  scopeRead : Option Text
  expiry : Option Text

/-- A form that passes every check: the label, the scopes, and the days it lasts. -/
structure TokenGrant where
  label : Text
  scopes : List Scope
  days : Option ℕ

/-- The scopes a form asks for. -/
def TokenForm.requested (form : TokenForm) : List Text :=
  [form.scopeUpload, form.scopePaste, form.scopeDelete, form.scopeRead].reduceOption

/-- The lifetimes of a token. -/
def tokenDays (expiry : Text) : Except Abort (Option ℕ) :=
  if expiry = ['7', 'd'] then .ok (some 7)
  else if expiry = ['3', '0', 'd'] then .ok (some 30)
  else if expiry = ['9', '0', 'd'] then .ok (some 90)
  else if expiry = neverWord then .ok none
  else .error (AppError.badRequest "invalid token expiry")

/-- The checks of `create_token`. -/
def TokenForm.parse (form : TokenForm) : Except Abort TokenGrant :=
  let label := (form.label.map trim).getD []
  let scopes := apiScopes.filter fun scope => scope.name ∈ form.requested
  if utf8Len label > 64 then .error (AppError.badRequest "label must be <= 64 chars")
  else if form.requested.any fun word => word ∉ apiScopes.map Scope.name then
    .error (AppError.badRequest "invalid token scope")
  else if scopes.isEmpty then .error (AppError.badRequest "select at least one token scope")
  else (tokenDays (form.expiry.getD neverWord)).map fun days => ⟨label, scopes, days⟩

/-- `dashboard_response`. -/
def dashboardResponse (env : Env) (user : User) : Handler Response := do
  let _rows ← ask (.dashboard user.id)
  let cfg ← ask .instanceConfig
  let _used ← ask (.storageUsed user.id)
  let _limits ← effectiveLimits cfg (some user)
  reject (!env.renders "dashboard") AppError.somethingWentWrong
  pure (.html 200 "dashboard" [])

/-- The row of a new token. -/
def TokenGrant.row (grant : TokenGrant) (id userId : Uuid) (tokenHash : Text) (now : ℤ) : ApiToken where
  id := id
  userId := userId
  tokenHash := tokenHash
  label := grant.label
  scopes := grant.scopes
  expiresAt := grant.days.map fun days => now + 86400 * days

/-- `create_token`; `id` and `token` are the new id and the new token. -/
def createToken (env : Env) (caller : Caller) (form : TokenForm) (id : Uuid) (token : Text) :
    Handler Response := do
  let user ← requireUser env caller
  let grant ← check form.parse
  let now ← ask .now
  let row := grant.row id user.id (env.apiTokenHash token) now
  ask (.insertToken row)
  if wantsHtml caller.headers then dashboardResponse env user
  else pure (.json [("token", .text token), ("scopes", .list (row.scopes.map Scope.name)),
    ("expires_at", .time row.expiresAt)])

/-- `revoke_token`; there is no id where the segment is not one. -/
def revokeToken (env : Env) (caller : Caller) (id : Option Uuid) : Handler Response := do
  let user ← requireUser env caller
  let id ← orThrow id (AppError.badRequest "bad token id")
  ask (.revokeToken id user.id)
  pure (.seeOther accountPath)

/-! ## The dashboard -/

/-- `dashboard_delete_file`. -/
def dashboardDeleteFile (env : Env) (caller : Caller) (segment : Text) : Handler Response := do
  let user ← requireUser env caller
  let row ← ask (.findFile (stripToCore segment))
  let row ← orThrow row AppError.notFound
  reject (row.ownerId ≠ some user.id) AppError.notFound
  let _ ← removeFile row.idCore
  pure (.seeOther accountPath)

/-- `dashboard_file_visibility`. -/
def dashboardFileVisibility (env : Env) (caller : Caller) (segment visibility : Text) :
    Handler Response := do
  let user ← requireUser env caller
  setFileVisibility (stripToCore segment) user.id (trim visibility)
  pure (.seeOther accountPath)

/-- `dashboard_delete_paste`. -/
def dashboardDeletePaste (env : Env) (caller : Caller) (segment : Text) : Handler Response := do
  let user ← requireUser env caller
  let row ← ask (.findPaste (trim segment))
  let row ← orThrow row AppError.notFound
  reject (row.ownerId ≠ some user.id) AppError.notFound
  let _ ← ask (.deletePaste (trim segment))
  pure (.seeOther accountPath)

/-- `dashboard_paste_visibility`. -/
def dashboardPasteVisibility (env : Env) (caller : Caller) (segment visibility : Text) :
    Handler Response := do
  let user ← requireUser env caller
  let visibility ← orThrow (Visibility.parse (trim visibility))
    (AppError.badRequest "visibility must be public|unlisted")
  let row ← ask (.findPaste (trim segment))
  let row ← orThrow row AppError.notFound
  reject (row.ownerId ≠ some user.id) AppError.notFound
  ask (.setPasteVisibility (trim segment) visibility)
  pure (.seeOther accountPath)

/-! ## Registration -/

/-- `USERNAME_RESERVED`. -/
def usernameReserved : List Text :=
  [['a', 'd', 'm', 'i', 'n'], ['r', 'o', 'o', 't'], ['s', 'y', 's', 't', 'e', 'm'], ['a', 'p', 'i'],
    ['s', 'u', 'p', 'p', 'o', 'r', 't']]

/-- A letter of a user name. -/
def isUsernameChar (c : Char) : Bool :=
  ('a' ≤ c && c ≤ 'z') || ('0' ≤ c && c ≤ '9') || c == '_'

/-- `validate_username`. -/
def validateUsername (name : Text) : Except String Unit :=
  if ¬ (3 ≤ utf8Len name ∧ utf8Len name ≤ 24) then .error "username must be 3-24 characters"
  else if !name.all isUsernameChar then .error "username may only contain a-z, 0-9, _"
  else if name ∈ usernameReserved then .error "that username is reserved"
  else .ok ()

/-- `oidc_base_username`. -/
def oidcBaseUsername (env : Env) (preferred : Text) : Text :=
  let s := (env.toLowercase preferred).map fun c => if isUsernameChar c then c else '_'
  let s := ((s.take 20).dropWhile (· = '_')).rdropWhile (· = '_')
  let s := if s.length < 3 then ['u', 's', 'e', 'r', '-'] ++ s else s
  if s ∈ usernameReserved then s ++ ['_', 'u', 'w', 'u'] else s

/-- `RegisterForm`. -/
structure RegisterForm where
  username : Text
  email : Option Text
  password : Text
  invite : Option Text

/-- `login_error_page` of the registration. -/
def registerErrorPage (env : Env) : Handler Response := do
  reject (!env.renders "register") AppError.somethingWentWrong
  pure (.html 400 "register" [])

/-- `InviteRegistrationError`. -/
inductive InviteRegistrationError where
  | invalid
  | database (e : Failure)

/-- The `INSERT` of an open registration. -/
def insertOpen (row : User) : Query (Except InviteRegistrationError User) := do
  match ← Prog.perform (Op.insertUser row) with
  | .ok user => pure (.ok user)
  | .error e => pure (.error (.database e))

/-- `invites::create_user`. -/
def createInvited (row : User) (code : Text) : Query (Except InviteRegistrationError User) := do
  match ← Prog.perform (Op.createUser row code) with
  | .ok (some user) => pure (.ok user)
  | .ok none => pure (.error .invalid)
  | .error e => pure (.error (.database e))

/-- The row of a new account. -/
def newUser (id : Uuid) (username : Text) (passwordHash email : Option Text) (isAdmin : Bool) : User where
  id := id
  username := username
  passwordHash := passwordHash
  isAdmin := isAdmin
  roleId := none
  quotaOverrideBytes := none
  stripExifDefault := false
  email := email

/-- Log in as `id`. -/
def logIn (sid : SessionId) (id : Uuid) : Handler Unit :=
  ask (.setSession sid fun session => { session with uid := some id })

/-- `is_unique_violation`. -/
def isUniqueViolation : Failure → Bool
  | .sql (.uniqueViolation _) => true
  | _ => false

/-- The end of a registration. -/
def finishRegistration (env : Env) (sid : SessionId) :
    Except InviteRegistrationError User → Handler Response
  | .ok user => do
    logIn sid user.id
    pure (.seeOther accountPath)
  | .error .invalid => registerErrorPage env
  | .error (.database e) =>
    if isUniqueViolation e then registerErrorPage env else throw (Abort.error (.from' e))

/-- The address of a registration: trimmed, and lower case. -/
def RegisterForm.address (env : Env) (form : RegisterForm) : Option Text :=
  ((form.email.map trim).filter fun email => !email.isEmpty).map env.toLowercase

/-- The checked form goes into the table. -/
def register (env : Env) (sid : SessionId) (cfg : InstanceConfig) (form : RegisterForm) (hash : Text)
    (id : Uuid) : Handler Response := do
  let count ← ask .userCount
  let row := newUser id (trim form.username) (some hash) (form.address env) (count = 0)
  if cfg.registrationMode = modeOpen then do
    let result ← always (insertOpen row)
    finishRegistration env sid result
  else if cfg.registrationMode = modeInvite then
    let invite := (form.invite.map trim).getD []
    if invite.isEmpty then registerErrorPage env
    else do
      let result ← always (createInvited row invite)
      finishRegistration env sid result
  else throw (Abort.error (.forbidden "registration is closed"))

/-- `register_post`; `salt` and `id` are drawn. -/
def registerPost (env : Env) (sid : SessionId) (form : RegisterForm) (salt : Text) (id : Uuid) :
    Handler Response := do
  let cfg ← ask .instanceConfig
  reject (!cfg.allowLocalLogin) (AppError.forbidden "local registration is disabled")
  reject (cfg.registrationMode = modeClosed) (AppError.forbidden "registration is closed")
  if (form.address env).any fun email => !env.validateEmail email then registerErrorPage env
  else match validateUsername (trim form.username), hashPassword env salt form.password with
    | .ok (), .ok hash => register env sid cfg form hash id
    | _, _ => registerErrorPage env

/-! ## OpenID Connect -/

/-- What a valid ID token says. -/
structure Claims where
  issuer : Text
  sub : Text
  preferredUsername : Option Text
  groups : List Text

/-- `apply_group_role`. -/
def applyGroupRole (user : User) (issuer : Text) (groups : List Text) : Handler Unit :=
  if user.roleId.isSome || groups.isEmpty then pure ()
  else do
    let roleId ← ask (.groupRole issuer groups)
    match roleId with
    | none => pure ()
    | some roleId => do
      let assigned ← ask (.assignRole user.id roleId)
      match assigned with
      | none => pure ()
      | some _ => ask (.audit none "user.role")

/-- The loop that looks for a name that is not taken. -/
def freeUsername (base : Text) : List ℕ → Text → Handler Text
  | [], username => pure username
  | suffix :: rest, username => do
    let taken ← ask (.findUserByName username)
    if taken.isNone then pure username
    else freeUsername base rest (base ++ Nat.toDigits 10 suffix)

/-- The account of a first login. -/
def provision (cfg : InstanceConfig) (row : User) (invite : Option Text) : Handler User := do
  if cfg.registrationMode = modeInvite then do
    let result ← always (createInvited row (invite.getD []))
    match result with
    | .ok user => pure user
    | .error .invalid =>
      throw (Abort.error (.forbidden "invite code is invalid, expired, or fully used"))
    | .error (.database e) => throw (Abort.error (.from' e))
  else ask (.insertUser row)

/-- A first login. -/
def oidcFirstLogin (env : Env) (sid : SessionId) (cfg : InstanceConfig) (claims : Claims) (id : Uuid) :
    Handler Response := do
  reject (cfg.registrationMode = modeClosed)
    (AppError.forbidden "registration is closed; ask an admin to link your account")
  let session ← ask (.session sid)
  let invite := session.oidcInvite
  reject (cfg.registrationMode = modeInvite && (invite.getD []).isEmpty)
    (AppError.forbidden "a valid invite code is required to create an account")
  let base := oidcBaseUsername env (claims.preferredUsername.getD ['u', 's', 'e', 'r'])
  let username ← freeUsername base (List.range' 1 999) base
  let count ← ask .userCount
  let user ← provision cfg (newUser id username none none (count = 0)) invite
  ask (.linkOidc claims.issuer claims.sub user.id)
  applyGroupRole user claims.issuer claims.groups
  ask (.setSession sid fun session => { session with oidcInvite := none })
  logIn sid user.id
  pure (.seeOther accountPath)

/-- The login that a session has started: `state` and the verifiers must be there. -/
def checkOidcSession (session : Session) (state : Text) : Except Abort Unit :=
  match session.oidcCsrf, session.oidcVerifier, session.oidcNonce with
  | some csrf, some _, some _ =>
    if csrf = state then .ok () else .error (AppError.badRequest "state mismatch; try again")
  | _, _, _ => .error (AppError.badRequest "login session expired; try again")

/-- `callback`; `claims` is what the provider answers, `id` a new id. -/
def oidcCallback (env : Env) (sid : SessionId) (state : Text) (claims : Except AppError Claims)
    (id : Uuid) : Handler Response := do
  let cfg ← ask .instanceConfig
  reject (!cfg.allowOidc) AppError.notFound
  reject (!env.oidcConfigured) AppError.notFound
  let session ← ask (.session sid)
  check (checkOidcSession session state)
  let claims ← check (claims.mapError Abort.error)
  match session.oidcLinkUid with
  | some uid => do
    let user ← ask (.findUserById uid)
    let user ← orThrow user AppError.notFound
    ask (.linkOidc claims.issuer claims.sub user.id)
    applyGroupRole user claims.issuer claims.groups
    ask (.setSession sid fun session => { session with oidcLinkUid := none })
    logIn sid user.id
    pure (.seeOther accountPath)
  | none => do
    let user ← ask (.findOidcUser claims.issuer claims.sub)
    match user with
    | some user => do
      applyGroupRole user claims.issuer claims.groups
      logIn sid user.id
      pure (.seeOther accountPath)
    | none => oidcFirstLogin env sid cfg claims id

/-! ## Administrators -/

/-- `require_admin`: others get a 404. -/
def requireAdmin (env : Env) (caller : Caller) : Handler User := do
  let user ← always (currentUser env caller)
  orThrow (user.filter User.isAdmin) AppError.notFound

/-- The `action` of `GrantForm`. -/
def grantAction (action : Text) : Except Abort Bool :=
  if action = ['g', 'r', 'a', 'n', 't'] then .ok true
  else if action = ['r', 'e', 'v', 'o', 'k', 'e'] then .ok false
  else .error (AppError.badRequest "action must be grant|revoke")

/-- `grant`; there is no id where the segment is not one. -/
def grant (env : Env) (caller : Caller) (id : Option Uuid) (action : Text) : Handler Response := do
  let admin ← requireAdmin env caller
  let id ← orThrow id (AppError.badRequest "bad user id")
  let makeAdmin ← check (grantAction action)
  reject (id = admin.id ∧ !makeAdmin) (AppError.badRequest "cannot revoke your own admin")
  let user ← ask (.findUserById id)
  let _user ← orThrow user AppError.notFound
  ask (.setAdmin id makeAdmin admin.id)
  ask (.audit (some admin.id) "user.admin")
  pure (.seeOther adminPath)

end Server
end Uwuubox
