import Uwuubox.Server.World
import Uwuubox.Prog.Fallible
import Uwuubox.Dedupe.Requests

/-!
# Handlers, and who is asking

A handler is a program over the operations of the server that answers with a `Response`, stops with
an `AppError`, or panics.

* `Handler`, `ask` — with the rule `obeys_ask`.
* `Response`, `Piece` — what a client gets, with the item whose content a piece is.
* `Env` — what lies outside the repository: digests, password hashing, templates.
* `currentIdentity`, `currentUser`, `requireScope` — `src/identity.rs`.  Only the first keeps the
  scopes of the token.
* `effectiveLimits` — of `src/db.rs`.
-/

namespace Uwuubox
namespace Server

open Dedupe Storage Fallible

/-! ## Errors -/

/-- `AppError` of `src/error.rs`. -/
inductive AppError where
  | badRequest (msg : String)
  | unauthorized
  | forbidden (msg : String)
  | notFound
  | tooLarge (maxBytes : ℤ)
  | unsupportedMedia (mime : Text)
  | unprocessable (msg : String)
  | rateLimited
  | serviceUnavailable (msg : String)
  | internal (msg : String)
deriving DecidableEq

namespace AppError

/-- `AppError::internal`: the message is logged, not shown. -/
def somethingWentWrong : AppError := .internal "something went wrong"

/-- `AppError::from`. -/
def from' : Failure → AppError
  | .storage (.notFound _) => .notFound
  | .storage (.backend _) => somethingWentWrong
  | .sql _ => somethingWentWrong

/-- The errors of uploads and removals. -/
def ofDedupe : Dedupe.AppError → AppError
  | .notFound => .notFound
  | .internal msg => .internal msg

/-- `AppError::status`. -/
def status : AppError → ℕ
  | badRequest _ => 400
  | unauthorized => 401
  | forbidden _ => 403
  | notFound => 404
  | tooLarge _ => 413
  | unsupportedMedia _ => 415
  | unprocessable _ => 422
  | rateLimited => 429
  | serviceUnavailable _ => 503
  | internal _ => 500

end AppError

/-- Why a handler stops before its end. -/
inductive Abort where
  | error (e : AppError)
  | panic
deriving DecidableEq

instance : Coe AppError Abort := ⟨Abort.error⟩

/-! ## Responses -/

/-- A file or a paste. -/
inductive Item where
  | file (core : Core)
  | paste (core : Core)
deriving DecidableEq

/-- A value of a JSON answer. -/
inductive JsonValue where
  | text (t : Text)
  | flag (b : Bool)
  | time (t : Option ℤ)
  | list (ts : List Text)
deriving DecidableEq

/-- A part of the body of a response. -/
inductive Piece where
  /-- Bytes of the content of an item, as they are or converted. -/
  | content (of : Item) (bytes : Bytes)
  /-- The markup of a page, without what it shows of an item. -/
  | html (page : String)
  | json (fields : List (String × JsonValue))

structure Response where
  status : ℕ
  headers : List (String × String)
  body : List Piece
  /-- Where a streamed body broke off. -/
  brokenOff : Option StorageError

/-- A `303` to a path. -/
def Response.seeOther (location : Text) : Response :=
  ⟨303, [("location", String.ofList location)], [], none⟩

/-- A JSON answer. -/
def Response.json (fields : List (String × JsonValue)) : Response := ⟨200, [], [.json fields], none⟩

/-- A page. -/
def Response.html (status : ℕ) (page : String) (pieces : List Piece) : Response :=
  ⟨status, [], .html page :: pieces, none⟩

/-- The response has content of the item in it. -/
def Response.Carries (r : Response) (item : Item) : Prop := ∃ bytes, .content item bytes ∈ r.body

/-! ## Handlers -/

/-- A program over the operations of the server. -/
abbrev Query (α : Type) := Prog Op Op.Res α

/-- A handler. -/
abbrev Handler (α : Type) := Fallible Op Op.Res Abort α

/-- An operation followed by `?`. -/
def ask (op : Op) : Handler op.Val := do
  match ← perform op with
  | .ok v => pure v
  | .error e => throw (Abort.error (.from' e))

/-- What uploads and removals do, on the server. -/
def storage {α : Type} (p : Dedupe.Handler α) : Query α :=
  p.interp fun op => Prog.perform (.storage op)

section Rules

variable {Γ α : Type} {π : Protocol Γ Op Op.Res} {err : Abort → Γ → Prop} {γ : Γ}

@[simp] theorem obeys_ask {op : Op} {fin : op.Val → Γ → Prop} :
    (ask op).Obeys π fin err γ ↔ π.may γ op ∧ ∀ r γ', π.next γ op r γ' →
      (∀ v, r = .ok v → fin v γ') ∧ ∀ e, r = .error e → err (Abort.error (.from' e)) γ' := by
  unfold ask
  rw [obeys_bind, obeys_perform]
  apply and_congr_right'
  refine forall_congr' fun r => forall_congr' fun γ' => imp_congr_right fun _ => ?_
  cases r with
  | ok v => simp
  | error e => simp

theorem Ends.ask {α β : Type} {next : α → (op : Op) → op.Res → α → Prop} {fin : β → α → Prop} {op : Op}
    {f : op.Val → Handler β} {P : op.Val → Prop} (hnext : ∀ a v b, next a op (.ok v) b → P v)
    (hf : ∀ v, P v → Ends next fin (f v)) : Ends next fin (Server.ask op >>= f) := by
  refine .step (fun γ => obeys_ask.2 ⟨trivial, fun r γ' hr => ⟨?_, fun _ _ => trivial⟩⟩) hf
  rintro v rfl
  exact hnext γ v γ' hr

/-- What uploads and removals do obeys the protocol that their operations obey. -/
theorem obeys_storage {p : Dedupe.Handler α} {fin : α → Γ → Prop}
    (h : p.Obeys ⟨fun γ op => π.may γ (.storage op), fun γ op r γ' => π.next γ (.storage op) r γ'⟩
      fin γ) : (storage p).Obeys π fin γ := by
  apply Prog.Obeys.interp _ h
  intro γ op hmay
  exact ⟨hmay, fun r γ' hnext => hnext⟩

end Rules

/-! ## Who is asking -/

/-- The headers that handlers read. -/
structure Headers where
  authorization : Option Bytes
  range : Option Bytes
  accept : Option Bytes
  contentType : Option Bytes
deriving DecidableEq

/-- No header at all. -/
def Headers.none : Headers := ⟨.none, .none, .none, .none⟩

/-- Where a request comes from. -/
structure Caller where
  session : SessionId
  headers : Headers
deriving DecidableEq

/-- `Verdict` of `src/scan.rs`. -/
inductive Verdict where
  | clean
  | skipped
  | infected (reason : String)

/-- What lies outside the repository. -/
structure Env where
  sha256 : Bytes → Digest
  /-- `sniff_mime`, which asks `infer`. -/
  sniffMime : Bytes → Text
  /-- `strip_image_metadata`: the bytes, and whether anything was stripped. -/
  stripImageMetadata : Bytes → Except Unit (Bytes × Bool)
  /-- `zip_has_encrypted_entry_path`. -/
  zipHasEncryptedEntry : Bytes → Except Unit Bool
  /-- `scan::verdict_path` of a name, a content and a type. -/
  scan : Text → Bytes → Text → Verdict
  /-- Whether `ZipWriter` takes entries with these names. -/
  archives : List Text → Bool
  /-- `api_token_hash` with the secret of the instance. -/
  apiTokenHash : Text → Text
  /-- `delete_token_hash` with the secret of the instance. -/
  deleteTokenHash : Text → Text
  /-- Argon2 with a salt. -/
  argon2 : Text → Text → Except String Text
  /-- `verify_password`. -/
  verifyPassword : Text → Text → Bool
  /-- `validate_email`. -/
  validateEmail : Text → Bool
  /-- `str::to_lowercase`. -/
  toLowercase : Text → Text
  /-- `String::from_utf8_lossy`. -/
  utf8Lossy : Bytes → Text
  /-- `render_markdown`. -/
  renderMarkdown : Text → Text
  /-- `render_highlight`. -/
  renderHighlight : Option Text → Text → Except String Text
  /-- `detect_language`. -/
  detectLanguage : Option Text → Text → Option Text
  /-- Whether a template renders. -/
  renders : String → Bool
  /-- `Utc::now() + TimeDelta::seconds`; `none` is a panic. -/
  later : ℤ → ℤ → Option ℤ
  /-- Whether a provider is configured. -/
  oidcConfigured : Bool
  baseUrl : Text

/-- `text/html`. -/
def textHtml : Text := ['t', 'e', 'x', 't', '/', 'h', 't', 'm', 'l']

/-- `wants_html`. -/
def wantsHtml (headers : Headers) : Bool :=
  (headers.accept.bind toStr).any fun accept => decide (textHtml <:+: accept)

/-- `Identity`. -/
structure Identity where
  user : User
  scopes : List Scope

/-- `session_user`. -/
def sessionUser (sid : SessionId) : Query (Option User) := do
  match ← Prog.perform (Op.session sid) with
  | .error _ => pure none
  | .ok session =>
    match session.uid with
    | none => pure none
    | some id =>
      match ← Prog.perform (Op.findUserById id) with
      | .ok user => pure user
      | .error _ => pure none

/-- `bearer_identity`. -/
def bearerIdentity (env : Env) (headers : Headers) : Query (Option Identity) :=
  match bearer headers.authorization with
  | none => pure none
  | some token =>
    if !isApiTokenFormat token then pure none
    else do
      match ← Prog.perform (Op.tokenIdentity (env.apiTokenHash token)) with
      | .ok (some (user, scopes)) => do
        -- a failed touch is only logged
        let _ ← Prog.perform (Op.touchToken (env.apiTokenHash token))
        pure (some ⟨user, scopes⟩)
      | .ok none => pure none
      | .error _ => pure none

/-- `current_identity`: a session has all scopes, a token its own. -/
def currentIdentity (env : Env) (caller : Caller) : Query (Option Identity) := do
  match ← sessionUser caller.session with
  | some user => pure (some ⟨user, apiScopes⟩)
  | none => bearerIdentity env caller.headers

/-- `current_user`: the user, whatever the scopes. -/
def currentUser (env : Env) (caller : Caller) : Query (Option User) := do
  match ← sessionUser caller.session with
  | some user => pure (some user)
  | none => do
    let identity ← bearerIdentity env caller.headers
    pure (identity.map Identity.user)

/-- `require_scope`. -/
def requireScope (identity : Option Identity) (scope : Scope) : Except Abort Identity :=
  match identity with
  | none => .error AppError.unauthorized
  | some identity =>
    if scope ∈ identity.scopes then .ok identity
    else .error (AppError.forbidden "token lacks required scope")

/-- The check of the endpoints that also serve anonymous callers: only an `Authorization`
header asks for the scope. -/
def requireScopeIfBearer (caller : Caller) (identity : Option Identity) (scope : Scope) : Handler Unit :=
  if caller.headers.authorization.isSome then do
    let _ ← check (requireScope identity scope)
    pure ()
  else pure ()

/-- The role of a user, if there is one. -/
def roleOf (user : Option User) : Handler (Option Role) :=
  match user.bind User.roleId with
  | some id => ask (.findRole id)
  | none => pure none

/-- `effective_limits`. -/
def effectiveLimits (cfg : InstanceConfig) (user : Option User) : Handler EffectiveLimits := do
  let role ← roleOf user
  pure (.merge cfg role (user.bind User.quotaOverrideBytes))

/-- The owner that a page names. -/
def ownerOf (ownerId : Option Uuid) : Handler (Option User) :=
  match ownerId with
  | some id => ask (.findUserById id)
  | none => pure none

/-- `check_delete_access`: the owner, or a matching delete token. -/
def checkDeleteAccess (env : Env) (user : Option User) (ownerId : Option Uuid)
    (storedHash providedToken : Option Text) : Bool :=
  (match user, ownerId with
    | some u, some o => u.id = o
    | _, _ => false) ||
  match storedHash, providedToken with
  | some s, some p => env.deleteTokenHash p = s
  | _, _ => false

/-- `hash_password`, with its salt. -/
def hashPassword (env : Env) (salt pw : Text) : Except String Text :=
  if utf8Len pw < 8 then .error "password must be at least 8 characters"
  else if utf8Len pw > 72 then .error "password must be at most 72 bytes"
  else env.argon2 salt pw

/-- `expires_at` of a new item, and a panic where there is no such time. -/
def expiresAt (env : Env) (lifetime : Option ℤ) : Handler (Option ℤ) :=
  match lifetime with
  | none => pure none
  | some secs => do
    let now ← ask .now
    let at' ← orThrow (env.later now secs) .panic
    pure (some at')

/-- The lifetime of an upload or a paste. -/
def lifetime (limits : EffectiveLimits) (requested : ExpiryRequest) (allowNever : Bool) :
    Handler (Option ℤ) := do
  let clamped ← orThrow (limits.clamp requested allowNever) .panic
  check (clamped.mapError fun _ => AppError.badRequest "never expiry is not allowed here")

/-- `expires_at` of an upload or a paste. -/
def newExpiry (env : Env) (limits : EffectiveLimits) (requested : ExpiryRequest) (allowNever : Bool) :
    Handler (Option ℤ) := do
  let lifetime ← lifetime limits requested allowNever
  expiresAt env lifetime

end Server
end Uwuubox
