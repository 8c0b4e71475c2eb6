import Uwuubox.Server.CoreOnce

/-!
# Logging in and out

The rest of the local authentication of `src/routes/accounts.rs`, and the start of a login through the provider in
`src/oidc.rs`; the callback that ends one is in `Server.Accounts`.

* `loginPost`, `logout` — a name and a password, and the end of a session.
* `startLogin` — what a login through the provider leaves in the session, each key written by an
  operation of its own; `oidcLogin` starts one to log in, `linkStart` one to link an identity.
* `AuthRequest`, `serveAuth` — the requests of the server and these.
* `AuthRequest.areas`, `serveAuth_only` — what they write.
* `serveAuth_claims`, `names_once` — cores are claimed before they are used, in these runs, too.
-/

namespace Uwuubox
namespace Server

open Dedupe Storage Table Fallible

/-! ## Local logins -/

/-- `login_error_page` of the login. -/
def loginErrorPage (env : Env) : Handler Response := do
  reject (!env.renders "login") AppError.somethingWentWrong
  pure (.html 400 "login" [])

/-- `login_post`; an account without a password cannot log in here. -/
def loginPost (env : Env) (sid : SessionId) (username password : Text) : Handler Response := do
  let cfg ← ask .instanceConfig
  reject (!cfg.allowLocalLogin) (AppError.forbidden "local login is disabled")
  let user ← ask (.findUserByName (trim username))
  match user with
  | none => loginErrorPage env
  | some user =>
    let hash := user.passwordHash.getD []
    if hash.isEmpty || !env.verifyPassword hash password then loginErrorPage env
    else do
      logIn sid user.id
      pure (.seeOther accountPath)

/-- `logout`. -/
def logout (sid : SessionId) : Handler Response := do
  ask (.setSession sid fun _ => .fresh)
  pure (.seeOther ['/'])

/-! ## Logins through the provider -/

/-- What a login through the provider draws, and the address it sends the browser to. -/
structure OidcStart where
  verifier : Text
  nonce : Text
  csrf : Text
  url : Text

/-- The invite that a login keeps for the callback. -/
def keptInvite (invite : Option Text) : Option Text :=
  (invite.map trim).filter fun invite => !invite.isEmpty

/-- `start_login`. -/
def startLogin (env : Env) (sid : SessionId) (invite : Option Text) (start : OidcStart) : Handler Response := do
  let cfg ← ask .instanceConfig
  reject (!cfg.allowOidc) AppError.notFound
  reject (!env.oidcConfigured) AppError.notFound
  ask (.setSession sid fun session => { session with oidcVerifier := some start.verifier })
  ask (.setSession sid fun session => { session with oidcNonce := some start.nonce })
  ask (.setSession sid fun session => { session with oidcCsrf := some start.csrf })
  -- an invite from an earlier start does not stay
  ask (.setSession sid fun session => { session with oidcInvite := keptInvite invite })
  pure (.seeOther start.url)

/-- `login`. -/
def oidcLogin (env : Env) (sid : SessionId) (invite : Option Text) (start : OidcStart) : Handler Response := do
  ask (.setSession sid fun session => { session with oidcLinkUid := none })
  startLogin env sid invite start

/-- `link_start`: the callback is to link an identity to the user. -/
def linkStart (env : Env) (caller : Caller) (start : OidcStart) : Handler Response := do
  let user ← requireUser env caller
  ask (.setSession caller.session fun session => { session with oidcLinkUid := some user.id })
  startLogin env caller.session none start

/-! ## The requests -/

/-- The requests of the server, logins and logouts among them. -/
inductive AuthRequest where
  | served (req : Request)
  | loginPost (sid : SessionId) (username password : Text)
  | logout (sid : SessionId)
  | oidcLogin (sid : SessionId) (invite : Option Text) (start : OidcStart)
  | linkStart (caller : Caller) (start : OidcStart)

/-- The program of a request. -/
def serveAuth (env : Env) : AuthRequest → Query Outcome
  | .served req => serve env req
  | .loginPost sid username password => (loginPost env sid username password).run
  | .logout sid => (logout sid).run
  | .oidcLogin sid invite start => (oidcLogin env sid invite start).run
  | .linkStart caller start => (linkStart env caller start).run

/-! ## What they write -/

/-- What a request may write. -/
def AuthRequest.areas : AuthRequest → List Area
  | served req => req.areas
  | loginPost _ _ _ | logout _ | oidcLogin _ _ _ | linkStart _ _ => [.sessions]

section Footprint

variable {S : List Area} (env : Env)

theorem only_setSession (sid : SessionId) (set : Session → Session) (hS : .sessions ∈ S) :
    Only S (ask (.setSession sid set)) := .ask (within_of_some rfl hS)

theorem only_loginErrorPage : Only S (loginErrorPage env) := .bind .reject fun _ => .pure

theorem only_loginPost (sid : SessionId) (username password : Text) (hS : .sessions ∈ S) :
    Only S (loginPost env sid username password) := by
  refine .bind (.read rfl) fun _ => .bind .reject fun _ => .bind (.read rfl) fun user => ?_
  cases user with
  | none => exact only_loginErrorPage env
  | some user => exact .ite (only_loginErrorPage env) (.bind (only_logIn sid user.id hS) fun _ => .pure)

theorem only_logout (sid : SessionId) (hS : .sessions ∈ S) : Only S (logout sid) :=
  .bind (only_setSession sid _ hS) fun _ => .pure

theorem only_startLogin (sid : SessionId) (invite : Option Text) (start : OidcStart) (hS : .sessions ∈ S) :
    Only S (startLogin env sid invite start) :=
  .bind (.read rfl) fun _ => .bind .reject fun _ => .bind .reject fun _ =>
    .bind (only_setSession sid _ hS) fun _ => .bind (only_setSession sid _ hS) fun _ =>
      .bind (only_setSession sid _ hS) fun _ => .bind (only_setSession sid _ hS) fun _ => .pure

theorem only_oidcLogin (sid : SessionId) (invite : Option Text) (start : OidcStart) (hS : .sessions ∈ S) :
    Only S (oidcLogin env sid invite start) :=
  .bind (only_setSession sid _ hS) fun _ => only_startLogin env sid invite start hS

theorem only_linkStart (caller : Caller) (start : OidcStart) (hS : .sessions ∈ S) :
    Only S (linkStart env caller start) :=
  .bind (only_requireUser env caller) fun _ => .bind (only_setSession caller.session _ hS) fun _ =>
    only_startLogin env caller.session none start hS

/-- **No request writes more than its areas.** -/
theorem serveAuth_only (req : AuthRequest) : Query.Only req.areas (serveAuth env req) := by
  have hsessions : Area.sessions ∈ [Area.sessions] := List.mem_cons_self
  cases req with
  | served req => exact serve_only env req
  | loginPost sid username password => exact (only_loginPost env sid username password hsessions).run
  | logout sid => exact (only_logout sid hsessions).run
  | oidcLogin sid invite start => exact (only_oidcLogin env sid invite start hsessions).run
  | linkStart caller start => exact (only_linkStart env caller start hsessions).run

end Footprint

/-! ## Cores -/

/-- A request that inserts no row claims no core. -/
theorem claims_of_only {α : Type} {S : List Area} {p : Query α} (hp : Query.Only S p)
    (hS : .newFiles ∉ S ∧ .newPastes ∉ S) : p.Obeys claimProtocol (fun _ _ => True) none :=
  hp.obeys (fun claim _ hop => may_of_within hS claim hop) none

/-- **Every request inserts rows with claimed cores only.** -/
theorem serveAuth_claims (env : Env) (req : AuthRequest) :
    (serveAuth env req).Obeys claimProtocol (fun _ _ => True) none := by
  cases req with
  | served req => exact serve_claims env req
  | _ => exact claims_of_only (serveAuth_only env _) (by simp [AuthRequest.areas])

/-- **A core names one item**, whatever requests insert rows with claimed cores only: in every reachable
pool the cores of the history are distinct and claimed. -/
theorem names_once {ι α : Type} {code : ι → Query α} {mayFail : Op → Prop} {stop : Prop} {h₀ : World × Inserted}
    (hcode : ∀ i, (code i).Obeys claimProtocol (fun _ _ => True) none) (h₀once : Once h₀ 0)
    {p : Pool (World × Inserted) ι Op Op.Res α}
    (hp : Pool.Reachable code (logged recordItem (exec mayFail)) stop h₀ p) : Once p.shared 0 := by
  have howns : ∀ i, (code i).Owns Once (logged recordItem (exec mayFail))
      (fun _ claims => ∃ claim, claims = claimed claim ∧ True) 0 := by
    intro i
    refine (hcode i).owns ?_
    intro claim op h r h' others hmay hw hexec
    exact once_exec hmay hw hexec
  have hdrop : stop → ∀ h claims others, Once h (claims + others) → Once h others :=
    fun _ h claims others hw => hw.drop
  obtain ⟨gs, -, hw⟩ := Pool.ledger h₀once howns hdrop hp
  rw [← add_zero gs.sum] at hw
  exact hw.drop

end Server
end Uwuubox
