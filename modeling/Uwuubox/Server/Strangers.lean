import Uwuubox.Server.Entitled

/-!
# Requests without the credentials of an account

An account has a password, tokens and linked identities.  Here nobody brings them: whatever requests interleave, fail or
stop, no session is logged in for the account, and what it owns stays.  The requests are those of `AuthRequest`; passkeys
and the links that reset a password are credentials, too, and their endpoints are not among these.

* `Presents` — the request brings credentials of the account.
* `World.Untaken` — **the invariant**: no session is logged in for the account or about to link it, and it has no
  more tokens and identities than at the beginning.
* `Op.Spares`, `Unaware` — what a request without credentials performs, and is answered.
* `spares_serveAuth` — **one lemma for each handler that writes sessions, tokens or identities**, assembled.
* `strangers_kept_out` — the result, with the items of the account.
-/

namespace Uwuubox
namespace Server

open Dedupe Storage Table Fallible

/-! ## Credentials -/

/-- The request brings credentials of the account: its password, one of its tokens, or an identity that is linked to
it. -/
inductive Presents (env : Env) (w : World) (user : User) : AuthRequest → Prop
  | password {sid : SessionId} {username password hash : Text} : citext user.username = citext (trim username) →
      user.passwordHash = some hash → env.verifyPassword hash password = true →
      Presents env w user (.loginPost sid username password)
  | token {req : AuthRequest} {caller : Caller} {token : Text} {row : ApiToken} : req.caller? = some caller →
      bearer caller.headers.authorization = some token → row ∈ w.apiTokens → row.userId = user.id →
      row.tokenHash = env.apiTokenHash token → Presents env w user req
  | identity {sid : SessionId} {state : Text} {claims : Claims} {id : Uuid} {linked : OidcIdentity} :
      linked ∈ w.oidcIdentities → linked.userId = user.id → linked.issuer = claims.issuer → linked.sub = claims.sub →
      Presents env w user (.served (.oidcCallback sid state (.ok claims) id))

/-- The session is not logged in for the user, and does not link to it. -/
def Session.Apart (uid : Uuid) (session : Session) : Prop :=
  session.uid ≠ some uid ∧ session.oidcLinkUid ≠ some uid

theorem fresh_apart (uid : Uuid) : Session.fresh.Apart uid := by
  constructor <;> exact fun h => Option.some_ne_none uid h.symm

/-- A row of the account. -/
def User.Is (user row : User) : Prop := row.username = user.username ∧ row.passwordHash = user.passwordHash

/-- Nobody has the account: no session is logged in for it, and it has no credentials that it had not in `w₀`. -/
structure World.Untaken (w₀ : World) (user : User) (w : World) : Prop where
  account : ∃ row ∈ w.users, row.id = user.id
  same : ∀ row ∈ w.users, row.id = user.id → user.Is row
  sessions : ∀ sid, (w.sessions sid).Apart user.id
  tokens : ∀ row ∈ w.apiTokens, row.userId = user.id →
    ∃ row₀ ∈ w₀.apiTokens, row₀.userId = user.id ∧ row₀.tokenHash = row.tokenHash
  identities : ∀ row ∈ w.oidcIdentities, row.userId = user.id →
    ∃ row₀ ∈ w₀.oidcIdentities, row₀.userId = user.id ∧ row₀.issuer = row.issuer ∧ row₀.sub = row.sub

/-- It has not been taken in the beginning. -/
theorem untaken_start {w : World} {user : User} (hrow : user ∈ w.users)
    (hsessions : ∀ sid, (w.sessions sid).Apart user.id) : w.Untaken user w where
  account := ⟨user, hrow, rfl⟩
  same row hmem hid := by
    rw [Keyed.eq_of_col hmem hrow hid]
    exact ⟨rfl, rfl⟩
  sessions := hsessions
  tokens row hmem hid := ⟨row, hmem, hid, rfl⟩
  identities row hmem hid := ⟨row, hmem, hid, rfl, rfl⟩

/-- The operation gives nobody the account. -/
def Op.Spares (uid : Uuid) : Op → Prop
  | .setSession _ set => ∀ session : Session, session.Apart uid → (set session).Apart uid
  | .insertToken row => row.userId ≠ uid
  | .linkOidc _ _ userId => userId ≠ uid
  | _ => True

/-- The answer shows the account only for credentials that it had in `w₀`. -/
def Unaware (w₀ : World) (user : User) : (op : Op) → op.Res → Prop
  | .session _, .ok session => session.Apart user.id
  | .findUserById id, .ok (some row) => row.id = id
  | .findUserByName name, .ok (some row) => row.id = user.id → user.Is row ∧ citext row.username = citext name
  | .insertUser _, .ok row | .createUser _ _, .ok (some row) => row.id ≠ user.id
  | .findOidcUser issuer sub, .ok (some row) => row.id = user.id →
      ∃ row₀ ∈ w₀.oidcIdentities, row₀.userId = user.id ∧ row₀.issuer = issuer ∧ row₀.sub = sub
  | .tokenIdentity tokenHash, .ok (some (row, _)) => row.id = user.id →
      ∃ row₀ ∈ w₀.apiTokens, row₀.userId = user.id ∧ row₀.tokenHash = tokenHash
  | _, _ => True

/-! ## One operation -/

section Step

variable {mayFail : Op → Prop} {w₀ w w' : World} {user : User} {op : Op} {r : op.Res}

/-- A user that is inserted has an id that nobody had. -/
theorem insertUser_ok {row inserted : User} (h : insertUser w row = (.ok inserted, w')) :
    inserted = row ∧ (∀ u ∈ w.users, u.id ≠ row.id) ∧ w'.users.rows = row :: w.users.rows := by
  unfold insertUser at h
  split at h
  · cases h
  · split at h
    · cases h
    · split at h
      · cases h
      · rename_i users hinsert
        cases h
        obtain ⟨hrows, hnew⟩ := Keyed.insert?_eq_some hinsert
        exact ⟨rfl, hnew, hrows⟩

theorem answer_createUser_ok {row inserted : User} {code : Text}
    (h : (answer w (.createUser row code)).1 = .ok (some inserted)) : ∃ w', insertUser w row = (.ok inserted, w') := by
  simp only [answer] at h
  split at h
  · split at h
    · cases h
    · rename_i user w' hinsert
      cases h
      exact ⟨w', hinsert⟩
  · cases h

/-- **What is answered in a state in which nobody has the account.** -/
theorem exec_unaware (h : exec mayFail w op r w') (hw : w₀.Untaken user w) : Unaware w₀ user op r := by
  have hother : ∀ {row inserted : User} {w' : World}, insertUser w row = (.ok inserted, w') →
      inserted.id ≠ user.id := by
    intro row inserted w' hinsert heq
    obtain ⟨rfl, hnew, -⟩ := insertUser_ok hinsert
    obtain ⟨u, hu, hid⟩ := hw.account
    exact hnew u hu (hid.trans heq.symm)
  unfold Unaware
  split
  · rw [Except.ok.inj (congrArg Prod.fst (exec_answered h rfl))]
    exact hw.sessions _
  · have hfind := Except.ok.inj (congrArg Prod.fst (exec_answered h rfl))
    exact (Keyed.mem_of_find? hfind.symm).2
  · intro hid
    have hfind := Except.ok.inj (congrArg Prod.fst (exec_answered h rfl))
    exact ⟨hw.same _ (List.mem_of_find?_eq_some hfind.symm) hid, by simpa using List.find?_some hfind.symm⟩
  · exact hother (exec_answered h rfl).symm
  · obtain ⟨_, hinsert⟩ := answer_createUser_ok (congrArg Prod.fst (exec_answered h rfl)).symm
    exact hother hinsert
  · intro hid
    have hfound := Except.ok.inj (congrArg Prod.fst (exec_answered h rfl))
    obtain ⟨linked, hlinked, huser⟩ := Option.bind_eq_some_iff.1 hfound.symm
    obtain ⟨hmem, hkey⟩ := Keyed.mem_of_find? hlinked
    obtain ⟨rfl, rfl⟩ := Prod.mk.inj hkey
    exact hw.identities linked hmem ((Keyed.mem_of_find? huser).2.symm.trans hid)
  · intro hid
    obtain ⟨-, row, hrow, rfl, hrowid⟩ := tokenIdentity_found (congrArg Prod.fst (exec_answered h rfl)).symm
    exact hw.tokens row hrow (hrowid.trans hid)
  · trivial

theorem exec_linkOidc {issuer sub : Text} {userId : Uuid} {r : (Op.linkOidc issuer sub userId).Res}
    (h : exec mayFail w (.linkOidc issuer sub userId) r w') {row : OidcIdentity} (hrow : row ∈ w'.oidcIdentities) :
    row.userId = userId ∨ row ∈ w.oidcIdentities := by
  rcases exec_statement h rfl with heq | ⟨-, -, rfl⟩
  · simp only [answer] at heq
    split at heq
    · rename_i identities hinsert
      cases heq
      rcases (Keyed.mem_insert? hinsert).1 hrow with rfl | hrow
      · exact .inl rfl
      · exact .inr hrow
    · cases heq
      rcases mem_updateWhere.1 (Keyed.mem_def.1 hrow) with ⟨hold, -⟩ | ⟨old, -, -, rfl⟩
      · exact .inr hold
      · exact .inl rfl
  · exact .inr hrow

/-- The rows of the account are the same after an update that keeps names and hashes. -/
theorem untaken_update {p : User → Bool} {f : User → User} {hf : ∀ u, (f u).id = u.id}
    (hsame : ∀ u, user.Is u → user.Is (f u)) (hw : w₀.Untaken user w) :
    w₀.Untaken user { w with users := w.users.update p f hf } where
  account := by
    obtain ⟨u, hu, hid⟩ := hw.account
    cases hp : p u with
    | false => exact ⟨u, mem_updateWhere.2 (.inl ⟨hu, hp⟩), hid⟩
    | true => exact ⟨f u, mem_updateWhere.2 (.inr ⟨u, hu, hp, rfl⟩), (hf u).trans hid⟩
  same row hrow hid := by
    rcases mem_updateWhere.1 (Keyed.mem_def.1 hrow) with ⟨hold, -⟩ | ⟨old, hold, -, rfl⟩
    · exact hw.same row hold hid
    · exact hsame old (hw.same old hold ((hf old).symm.trans hid))
  sessions := hw.sessions
  tokens := hw.tokens
  identities := hw.identities

/-- A new account is another one. -/
theorem untaken_insert {row : User} {users : Keyed User.id} {codes : Keyed InviteCode.code}
    (hrows : users.rows = row :: w.users.rows ∨ users.rows = w.users.rows) (hw : w₀.Untaken user w) :
    w₀.Untaken user { w with users := users, inviteCodes := codes } where
  account := by
    obtain ⟨u, hu, hid⟩ := hw.account
    rcases hrows with hrows | hrows
    · exact ⟨u, Keyed.mem_def.2 (hrows ▸ List.mem_cons_of_mem _ hu), hid⟩
    · exact ⟨u, Keyed.mem_def.2 (hrows ▸ hu), hid⟩
  same other hother hid := by
    rcases hrows with hrows | hrows
    · obtain ⟨u, hu, huid⟩ := hw.account
      have hmem : u ∈ users := Keyed.mem_def.2 (hrows ▸ List.mem_cons_of_mem _ hu)
      obtain rfl : other = u := Keyed.eq_of_col hother hmem (hid.trans huid.symm)
      exact hw.same other hu hid
    · exact hw.same other (Keyed.mem_def.2 (hrows ▸ hother)) hid
  sessions := hw.sessions
  tokens := hw.tokens
  identities := hw.identities

/-- **Nobody gets the account** from an operation that gives it to nobody. -/
theorem exec_untaken (hop : op.Spares user.id) (h : exec mayFail w op r w') (hw : w₀.Untaken user w) :
    w₀.Untaken user w' := by
  cases op with
  | insertUser row | createUser row code =>
    obtain ⟨users, codes, rfl⟩ := exec_frame h
    exact untaken_insert (exec_inserts h rfl) hw
  | setAdmin id admin by' =>
    rcases exec_statement h rfl with heq | ⟨-, -, rfl⟩
    · cases heq
      exact untaken_update (fun _ h => h) hw
    · exact hw
  | assignRole id role =>
    rcases exec_statement h rfl with heq | ⟨-, -, rfl⟩
    · simp only [answer] at heq
      split at heq
      · cases heq
        exact untaken_update (fun _ h => h) hw
      · cases heq
        exact hw
    · exact hw
  | insertToken row =>
    obtain ⟨tokens, rfl⟩ := exec_frame h
    refine ⟨hw.account, hw.same, hw.sessions, fun token htoken hid => ?_, hw.identities⟩
    rcases exec_insertToken h htoken with rfl | hold
    · exact absurd hid hop
    · exact hw.tokens token hold hid
  | revokeToken id userId =>
    obtain ⟨tokens, rfl⟩ := exec_frame h
    exact ⟨hw.account, hw.same, hw.sessions, fun token htoken => hw.tokens token (exec_revokeToken h htoken),
      hw.identities⟩
  | linkOidc issuer sub userId =>
    obtain ⟨identities, rfl⟩ := exec_frame h
    refine ⟨hw.account, hw.same, hw.sessions, hw.tokens, fun row hrow hid => ?_⟩
    rcases exec_linkOidc h hrow with heq | hold
    · exact absurd (heq.symm.trans hid) hop
    · exact hw.identities row hold hid
  | setSession sid set =>
    rcases exec_statement h rfl with heq | ⟨-, -, rfl⟩
    · cases heq
      refine ⟨hw.account, hw.same, fun other => ?_, hw.tokens, hw.identities⟩
      by_cases hsid : other = sid
      · subst hsid
        simpa using hop _ (hw.sessions other)
      · simpa [hsid] using hw.sessions other
    · exact hw
  | storage op =>
    obtain ⟨dedupe, rfl, -⟩ := exec_storage h
    exact ⟨hw.account, hw.same, hw.sessions, hw.tokens, hw.identities⟩
  | _ =>
    obtain ⟨_, _, rfl⟩ := exec_frame h
    exact ⟨hw.account, hw.same, hw.sessions, hw.tokens, hw.identities⟩

end Step

/-! ## The handlers -/

/-- The handler gives nobody the account, as long as it is not shown it, and returns what `P` accepts. -/
abbrev Sparing {α : Type} (w₀ : World) (user : User) (P : α → Prop) (p : Handler α) : Prop :=
  p.Conforms (Op.Spares user.id) (Unaware w₀ user) P

/-- The areas of sessions, tokens and identities. -/
def Area.credentials : List Area := [.sessions, .tokens, .identities]

theorem spares_of_within {S : List Area} (hS : ∀ a ∈ S, a ∉ Area.credentials) {uid : Uuid} {op : Op}
    (hop : Within S op) : op.Spares uid := by
  have hnot : ∀ a, op.area = some a → a ∉ Area.credentials := fun a ha => hS a (hop a ha)
  cases op with
  | setSession sid set => exact absurd (by simp [Area.credentials]) (hnot .sessions rfl)
  | insertToken row => exact absurd (by simp [Area.credentials]) (hnot .tokens rfl)
  | linkOidc issuer sub userId => exact absurd (by simp [Area.credentials]) (hnot .identities rfl)
  | _ => trivial

section Handlers

variable {env : Env} {w₀ : World} {user : User} {caller : Caller} {α β : Type} {P : α → Prop} {Q : β → Prop}

theorem sparing_only {S : List Area} (hS : ∀ a ∈ S, a ∉ Area.credentials) {p : Query α} (hp : Query.Only S p) :
    p.Obeys (.flat (Op.Spares user.id) (Unaware w₀ user)) (fun _ _ => True) () :=
  hp.obeys (fun _ _ hop => spares_of_within hS hop) ()

namespace Sparing

/-- A handler that reads. -/
theorem read {p : Handler α} (hp : Only [] p) : Sparing w₀ user (fun _ => True) p :=
  hp.obeys (fun _ _ hop => spares_of_within (fun _ ha => absurd ha List.not_mem_nil) hop) ()

/-- A step that reads, and whose value does not matter. -/
theorem skip {p : Handler α} {f : α → Handler β} (hp : Only [] p) (hf : ∀ a, Sparing w₀ user Q (f a)) :
    Sparing w₀ user Q (p >>= f) := Conforms.bind (read hp) fun a _ => hf a

/-- An operation with its answer. -/
theorem ask {op : Op} (h : op.Spares user.id) :
    Sparing w₀ user (fun v => Unaware w₀ user op (.ok v)) (Server.ask op) := by
  refine obeys_ask.2 ⟨h, fun r _ hr => ⟨?_, fun _ _ => trivial⟩⟩
  rintro v rfl
  exact hr

/-- An operation whose answer does not matter. -/
theorem ask_bind {op : Op} {f : op.Val → Handler β} (h : op.Spares user.id) (hf : ∀ v, Sparing w₀ user Q (f v)) :
    Sparing w₀ user Q (Server.ask op >>= f) := Conforms.bind (ask h) fun v _ => hf v

end Sparing

/-- No token of the account is in the header. -/
def Tokenless (env : Env) (w₀ : World) (user : User) (caller : Caller) : Prop :=
  ∀ token, bearer caller.headers.authorization = some token →
    ∀ row ∈ w₀.apiTokens, row.userId = user.id → row.tokenHash ≠ env.apiTokenHash token

theorem tokenless_of_not_presents {req : AuthRequest} (hreq : ¬ Presents env w₀ user req)
    (hcaller : req.caller? = some caller) : Tokenless env w₀ user caller :=
  fun _ hbearer _ hrow hid hhash => hreq (.token hcaller hbearer hrow hid hhash)

theorem sparing_sessionUser (sid : SessionId) :
    (sessionUser sid).Obeys (.flat (Op.Spares user.id) (Unaware w₀ user))
      (fun found _ => ∀ u, found = some u → u.id ≠ user.id) () := by
  refine ⟨trivial, fun r _ hr => ?_⟩
  cases r with
  | error _ => exact fun _ h => by cases h
  | ok session =>
    obtain ⟨uid, _, _, _, _, _, _⟩ := session
    cases uid with
    | none => exact fun _ h => by cases h
    | some id =>
      have hother : id ≠ user.id := fun heq => hr.1 (congrArg some heq)
      refine ⟨trivial, fun r' _ hr' => ?_⟩
      cases r' with
      | error _ => exact fun _ h => by cases h
      | ok found =>
        rintro u rfl
        have hid : u.id = id := hr'
        rw [hid]
        exact hother

theorem sparing_bearerIdentity (h : Tokenless env w₀ user caller) :
    (bearerIdentity env caller.headers).Obeys (.flat (Op.Spares user.id) (Unaware w₀ user))
      (fun found _ => ∀ identity, found = some identity → identity.user.id ≠ user.id) () := by
  unfold bearerIdentity
  split
  · exact fun _ h => by cases h
  · rename_i token hbearer
    split
    · exact fun _ h => by cases h
    · refine ⟨trivial, fun r _ hr => ?_⟩
      rcases r with _ | _ | ⟨u, scopes⟩
      · exact fun _ h => by cases h
      · exact fun _ h => by cases h
      · refine ⟨trivial, fun _ _ _ => ?_⟩
        rintro _ ⟨⟩ hid
        obtain ⟨row, hrow, huser, hhash⟩ := hr hid
        exact h token hbearer row hrow huser hhash

/-- **Who is found is somebody else.** -/
theorem sparing_requireUser (h : Tokenless env w₀ user caller) :
    Sparing w₀ user (fun u => u.id ≠ user.id) (requireUser env caller) := by
  refine .always (P := fun found => ∀ u, found = some u → u.id ≠ user.id) ?_ fun found hfound => ?_
  · refine (Prog.obeys_bind _ _ _).2 ((sparing_sessionUser caller.session).mono fun found _ hfound => ?_)
    cases found with
    | some u => exact hfound
    | none =>
      refine (Prog.obeys_bind _ _ _).2 ((sparing_bearerIdentity h).mono fun identity _ hidentity => ?_)
      intro u hu
      obtain ⟨identity, rfl, rfl⟩ := Option.map_eq_some_iff.1 hu
      exact hidentity identity rfl
  · exact obeys_orThrow.2 ⟨fun _ => trivial, fun u hu => hfound u hu⟩

theorem sparing_unlockItem (sid : SessionId) (hash : Option Text) (core : Core) (password : Text) :
    Sparing w₀ user (fun _ => True) (unlockItem env sid hash core password) := by
  cases hash with
  | none => exact .pure trivial
  | some hash => exact .reject fun _ => .mono (Sparing.ask fun session hsession => hsession) fun _ _ => trivial

theorem sparing_unlock (sid : SessionId) (segment password : Text) :
    Sparing w₀ user (fun _ => True) (unlock env sid segment password) :=
  Sparing.skip (only_loadLiveFile segment) fun file =>
    .bind (sparing_unlockItem sid file.accessPasswordHash file.idCore password) fun _ _ => .pure trivial

theorem sparing_unlockPaste (sid : SessionId) (segment password : Text) :
    Sparing w₀ user (fun _ => True) (unlockPaste env sid segment password) :=
  Sparing.skip (only_loadLivePaste segment) fun paste =>
    .bind (sparing_unlockItem sid paste.accessPasswordHash paste.idCore password) fun _ _ => .pure trivial

/-- To log in as somebody else. -/
theorem sparing_logIn (sid : SessionId) {id : Uuid} (hid : id ≠ user.id) :
    Sparing w₀ user (fun _ => True) (logIn sid id) :=
  .mono (Sparing.ask fun _ hsession => ⟨fun heq => hid (Option.some.inj heq), hsession.2⟩) fun _ _ => trivial

theorem sparing_createToken (h : Tokenless env w₀ user caller) (form : TokenForm) (id : Uuid) (token : Text) :
    Sparing w₀ user (fun _ => True) (createToken env caller form id token) := by
  refine .bind (sparing_requireUser h) fun u hu => Sparing.skip .check fun grant => Sparing.skip (.read rfl) fun now =>
    Sparing.ask_bind hu fun _ => .ite (fun _ => ?_) fun _ => .pure trivial
  exact Sparing.read (only_dashboardResponse env u)

theorem sparing_registerErrorPage : Sparing w₀ user (fun _ => True) (registerErrorPage env) :=
  .reject fun _ => .pure trivial

/-- The ways to a new account: it is another one. -/
def Another (user : User) (result : Except InviteRegistrationError User) : Prop :=
  ∀ u, result = .ok u → u.id ≠ user.id

theorem sparing_insertOpen (row : User) : (insertOpen row).Obeys (.flat (Op.Spares user.id) (Unaware w₀ user))
    (fun result _ => Another user result) () := by
  refine ⟨trivial, fun r _ hr => ?_⟩
  cases r with
  | error e => exact fun _ h => by cases h
  | ok u =>
    rintro _ ⟨⟩
    exact hr

theorem sparing_createInvited (row : User) (code : Text) :
    (createInvited row code).Obeys (.flat (Op.Spares user.id) (Unaware w₀ user))
      (fun result _ => Another user result) () := by
  refine ⟨trivial, fun r _ hr => ?_⟩
  rcases r with e | _ | u
  · exact fun _ h => by cases h
  · exact fun _ h => by cases h
  · rintro _ ⟨⟩
    exact hr

theorem sparing_finishRegistration (sid : SessionId) {result : Except InviteRegistrationError User}
    (h : Another user result) : Sparing w₀ user (fun _ => True) (finishRegistration env sid result) := by
  rcases result with (_ | e) | u
  · exact sparing_registerErrorPage
  · exact .ite (fun _ => sparing_registerErrorPage) fun _ => .throw
  · exact .bind (sparing_logIn sid (h u rfl)) fun _ _ => .pure trivial

theorem sparing_register (sid : SessionId) (cfg : InstanceConfig) (form : RegisterForm) (hash : Text) (id : Uuid) :
    Sparing w₀ user (fun _ => True) (register env sid cfg form hash id) := by
  refine Sparing.skip (.read rfl) fun count => .ite (fun _ => ?_) fun _ => .ite (fun _ => ?_) fun _ => .throw
  · exact .always (sparing_insertOpen _) fun _ h => sparing_finishRegistration sid h
  · refine .ite (fun _ => sparing_registerErrorPage) fun _ => ?_
    exact .always (sparing_createInvited _ _) fun _ h => sparing_finishRegistration sid h

theorem sparing_registerPost (sid : SessionId) (form : RegisterForm) (salt : Text) (id : Uuid) :
    Sparing w₀ user (fun _ => True) (registerPost env sid form salt id) := by
  refine Sparing.skip (.read rfl) fun cfg => .reject fun _ => .reject fun _ =>
    .ite (fun _ => sparing_registerErrorPage) fun _ => ?_
  split
  · exact sparing_register sid cfg form _ id
  · exact sparing_registerErrorPage

theorem sparing_applyGroupRole (u : User) (issuer : Text) (groups : List Text) :
    Sparing w₀ user (fun _ => True) (applyGroupRole u issuer groups) :=
  (only_applyGroupRole u issuer groups List.mem_cons_self).obeys (S := [.roleOfUser])
    (fun _ _ hop => spares_of_within (by simp [Area.credentials]) hop) ()

theorem sparing_provision (cfg : InstanceConfig) (row : User) (invite : Option Text) :
    Sparing w₀ user (fun u => u.id ≠ user.id) (provision cfg row invite) := by
  refine .ite (fun _ => ?_) fun _ => Sparing.ask trivial
  refine .always (sparing_createInvited row _) fun result h => ?_
  rcases result with (_ | e) | u
  · exact .throw
  · exact .throw
  · exact .pure (h u rfl)

theorem sparing_oidcFirstLogin (sid : SessionId) (cfg : InstanceConfig) (claims : Claims) (id : Uuid) :
    Sparing w₀ user (fun _ => True) (oidcFirstLogin env sid cfg claims id) :=
  .reject fun _ => Sparing.skip (.read rfl) fun _ => .reject fun _ =>
    Sparing.skip (only_freeUsername _ _ _) fun _ => Sparing.skip (.read rfl) fun _ =>
      .bind (sparing_provision cfg _ _) fun u hu => Sparing.ask_bind hu fun _ =>
        .bind (sparing_applyGroupRole u _ _) fun _ _ => Sparing.ask_bind (fun _ hsession => hsession) fun _ =>
          .bind (sparing_logIn sid hu) fun _ _ => .pure trivial

/-- A callback with claims that are not linked to the account. -/
theorem sparing_oidcCallback (sid : SessionId) (state : Text) (claims : Except AppError Claims) (id : Uuid)
    (hreq : ¬ Presents env w₀ user (.served (.oidcCallback sid state claims id))) :
    Sparing w₀ user (fun _ => True) (oidcCallback env sid state claims id) := by
  refine Sparing.skip (.read rfl) fun cfg => .reject fun _ => .reject fun _ =>
    .bind (Sparing.ask trivial) fun session hsession => .check fun _ _ => .check fun found hfound => ?_
  obtain rfl : claims = .ok found := by
    cases claims with
    | error e => cases hfound
    | ok claims => exact congrArg Except.ok (Except.ok.inj hfound)
  obtain ⟨uid, unlocked, csrf, verifier, nonce, linkUid, invite⟩ := session
  cases linkUid with
  | some linkUid =>
    refine .bind (Sparing.ask trivial) fun u hu => .orThrow fun u hsome => ?_
    subst hsome
    have hother : u.id ≠ user.id := fun heq => hsession.2 (congrArg some (Eq.trans (Eq.symm hu) heq))
    refine Sparing.ask_bind hother fun _ => .bind (sparing_applyGroupRole u _ _) fun _ _ =>
      Sparing.ask_bind ?_ fun _ => .bind (sparing_logIn sid hother) fun _ _ => .pure trivial
    exact fun session hsession => ⟨hsession.1, fun h => by cases h⟩
  | none =>
    refine .bind (Sparing.ask trivial) fun u hu => ?_
    cases u with
    | none => exact sparing_oidcFirstLogin sid cfg found id
    | some u =>
      refine .bind (sparing_applyGroupRole u _ _) fun _ _ => .bind (sparing_logIn sid ?_) fun _ _ => .pure trivial
      intro hid
      obtain ⟨row, hrow, huser, hissuer, hsub⟩ := hu hid
      exact hreq (.identity hrow huser hissuer hsub)

/-- A login with another name or without the password. -/
theorem sparing_loginPost (sid : SessionId) (username password : Text)
    (hreq : ¬ Presents env w₀ user (.loginPost sid username password)) :
    Sparing w₀ user (fun _ => True) (loginPost env sid username password) := by
  have herror : Sparing w₀ user (fun _ => True) (loginErrorPage env) := .reject fun _ => .pure trivial
  refine Sparing.skip (.read rfl) fun cfg => .reject fun _ => .bind (Sparing.ask trivial) fun found hfound => ?_
  cases found with
  | none => exact herror
  | some row =>
    refine .ite (fun _ => herror) fun hpassed => .bind (sparing_logIn sid ?_) fun _ _ => .pure trivial
    intro hid
    obtain ⟨⟨hname, hhash⟩, hsame⟩ := hfound hid
    rw [Bool.or_eq_true, not_or] at hpassed
    obtain ⟨hnonempty, hverified⟩ := hpassed
    cases hpassword : row.passwordHash with
    | none =>
      rw [hpassword] at hnonempty
      exact hnonempty rfl
    | some hash =>
      rw [hpassword] at hverified
      refine hreq (.password ((congrArg citext hname).symm.trans hsame) (hhash.symm.trans hpassword) ?_)
      simpa using hverified

theorem sparing_startLogin (sid : SessionId) (invite : Option Text) (start : OidcStart) :
    Sparing w₀ user (fun _ => True) (startLogin env sid invite start) :=
  Sparing.skip (.read rfl) fun _ => .reject fun _ => .reject fun _ =>
    Sparing.ask_bind (fun _ h => h) fun _ => Sparing.ask_bind (fun _ h => h) fun _ =>
      Sparing.ask_bind (fun _ h => h) fun _ => Sparing.ask_bind (fun _ h => h) fun _ => .pure trivial

end Handlers

/-- **Who does not bring credentials of the account gives it to nobody.** -/
theorem spares_serveAuth {env : Env} {w₀ : World} {user : User} {req : AuthRequest}
    (hreq : ¬ Presents env w₀ user req) :
    (serveAuth env req).Obeys (.flat (Op.Spares user.id) (Unaware w₀ user)) (fun _ _ => True) () := by
  by_cases hareas : ∀ a ∈ req.areas, a ∉ Area.credentials
  · exact sparing_only hareas (serveAuth_only env req)
  · cases req with
    | served req =>
      cases req with
      | unlock sid segment password => exact (sparing_unlock sid segment password).run
      | unlockPaste sid segment password => exact (sparing_unlockPaste sid segment password).run
      | createToken caller form id token =>
        exact (sparing_createToken (tokenless_of_not_presents hreq rfl) form id token).run
      | register sid form salt id => exact (sparing_registerPost sid form salt id).run
      | oidcCallback sid state claims id => exact (sparing_oidcCallback sid state claims id hreq).run
      | _ => exact absurd (by simp [AuthRequest.areas, Request.areas, Area.credentials]) hareas
    | loginPost sid username password => exact (sparing_loginPost sid username password hreq).run
    | logout sid =>
      refine (Sparing.ask_bind ?_ fun _ => .pure trivial : Sparing w₀ user (fun _ => True) (logout sid)).run
      exact fun _ _ => fresh_apart user.id
    | oidcLogin sid invite start =>
      refine (Sparing.ask_bind ?_ fun _ => sparing_startLogin sid invite start :
        Sparing w₀ user _ (oidcLogin env sid invite start)).run
      exact fun session hsession => ⟨hsession.1, fun h => by cases h⟩
    | linkStart caller start =>
      refine (.bind (sparing_requireUser (tokenless_of_not_presents hreq rfl)) fun u hu => Sparing.ask_bind ?_ fun _ =>
        sparing_startLogin caller.session none start : Sparing w₀ user _ (linkStart env caller start)).run
      exact fun session hsession => ⟨hsession.1, fun h => hu (Option.some.inj h)⟩

/-! ## Every run -/

/-- A request that brings neither credentials of the account nor the delete token of the item. -/
def Stranger (env : Env) (w₀ : World) (user : User) (guards : Guards) : Type :=
  { req : AuthRequest // ¬ Presents env w₀ user req ∧
    ∀ token, req.deleteToken = some token → guards.deleteTokenHash ≠ some (env.deleteTokenHash token) }

section Runs

variable {env : Env} {mayFail : Op → Prop} {h₀ : World × Inserted} {user : User} {guards : Guards}
  {p q : Pool (World × Inserted) (AuthRequest × Multiset Fact) Op Op.Res Outcome}
  {strangers : Pool (World × Inserted) (Stranger env h₀.1 user guards × Multiset Fact) Op Op.Res Outcome}

/-- The runs of strangers, each of whom carries what it has been told. -/
def Strange (env : Env) (mayFail : Op → Prop) (h₀ : World × Inserted) (user : User) (guards : Guards)
    (p : Pool (World × Inserted) (Stranger env h₀.1 user guards × Multiset Fact) Op Op.Res Outcome) : Prop :=
  Tracked.Reachable (Tracked.learn Op.facts) (fun _ _ _ _ => True) (fun _ _ => True) (fun req => serveAuth env req.1)
    (logged recordItem (exec mayFail)) h₀ p

/-- Nobody gets the account. -/
theorem strange_untaken (hstart : h₀.1.Untaken user h₀.1) (hp : Strange env mayFail h₀ user guards strangers) :
    h₀.1.Untaken user strangers.shared.1 := by
  obtain ⟨ts, hreach, -⟩ := hp.of_shares
  refine (@Pool.Reachable.invariant _ _ _ _ _ _ _ _ _ (fun h : World × Inserted => h₀.1.Untaken user h.1) _ _ _
    hstart (fun req => spares_serveAuth req.2.1) ?_ _ hreach).1
  exact fun _ _ _ _ _ hop hw hexec => ⟨exec_unaware hexec.1 hw, exec_untaken hop hexec.1 hw⟩

/-- What a stranger can have been told of the account. -/
def Fact.Strange (w₀ : World) (user : User) : Fact → Prop
  | session _ uid => uid ≠ user.id
  | token tokenHash uid => uid = user.id → ∃ row₀ ∈ w₀.apiTokens, row₀.userId = user.id ∧ row₀.tokenHash = tokenHash
  | _ => True

theorem strange_told (hstart : h₀.1.Untaken user h₀.1) (hp : Strange env mayFail h₀ user guards strangers) :
    ∀ t ∈ strangers.threads, ∀ fact ∈ t.1.2, fact.Strange h₀.1 user := by
  refine hp.holds (fun h => h₀.1.Untaken user h.1) (fun _ fact => fact.Strange h₀.1 user)
    (fun _ hq => strange_untaken hstart hq) ?_ fun _ _ _ _ _ _ _ _ hfact => hfact
  intro h op r h' hw _ hexec fact hfact
  have hunaware := exec_unaware hexec.1 hw
  unfold Op.facts at hfact
  split at hfact
  · simp only [Session.facts, List.mem_append, Option.mem_toList, Option.map_eq_some_iff, List.mem_map] at hfact
    obtain ((⟨uid, huid, rfl⟩ | ⟨_, -, rfl⟩) | ⟨_, -, rfl⟩) | ⟨_, -, rfl⟩ := hfact
    · exact fun heq => hunaware.1 (huid.trans (congrArg some heq))
    · trivial
    · trivial
    · trivial
  · cases List.mem_singleton.1 hfact
    exact hunaware
  all_goals first
    | exact absurd hfact List.not_mem_nil
    | (cases List.mem_singleton.1 hfact; trivial)
    | (obtain ⟨_, -, rfl⟩ := List.mem_map.1 hfact; trivial)

/-- A stranger does not act for the account. -/
theorem Stranger.not_owner (req : Stranger env h₀.1 user guards) {g : Multiset Fact}
    (hg : ∀ fact ∈ g, fact.Strange h₀.1 user) (howner : guards.ownerId = some user.id) :
    ¬ ForOwner env (· ∈ g) req.1 guards := by
  rintro ⟨caller, uid, hcaller, huid, hacts⟩
  obtain rfl : user.id = uid := Option.some.inj (howner.symm.trans huid)
  rcases hacts with hsession | ⟨token, hbearer, htoken⟩
  · exact hg _ hsession rfl
  · obtain ⟨row, hrow, hid, hhash⟩ := hg _ htoken rfl
    exact req.2.1 (.token hcaller hbearer hrow hid hhash)

/-- The clock does not go back. -/
theorem step_now {code : Stranger env h₀.1 user guards → Query Outcome}
    {p q : Pool (World × Inserted) (Stranger env h₀.1 user guards × Multiset Fact) Op Op.Res Outcome}
    (h : Tracked.Step (Tracked.learn Op.facts) (fun _ _ _ _ => True) (fun _ _ => True) code
      (logged recordItem (exec mayFail)) p q) : p.shared.1.now ≤ q.shared.1.now := by
  cases h with
  | spawn | leave => exact le_rfl
  | act _ hexec => exact exec_now hexec.1

end Runs

/-- The owner of a paste, who is not there. -/
def absentOwner : User :=
  ⟨7, ['m', 'i', 'a'], some ['s', 'e', 'c', 'r', 'e', 't', '!', '!'], false, none, none, false, none⟩

/-- A paste of the owner. -/
def absentPaste : PasteRow :=
  ⟨coreA, some absentOwner.id, none, ['h', 'i'], none, .code, .unlisted, false, none, none, none⟩

def absentWorld : World :=
  { World.empty with
    dedupe := { Dedupe.World.empty with usedIdCores := [coreA] }
    users := ⟨[absentOwner], List.nodup_singleton _⟩
    pastes := ⟨[absentPaste], List.nodup_singleton _⟩ }

theorem once_absent : Once (absentWorld, [.paste coreA]) 0 where
  nodup := by simp
  used core hcore := by
    obtain rfl : core = coreA := by simpa [Item.core] using hcore
    exact List.mem_singleton_self _
  logged item hitem := by
    cases item with
    | file core =>
      obtain ⟨row, hrow, -⟩ := hitem
      cases hrow
    | paste core =>
      obtain ⟨row, hrow, rfl⟩ := hitem
      rw [List.mem_singleton.1 hrow]
      exact List.mem_singleton_self _

/-- Somebody tries to delete the paste, without a token. -/
def nosyRequest : AuthRequest := .served (.deletePaste anonymous coreA.val none)

theorem nosy_stranger : ¬ Presents .plain absentWorld absentOwner nosyRequest := by
  intro h
  cases h with
  | token _ _ hrow => exact absurd hrow List.not_mem_nil

def nosy : Stranger .plain absentWorld absentOwner absentPaste.guards :=
  ⟨nosyRequest, nosy_stranger, fun _ h => by cases h⟩

def nosyTurns : List (Tracked.Turn (Stranger .plain absentWorld absentOwner absentPaste.guards) Unit) :=
  .spawn nosy :: List.replicate 2 (.act 0 ())

def nosyPool : Pool (World × Inserted) (Stranger .plain absentWorld absentOwner absentPaste.guards × Multiset Fact)
    Op Op.Res Outcome :=
  Tracked.play (Tracked.learn Op.facts) (fun req => serveAuth .plain req.1) (fun _ => answerLogged)
    (absentWorld, [.paste coreA]) nosyTurns

theorem strange_nosyPool :
    Strange .plain (fun _ => False) (absentWorld, [.paste coreA]) absentOwner absentPaste.guards nosyPool := by
  refine @Tracked.reachable_play _ _ _ _ _ _ _ _ _ _ _ _ Unit _ (fun _ _ _ _ _ => true) (fun _ _ => true) ?_ ?_
    (absentWorld, [Item.paste coreA]) nosyTurns (by rfl)
  · exact fun _ h _ _ op _ => ⟨trivial, exec_answer _ h.1 op, rfl⟩
  · exact fun _ _ _ => trivial

end Server
end Uwuubox
