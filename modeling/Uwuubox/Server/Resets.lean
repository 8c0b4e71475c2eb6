import Uwuubox.Prog.Transaction
import Uwuubox.Server.Requests

/-!
# Password resets

`src/routes/reset.rs`: `forgot_post` issues a token and mails it, `reset_post` changes the password for
it, in one transaction.

* `ResetWorld` — the server with the table of the tokens, and a history of what was issued and what
  was reset, which the program does not have.
* `resetPassword` — the transaction, statement by statement.
* `forgotPost`, `resetForm`, `resetPost` — the handlers.
* `SingleUse` — **what a history must be**: a reset uses up a token that was issued to the user and has not
  expired, changes no other password, and ends what was issued to the user before.
* `AccountedFor` — the invariant that ties the rows to the history.
* `tokens_singleUse` — every history of every run is such a one.
-/

namespace Uwuubox
namespace Server

open Dedupe Storage Table Fallible Relation

/-! ## The history -/

/-- A token that was issued; `serial` says by which `INSERT`. -/
structure Issue where
  serial : ℕ
  userId : Uuid
  expiresAt : ℤ
deriving DecidableEq

/-- A transaction of `reset_post` that has committed. -/
structure Reset where
  /-- The token of the request, where there is a row for it. -/
  token : Option ℕ
  /-- The user that the transaction has found. -/
  userId : Uuid
  /-- The users whose passwords are not what they were. -/
  changed : List Uuid
  at' : ℤ
deriving DecidableEq

inductive ResetEvent where
  | issued (issue : Issue)
  | reset (reset : Reset)
deriving DecidableEq

/-- **Tokens are single use.**  A history has the last event first. -/
structure SingleUse (log : List ResetEvent) : Prop where
  /-- A reset is for a token that was issued before to the user, has not expired, and changes the
  password of this user if any. -/
  rightful : ∀ later r earlier, log = later ++ .reset r :: earlier → ∃ issue,
    .issued issue ∈ earlier ∧ r.token = some issue.serial ∧ r.userId = issue.userId ∧
      r.at' < issue.expiresAt ∧ (∀ id ∈ r.changed, id = issue.userId) ∧ r.changed.length ≤ 1
  /-- No token was used before. -/
  once : ∀ later r earlier, log = later ++ .reset r :: earlier → ∀ r', .reset r' ∈ earlier →
    r'.token ≠ r.token
  /-- After a reset for a user no token is used that was issued to the user before. -/
  superseded : ∀ later r earlier, log = later ++ .reset r :: earlier → ∀ issue,
    .issued issue ∈ earlier → issue.userId = r.userId → ∀ r', .reset r' ∈ later →
      r'.token ≠ some issue.serial
  /-- One `INSERT` issues one token. -/
  distinct : ∀ i j, .issued i ∈ log → .issued j ∈ log → i.serial = j.serial → i = j

/-! ## The tables -/

/-- A row of `password_resets`. -/
structure PasswordReset where
  tokenHash : Text
  userId : Uuid
  expiresAt : ℤ
  usedAt : Option ℤ
  /-- Which `INSERT` the row is from; the program does not have it. -/
  serial : ℕ
deriving DecidableEq

/-- `used_at IS NULL AND expires_at > now()` -/
def PasswordReset.valid (row : PasswordReset) (now : ℤ) : Bool := row.usedAt.isNone && now < row.expiresAt

/-- The token that the row is about. -/
def PasswordReset.issue (row : PasswordReset) : Issue := ⟨row.serial, row.userId, row.expiresAt⟩

/-- The server, with the tokens and the history. -/
structure ResetWorld where
  server : World
  resets : Keyed PasswordReset.tokenHash
  history : List ResetEvent

/-- A server that has issued no token. -/
def ResetWorld.start (w : World) : ResetWorld := ⟨w, .empty, []⟩

/-! ## The transaction of `reset_post` -/

/-- Statements of `reset_post`. -/
abbrev ResetTx (α : Type) := Transaction ResetWorld Abort α

/-- `UPDATE password_resets SET used_at = now() WHERE .. RETURNING user_id` -/
def useToken (tokenHash : Text) : ResetTx (Option Uuid) := do
  let s ← get
  match s.resets.find? tokenHash with
  | none => pure none
  | some row =>
    if row.valid s.server.now then do
      let resets := s.resets.update (fun row => row.tokenHash = tokenHash)
        (fun row => { row with usedAt := some s.server.now }) fun _ => rfl
      set { s with resets := resets }
      pure (some row.userId)
    else pure none

/-- The server after `UPDATE users SET password_hash = $1 WHERE id = $2`. -/
def World.withPassword (w : World) (passwordHash : Text) (userId : Uuid) : World :=
  let users := w.users.update (fun u => u.id = userId)
    (fun u => { u with passwordHash := some passwordHash }) fun _ => rfl
  { w with users := users }

/-- `UPDATE users SET password_hash = $1 WHERE id = $2` -/
def setPassword (passwordHash : Text) (userId : Uuid) : ResetTx Unit := do
  let s ← get
  set { s with server := s.server.withPassword passwordHash userId }

/-- `DELETE FROM password_resets WHERE user_id = $1 AND token_hash <> $2` -/
def deleteOthers (userId : Uuid) (tokenHash : Text) : ResetTx Unit := do
  let s ← get
  set { s with resets := s.resets.delete fun row => row.userId = userId && row.tokenHash ≠ tokenHash }

/-- The statements of `reset_post`. -/
def resetPassword (tokenHash passwordHash : Text) : ResetTx Uuid := do
  let userId ← useToken tokenHash
  match userId with
  | none => throw (Abort.error (.badRequest "reset link is invalid or expired"))
  | some userId => do
    setPassword passwordHash userId
    deleteOthers userId tokenHash
    pure userId

/-- The users whose passwords are not what they were. -/
def changedPasswords (w w' : World) : List Uuid :=
  (w.users.rows.filter fun u =>
    (w'.users.find? u.id).map User.passwordHash ≠ some u.passwordHash).map User.id

/-- A reset that has committed goes into the history. -/
def ResetWorld.record (s s' : ResetWorld) (tokenHash : Text) : Except Abort Uuid → ResetWorld
  | .ok userId => { s' with history := .reset ⟨(s.resets.find? tokenHash).map PasswordReset.serial, userId,
      changedPasswords s.server s'.server, s.server.now⟩ :: s'.history }
  | .error _ => s'

/-- The whole transaction, on the state. -/
def resetDone (s : ResetWorld) (tokenHash passwordHash : Text) : Except Abort Uuid × ResetWorld :=
  let done := (resetPassword tokenHash passwordHash).commit s
  (done.1, s.record done.2 tokenHash done.1)

/-! ## Operations -/

/-- An operation of the server, or of the handlers of a reset. -/
inductive ResetOp where
  | server (op : Op)
  /-- `SELECT id, email::text FROM users WHERE email = $1` -/
  | findAccount (email : Text)
  /-- `INSERT INTO password_resets (token_hash, user_id, expires_at) VALUES ($1, $2, $3)` -/
  | insertReset (tokenHash : Text) (userId : Uuid) (expiresAt : ℤ)
  /-- `DELETE FROM password_resets WHERE token_hash = $1` -/
  | deleteReset (tokenHash : Text)
  /-- `SELECT EXISTS (.. WHERE token_hash = $1 AND used_at IS NULL AND expires_at > now())` -/
  | validReset (tokenHash : Text)
  /-- The transaction of `reset_post` -/
  | resetPassword (tokenHash passwordHash : Text)
  /-- `Mailer::send_password_reset` -/
  | sendMail (destination link : Text)

abbrev ResetOp.Res : ResetOp → Type
  | server op => op.Res
  | findAccount _ => Except Failure (Option (Uuid × Text))
  | insertReset _ _ _ => Except Failure Unit
  | deleteReset _ => Except Failure Unit
  | validReset _ => Except Failure Bool
  | resetPassword _ _ => Except Abort Uuid
  | sendMail _ _ => Except Unit Unit

/-- The `INSERT` of `forgot_post`; a new token has the number of events before it. -/
def insertReset (s : ResetWorld) (tokenHash : Text) (userId : Uuid) (expiresAt : ℤ) :
    Except Failure Unit × ResetWorld :=
  let row : PasswordReset := ⟨tokenHash, userId, expiresAt, none, s.history.length⟩
  match s.resets.insert? row with
  | none => (.error (.sql (.uniqueViolation "password_resets_pkey")), s)
  | some resets => (.ok (), { s with resets := resets, history := .issued row.issue :: s.history })

/-- The `DELETE` of `forgot_post`. -/
def deleteReset (s : ResetWorld) (tokenHash : Text) : ResetWorld :=
  { s with resets := s.resets.delete fun row => row.tokenHash = tokenHash }

/-- The account of an address. -/
def findAccount (w : World) (email : Text) : Option (Uuid × Text) :=
  (w.users.rows.find? fun u => u.email.map citext = some (citext email)).bind fun u =>
    u.email.map fun address => (u.id, address)

/-- What one operation can do.  Any may fail, a statement or a transaction without effect, and mail is
delivered or not. -/
def execReset (s : ResetWorld) : (op : ResetOp) → op.Res → ResetWorld → Prop
  | .server op, r, s' => ∃ w, exec (fun _ => True) s.server op r w ∧ s' = { s with server := w }
  | .findAccount email, r, s' => (r = .ok (findAccount s.server email) ∨ ∃ e, r = .error e) ∧ s' = s
  | .insertReset tokenHash userId expiresAt, r, s' =>
    (r, s') = insertReset s tokenHash userId expiresAt ∨ (∃ e, r = .error e) ∧ s' = s
  | .deleteReset tokenHash, r, s' =>
    r = .ok () ∧ s' = deleteReset s tokenHash ∨ (∃ e, r = .error e) ∧ s' = s
  | .validReset tokenHash, r, s' =>
    (r = .ok ((s.resets.find? tokenHash).any fun row => row.valid s.server.now) ∨ ∃ e, r = .error e) ∧
      s' = s
  | .resetPassword tokenHash passwordHash, r, s' =>
    (r, s') = resetDone s tokenHash passwordHash ∨ (∃ e, r = .error e) ∧ s' = s
  | .sendMail _ _, _, s' => s' = s

/-! ## Handlers -/

/-- How tokens are mailed. -/
structure Mailing where
  /-- Whether a mail server is configured. -/
  mailer : Bool
  /-- `reset_token_hash` with the secret of the instance. -/
  resetTokenHash : Text → Text

/-- A handler of resets. -/
abbrev ResetHandler (α : Type) := Fallible ResetOp ResetOp.Res Abort α

/-- A program of the server among the operations of resets. -/
def amongResets {α : Type} (p : Query α) : Prog ResetOp ResetOp.Res α :=
  p.interp fun op => Prog.perform (ResetOp.server op)

/-- What a statement answers, followed by `?`. -/
def orFail {α : Type} (x : Except Failure α) : ResetHandler α :=
  check (x.mapError fun e => Abort.error (.from' e))

/-- `page`. -/
def resetPage (env : Env) (status : ℕ) : ResetHandler Response := do
  let _cfg ← ExceptT.mk (amongResets (ask .instanceConfig).run)
  reject (!env.renders "reset") AppError.somethingWentWrong
  pure (.html status "reset" [])

/-- `/reset/` -/
def resetPath : Text := ['/', 'r', 'e', 's', 'e', 't', '/']

/-- `forgot_post`; `raw` is the new token. -/
def forgotPost (env : Env) (mailing : Mailing) (email raw : Text) : ResetHandler Response := do
  reject (!mailing.mailer) (AppError.serviceUnavailable "password-reset email is not configured")
  let account ← orFail (← perform (.findAccount (env.toLowercase (trim email))))
  match account with
  | some (userId, destination) => do
    let hash := mailing.resetTokenHash raw
    let now ← ExceptT.mk (amongResets (ask .now).run)
    orFail (← perform (.insertReset hash userId (now + 3600)))
    let link := env.baseUrl.rdropWhile (· = '/') ++ resetPath ++ raw
    match ← perform (ResetOp.sendMail destination link) with
    | .ok () => resetPage env 200
    | .error () => do
      let _deleted ← perform (ResetOp.deleteReset hash)
      resetPage env 200
  | none => resetPage env 200

/-- `reset_form`. -/
def resetForm (env : Env) (mailing : Mailing) (token : Text) : ResetHandler Response := do
  let valid ← orFail (← perform (.validReset (mailing.resetTokenHash token)))
  reject (!valid) AppError.notFound
  resetPage env 200

/-- `reset_post`; `salt` is drawn. -/
def resetPost (env : Env) (mailing : Mailing) (token password passwordConfirm salt : Text) :
    ResetHandler Response :=
  if password ≠ passwordConfirm then resetPage env 400
  else match hashPassword env salt password with
    | .error _ => resetPage env 400
    | .ok passwordHash => do
      let _userId ← check (← perform (.resetPassword (mailing.resetTokenHash token) passwordHash))
      resetPage env 200

/-- A request of the server, or one about a reset. -/
inductive ResetRequest where
  | server (req : Request)
  | forgot (email raw : Text)
  | form (token : Text)
  | reset (token password passwordConfirm salt : Text)

/-- The program of a request. -/
def serveReset (env : Env) (mailing : Mailing) : ResetRequest → Prog ResetOp ResetOp.Res Outcome
  | .server req => amongResets (serve env req)
  | .forgot email raw => (forgotPost env mailing email raw).run
  | .form token => (resetForm env mailing token).run
  | .reset token password passwordConfirm salt =>
    (resetPost env mailing token password passwordConfirm salt).run

/-! ## What the transaction does -/

section Transaction

variable {s s' : ResetWorld} {tokenHash passwordHash : Text} {userId : Uuid}

theorem useToken_ok (h : (useToken tokenHash).run s = .ok (some userId, s')) :
    ∃ row, s.resets.find? tokenHash = some row ∧ row.valid s.server.now = true ∧ row.userId = userId ∧
      s'.server = s.server ∧ s'.history = s.history ∧
      s'.resets = s.resets.update (fun row => row.tokenHash = tokenHash)
        (fun row => { row with usedAt := some s.server.now }) fun _ => rfl := by
  obtain ⟨_, _, ⟨⟩, h⟩ := Transaction.run_bind_ok.1 h
  split at h
  · cases h
  · rename_i row hfind
    split at h
    · rename_i hvalid
      obtain ⟨_, _, ⟨⟩, h⟩ := Transaction.run_bind_ok.1 h
      cases h
      exact ⟨row, hfind, hvalid, rfl, rfl, rfl, rfl⟩
    · cases h

/-- **A reset that commits** has used up a valid token, has changed the password of its user, and has
deleted the other tokens of this user. -/
theorem resetPassword_ok (h : (resetPassword tokenHash passwordHash).run s = .ok (userId, s')) :
    ∃ row, s.resets.find? tokenHash = some row ∧ row.valid s.server.now = true ∧ row.userId = userId ∧
      s'.server = s.server.withPassword passwordHash userId ∧
      s'.history = s.history ∧
      ∀ r ∈ s'.resets, (r ∈ s.resets ∧ r.tokenHash ≠ tokenHash ∧ r.userId ≠ userId) ∨
        r = { row with usedAt := some s.server.now } := by
  obtain ⟨found, s₁, huse, h⟩ := Transaction.run_bind_ok.1 h
  cases found with
  | none => cases h
  | some id =>
    obtain ⟨row, hfind, hvalid, hid, hserver, hhistory, hresets⟩ := useToken_ok huse
    obtain ⟨_, s₂, hset, h⟩ := Transaction.run_bind_ok.1 h
    obtain ⟨_, s₃, hdelete, h⟩ := Transaction.run_bind_ok.1 h
    cases h
    obtain ⟨_, _, ⟨⟩, hset⟩ := Transaction.run_bind_ok.1 hset
    cases hset
    obtain ⟨_, _, ⟨⟩, hdelete⟩ := Transaction.run_bind_ok.1 hdelete
    cases hdelete
    refine ⟨row, hfind, hvalid, hid, by rw [hserver], hhistory, fun r hr => ?_⟩
    obtain ⟨hrow, hhash⟩ := Keyed.mem_of_find? hfind
    rw [hresets, Keyed.mem_delete, Keyed.mem_update] at hr
    obtain ⟨⟨hmem, hother⟩ | ⟨before, hbefore, hsame, rfl⟩, hkept⟩ := hr
    · left
      have hne : r.tokenHash ≠ tokenHash := of_decide_eq_false hother
      refine ⟨hmem, hne, fun heq => ?_⟩
      simp [heq, hne] at hkept
    · right
      have heq : before.tokenHash = row.tokenHash := (of_decide_eq_true hsame).trans hhash.symm
      rw [Keyed.eq_of_col hbefore hrow heq]

/-- An `UPDATE` of the password of one user changes no other password. -/
theorem changedPasswords_withPassword (w : World) (passwordHash : Text) (userId : Uuid) :
    (∀ id ∈ changedPasswords w (w.withPassword passwordHash userId), id = userId) ∧
      (changedPasswords w (w.withPassword passwordHash userId)).length ≤ 1 := by
  have honly : ∀ id ∈ changedPasswords w (w.withPassword passwordHash userId), id = userId := by
    intro id hid
    obtain ⟨u, hu, rfl⟩ := List.mem_map.1 hid
    obtain ⟨hmem, hchanged⟩ := List.mem_filter.1 hu
    by_contra hne
    refine of_decide_eq_true hchanged ?_
    have hfind : (w.withPassword passwordHash userId).users.find? u.id = some u := by
      refine Keyed.find?_update_of_not ?_ hmem ?_
      · exact fun _ => rfl
      · exact decide_eq_false hne
    rw [hfind]
    rfl
  have hnodup : (changedPasswords w (w.withPassword passwordHash userId)).Nodup :=
    List.Nodup.sublist (List.filter_sublist.map _) w.users.unique
  rw [List.eq_replicate_of_mem honly, List.nodup_replicate] at hnodup
  exact ⟨honly, hnodup⟩

end Transaction

/-! ## The invariant -/

/-- **The rows are accounted for by the history.** -/
structure AccountedFor (s : ResetWorld) : Prop where
  singleUse : SingleUse s.history
  fresh : ∀ issue, .issued issue ∈ s.history → issue.serial < s.history.length
  issued : ∀ row ∈ s.resets, .issued row.issue ∈ s.history
  /-- Two rows are from two `INSERT`s. -/
  serials : ∀ row ∈ s.resets, ∀ row' ∈ s.resets, row.serial = row'.serial → row = row'
  /-- The token of a row that is not marked as used has not been used. -/
  unused : ∀ row ∈ s.resets, row.usedAt = none → ∀ r, .reset r ∈ s.history → r.token ≠ some row.serial
  /-- Nor was its user reset since it was issued. -/
  live : ∀ row ∈ s.resets, row.usedAt = none → ∀ later r earlier,
    s.history = later ++ .reset r :: earlier → r.userId = row.userId → .issued row.issue ∉ earlier

/-- A split of a history one event later. -/
theorem cons_eq_split {α : Type} {e x : α} {log later earlier : List α}
    (h : e :: log = later ++ x :: earlier) :
    (later = [] ∧ e = x ∧ log = earlier) ∨ ∃ later', later = e :: later' ∧ log = later' ++ x :: earlier := by
  cases later with
  | nil =>
    obtain ⟨rfl, rfl⟩ := List.cons.inj h
    exact .inl ⟨rfl, rfl, rfl⟩
  | cons e' later' =>
    obtain ⟨rfl, rfl⟩ := List.cons.inj h
    exact .inr ⟨later', rfl, rfl⟩

namespace SingleUse

variable {log : List ResetEvent}

theorem nil : SingleUse [] where
  rightful later r earlier h := absurd h.symm (by simp)
  once later r earlier h := absurd h.symm (by simp)
  superseded later r earlier h := absurd h.symm (by simp)
  distinct i j hi := absurd hi List.not_mem_nil

/-- A reset that has happened was for a token that had been issued. -/
theorem exists_issue (h : SingleUse log) {r : Reset} (hr : .reset r ∈ log) :
    ∃ issue, .issued issue ∈ log ∧ r.token = some issue.serial := by
  obtain ⟨later, earlier, rfl⟩ := List.append_of_mem hr
  obtain ⟨issue, hissue, htoken, -⟩ := h.rightful later r earlier rfl
  exact ⟨issue, List.mem_append_right _ (List.mem_cons_of_mem _ hissue), htoken⟩

/-- A new token. -/
theorem issue (h : SingleUse log) {new : Issue} (hnew : ∀ i, .issued i ∈ log → i.serial ≠ new.serial) :
    SingleUse (.issued new :: log) where
  rightful later r earlier heq := by
    rcases cons_eq_split heq with ⟨-, hcases, -⟩ | ⟨later', rfl, hlog⟩
    · cases hcases
    · exact h.rightful later' r earlier hlog
  once later r earlier heq := by
    rcases cons_eq_split heq with ⟨-, hcases, -⟩ | ⟨later', rfl, hlog⟩
    · cases hcases
    · exact h.once later' r earlier hlog
  superseded later r earlier heq issue hissue huser r' hr' := by
    rcases cons_eq_split heq with ⟨-, hcases, -⟩ | ⟨later', rfl, hlog⟩
    · cases hcases
    · rcases List.mem_cons.1 hr' with hcases | hr'
      · cases hcases
      · exact h.superseded later' r earlier hlog issue hissue huser r' hr'
  distinct i j hi hj hserial := by
    rcases List.mem_cons.1 hi with hi | hi <;> rcases List.mem_cons.1 hj with hj | hj
    · cases hi
      cases hj
      rfl
    · cases hi
      exact absurd hserial.symm (hnew j hj)
    · cases hj
      exact absurd hserial (hnew i hi)
    · exact h.distinct i j hi hj hserial

/-- A reset with a token that was issued, has not been used and has not been superseded. -/
theorem reset (h : SingleUse log) {issue : Issue} {new : Reset} (hissue : .issued issue ∈ log)
    (htoken : new.token = some issue.serial) (huser : new.userId = issue.userId)
    (hat : new.at' < issue.expiresAt) (hchanged : ∀ id ∈ new.changed, id = issue.userId)
    (hone : new.changed.length ≤ 1) (hunused : ∀ r, .reset r ∈ log → r.token ≠ some issue.serial)
    (hlive : ∀ later r earlier, log = later ++ .reset r :: earlier → r.userId = issue.userId →
      .issued issue ∉ earlier) : SingleUse (.reset new :: log) where
  rightful later r earlier heq := by
    rcases cons_eq_split heq with ⟨-, hnew, rfl⟩ | ⟨later', rfl, hlog⟩
    · cases hnew
      exact ⟨issue, hissue, htoken, huser, hat, hchanged, hone⟩
    · exact h.rightful later' r earlier hlog
  once later r earlier heq := by
    rcases cons_eq_split heq with ⟨-, hnew, rfl⟩ | ⟨later', rfl, hlog⟩
    · cases hnew
      rw [htoken]
      exact hunused
    · exact h.once later' r earlier hlog
  superseded later r earlier heq other hother huser' r' hr' := by
    rcases cons_eq_split heq with ⟨rfl, -, -⟩ | ⟨later', rfl, hlog⟩
    · exact absurd hr' List.not_mem_nil
    · rcases List.mem_cons.1 hr' with hnew | hr'
      · -- The token of the new reset would be one that the reset `r` has superseded.
        cases hnew
        rw [htoken]
        intro hserial
        have hmem : .issued other ∈ log := by
          rw [hlog]
          exact List.mem_append_right _ (List.mem_cons_of_mem _ hother)
        obtain rfl := h.distinct issue other hissue hmem (Option.some.inj hserial)
        exact hlive later' r earlier hlog huser'.symm hother
      · exact h.superseded later' r earlier hlog other hother huser' r' hr'
  distinct i j hi hj hserial := by
    rcases List.mem_cons.1 hi with hi | hi
    · cases hi
    · rcases List.mem_cons.1 hj with hj | hj
      · cases hj
      · exact h.distinct i j hi hj hserial

end SingleUse

namespace AccountedFor

variable {s s' : ResetWorld}

theorem start (w : World) : AccountedFor (.start w) where
  singleUse := .nil
  fresh _ h := absurd h List.not_mem_nil
  issued _ h := absurd h Keyed.notMem_empty
  serials _ h := absurd h Keyed.notMem_empty
  unused _ h := absurd h Keyed.notMem_empty
  live _ h := absurd h Keyed.notMem_empty

/-- Rows may go. -/
theorem of_subset (h : AccountedFor s) (hhistory : s'.history = s.history)
    (hrows : ∀ row ∈ s'.resets, row ∈ s.resets) : AccountedFor s' where
  singleUse := hhistory ▸ h.singleUse
  fresh := by
    rw [hhistory]
    exact h.fresh
  issued row hrow := by
    rw [hhistory]
    exact h.issued row (hrows row hrow)
  serials row hrow row' hrow' := h.serials row (hrows row hrow) row' (hrows row' hrow')
  unused row hrow := by
    rw [hhistory]
    exact h.unused row (hrows row hrow)
  live row hrow := by
    rw [hhistory]
    exact h.live row (hrows row hrow)

/-- **A new token is accounted for.** -/
theorem insertReset (h : AccountedFor s) (tokenHash : Text) (userId : Uuid) (expiresAt : ℤ) :
    AccountedFor (insertReset s tokenHash userId expiresAt).2 := by
  unfold Server.insertReset
  simp only
  split
  · exact h
  · rename_i resets hinsert
    have hnew : ∀ i, .issued i ∈ s.history → i.serial ≠ s.history.length :=
      fun i hi heq => absurd (h.fresh i hi) (by omega)
    have hmem : ∀ {row : PasswordReset}, row ∈ resets ↔
        row = ⟨tokenHash, userId, expiresAt, none, s.history.length⟩ ∨ row ∈ s.resets :=
      Keyed.mem_insert? hinsert
    constructor
    · exact h.singleUse.issue hnew
    · intro issue hissue
      rcases List.mem_cons.1 hissue with heq | hold
      · cases heq
        exact Nat.lt_succ_self _
      · exact Nat.lt_succ_of_lt (h.fresh issue hold)
    · intro row hrow
      rcases hmem.1 hrow with rfl | hold
      · exact List.mem_cons_self
      · exact List.mem_cons_of_mem _ (h.issued row hold)
    · intro row hrow row' hrow' hserial
      rcases hmem.1 hrow with rfl | hold <;> rcases hmem.1 hrow' with rfl | hold'
      · rfl
      · exact absurd hserial.symm (hnew row'.issue (h.issued row' hold'))
      · exact absurd hserial (hnew row.issue (h.issued row hold))
      · exact h.serials row hold row' hold' hserial
    · intro row hrow hused r hr
      have hr' : .reset r ∈ s.history := by simpa using hr
      rcases hmem.1 hrow with rfl | hold
      · -- Only what has been issued has been used.
        obtain ⟨issue, hissue, htoken⟩ := h.singleUse.exists_issue hr'
        rw [htoken]
        exact fun heq => hnew issue hissue (Option.some.inj heq)
      · exact h.unused row hold hused r hr'
    · intro row hrow hused later r earlier heq huser
      rcases cons_eq_split heq with ⟨-, hcases, -⟩ | ⟨later', rfl, hlog⟩
      · cases hcases
      · rcases hmem.1 hrow with rfl | hold
        · intro hissue
          have hbefore := List.mem_append_right later' (List.mem_cons_of_mem (.reset r) hissue)
          rw [← hlog] at hbefore
          exact hnew _ hbefore rfl
        · exact h.live row hold hused later' r earlier hlog huser

/-- **A reset is accounted for.** -/
theorem resetPassword (h : AccountedFor s) {tokenHash passwordHash : Text} {userId : Uuid}
    (hrun : (resetPassword tokenHash passwordHash).run s = .ok (userId, s')) :
    AccountedFor (s.record s' tokenHash (.ok userId)) := by
  obtain ⟨row, hfind, hvalid, rfl, hserver, hhistory, hrows⟩ := resetPassword_ok hrun
  obtain ⟨hrow, hhash⟩ := Keyed.mem_of_find? hfind
  obtain ⟨honly, hone⟩ := changedPasswords_withPassword s.server passwordHash row.userId
  unfold PasswordReset.valid at hvalid
  rw [Bool.and_eq_true, Option.isNone_iff_eq_none, decide_eq_true_eq] at hvalid
  unfold ResetWorld.record
  rw [hfind, hserver, hhistory]
  have hunused := h.unused row hrow hvalid.1
  have hlive := h.live row hrow hvalid.1
  constructor
  · exact h.singleUse.reset (h.issued row hrow) rfl rfl hvalid.2 honly hone hunused hlive
  · intro issue hissue
    rcases List.mem_cons.1 hissue with hcases | hold
    · cases hcases
    · exact Nat.lt_succ_of_lt (h.fresh issue hold)
  · intro r hr
    rcases hrows r hr with ⟨hold, -, -⟩ | rfl
    · exact List.mem_cons_of_mem _ (h.issued r hold)
    · exact List.mem_cons_of_mem _ (h.issued row hrow)
  · intro r hr r' hr' hserial
    rcases hrows r hr with ⟨hold, hother, -⟩ | rfl <;> rcases hrows r' hr' with ⟨hold', hother', -⟩ | rfl
    · exact h.serials r hold r' hold' hserial
    · exact absurd ((congrArg _ (h.serials r hold row hrow hserial)).trans hhash) hother
    · exact absurd ((congrArg _ (h.serials row hrow r' hold' hserial)).symm.trans hhash) hother'
    · rfl
  · intro r hr hused r' hr'
    rcases hrows r hr with ⟨hold, hother, -⟩ | rfl
    · rcases List.mem_cons.1 hr' with hnew | hbefore
      · cases hnew
        intro heq
        exact hother ((congrArg _ (h.serials row hrow r hold (Option.some.inj heq))).symm.trans hhash)
      · exact h.unused r hold hused r' hbefore
    · cases hused
  · intro r hr hused later c earlier heq huser
    rcases hrows r hr with ⟨hold, -, huser'⟩ | rfl
    · rcases cons_eq_split heq with ⟨-, hnew, -⟩ | ⟨later', rfl, hlog⟩
      · cases hnew
        exact absurd huser.symm huser'
      · exact h.live r hold hused later' c earlier hlog huser
    · cases hused

/-- **Every operation keeps the rows accounted for.** -/
theorem step (h : AccountedFor s) {op : ResetOp} {r : op.Res} (hexec : execReset s op r s') :
    AccountedFor s' := by
  cases op with
  | server op =>
    obtain ⟨w, -, rfl⟩ := hexec
    exact h.of_subset rfl fun _ hrow => hrow
  | findAccount email =>
    obtain ⟨-, rfl⟩ := hexec
    exact h
  | insertReset tokenHash userId expiresAt =>
    rcases hexec with hexec | ⟨-, rfl⟩
    · obtain rfl : s' = (Server.insertReset s tokenHash userId expiresAt).2 := congrArg Prod.snd hexec
      exact h.insertReset tokenHash userId expiresAt
    · exact h
  | deleteReset tokenHash =>
    rcases hexec with ⟨-, rfl⟩ | ⟨-, rfl⟩
    · exact h.of_subset rfl fun _ hrow => (Keyed.mem_delete.1 hrow).1
    · exact h
  | validReset tokenHash =>
    obtain ⟨-, rfl⟩ := hexec
    exact h
  | resetPassword tokenHash passwordHash =>
    rcases hexec with hexec | ⟨-, rfl⟩
    · obtain rfl : s' = (resetDone s tokenHash passwordHash).2 := congrArg Prod.snd hexec
      unfold resetDone
      simp only
      cases hcommit : ((Server.resetPassword tokenHash passwordHash).commit s).1 with
      | ok userId => exact h.resetPassword (Transaction.run_of_commit_ok hcommit)
      | error e =>
        rw [Transaction.commit_error hcommit]
        exact h
    · exact h
  | sendMail destination link =>
    obtain rfl : s' = s := hexec
    exact h

end AccountedFor

/-! ## Every run -/

/-- **Tokens are single use and superseded by a reset.**  Whatever the requests are and in whatever order
their operations are performed, whichever of them fail, whether mail is delivered, and wherever
requests are dropped: every reset in the history is for a token that was issued to the user before, had not
expired, and had not been used, it changes the password of no other user, and no token that was issued to the
user before it is used after it. -/
theorem tokens_singleUse (env : Env) (mailing : Mailing) (w : World)
    {p : Pool ResetWorld ResetRequest ResetOp ResetOp.Res Outcome}
    (hp : Pool.Reachable (serveReset env mailing) execReset True (.start w) p) :
    SingleUse p.shared.history := by
  have haccounted : AccountedFor p.shared :=
    hp.keeps (.start w) fun s op r s' hexec hs => hs.step hexec
  exact haccounted.singleUse

/-- What an operation does when it does not fail and mail is delivered. -/
def answerReset (s : ResetWorld) : (op : ResetOp) → op.Res × ResetWorld
  | .server op => ((answer s.server op).1, { s with server := (answer s.server op).2 })
  | .findAccount email => (.ok (findAccount s.server email), s)
  | .insertReset tokenHash userId expiresAt => insertReset s tokenHash userId expiresAt
  | .deleteReset tokenHash => (.ok (), deleteReset s tokenHash)
  | .validReset tokenHash => (.ok ((s.resets.find? tokenHash).any fun row => row.valid s.server.now), s)
  | .resetPassword tokenHash passwordHash => resetDone s tokenHash passwordHash
  | .sendMail _ _ => (.ok (), s)

theorem execReset_answer (s : ResetWorld) (op : ResetOp) :
    execReset s op (answerReset s op).1 (answerReset s op).2 := by
  cases op with
  | server op => exact ⟨_, exec_answer _ _ _, rfl⟩
  | findAccount email => exact ⟨.inl rfl, rfl⟩
  | insertReset tokenHash userId expiresAt => exact .inl rfl
  | deleteReset tokenHash => exact .inl ⟨rfl, rfl⟩
  | validReset tokenHash => exact ⟨.inl rfl, rfl⟩
  | resetPassword tokenHash passwordHash => exact .inl rfl
  | sendMail destination link => exact rfl

/-- A user with an address. -/
def mailedUser : World where
  __ := World.empty
  users := ⟨[newUser 1 ['k', 'a', 'z'] none (some ['k', '@', 'x']) true], by simp [UniqueOn]⟩

/-- Tokens that are their own hashes. -/
def plainMailing : Mailing := ⟨true, id⟩

/-- A reset with the token `token`. -/
def resetsWith (token : Text) : ResetRequest :=
  .reset token ['p', 'a', 's', 's', 'w', 'o', 'r', 'd'] ['p', 'a', 's', 's', 'w', 'o', 'r', 'd'] []

/-- Two tokens are issued; the first is used twice, and then the second. -/
def twoTokens : List (Pool.Turn ResetRequest Unit) :=
  .spawn (.forgot ['k', '@', 'x'] ['a']) :: List.replicate 4 (.act 0 ()) ++
    .spawn (.forgot ['k', '@', 'x'] ['b']) :: List.replicate 4 (.act 0 ()) ++
    [.spawn (resetsWith ['a']), .spawn (resetsWith ['a']), .spawn (resetsWith ['b']), .act 2 (), .act 1 (),
      .act 0 ()]

/-- The server then. -/
def twoTokensPool : Pool ResetWorld ResetRequest ResetOp ResetOp.Res Outcome :=
  Pool.play (serveReset .plain plainMailing) (fun _ => answerReset) (.start mailedUser) twoTokens

theorem tokens_singleUse_twoTokens : SingleUse twoTokensPool.shared.history ∧
    twoTokensPool.shared.history =
      [.reset ⟨some 0, 1, [1], 0⟩, .issued ⟨1, 1, 3600⟩, .issued ⟨0, 1, 3600⟩] :=
  ⟨tokens_singleUse .plain plainMailing mailedUser
    (@Pool.reachable_play _ _ _ _ _ (serveReset .plain plainMailing) _ True Unit (fun _ => answerReset)
      (fun _ _ => true) (fun _ s op _ => execReset_answer s op) (.start mailedUser) twoTokens (by rfl)),
    by decide⟩

end Server
end Uwuubox
