import Uwuubox.Prog.Transaction
import Uwuubox.Server.Frames

/-!
# Invite codes and their redemptions

`src/routes/invites.rs`: an administrator makes a code, and a registration redeems it, in one
transaction with the row of the user and the row of the redemption.

* `InviteWorld` — the state of the server with the table of the redemptions, and a record of the
  accounts that were created with a code, which the program does not have.
* `redeem`, `createUser` — the transaction, statement by statement.  `createUser_agrees`: what it does
  to the tables of `World` is what `answer` says of it.
* `createInvite` — the handler that makes a code.
* `Balanced` — the books: uses, redemptions and accounts agree, no code is overdrawn and none was
  redeemed too late.
* `invites_balanced` — in every run the books balance, and only a registration that returns its user
  and a creation that returns its code write to them.
* `failed_registration_redeems` — a registration that fails after its transaction.
-/

namespace Uwuubox
namespace Server

open Dedupe Storage Table Fallible Relation

/-! ## The tables -/

/-- A row of `invite_redemptions`. -/
structure Redemption where
  code : Text
  userId : Uuid
  createdAt : ℤ
deriving DecidableEq

/-- The server, with the redemptions and a record of the accounts. -/
structure InviteWorld where
  server : World
  redemptions : Keyed fun r : Redemption => (r.code, r.userId)
  /-- The users that a registration with a code has added, each with the code. -/
  accounts : List (Text × Uuid)

/-- A server without invite codes. -/
def InviteWorld.noInvites (w : World) : InviteWorld := ⟨{ w with inviteCodes := .empty }, .empty, []⟩

/-- `i32::MAX`, the largest `INTEGER`. -/
def maxI32 : ℕ := 2 ^ 31 - 1

/-! ## The transaction of `create_user` -/

/-- Statements of `create_user`. -/
abbrev InviteTx (α : Type) := Transaction InviteWorld InviteRegistrationError α

theorem code_addUse (invite : InviteCode) : InviteCode.code { invite with uses := invite.uses + 1 } = invite.code := rfl

/-- One more use of a code. -/
def InviteWorld.addUse (s : InviteWorld) (code : Text) : InviteWorld :=
  let inviteCodes := s.server.inviteCodes.update (fun invite => invite.code = code)
    (fun invite => { invite with uses := invite.uses + 1 }) code_addUse
  { s with server := { s.server with inviteCodes := inviteCodes } }

@[simp] theorem addUse_users (s : InviteWorld) (code : Text) : (s.addUse code).server.users = s.server.users :=
  rfl

/-- `redeem`: whether the conditional `UPDATE` has found its row. -/
def redeem (code : Text) : InviteTx Bool := do
  let s ← get
  match s.server.inviteCodes.find? code with
  | none => pure false
  | some invite =>
    if invite.usable s.server.now then
      if invite.uses < maxI32 then do
        set (s.addUse code)
        pure true
      else throw (.database (.sql .outOfRange))
    else pure false

/-- `INSERT INTO users .. RETURNING *` -/
def insertUserRow (row : User) : InviteTx User := do
  let s ← get
  match insertUser s.server row with
  | (.ok user, w) => do
    set { s with server := w }
    pure user
  | (.error e, _) => throw (.database e)

/-- `INSERT INTO invite_redemptions (code, user_id) VALUES ($1, $2)` -/
def insertRedemption (code : Text) (userId : Uuid) : InviteTx Unit := do
  let s ← get
  match s.redemptions.insert? ⟨code, userId, s.server.now⟩ with
  | some redemptions => set { s with redemptions := redemptions }
  | none => throw (.database (.sql (.uniqueViolation "invite_redemptions_pkey")))

/-- The statements of `invites::create_user`. -/
def createUser (row : User) (code : Text) : InviteTx User := do
  let redeemed ← redeem code
  if redeemed then do
    let user ← insertUserRow row
    insertRedemption code row.id
    pure user
  else throw .invalid

/-- The users that are there now and were not there before. -/
def addedUsers (w w' : World) : List Uuid :=
  (w'.users.rows.map User.id).filter fun id => id ∉ w.users.rows.map User.id

/-- The accounts that a step has added are recorded with the code. -/
def InviteWorld.record (s s' : InviteWorld) (code : Text) : InviteWorld :=
  { s' with accounts := (addedUsers s.server s'.server).map (fun id => (code, id)) ++ s'.accounts }

/-- What `create_user` answers, as `Op.createUser` has it. -/
def createUserAnswer : Except InviteRegistrationError User → Except Failure (Option User)
  | .ok user => .ok (some user)
  | .error .invalid => .ok none
  | .error (.database e) => .error e

/-! ### What the transaction does -/

section Transaction

variable {s s' : InviteWorld} {row user : User} {code : Text}

theorem redeem_ok (h : (redeem code).run s = .ok (true, s')) :
    ∃ invite, s.server.inviteCodes.find? code = some invite ∧ invite.usable s.server.now = true ∧
      s' = s.addUse code := by
  obtain ⟨_, _, ⟨⟩, h⟩ := Transaction.run_bind_ok.1 h
  split at h
  · cases h
  · rename_i invite hfind
    split at h
    · rename_i husable
      split at h
      · obtain ⟨_, _, ⟨⟩, h⟩ := Transaction.run_bind_ok.1 h
        cases h
        exact ⟨invite, hfind, husable, rfl⟩
      · cases h
    · cases h

theorem insertUserRow_ok (h : (insertUserRow row).run s = .ok (user, s')) :
    ∃ w, insertUser s.server row = (.ok user, w) ∧ s' = { s with server := w } := by
  obtain ⟨_, _, ⟨⟩, h⟩ := Transaction.run_bind_ok.1 h
  split at h
  · rename_i u w hinsert
    obtain ⟨_, _, ⟨⟩, h⟩ := Transaction.run_bind_ok.1 h
    cases h
    exact ⟨w, hinsert, rfl⟩
  · cases h

theorem insertRedemption_ok {userId : Uuid} {u : Unit}
    (h : (insertRedemption code userId).run s = .ok (u, s')) :
    ∃ redemptions, s.redemptions.insert? ⟨code, userId, s.server.now⟩ = some redemptions ∧
      s' = { s with redemptions := redemptions } := by
  obtain ⟨_, _, ⟨⟩, h⟩ := Transaction.run_bind_ok.1 h
  split at h
  · rename_i redemptions hinsert
    cases h
    exact ⟨redemptions, hinsert, rfl⟩
  · cases h

/-- The `INSERT` of a user does not look at the codes. -/
theorem insertUser_addUse {w : World} (h : insertUser (s.addUse code).server row = (.ok user, w)) :
    ∃ users, w = { (s.addUse code).server with users := users } ∧
      insertUser s.server row = (.ok user, { s.server with users := users }) := by
  unfold insertUser at h ⊢
  split at h
  · cases h
  · rename_i hname
    split at h
    · cases h
    · rename_i hemail
      split at h
      · cases h
      · rename_i users hinsert
        cases h
        rw [addUse_users] at hname hemail hinsert
        refine ⟨users, rfl, ?_⟩
        rw [if_neg hname, if_neg hemail, hinsert]

/-- **A registration that commits** has redeemed a usable code once, for the user it has added. -/
theorem createUser_ok (h : (createUser row code).run s = .ok (user, s')) :
    ∃ invite users redemptions, s.server.inviteCodes.find? code = some invite ∧
      invite.usable s.server.now = true ∧
      insertUser s.server row = (.ok user, { s.server with users := users }) ∧
      s.redemptions.insert? ⟨code, row.id, s.server.now⟩ = some redemptions ∧
      s' = { (s.addUse code) with
        server := { (s.addUse code).server with users := users }, redemptions := redemptions } := by
  obtain ⟨redeemed, s₁, hredeem, h⟩ := Transaction.run_bind_ok.1 h
  cases redeemed with
  | false => cases h
  | true =>
    obtain ⟨invite, hfind, husable, rfl⟩ := redeem_ok hredeem
    obtain ⟨u, s₂, hrow, h⟩ := Transaction.run_bind_ok.1 h
    obtain ⟨w, hinsert, rfl⟩ := insertUserRow_ok hrow
    obtain ⟨_, s₃, hrun, h⟩ := Transaction.run_bind_ok.1 h
    obtain ⟨redemptions, hredemption, rfl⟩ := insertRedemption_ok hrun
    cases h
    obtain ⟨users, rfl, huser⟩ := insertUser_addUse hinsert
    exact ⟨invite, users, redemptions, hfind, husable, huser, hredemption, rfl⟩

/-- A committed registration does to the tables of the server what `answer` says. -/
theorem createUser_agrees (h : (createUser row code).run s = .ok (user, s')) :
    answer s.server (.createUser row code) = (.ok (some user), s'.server) := by
  obtain ⟨invite, users, redemptions, hfind, husable, hinsert, -, rfl⟩ := createUser_ok h
  simp only [answer, hfind, Option.any_some, husable, if_true, hinsert]
  rfl

end Transaction

/-! ## Operations and requests -/

/-- An operation of the server, or the `INSERT` of a code. -/
inductive InviteOp where
  | server (op : Op)
  /-- `INSERT INTO invite_codes (code, created_by, max_uses, expires_at) .. RETURNING *` -/
  | insertInvite (code : Text) (maxUses : Option ℕ) (expiresAt : Option ℤ)

abbrev InviteOp.Res : InviteOp → Type
  | server op => op.Res
  | insertInvite _ _ _ => Except Failure InviteCode

/-- The `INSERT` of `create`; `uses` is `0` by default. -/
def insertInvite (s : InviteWorld) (code : Text) (maxUses : Option ℕ) (expiresAt : Option ℤ) :
    Except Failure InviteCode × InviteWorld :=
  match s.server.inviteCodes.insert? ⟨code, maxUses, 0, expiresAt⟩ with
  | none => (.error (.sql (.uniqueViolation "invite_codes_pkey")), s)
  | some inviteCodes =>
    (.ok ⟨code, maxUses, 0, expiresAt⟩, { s with server := { s.server with inviteCodes := inviteCodes } })

/-- The whole transaction of a registration, on the state. -/
def registered (s : InviteWorld) (row : User) (code : Text) :
    Except InviteRegistrationError User × InviteWorld :=
  (((createUser row code).commit s).1, s.record ((createUser row code).commit s).2 code)

/-- What one operation of the server can do.  Any may fail, a transaction without effect. -/
def execServer (s : InviteWorld) : (op : Op) → op.Res → InviteWorld → Prop
  | .createUser row code, r, s' =>
    r = createUserAnswer (registered s row code).1 ∧ s' = (registered s row code).2 ∨
      (∃ e, r = .error e) ∧ s' = s
  | op, r, s' => ∃ w, exec (fun _ => True) s.server op r w ∧ s' = { s with server := w }

/-- What one operation can do. -/
def execInvite (s : InviteWorld) : (op : InviteOp) → op.Res → InviteWorld → Prop
  | .server op, r, s' => execServer s op r s'
  | .insertInvite code maxUses expiresAt, r, s' =>
    (r, s') = insertInvite s code maxUses expiresAt ∨ (∃ e, r = .error e) ∧ s' = s

/-- `CreateInviteForm`. -/
structure CreateInviteForm where
  maxUses : Option Text
  expiresAt : Option Text

/-- How `chrono` reads a date. -/
structure DateFormats where
  /-- `DateTime::parse_from_rfc3339` -/
  rfc3339 : Text → Option ℤ
  /-- `NaiveDateTime::parse_from_str` with `%Y-%m-%dT%H:%M` -/
  minutes : Text → Option ℤ

/-- `str::parse::<i32>`. -/
def parseI32 (word : Text) : Option ℤ := (parseI64 word).filter fun n => -2 ^ 31 ≤ n ∧ n < 2 ^ 31

/-- `parse_optional_max_uses`. -/
def parseOptionalMaxUses (value : Option Text) : Except Abort (Option ℕ) :=
  let value := trim (value.getD [])
  if value.isEmpty then .ok none
  else match parseI32 value with
    | none => .error (AppError.badRequest "max_uses must be a number")
    | some parsed =>
      if parsed < 1 then .error (AppError.badRequest "max_uses must be at least 1")
      else .ok (some parsed.toNat)

/-- `parse_optional_expiry`. -/
def parseOptionalExpiry (dates : DateFormats) (value : Option Text) : Except Abort (Option ℤ) :=
  let value := trim (value.getD [])
  if value.isEmpty then .ok none
  else match dates.rfc3339 value, dates.minutes value with
    | some at', _ => .ok (some at')
    | none, some at' => .ok (some at')
    | none, none => .error (AppError.badRequest "expires_at must be a valid date and time")

/-- The `ALPHABET` of `random_code`: capitals, small letters and digits. -/
def inviteAlphabet : List Char :=
  (List.range 26).map (fun n => Char.ofNat ('A'.toNat + n)) ++
    (List.range 26).map (fun n => Char.ofNat ('a'.toNat + n)) ++
    (List.range 10).map (fun n => Char.ofNat ('0'.toNat + n))

/-- `random_code`, with the numbers that are drawn. -/
def randomCode (draws : Fin 12 → Fin 62) : Text :=
  ['u', 'w', 'u', '-', 'i', 'n', 'v', '-'] ++
    List.ofFn fun i => inviteAlphabet.getD (draws i) 'A'

/-- A program of the server among the operations on codes. -/
def onServer {α : Type} (p : Query α) : Prog InviteOp InviteOp.Res α :=
  p.interp fun op => Prog.perform (InviteOp.server op)

/-- `create_invite`. -/
def createInvite (env : Env) (dates : DateFormats) (caller : Caller) (form : CreateInviteForm)
    (draws : Fin 12 → Fin 62) : Fallible InviteOp InviteOp.Res Abort Response := do
  let actor ← ExceptT.mk (onServer (requireAdmin env caller).run)
  let maxUses ← check (parseOptionalMaxUses form.maxUses)
  let expiresAt ← check (parseOptionalExpiry dates form.expiresAt)
  match ← perform (InviteOp.insertInvite (randomCode draws) maxUses expiresAt) with
  | .error e => throw (Abort.error (.from' e))
  | .ok _ => do
    ExceptT.mk (onServer (ask (.audit (some actor.id) "invite.create")).run)
    pure (.seeOther adminPath)

/-- A request of the server, registrations among them, or the creation of a code. -/
inductive InviteRequest where
  | server (req : Request)
  | create (caller : Caller) (form : CreateInviteForm) (draws : Fin 12 → Fin 62)

/-- The program of a request. -/
def serveInvite (env : Env) (dates : DateFormats) : InviteRequest → Prog InviteOp InviteOp.Res Outcome
  | .server req => onServer (serve env req)
  | .create caller form draws => (createInvite env dates caller form draws).run

/-! ## The books -/

/-- **The books balance.** -/
structure Balanced (s : InviteWorld) : Prop where
  /-- A code has been used as often as it has been redeemed. -/
  redeemed : ∀ invite ∈ s.server.inviteCodes,
    s.redemptions.rows.countP (fun r => r.code = invite.code) = invite.uses
  /-- It has been used as often as an account was created with it. -/
  created : ∀ invite ∈ s.server.inviteCodes,
    s.accounts.countP (fun a => a.1 = invite.code) = invite.uses
  /-- It has not been used more often than it may. -/
  within : ∀ invite ∈ s.server.inviteCodes, ∀ max, invite.maxUses = some max → invite.uses ≤ max
  /-- It was not redeemed when it had expired. -/
  inTime : ∀ r ∈ s.redemptions, ∀ invite ∈ s.server.inviteCodes, invite.code = r.code →
    ∀ at', invite.expiresAt = some at' → r.createdAt < at'
  /-- `REFERENCES invite_codes (code)` -/
  known : ∀ r ∈ s.redemptions, ∃ invite ∈ s.server.inviteCodes, invite.code = r.code
  recorded : ∀ a ∈ s.accounts, ∃ invite ∈ s.server.inviteCodes, invite.code = a.1

/-- The codes, the redemptions and the accounts are the same. -/
structure SameBooks (s s' : InviteWorld) : Prop where
  inviteCodes : s'.server.inviteCodes = s.server.inviteCodes
  redemptions : s'.redemptions = s.redemptions
  accounts : s'.accounts = s.accounts

/-- A registration that returns its user, or a creation that returns its code. -/
def InviteOp.Commits : (op : InviteOp) → op.Res → Prop
  | .server (.createUser _ _), .ok (some _) => True
  | .insertInvite _ _ _, .ok _ => True
  | _, _ => False

variable {s s' : InviteWorld}

theorem SameBooks.refl (s : InviteWorld) : SameBooks s s := ⟨rfl, rfl, rfl⟩

/-- Whether the books balance is seen from the books. -/
theorem Balanced.of_sameBooks (h : Balanced s) (hsame : SameBooks s s') : Balanced s' := by
  obtain ⟨hcodes, hredemptions, haccounts⟩ := hsame
  constructor
  · rw [hcodes, hredemptions]
    exact h.redeemed
  · rw [hcodes, haccounts]
    exact h.created
  · rw [hcodes]
    exact h.within
  · rw [hcodes, hredemptions]
    exact h.inTime
  · rw [hcodes, hredemptions]
    exact h.known
  · rw [hcodes, haccounts]
    exact h.recorded

theorem balanced_noInvites (w : World) : Balanced (.noInvites w) where
  redeemed _ h := absurd h Keyed.notMem_empty
  created _ h := absurd h Keyed.notMem_empty
  within _ h := absurd h Keyed.notMem_empty
  inTime _ h := absurd h Keyed.notMem_empty
  known _ h := absurd h Keyed.notMem_empty
  recorded _ h := absurd h List.not_mem_nil

/-! ### A registration -/

/-- An inserted user is the one that is added. -/
theorem addedUsers_insertUser {w w' : World} {row user : User} (h : insertUser w row = (.ok user, w')) :
    addedUsers w w' = [row.id] := by
  unfold insertUser at h
  split at h
  · cases h
  · split at h
    · cases h
    · split at h
      · cases h
      · rename_i users hinsert
        cases h
        obtain ⟨hrows, hnew⟩ := Keyed.insert?_eq_some hinsert
        have hfresh : row.id ∉ w.users.rows.map User.id := by
          rw [List.mem_map]
          rintro ⟨u, hu, hid⟩
          exact hnew u hu hid
        unfold addedUsers
        simp only [hrows, List.map_cons]
        rw [List.filter_cons_of_pos (by simpa using hfresh), List.filter_eq_nil_iff.2]
        intro id hid
        simpa using hid

/-- A row of the codes after one more use of `code`. -/
theorem mem_addUse {invite : InviteCode} {code : Text} :
    invite ∈ (s.addUse code).server.inviteCodes ↔
      (invite ∈ s.server.inviteCodes ∧ invite.code ≠ code) ∨
        ∃ before ∈ s.server.inviteCodes, before.code = code ∧
          { before with uses := before.uses + 1 } = invite := by
  unfold InviteWorld.addUse
  simp only [Keyed.mem_update, decide_eq_false_iff_not, decide_eq_true_eq, ne_eq]

/-- The codes stay when one is used. -/
theorem exists_mem_addUse {invite : InviteCode} (code : Text) (h : invite ∈ s.server.inviteCodes) :
    ∃ after ∈ (s.addUse code).server.inviteCodes, after.code = invite.code := by
  by_cases hcode : invite.code = code
  · exact ⟨{ invite with uses := invite.uses + 1 }, mem_addUse.2 (.inr ⟨invite, h, hcode, rfl⟩), rfl⟩
  · exact ⟨invite, mem_addUse.2 (.inl ⟨h, hcode⟩), rfl⟩

/-- **A registration that commits keeps the balance**: one use, one redemption, one account. -/
theorem Balanced.createUser (h : Balanced s) {row user : User} {code : Text}
    (hrun : (createUser row code).run s = .ok (user, s')) : Balanced (s.record s' code) := by
  obtain ⟨used, users, redemptions, hfind, husable, hinsert, hredemption, rfl⟩ := createUser_ok hrun
  obtain ⟨hused, hcode⟩ := Keyed.mem_of_find? hfind
  obtain ⟨hrows, -⟩ := Keyed.insert?_eq_some hredemption
  have hnew := addedUsers_insertUser hinsert
  have hadded : addedUsers s.server { (s.addUse code).server with users := users } = [row.id] := hnew
  unfold InviteCode.usable at husable
  rw [Bool.and_eq_true] at husable
  have haccounts : (s.record { (s.addUse code) with
      server := { (s.addUse code).server with users := users }, redemptions := redemptions } code).accounts =
      (code, row.id) :: s.accounts := by
    simp only [InviteWorld.record, hadded]
    rfl
  constructor
  · intro invite hinvite
    show redemptions.rows.countP _ = _
    rw [hrows]
    rcases mem_addUse.1 hinvite with ⟨hmem, hne⟩ | ⟨before, hmem, rfl, rfl⟩
    · rw [List.countP_cons_of_neg (by simpa using Ne.symm hne)]
      exact h.redeemed invite hmem
    · rw [List.countP_cons_of_pos (by simp)]
      exact congrArg (· + 1) (h.redeemed before hmem)
  · intro invite hinvite
    rw [haccounts]
    rcases mem_addUse.1 hinvite with ⟨hmem, hne⟩ | ⟨before, hmem, rfl, rfl⟩
    · rw [List.countP_cons_of_neg (by simpa using Ne.symm hne)]
      exact h.created invite hmem
    · rw [List.countP_cons_of_pos (by simp)]
      exact congrArg (· + 1) (h.created before hmem)
  · intro invite hinvite max hmax
    rcases mem_addUse.1 hinvite with ⟨hmem, -⟩ | ⟨before, hmem, hbefore, rfl⟩
    · exact h.within invite hmem max hmax
    · -- The condition of the `UPDATE` is about this row.
      obtain rfl : before = used := Keyed.eq_of_col hmem hused (hbefore.trans hcode.symm)
      have hmax' : before.maxUses = some max := hmax
      have huses := husable.1
      rw [hmax', Option.all_some, decide_eq_true_eq] at huses
      exact huses
  · intro r hr invite hinvite hof at' hat
    rcases (Keyed.mem_insert? hredemption).1 hr with rfl | hr
    · have hexpires : used.expiresAt = some at' := by
        rcases mem_addUse.1 hinvite with ⟨-, hne⟩ | ⟨before, hmem, hbefore, rfl⟩
        · exact absurd hof hne
        · obtain rfl : before = used := Keyed.eq_of_col hmem hused (hbefore.trans hcode.symm)
          exact hat
      have hlive := husable.2
      unfold unexpired at hlive
      rw [hexpires, Option.all_some, decide_eq_true_eq] at hlive
      exact hlive
    · rcases mem_addUse.1 hinvite with ⟨hmem, -⟩ | ⟨before, hmem, hbefore, rfl⟩
      · exact h.inTime r hr invite hmem hof at' hat
      · exact h.inTime r hr before hmem hof at' hat
  · intro r hr
    rcases (Keyed.mem_insert? hredemption).1 hr with rfl | hr
    · obtain ⟨after, hafter, heq⟩ := exists_mem_addUse code hused
      exact ⟨after, hafter, heq.trans hcode⟩
    · obtain ⟨invite, hinvite, hof⟩ := h.known r hr
      obtain ⟨after, hafter, heq⟩ := exists_mem_addUse code hinvite
      exact ⟨after, hafter, heq.trans hof⟩
  · intro a ha
    rw [haccounts] at ha
    rcases List.mem_cons.1 ha with rfl | ha
    · obtain ⟨after, hafter, heq⟩ := exists_mem_addUse code hused
      exact ⟨after, hafter, heq.trans hcode⟩
    · obtain ⟨invite, hinvite, hof⟩ := h.recorded a ha
      obtain ⟨after, hafter, heq⟩ := exists_mem_addUse code hinvite
      exact ⟨after, hafter, heq.trans hof⟩

/-! ### A new code -/

/-- **A new code keeps the balance**: nobody has used it. -/
theorem Balanced.insertInvite (h : Balanced s) (code : Text) (maxUses : Option ℕ) (expiresAt : Option ℤ) :
    Balanced (insertInvite s code maxUses expiresAt).2 := by
  unfold Server.insertInvite
  split
  · exact h
  · rename_i codes hinsert
    obtain ⟨-, hnew⟩ := Keyed.insert?_eq_some hinsert
    have hunused : ∀ {α : Type} (l : List α) (f : α → Text),
        (∀ a ∈ l, ∃ invite ∈ s.server.inviteCodes, invite.code = f a) →
        l.countP (fun a => f a = code) = 0 := by
      intro α l f hl
      rw [List.countP_eq_zero]
      intro a ha heq
      obtain ⟨invite, hinvite, hof⟩ := hl a ha
      exact hnew invite hinvite (hof.trans (of_decide_eq_true heq))
    have hmem : ∀ {invite : InviteCode}, invite ∈ codes ↔
        invite = ⟨code, maxUses, 0, expiresAt⟩ ∨ invite ∈ s.server.inviteCodes := Keyed.mem_insert? hinsert
    constructor
    · intro invite hinvite
      rcases hmem.1 hinvite with rfl | hold
      · exact hunused s.redemptions.rows Redemption.code h.known
      · exact h.redeemed invite hold
    · intro invite hinvite
      rcases hmem.1 hinvite with rfl | hold
      · exact hunused s.accounts Prod.fst h.recorded
      · exact h.created invite hold
    · intro invite hinvite max hmax
      rcases hmem.1 hinvite with rfl | hold
      · exact Nat.zero_le max
      · exact h.within invite hold max hmax
    · intro r hr invite hinvite hof at' hat
      rcases hmem.1 hinvite with rfl | hold
      · obtain ⟨other, hother, heq⟩ := h.known r hr
        exact absurd (heq.trans hof.symm) (hnew other hother)
      · exact h.inTime r hr invite hold hof at' hat
    · intro r hr
      obtain ⟨invite, hinvite, hof⟩ := h.known r hr
      exact ⟨invite, hmem.2 (.inr hinvite), hof⟩
    · intro a ha
      obtain ⟨invite, hinvite, hof⟩ := h.recorded a ha
      exact ⟨invite, hmem.2 (.inr hinvite), hof⟩

/-! ### Every operation -/

/-- Only the transaction of a registration writes to the codes. -/
theorem exec_inviteCodes {w w' : World} {mayFail : Op → Prop} {op : Op} {r : op.Res}
    (h : exec mayFail w op r w') (hop : ∀ row code, op ≠ .createUser row code) :
    w'.inviteCodes = w.inviteCodes := by
  have hframe := exec_frame h
  cases op with
  | createUser row code => exact absurd rfl (hop row code)
  | insertUser row =>
    rcases h with h | ⟨-, h⟩
    · obtain ⟨users, heq⟩ := insertUser_frame w row
      rw [show w' = (insertUser w row).2 from congrArg Prod.snd h, heq]
    · cases h
      rfl
  | storage op =>
    cases op <;> first
      | (obtain ⟨_, rfl⟩ := hframe; rfl) | (obtain ⟨_, _, rfl⟩ := hframe; rfl)
  | _ => first
    | exact congrArg World.inviteCodes hframe
    | (obtain ⟨_, rfl⟩ := hframe; rfl) | (obtain ⟨_, _, rfl⟩ := hframe; rfl)

/-- A registration has committed, or the books are as they were. -/
theorem registered_cases (s : InviteWorld) (row : User) (code : Text) :
    (∃ user s', (createUser row code).run s = .ok (user, s') ∧
      registered s row code = (.ok user, s.record s' code)) ∨
      (∀ user, (registered s row code).1 ≠ .ok user) ∧ SameBooks s (registered s row code).2 := by
  unfold registered
  cases hcommit : ((createUser row code).commit s).1 with
  | ok user =>
    exact .inl ⟨user, _, Transaction.run_of_commit_ok hcommit, rfl⟩
  | error e =>
    right
    rw [Transaction.commit_error hcommit]
    refine ⟨fun user h => (by cases h), rfl, rfl, ?_⟩
    have hnone : addedUsers s.server s.server = [] := by
      unfold addedUsers
      rw [List.filter_eq_nil_iff]
      intro id hid
      simpa using hid
    simp only [InviteWorld.record, hnone, List.map_nil, List.nil_append]

/-- **What an operation does to the books.**  Nothing, unless it is a registration that returns its
user or a creation that returns its code; and these keep the balance. -/
theorem execInvite_books {op : InviteOp} {r : op.Res} (h : execInvite s op r s') :
    (Balanced s → Balanced s') ∧ (¬ op.Commits r → SameBooks s s') := by
  cases op with
  | insertInvite code maxUses expiresAt =>
    rcases h with h | ⟨-, rfl⟩
    · obtain rfl : r = (insertInvite s code maxUses expiresAt).1 := congrArg Prod.fst h
      obtain rfl : s' = (insertInvite s code maxUses expiresAt).2 := congrArg Prod.snd h
      refine ⟨fun hs => hs.insertInvite code maxUses expiresAt, fun hr => ?_⟩
      unfold insertInvite at hr ⊢
      cases hinsert : s.server.inviteCodes.insert? ⟨code, maxUses, 0, expiresAt⟩ with
      | none => exact .refl s
      | some codes =>
        rw [hinsert] at hr
        exact absurd trivial hr
    · exact ⟨id, fun _ => .refl _⟩
  | server op =>
    by_cases hop : ∀ row code, op ≠ .createUser row code
    · have hserver : ∃ w, exec (fun _ => True) s.server op r w ∧ s' = { s with server := w } := by
        cases op with
        | createUser row code => exact absurd rfl (hop row code)
        | _ => exact h
      obtain ⟨w, hexec, rfl⟩ := hserver
      have hsame : SameBooks s { s with server := w } := ⟨exec_inviteCodes hexec hop, rfl, rfl⟩
      exact ⟨fun hs => hs.of_sameBooks hsame, fun _ => hsame⟩
    · push Not at hop
      obtain ⟨row, code, rfl⟩ := hop
      rcases h with ⟨rfl, rfl⟩ | ⟨-, rfl⟩
      · rcases registered_cases s row code with ⟨user, s', hrun, heq⟩ | ⟨hfailed, hsame⟩
        · rw [heq]
          exact ⟨fun hs => hs.createUser hrun, fun hr => absurd trivial hr⟩
        · exact ⟨fun hs => hs.of_sameBooks hsame, fun _ => hsame⟩
      · exact ⟨id, fun _ => .refl _⟩

/-! ## Every run -/

/-- **Invites are accounted for.**  Whatever the requests are and in whatever order their operations are
performed, whichever of them fail, and wherever requests are dropped: for every code the uses, the
redemptions and the accounts agree, the uses do not exceed what is allowed, and no redemption is
too late; and an operation that is not a registration that returns its user, or a creation
that returns its code, leaves the codes, the redemptions and the accounts as they are. -/
theorem invites_balanced (env : Env) (dates : DateFormats) (w : World)
    {p : Pool InviteWorld InviteRequest InviteOp InviteOp.Res Outcome}
    (hp : Pool.Reachable (serveInvite env dates) execInvite True (.noInvites w) p) :
    Balanced p.shared ∧ ∀ op r s', execInvite p.shared op r s' → ¬ op.Commits r → SameBooks p.shared s' := by
  have hbalanced : Balanced p.shared :=
    hp.keeps (balanced_noInvites w) fun s op r s' hexec => (execInvite_books hexec).1
  exact ⟨hbalanced, fun op r s' hexec => (execInvite_books hexec).2⟩

/-- What an operation does when it does not fail. -/
def answerInvite (s : InviteWorld) : (op : InviteOp) → op.Res × InviteWorld
  | .server (.createUser row code) =>
    (createUserAnswer (registered s row code).1, (registered s row code).2)
  | .server op => ((answer s.server op).1, { s with server := (answer s.server op).2 })
  | .insertInvite code maxUses expiresAt => insertInvite s code maxUses expiresAt

theorem execInvite_answer (s : InviteWorld) (op : InviteOp) :
    execInvite s op (answerInvite s op).1 (answerInvite s op).2 := by
  cases op with
  | insertInvite code maxUses expiresAt => exact .inl rfl
  | server op =>
    cases op with
    | createUser row code => exact .inl ⟨rfl, rfl⟩
    | _ => exact ⟨_, exec_answer _ _ _, rfl⟩

/-- An administrator, where one registers with an invite. -/
def inviteOnly : World where
  __ := World.empty
  config := { InstanceConfig.default with registrationMode := modeInvite }
  users := ⟨[newUser 1 ['k', 'a', 'z'] none none true], by simp [UniqueOn]⟩
  sessions := fun sid => if sid = 1 then { Session.fresh with uid := some 1 } else .fresh

/-- The code that is drawn. -/
def drawnCode : Text := randomCode fun _ => 0

/-- The administrator makes a code for one use. -/
def makesCode : InviteRequest := .create ⟨1, .none⟩ ⟨some ['1'], none⟩ fun _ => 0

/-- A registration with the code. -/
def redeems (name : Text) (id : Uuid) : InviteRequest :=
  .server (.register 0 ⟨name, none, ['p', 'a', 's', 's', 'w', 'o', 'r', 'd'], some drawnCode⟩ [] id)

/-- Three registrations for the only use: the first fails on its user name. -/
def oneUse : List (Pool.Turn InviteRequest Unit) :=
  .spawn makesCode :: List.replicate 4 (.act 0 ()) ++
    .spawn (redeems ['k', 'a', 'z'] 2) :: .spawn (redeems ['m', 'i', 'a'] 3) ::
    .spawn (redeems ['l', 'e', 'o'] 4) ::
    [.act 0 (), .act 1 (), .act 2 (), .act 0 (), .act 1 (), .act 2 (), .act 2 (), .act 1 (), .act 0 (), .act 1 ()]

/-- Where no date is read. -/
def noDates : DateFormats := ⟨fun _ => none, fun _ => none⟩

/-- The server then. -/
def oneUsePool : Pool InviteWorld InviteRequest InviteOp InviteOp.Res Outcome :=
  Pool.play (serveInvite .plain noDates) (fun _ => answerInvite) (.noInvites inviteOnly) oneUse

theorem invites_balanced_oneUse :
    Balanced oneUsePool.shared ∧ oneUsePool.shared.accounts = [(drawnCode, 3)] :=
  ⟨(invites_balanced .plain noDates inviteOnly
    (@Pool.reachable_play _ _ _ _ _ (serveInvite .plain noDates) _ True Unit (fun _ => answerInvite)
      (fun _ _ => true) (fun _ s op _ => execInvite_answer s op) (.noInvites inviteOnly) oneUse (by rfl))).1,
    by decide⟩

/-! ### A registration that fails after its transaction -/

/-- The operation, or its failure. -/
def answerOrFailInvite (succeeds : Bool) (s : InviteWorld) (op : InviteOp) : op.Res × InviteWorld :=
  if succeeds then answerInvite s op
  else match op with
    | .server _ => (.error (.sql (.io "connection reset")), s)
    | .insertInvite _ _ _ => (.error (.sql (.io "connection reset")), s)

theorem execInvite_answerOrFail (succeeds : Bool) (s : InviteWorld) (op : InviteOp) :
    execInvite s op (answerOrFailInvite succeeds s op).1 (answerOrFailInvite succeeds s op).2 := by
  cases succeeds with
  | true => exact execInvite_answer s op
  | false =>
    cases op with
    | insertInvite code maxUses expiresAt => exact .inr ⟨⟨_, rfl⟩, rfl⟩
    | server op =>
      cases op with
      | createUser row code => exact .inr ⟨⟨_, rfl⟩, rfl⟩
      | _ => exact ⟨_, .inr ⟨trivial, .statement _ _⟩, rfl⟩

/-- A registration whose transaction commits, and then the session fails. -/
def sessionLost : List (Pool.Turn InviteRequest Bool) :=
  .spawn makesCode :: List.replicate 4 (.act 0 true) ++
    .spawn (redeems ['m', 'i', 'a'] 3) :: List.replicate 3 (.act 0 true) ++ [.act 0 false]

/-- The server then. -/
def sessionLostPool : Pool InviteWorld InviteRequest InviteOp InviteOp.Res Outcome :=
  Pool.play (serveInvite .plain noDates) answerOrFailInvite (.noInvites inviteOnly) sessionLost

/-- **A registration that fails has redeemed its code**, when it is the session that fails: the request
ends with an error, and the use, the redemption and the account are there. -/
theorem failed_registration_redeems :
    Pool.Reachable (serveInvite .plain noDates) execInvite False (.noInvites inviteOnly) sessionLostPool ∧
    sessionLostPool.threads[0]? =
      some (redeems ['m', 'i', 'a'] 3, .ret (.error AppError.somethingWentWrong)) ∧
    sessionLostPool.shared.server.inviteCodes.rows = [⟨drawnCode, some 1, 1, none⟩] ∧
    sessionLostPool.shared.redemptions.rows = [⟨drawnCode, 3, 0⟩] ∧
    sessionLostPool.shared.accounts = [(drawnCode, 3)] :=
  ⟨@Pool.reachable_play _ _ _ _ _ (serveInvite .plain noDates) _ False Bool answerOrFailInvite
      (fun _ _ => true) (fun how s op _ => execInvite_answerOrFail how s op) (.noInvites inviteOnly)
      sessionLost (by rfl),
    rfl, by decide, by decide, by decide⟩

end Server
end Uwuubox
