import Uwuubox.Prog.Faults
import Uwuubox.Server.Invites
import Uwuubox.Table.Overlay

/-!
# Revoked invite codes

`create_user`, `redeem` and `revoke` of `src/routes/invites.rs` again, statement by statement.  `now()` is the time
at which a transaction has begun, and an `UPDATE` waits for a row that another transaction has changed.

* `CodeWorld`, `CodeOp`, `answerCode`, `execCode` — the tables, the open transactions, and what a statement does.
* `createUser`, `revoke`, `create` — the programs; a statement of its own is a transaction, too.
* `Final` — no code has been redeemed after its revocation was committed.
* `Timely` — **the condition** on a `redeem`: the transaction began no earlier than the last revocation of the code.
* `createUser_alone` — alone, `createUser` answers what the transaction `Server.createUser` does.
* `Settled` — what every operation keeps that is timely; `revoked_codes_stay` — so revocations are final.
* `redeemed_after_revocation` — a registration that began before.
-/

namespace Uwuubox
namespace Server
namespace Codes

open Dedupe Storage Table Fallible

/-! ## The state -/

/-- An open transaction. -/
structure CodeTx where
  /-- `now()` -/
  start : ℤ
  /-- Its versions of rows; the rows are locked. -/
  codes : Keyed InviteCode.code
  users : Keyed User.id
  redemptions : Keyed fun r : Redemption => (r.code, r.userId)
  /-- The codes that it has revoked. -/
  revoked : List Text

/-- What happens to a code: a revocation is committed, or an `UPDATE` redeems it. -/
inductive CodeEvent where
  | revoked (code : Text) (start : ℤ)
  | redeemed (code : Text)
deriving DecidableEq

/-- The committed rows, the open transactions, and what has happened, the last event first. -/
structure CodeWorld where
  server : World
  redemptions : Keyed fun r : Redemption => (r.code, r.userId)
  txs : ℕ → Option CodeTx
  nextTx : ℕ
  history : List CodeEvent

namespace CodeWorld

/-- A server on which nothing is in progress. -/
def idle (w : World) : CodeWorld := ⟨w, .empty, fun _ => none, 0, []⟩

/-- The transaction goes on with other versions, or ends. -/
def withTx (s : CodeWorld) (tx : ℕ) (t : Option CodeTx) : CodeWorld := { s with txs := Function.update s.txs tx t }

/-- The codes that a transaction sees. -/
def codes (s : CodeWorld) (t : CodeTx) : Keyed InviteCode.code := s.server.inviteCodes.overlay t.codes

/-- Another transaction has a version of the code. -/
def Locked (s : CodeWorld) (tx : ℕ) (code : Text) : Prop :=
  ∃ tx' < s.nextTx, tx' ≠ tx ∧ ∃ t ∈ s.txs tx', ∃ v ∈ t.codes.rows, v.code = code

/-- Another transaction has added a user with this name, address or id. -/
def PendingUser (s : CodeWorld) (tx : ℕ) (row : User) : Prop :=
  ∃ tx' < s.nextTx, tx' ≠ tx ∧ ∃ t ∈ s.txs tx', ∃ u ∈ t.users.rows, u.id = row.id ∨
    citext u.username = citext row.username ∨ row.email.isSome ∧ u.email.map citext = row.email.map citext

instance (s : CodeWorld) (tx : ℕ) (code : Text) : Decidable (s.Locked tx code) :=
  inferInstanceAs (Decidable (∃ tx' < s.nextTx, _))

instance (s : CodeWorld) (tx : ℕ) (row : User) : Decidable (s.PendingUser tx row) :=
  inferInstanceAs (Decidable (∃ tx' < s.nextTx, _))

end CodeWorld

/-! ## The operations -/

/-- One statement. -/
inductive CodeOp where
  | begin
  /-- `UPDATE invite_codes SET uses=uses+1 WHERE code=$1 AND (max_uses IS NULL OR uses<max_uses) AND
  (expires_at IS NULL OR expires_at>now()) RETURNING code` -/
  | redeem (tx : ℕ) (code : Text)
  /-- `INSERT INTO users .. RETURNING *` -/
  | insertUser (tx : ℕ) (row : User)
  /-- `INSERT INTO invite_redemptions (code, user_id) VALUES ($1, $2)` -/
  | insertRedemption (tx : ℕ) (code : Text) (userId : Uuid)
  /-- `UPDATE invite_codes SET expires_at = now() WHERE code = $1 RETURNING *` -/
  | expire (tx : ℕ) (code : Text)
  | commit (tx : ℕ)
  | rollback (tx : ℕ)
  /-- The connection of a transaction is lost, or its request is dropped. -/
  | abandon (tx : ℕ)
  /-- `INSERT INTO invite_codes .. RETURNING *` -/
  | insertCode (invite : InviteCode)

/-- What an operation returns when it does not fail. -/
abbrev CodeOp.Val : CodeOp → Type
  | begin => ℕ
  | redeem _ _ => Option Text
  | insertUser _ _ => User
  | insertRedemption _ _ _ => Unit
  | expire _ _ => Option InviteCode
  | commit _ => Unit
  | rollback _ => Unit
  | abandon _ => Unit
  | insertCode _ => InviteCode

abbrev CodeOp.Res (op : CodeOp) : Type := Except Failure op.Val

/-- A statement in a transaction; where that is over, it fails. -/
def inTx {α : Type} (s : CodeWorld) (tx : ℕ) (f : CodeTx → Except Failure α × CodeWorld) :
    Except Failure α × CodeWorld :=
  match s.txs tx with
  | none => (.error (.sql (.io "connection closed")), s)
  | some t => f t

/-- What an operation does at `time`, if it need not wait and does not fail. -/
def answerCode (time : ℤ) (s : CodeWorld) : (op : CodeOp) → op.Res × CodeWorld
  | .begin =>
    (.ok s.nextTx, { s.withTx s.nextTx (some ⟨time, .empty, .empty, .empty, []⟩) with
      nextTx := s.nextTx + 1
      server := { s.server with now := time } })
  | .redeem tx code => inTx s tx fun t =>
    match (s.codes t).find? code with
    | none => (.ok none, s)
    | some invite =>
      if invite.usable t.start then
        if invite.uses < maxI32 then
          let redeemed := { invite with uses := invite.uses + 1 }
          (.ok (some code), { s.withTx tx (some { t with codes := t.codes.put redeemed }) with
            history := .redeemed code :: s.history })
        else (.error (.sql .outOfRange), s)
      else (.ok none, s)
  | .insertUser tx row => inTx s tx fun t =>
    match (Server.insertUser { s.server with users := s.server.users.overlay t.users } row).1 with
    | .error e => (.error e, s)
    | .ok user => (.ok user, s.withTx tx (some { t with users := t.users.put user }))
  | .insertRedemption tx code userId => inTx s tx fun t =>
    match (s.redemptions.overlay t.redemptions).find? (code, userId) with
    | some _ => (.error (.sql (.uniqueViolation "invite_redemptions_pkey")), s)
    | none => (.ok (), s.withTx tx (some { t with redemptions := t.redemptions.put ⟨code, userId, t.start⟩ }))
  | .expire tx code => inTx s tx fun t =>
    match (s.codes t).find? code with
    | none => (.ok none, s)
    | some invite =>
      let expired := { invite with expiresAt := some t.start }
      (.ok (some expired), s.withTx tx (some { t with codes := t.codes.put expired, revoked := code :: t.revoked }))
  | .commit tx => inTx s tx fun t =>
    (.ok (), { s.withTx tx none with
      server := { s.server with inviteCodes := s.codes t, users := s.server.users.overlay t.users }
      redemptions := s.redemptions.overlay t.redemptions
      history := t.revoked.map (fun code => .revoked code t.start) ++ s.history })
  | .rollback tx => (.ok (), s.withTx tx none)
  | .abandon tx => (.ok (), s.withTx tx none)
  | .insertCode invite =>
    match s.server.inviteCodes.insert? invite with
    | none => (.error (.sql (.uniqueViolation "invite_codes_pkey")), s)
    | some inviteCodes => (.ok invite, { s with server := { s.server with inviteCodes := inviteCodes } })

/-- An operation has to wait for another transaction.  A row that the condition does not select is not waited for. -/
def waits (s : CodeWorld) : CodeOp → Bool
  | .redeem tx code => (s.txs tx).any fun t =>
      ((s.codes t).find? code).any (InviteCode.usable · t.start) && decide (s.Locked tx code)
  | .expire tx code => (s.txs tx).any fun t => ((s.codes t).find? code).isSome && decide (s.Locked tx code)
  | .insertUser tx row => decide (s.PendingUser tx row)
  | _ => false

/-- An operation fails.  A `COMMIT` that fails ends the transaction, and may have been carried out all the same. -/
def failsCode (s : CodeWorld) (op : CodeOp) (s' : CodeWorld) : Prop :=
  match op with
  | .commit tx => s' = s.withTx tx none ∨ s' = (answerCode s.server.now s op).2
  | _ => s' = s

/-- What one operation can do. -/
def execCode (faults : Prop) (s : CodeWorld) (op : CodeOp) (r : op.Res) (s' : CodeWorld) : Prop :=
  (waits s op = false ∧ ∃ time ≥ s.server.now, (r, s') = answerCode time s op) ∨
    (faults ∧ (∃ e, r = .error e) ∧ failsCode s op s')

/-! ## The programs -/

abbrev CodeProg (E α : Type) := Fallible CodeOp CodeOp.Res E α

/-- A statement followed by `?`. -/
def askCode {E : Type} (from' : Failure → E) (op : CodeOp) : CodeProg E op.Val := do
  match ← perform op with
  | .ok v => pure v
  | .error e => throw (from' e)

/-- What is done with a transaction; it is rolled back when it is dropped. -/
def inTransaction {E α : Type} (from' : Failure → E) (p : ℕ → CodeProg E α) : CodeProg E α := do
  let tx ← askCode from' .begin
  match ← always (p tx).run with
  | .ok a => pure a
  | .error e => do
    let _ ← perform (CodeOp.rollback tx)
    throw e

/-- `create_user` -/
def createUser (row : User) (code : Text) : CodeProg InviteRegistrationError User :=
  inTransaction .database fun tx => do
    let redeemed ← askCode .database (.redeem tx code)
    reject (redeemed.isNone = true) .invalid
    let user ← askCode .database (.insertUser tx row)
    askCode .database (.insertRedemption tx code row.id)
    askCode .database (.commit tx)
    pure user

/-- `revoke` -/
def revoke (code : Text) : CodeProg Failure (Option InviteCode) :=
  inTransaction id fun tx => do
    let invite ← askCode id (.expire tx code)
    askCode id (.commit tx)
    pure invite

/-- `create` -/
def create (code : Text) (maxUses : Option ℕ) (expiresAt : Option ℤ) : CodeProg Failure InviteCode :=
  askCode id (.insertCode ⟨code, maxUses, 0, expiresAt⟩)

/-- What is asked for, and the loss of a connection. -/
inductive CodeRequest where
  | createUser (row : User) (code : Text)
  | revoke (code : Text)
  | create (code : Text) (maxUses : Option ℕ) (expiresAt : Option ℤ)
  | disconnect (tx : ℕ)

/-- What comes back. -/
inductive CodeReply where
  | user (result : Except InviteRegistrationError User)
  | revoked (result : Except Failure (Option InviteCode))
  | created (result : Except Failure InviteCode)
  | nothing

/-- The program of a request. -/
def serveCode : CodeRequest → Prog CodeOp CodeOp.Res CodeReply
  | .createUser row code => CodeReply.user <$> (createUser row code).run
  | .revoke code => CodeReply.revoked <$> (revoke code).run
  | .create code maxUses expiresAt => CodeReply.created <$> (create code maxUses expiresAt).run
  | .disconnect tx => (fun _ => CodeReply.nothing) <$> Prog.perform (CodeOp.abandon tx)

theorem withTx_txs (s : CodeWorld) (tx : ℕ) (t : Option CodeTx) (tx' : ℕ) :
    (s.withTx tx t).txs tx' = if tx' = tx then t else s.txs tx' := by
  unfold CodeWorld.withTx
  exact Function.update_apply _ _ _ _

@[simp] theorem withTx_redemptions (s : CodeWorld) (tx : ℕ) (t : Option CodeTx) :
    (s.withTx tx t).redemptions = s.redemptions := rfl

/-! ### A registration that is alone -/

section Alone

variable {E α β : Type} {from' : Failure → E} {time : ℤ} {s : CodeWorld}

theorem eval_askCode_bind (op : CodeOp) (k : op.Val → CodeProg E β) :
    (askCode from' op >>= k).run.eval (answerCode time) s =
      match (answerCode time s op).1 with
      | .ok v => (k v).run.eval (answerCode time) (answerCode time s op).2
      | .error e => (.error (from' e), (answerCode time s op).2) := by
  unfold askCode Fallible.perform
  simp only [ExceptT.run_bind, bind_assoc, ExceptT.run_lift]
  show Prog.eval _ (Prog.call op _) s = _
  rw [Prog.eval_call]
  cases (answerCode time s op).1 <;> rfl

/-- A transaction answers what its statements do. -/
theorem eval_inTransaction (p : ℕ → CodeProg E α) :
    ((inTransaction from' p).run.eval (answerCode time) s).1 =
      ((p s.nextTx).run.eval (answerCode time) (answerCode time s .begin).2).1 := by
  unfold inTransaction
  rw [eval_askCode_bind]
  show ((always (p s.nextTx).run >>= _ : CodeProg E α).run.eval (answerCode time) (answerCode time s .begin).2).1 = _
  unfold always
  simp only [ExceptT.run_bind, ExceptT.run_lift, map_eq_pure_bind, Prog.eval_bind, Prog.pure_eq, Prog.eval_ret]
  cases ((p s.nextTx).run.eval (answerCode time) (answerCode time s .begin).2).1 with
  | ok a => rfl
  | error e => rfl

/-- What is left to do when the code has been redeemed. -/
theorem eval_register {tx : ℕ} {t : CodeTx} (ht : s.txs tx = some t) (husers : t.users = .empty)
    (hredemptions : t.redemptions = .empty) (row : User) (code : Text) {i : InviteWorld}
    (hisers : i.server.users = s.server.users) (hi : i.redemptions = s.redemptions) :
    ((do
      let user ← askCode InviteRegistrationError.database (.insertUser tx row)
      askCode .database (.insertRedemption tx code row.id)
      askCode .database (.commit tx)
      pure user : CodeProg InviteRegistrationError User).run.eval (answerCode time) s).1 =
    ((do
      let user ← insertUserRow row
      insertRedemption code row.id
      pure user : InviteTx User).commit i).1 := by
  rw [eval_askCode_bind]
  unfold Transaction.commit insertUserRow
  have hanswer : (insertUser { s.server with users := s.server.users.overlay t.users } row).1 =
      (insertUser i.server row).1 := by
    rw [husers, Keyed.overlay_empty, ← hisers]
    unfold insertUser
    split
    · rfl
    · split
      · rfl
      · cases i.server.users.insert? row <;> rfl
  simp only [answerCode, inTx, ht, hanswer]
  rcases hinsert : insertUser i.server row with ⟨r | user, w⟩
  · simp [hinsert]
    rfl
  · dsimp only
    rw [eval_askCode_bind]
    simp only [answerCode, inTx, withTx_txs, if_true, withTx_redemptions, hredemptions, Keyed.overlay_empty]
    unfold insertRedemption
    cases hfind : s.redemptions.find? (code, row.id) with
    | some r =>
      obtain ⟨hr, hcol⟩ := Keyed.mem_of_find? hfind
      have hinsert? : i.redemptions.insert? ⟨code, row.id, w.now⟩ = none := by
        rw [hi]
        unfold Keyed.insert?
        exact dif_neg fun h => h r hr hcol
      simp [hinsert, hinsert?]
      rfl
    | none =>
      have hinsert? : ∃ redemptions, i.redemptions.insert? ⟨code, row.id, w.now⟩ = some redemptions := by
        rw [hi]
        unfold Keyed.insert?
        exact ⟨_, dif_pos (Keyed.find?_eq_none.1 hfind)⟩
      obtain ⟨redemptions, hinsert?⟩ := hinsert?
      rw [eval_askCode_bind]
      simp only [answerCode, inTx, withTx_txs, if_true]
      simp [hinsert, hinsert?]
      rfl

end Alone

/-- Where nothing else is in progress, `create_user` answers what the transaction of before does. -/
theorem createUser_alone (w : World) (redemptions : Keyed fun r : Redemption => (r.code, r.userId)) (row : User)
    (code : Text) :
    ((createUser row code).run.eval (answerCode w.now) ⟨w, redemptions, fun _ => none, 0, []⟩).1 =
      ((Server.createUser row code).commit ⟨w, redemptions, []⟩).1 := by
  have hcodes : w.inviteCodes.overlay .empty = w.inviteCodes := Keyed.overlay_empty
  unfold createUser
  rw [eval_inTransaction, eval_askCode_bind]
  simp only [answerCode, inTx, CodeWorld.withTx, Function.update_self, CodeWorld.codes, hcodes]
  unfold Server.createUser Transaction.commit
  rw [StateT.run_bind]
  unfold Server.redeem
  cases hfind : w.inviteCodes.find? code with
  | none =>
    simp [hfind]
    rfl
  | some invite =>
    by_cases husable : invite.usable w.now = true
    · by_cases hmax : invite.uses < maxI32
      · simp only [husable, hmax, if_true]
        refine (eval_register (i := InviteWorld.addUse ⟨w, redemptions, []⟩ code) rfl rfl rfl row code rfl rfl).trans ?_
        simp [Transaction.commit, hfind, husable, hmax]
        split <;> rfl
      · simp [hfind, husable, hmax]
        rfl
    · simp [hfind, husable]
      rfl

/-! ## Revocations are final -/

/-- **No code is redeemed after its revocation** has been committed. -/
def Final (history : List CodeEvent) : Prop :=
  ∀ later code earlier, history = later ++ .redeemed code :: earlier → ∀ start, .revoked code start ∉ earlier

/-- When the last revocation of a code that is committed has begun. -/
def lastRevocation (code : Text) : List CodeEvent → Option ℤ
  | [] => none
  | .revoked code' start :: earlier => if code' = code then some start else lastRevocation code earlier
  | .redeemed _ :: earlier => lastRevocation code earlier

/-- **The condition** on a `redeem`: where a revocation of the code is committed, the transaction has not begun before
the last of them. -/
def Timely (s : CodeWorld) : CodeOp → Prop
  | .redeem tx code => ∀ t ∈ s.txs tx, ∀ start ∈ lastRevocation code s.history, start ≤ t.start
  | _ => True

instance (s : CodeWorld) : (op : CodeOp) → Decidable (Timely s op)
  | .redeem tx code => inferInstanceAs (Decidable (∀ t ∈ s.txs tx, ∀ start ∈ lastRevocation code s.history, _))
  | .begin | .insertUser _ _ | .insertRedemption _ _ _ | .expire _ _ | .commit _ | .rollback _ | .abandon _
  | .insertCode _ => .isTrue trivial

theorem lastRevocation_eq_none {code : Text} {history : List CodeEvent} :
    lastRevocation code history = none ↔ ∀ start, .revoked code start ∉ history := by
  induction history with
  | nil => simp [lastRevocation]
  | cons event earlier ih =>
    cases event with
    | redeemed code' => simp [lastRevocation, ih]
    | revoked code' start =>
      unfold lastRevocation
      by_cases heq : code' = code
      · rw [if_pos heq]
        refine iff_of_false nofun fun h => h start ?_
        rw [heq]
        exact List.mem_cons_self
      · rw [if_neg heq, ih]
        simp [Ne.symm heq]

/-- The revocations of a transaction are the last ones when it has committed. -/
theorem lastRevocation_commit (code : Text) (revoked : List Text) (start : ℤ) (history : List CodeEvent) :
    lastRevocation code (revoked.map (fun code => .revoked code start) ++ history) =
      if code ∈ revoked then some start else lastRevocation code history := by
  induction revoked with
  | nil => simp
  | cons code' revoked ih =>
    simp only [List.map_cons, List.cons_append, lastRevocation, ih, List.mem_cons]
    by_cases heq : code' = code
    · simp [heq]
    · simp [heq, Ne.symm heq]

theorem Final.cons {event : CodeEvent} {history : List CodeEvent} (h : Final history)
    (hevent : ∀ code, event = .redeemed code → ∀ start, .revoked code start ∉ history) : Final (event :: history) := by
  intro later code earlier hsplit
  cases later with
  | nil =>
    obtain ⟨rfl, rfl⟩ := List.cons.inj hsplit
    exact hevent code rfl
  | cons first later =>
    obtain ⟨-, hsplit⟩ := List.cons.inj hsplit
    exact h later code earlier hsplit

theorem Final.revoked {history : List CodeEvent} (h : Final history) (codes : List Text) (start : ℤ) :
    Final (codes.map (fun code => .revoked code start) ++ history) := by
  induction codes with
  | nil => exact h
  | cons code codes ih => exact ih.cons nofun

/-- The version of a row in a transaction: it has been revoked there, or its expiry is the committed one. -/
def Version (s : CodeWorld) (t : CodeTx) (v : InviteCode) : Prop :=
  if v.code ∈ t.revoked then v.expiresAt = some t.start
  else ∃ invite ∈ s.server.inviteCodes, invite.code = v.code ∧ v.expiresAt = invite.expiresAt

/-- **The invariant.**  The expiry of a code that has been revoked is the start of its last revocation. -/
structure Settled (s : CodeWorld) : Prop where
  final : Final s.history
  expires : ∀ code start, lastRevocation code s.history = some start →
    ∃ invite ∈ s.server.inviteCodes, invite.code = code ∧ invite.expiresAt = some start
  versions : ∀ tx t, s.txs tx = some t → ∀ v ∈ t.codes, Version s t v
  revoked : ∀ tx t, s.txs tx = some t → ∀ code ∈ t.revoked, ∃ v ∈ t.codes, v.code = code
  sole : ∀ tx t tx' t', s.txs tx = some t → s.txs tx' = some t' → tx ≠ tx' → ∀ v ∈ t.codes, ∀ v' ∈ t'.codes,
    v.code ≠ v'.code
  fresh : ∀ tx, s.nextTx ≤ tx → s.txs tx = none

theorem settled_idle (w : World) : Settled (.idle w) where
  final := fun later code earlier h => absurd h (by simp [CodeWorld.idle])
  expires := nofun
  versions := nofun
  revoked := nofun
  sole := nofun
  fresh := fun _ _ => rfl

section Step

variable {s : CodeWorld} {tx : ℕ} {t t' : CodeTx} {code : Text} {invite v : InviteCode}

theorem Settled.lt_nextTx (h : Settled s) (ht : s.txs tx = some t) : tx < s.nextTx := by
  by_contra hle
  rw [h.fresh tx (not_lt.1 hle)] at ht
  cases ht

/-- What a transaction sees of a code is its version, or what is committed. -/
theorem Settled.version_seen (h : Settled s) (ht : s.txs tx = some t) (hinvite : invite ∈ s.codes t) :
    Version s t invite := by
  rcases Keyed.mem_overlay.1 hinvite with hown | ⟨hcommitted, hnone⟩
  · exact h.versions tx t ht invite hown
  · unfold Version
    rw [if_neg fun hrevoked => ?_]
    · exact ⟨invite, hcommitted, rfl, rfl⟩
    · obtain ⟨v, hv, hcode⟩ := h.revoked tx t ht _ hrevoked
      exact hnone v hv hcode

/-- A transaction goes on. -/
theorem Settled.goes_on (h : Settled s) (ht : s.txs tx = some t) (hversions : ∀ v ∈ t'.codes, Version s t' v)
    (hrevoked : ∀ code ∈ t'.revoked, ∃ v ∈ t'.codes, v.code = code)
    (hsole : ∀ tx' u, s.txs tx' = some u → tx' ≠ tx → ∀ v ∈ t'.codes, ∀ v' ∈ u.codes, v.code ≠ v'.code) :
    Settled (s.withTx tx (some t')) := by
  refine ⟨h.final, h.expires, fun tx' u hu => ?_, fun tx' u hu => ?_, ?_, fun tx' hle => ?_⟩
  · rw [withTx_txs] at hu
    split at hu
    · cases hu
      exact hversions
    · exact h.versions tx' u hu
  · rw [withTx_txs] at hu
    split at hu
    · cases hu
      exact hrevoked
    · exact h.revoked tx' u hu
  · intro tx₁ u₁ tx₂ u₂ hu₁ hu₂ hne
    rw [withTx_txs] at hu₁ hu₂
    split at hu₁
    · rename_i heq₁
      cases hu₁
      rw [if_neg fun heq₂ => hne (heq₁.trans heq₂.symm)] at hu₂
      exact hsole tx₂ u₂ hu₂ fun heq₂ => hne (heq₁.trans heq₂.symm)
    · rename_i hne₁
      split at hu₂
      · cases hu₂
        exact fun v hv v' hv' => (hsole tx₁ u₁ hu₁ hne₁ v' hv' v hv).symm
      · exact h.sole tx₁ u₁ tx₂ u₂ hu₁ hu₂ hne
  · have hlt := h.lt_nextTx ht
    have hle : s.nextTx ≤ tx' := hle
    rw [withTx_txs, if_neg (by omega)]
    exact h.fresh tx' hle

/-- A transaction writes to other tables. -/
theorem Settled.writes (h : Settled s) (ht : s.txs tx = some t) (hcodes : t'.codes = t.codes)
    (hstart : t'.start = t.start) (hrevoked : t'.revoked = t.revoked) : Settled (s.withTx tx (some t')) := by
  refine h.goes_on ht (fun v hv => ?_) ?_ fun tx' u hu hne v hv v' hv' => ?_
  · unfold Version
    rw [hrevoked, hstart]
    exact h.versions tx t ht v (hcodes ▸ hv)
  · rw [hrevoked, hcodes]
    exact h.revoked tx t ht
  · exact h.sole tx t tx' u ht hu hne.symm v (hcodes ▸ hv) v' hv'

/-- A transaction gets a version of a code that is not locked. -/
theorem Settled.put (h : Settled s) (ht : s.txs tx = some t) (hfree : ¬ s.Locked tx v.code) (hv : Version s t' v)
    (hcodes : t'.codes = t.codes.put v) (hstart : t'.start = t.start)
    (hrevoked : ∀ code, code ∈ t'.revoked ↔ code ∈ t.revoked ∨ code = v.code ∧ code ∈ t'.revoked) :
    Settled (s.withTx tx (some t')) := by
  refine h.goes_on ht (fun v' hv' => ?_) (fun code hcode => ?_) fun tx' u hu hne v' hv' w hw => ?_
  · rw [hcodes, Keyed.mem_put] at hv'
    rcases hv' with rfl | ⟨hmem, hne⟩
    · exact hv
    · have hsame : v'.code ∈ t'.revoked ↔ v'.code ∈ t.revoked := by
        rw [hrevoked]
        exact or_iff_left fun hcode => hne hcode.1
      unfold Version
      rw [hstart]
      simp only [hsame]
      exact h.versions tx t ht v' hmem
  · rw [hcodes]
    by_cases heq : v.code = code
    · exact ⟨v, Keyed.mem_put.2 (.inl rfl), heq⟩
    · have hold : code ∈ t.revoked := ((hrevoked code).1 hcode).resolve_right fun hcode => heq hcode.1.symm
      obtain ⟨v', hv', rfl⟩ := h.revoked tx t ht code hold
      exact ⟨v', Keyed.mem_put.2 (.inr ⟨hv', Ne.symm heq⟩), rfl⟩
  · rw [hcodes, Keyed.mem_put] at hv'
    rcases hv' with rfl | ⟨hmem, -⟩
    · exact fun heq => hfree ⟨tx', h.lt_nextTx hu, hne, u, hu, w, hw, heq.symm⟩
    · exact h.sole tx t tx' u ht hu hne.symm v' hmem w hw

/-- A transaction ends without a trace. -/
theorem Settled.ends (h : Settled s) (tx : ℕ) : Settled (s.withTx tx none) := by
  have hopen : ∀ {tx' u}, (s.withTx tx none).txs tx' = some u → s.txs tx' = some u := by
    intro tx' u hu
    rw [withTx_txs] at hu
    split at hu
    · cases hu
    · exact hu
  refine ⟨h.final, h.expires, fun tx' u hu => h.versions tx' u (hopen hu), fun tx' u hu => h.revoked tx' u (hopen hu),
    fun tx₁ u₁ tx₂ u₂ hu₁ hu₂ => h.sole tx₁ u₁ tx₂ u₂ (hopen hu₁) (hopen hu₂), fun tx' hle => ?_⟩
  rw [withTx_txs]
  split
  · rfl
  · exact h.fresh tx' hle

/-- A transaction begins. -/
theorem Settled.begins (h : Settled s) (time : ℤ) : Settled (answerCode time s .begin).2 := by
  have hopen : ∀ {tx' u}, (answerCode time s .begin).2.txs tx' = some u →
      s.txs tx' = some u ∨ tx' = s.nextTx ∧ u = ⟨time, .empty, .empty, .empty, []⟩ := by
    intro tx' u hu
    have hu : (s.withTx s.nextTx (some ⟨time, .empty, .empty, .empty, []⟩)).txs tx' = some u := hu
    rw [withTx_txs] at hu
    split at hu
    · rename_i heq
      cases hu
      exact .inr ⟨heq, rfl⟩
    · exact .inl hu
  refine ⟨h.final, h.expires, fun tx' u hu => ?_, fun tx' u hu => ?_, ?_, fun tx' hle => ?_⟩
  · rcases hopen hu with hu | ⟨-, rfl⟩
    · exact h.versions tx' u hu
    · exact fun v hv => absurd hv Keyed.notMem_empty
  · rcases hopen hu with hu | ⟨-, rfl⟩
    · exact h.revoked tx' u hu
    · exact fun code hcode => absurd hcode List.not_mem_nil
  · intro tx₁ u₁ tx₂ u₂ hu₁ hu₂ hne v hv v' hv'
    rcases hopen hu₁ with hu₁ | ⟨-, rfl⟩
    · rcases hopen hu₂ with hu₂ | ⟨-, rfl⟩
      · exact h.sole tx₁ u₁ tx₂ u₂ hu₁ hu₂ hne v hv v' hv'
      · exact absurd hv' Keyed.notMem_empty
    · exact absurd hv Keyed.notMem_empty
  · have hle : s.nextTx + 1 ≤ tx' := hle
    show (s.withTx s.nextTx _).txs tx' = none
    rw [withTx_txs, if_neg (by omega)]
    exact h.fresh tx' (by omega)

/-- A new code. -/
theorem Settled.inserts (h : Settled s) {inviteCodes : Keyed InviteCode.code}
    (hinsert : s.server.inviteCodes.insert? invite = some inviteCodes) :
    Settled { s with server := { s.server with inviteCodes := inviteCodes } } := by
  have hkept : ∀ {row}, row ∈ s.server.inviteCodes → row ∈ inviteCodes := fun hrow =>
    (Keyed.mem_insert? hinsert).2 (.inr hrow)
  refine ⟨h.final, fun code start hlast => ?_, fun tx' u hu v hv => ?_, h.revoked, h.sole, h.fresh⟩
  · obtain ⟨row, hrow, hcode, hexpires⟩ := h.expires code start hlast
    exact ⟨row, hkept hrow, hcode, hexpires⟩
  · have hversion := h.versions tx' u hu v hv
    unfold Version at hversion ⊢
    split
    · rename_i hrevoked
      rwa [if_pos hrevoked] at hversion
    · rename_i hrevoked
      rw [if_neg hrevoked] at hversion
      obtain ⟨row, hrow, hcode, hexpires⟩ := hversion
      exact ⟨row, hkept hrow, hcode, hexpires⟩

/-- **A transaction commits**: what it has revoked expires when it began, and no other code changes its expiry. -/
theorem Settled.commits (h : Settled s) (ht : s.txs tx = some t) (users : Keyed User.id)
    (redemptions : Keyed fun r : Redemption => (r.code, r.userId)) :
    Settled { s.withTx tx none with
      server := { s.server with inviteCodes := s.codes t, users := users }
      redemptions := redemptions
      history := t.revoked.map (fun code => .revoked code t.start) ++ s.history } := by
  have hends := h.ends tx
  refine ⟨h.final.revoked _ _, fun code start hlast => ?_, fun tx' u hu v hv => ?_, hends.revoked, hends.sole,
    hends.fresh⟩
  · rw [lastRevocation_commit] at hlast
    split at hlast
    · rename_i hrevoked
      cases hlast
      obtain ⟨v, hv, rfl⟩ := h.revoked tx t ht code hrevoked
      have hversion := h.versions tx t ht v hv
      unfold Version at hversion
      rw [if_pos hrevoked] at hversion
      exact ⟨v, Keyed.mem_overlay.2 (.inl hv), rfl, hversion⟩
    · rename_i hrevoked
      obtain ⟨row, hrow, rfl, hexpires⟩ := h.expires code start hlast
      by_cases hown : ∃ v ∈ t.codes, v.code = row.code
      · obtain ⟨v, hv, hcode⟩ := hown
        have hversion := h.versions tx t ht v hv
        unfold Version at hversion
        rw [if_neg (hcode ▸ hrevoked)] at hversion
        obtain ⟨row', hrow', hcode', hexpires'⟩ := hversion
        obtain rfl := Keyed.eq_of_col hrow' hrow (hcode'.trans hcode)
        exact ⟨v, Keyed.mem_overlay.2 (.inl hv), hcode, hexpires'.trans hexpires⟩
      · refine ⟨row, Keyed.mem_overlay.2 (.inr ⟨hrow, fun v hv hcode => hown ⟨v, hv, hcode⟩⟩), rfl, hexpires⟩
  · -- no other transaction has a version of what changes
    have hu' : s.txs tx' = some u ∧ tx' ≠ tx := by
      have hu : (s.withTx tx none).txs tx' = some u := hu
      rw [withTx_txs] at hu
      split at hu
      · cases hu
      · rename_i hne
        exact ⟨hu, hne⟩
    have hversion := h.versions tx' u hu'.1 v hv
    unfold Version at hversion ⊢
    split
    · rename_i hrevoked
      rwa [if_pos hrevoked] at hversion
    · rename_i hrevoked
      rw [if_neg hrevoked] at hversion
      obtain ⟨row, hrow, hcode, hexpires⟩ := hversion
      refine ⟨row, Keyed.mem_overlay.2 (.inr ⟨hrow, fun w hw hsame => ?_⟩), hcode, hexpires⟩
      exact h.sole tx t tx' u ht hu'.1 hu'.2.symm w hw v hv (hsame.trans hcode)

/-- **A timely `redeem` finds nothing** once the code has been revoked. -/
theorem Settled.not_redeemed (h : Settled s) (ht : s.txs tx = some t) (htimely : Timely s (.redeem tx code))
    (hfind : (s.codes t).find? code = some invite) (husable : invite.usable t.start = true) (start : ℤ) :
    .revoked code start ∉ s.history := by
  obtain ⟨hinvite, rfl⟩ := Keyed.mem_of_find? hfind
  refine lastRevocation_eq_none.1 ?_ start
  by_contra hsome
  obtain ⟨start', hlast⟩ := Option.ne_none_iff_exists'.1 hsome
  have hle := htimely t ht start' hlast
  -- the code expires when the transaction began, or before
  have hexpires : ∃ at' ≤ t.start, invite.expiresAt = some at' := by
    have hversion := h.version_seen ht hinvite
    unfold Version at hversion
    split at hversion
    · exact ⟨t.start, le_rfl, hversion⟩
    · obtain ⟨row, hrow, hcode, hsame⟩ := hversion
      obtain ⟨row', hrow', hcode', hexpires⟩ := h.expires _ start' hlast
      obtain rfl := Keyed.eq_of_col hrow' hrow (hcode'.trans hcode.symm)
      exact ⟨start', hle, hsame.trans hexpires⟩
  obtain ⟨at', hat, hexpires⟩ := hexpires
  simp only [InviteCode.usable, unexpired, hexpires, Option.all_some, Bool.and_eq_true, decide_eq_true_eq] at husable
  omega

theorem Settled.redeems (h : Settled s) (ht : s.txs tx = some t) (htimely : Timely s (.redeem tx code))
    (hfind : (s.codes t).find? code = some invite) (husable : invite.usable t.start = true)
    (hfree : ¬ s.Locked tx code) :
    Settled { s.withTx tx (some { t with codes := t.codes.put { invite with uses := invite.uses + 1 } }) with
      history := .redeemed code :: s.history } := by
  obtain ⟨hinvite, rfl⟩ := Keyed.mem_of_find? hfind
  have hput : Settled (s.withTx tx (some { t with codes := t.codes.put { invite with uses := invite.uses + 1 } })) := by
    refine h.put (v := { invite with uses := invite.uses + 1 }) ht hfree ?_ rfl rfl fun code => ?_
    · have hversion := h.version_seen ht hinvite
      exact hversion
    · exact ⟨.inl, fun hcode => hcode.elim (fun hold => hold) And.right⟩
  refine ⟨h.final.cons fun code' heq => ?_, hput.expires, hput.versions, hput.revoked, hput.sole, hput.fresh⟩
  cases heq
  exact h.not_redeemed ht htimely hfind husable

theorem Settled.expired (h : Settled s) (ht : s.txs tx = some t) (hfind : (s.codes t).find? code = some invite)
    (hfree : ¬ s.Locked tx code) :
    Settled (s.withTx tx (some { t with
      codes := t.codes.put { invite with expiresAt := some t.start }, revoked := code :: t.revoked })) := by
  obtain ⟨-, rfl⟩ := Keyed.mem_of_find? hfind
  refine h.put (v := { invite with expiresAt := some t.start }) ht hfree ?_ rfl rfl fun code => ?_
  · unfold Version
    rw [if_pos List.mem_cons_self]
  · show code ∈ invite.code :: t.revoked ↔ code ∈ t.revoked ∨ code = invite.code ∧ code ∈ invite.code :: t.revoked
    rw [List.mem_cons]
    tauto

/-- **One operation** that is timely keeps the invariant. -/
theorem Settled.answer (h : Settled s) {op : CodeOp} (htimely : Timely s op) (hwaits : waits s op = false) (time : ℤ) :
    Settled (answerCode time s op).2 := by
  cases op with
  | begin => exact h.begins time
  | rollback tx => exact h.ends tx
  | abandon tx => exact h.ends tx
  | insertCode invite =>
    simp only [answerCode]
    cases hinsert : s.server.inviteCodes.insert? invite with
    | none => exact h
    | some inviteCodes => exact h.inserts hinsert
  | redeem tx code =>
    simp only [answerCode, inTx]
    cases ht : s.txs tx with
    | none => exact h
    | some t =>
      dsimp only
      cases hfind : (s.codes t).find? code with
      | none => exact h
      | some invite =>
        dsimp only
        split
        · rename_i husable
          split
          · refine h.redeems ht htimely hfind husable ?_
            simpa only [waits, ht, Option.any_some, hfind, husable, Bool.true_and, decide_eq_false_iff_not] using hwaits
          · exact h
        · exact h
  | expire tx code =>
    simp only [answerCode, inTx]
    cases ht : s.txs tx with
    | none => exact h
    | some t =>
      dsimp only
      cases hfind : (s.codes t).find? code with
      | none => exact h
      | some invite =>
        refine h.expired ht hfind ?_
        simpa only [waits, ht, Option.any_some, hfind, Option.isSome_some, Bool.true_and,
          decide_eq_false_iff_not] using hwaits
  | insertUser tx row =>
    simp only [answerCode, inTx]
    cases ht : s.txs tx with
    | none => exact h
    | some t =>
      dsimp only
      split
      · exact h
      · exact h.writes ht rfl rfl rfl
  | insertRedemption tx code userId =>
    simp only [answerCode, inTx]
    cases ht : s.txs tx with
    | none => exact h
    | some t =>
      dsimp only
      split
      · exact h
      · exact h.writes ht rfl rfl rfl
  | commit tx =>
    simp only [answerCode, inTx]
    cases ht : s.txs tx with
    | none => exact h
    | some t => exact h.commits ht _ _

end Step

/-- What a timely operation can do. -/
def timely (faults : Prop) (s : CodeWorld) (op : CodeOp) (r : op.Res) (s' : CodeWorld) : Prop :=
  Timely s op ∧ execCode faults s op r s'

theorem Settled.step {faults : Prop} {s s' : CodeWorld} {op : CodeOp} {r : op.Res} (h : Settled s)
    (hexec : timely faults s op r s') : Settled s' := by
  obtain ⟨htimely, ⟨hwaits, time, -, heq⟩ | ⟨-, -, hfails⟩⟩ := hexec
  · obtain rfl : s' = (answerCode time s op).2 := congrArg Prod.snd heq
    exact h.answer htimely hwaits time
  · cases op with
    | commit tx =>
      rcases hfails with rfl | rfl
      · exact h.ends tx
      · have htrivial : Timely s (.commit tx) := trivial
        exact h.answer htrivial rfl _
    | _ =>
      obtain rfl : s' = s := hfails
      exact h

/-- **Revoking a code is final** in every run of any requests whose `redeem`s are timely: no code is redeemed after a
revocation of it was committed. -/
theorem revoked_codes_stay {faults : Prop} {w : World} {p : Pool CodeWorld CodeRequest CodeOp CodeOp.Res CodeReply}
    (hp : Pool.Reachable serveCode (timely faults) True (.idle w) p) : Final p.shared.history :=
  (Pool.Reachable.keeps (settled_idle w) (fun _ _ _ _ hexec h => Settled.step h hexec) hp).final

/-! ### A registration and a revocation -/

/-- A code for any number of uses. -/
def partyCode : Text := ['p', 'a', 'r', 't', 'y']

/-- An instance with the code. -/
def partyWorld : World where
  __ := World.empty
  inviteCodes := ⟨[⟨partyCode, none, 0, none⟩], List.nodup_singleton _⟩

/-- A user with a name of one letter. -/
def guest (id : Uuid) (name : Char) : User := ⟨id, [name], none, false, none, none, false, none⟩

/-- Play a schedule in which nothing fails; a turn says how much later it is. -/
def codePool (turns : List (Pool.Turn CodeRequest ℕ)) : Pool CodeWorld CodeRequest CodeOp CodeOp.Res CodeReply :=
  Pool.play serveCode (fun (later : ℕ) s op => answerCode (s.server.now + later) s op) (.idle partyWorld) turns

theorem reachable_codePool (turns : List (Pool.Turn CodeRequest ℕ)) {ok : CodeWorld → CodeOp → Bool}
    {exec : CodeWorld → (op : CodeOp) → op.Res → CodeWorld → Prop}
    (hexec : ∀ s op r s', ok s op = true → execCode False s op r s' → exec s op r s')
    (hok : Pool.playOk serveCode (fun (later : ℕ) s op => answerCode (s.server.now + later) s op)
      (fun s op => ok s op && !waits s op) ⟨.idle partyWorld, []⟩ turns = true) :
    Pool.Reachable serveCode exec True (.idle partyWorld) (codePool turns) := by
  refine @Pool.reachable_play _ _ _ _ _ serveCode exec True ℕ _ _ (fun later s op hop => ?_) _ turns hok
  rw [Bool.and_eq_true, Bool.not_eq_true'] at hop
  exact hexec s op _ _ hop.1 (.inl ⟨hop.2, s.server.now + later, by omega, rfl⟩)

/-- One guest registers, the code is revoked, and another one comes too late. -/
def orderly : List (Pool.Turn CodeRequest ℕ) :=
  .spawn (.createUser (guest 1 'a') partyCode) :: List.replicate 5 (.act 0 1) ++
    .spawn (.revoke partyCode) :: List.replicate 3 (.act 0 1) ++
    .spawn (.createUser (guest 2 'b') partyCode) :: List.replicate 3 (.act 0 1)

theorem revoked_codes_stay_orderly : Final (codePool orderly).shared.history ∧
    (codePool orderly).shared.history = [.revoked partyCode 2, .redeemed partyCode] := by
  have hrun : Pool.Reachable serveCode (timely False) True (.idle partyWorld) (codePool orderly) := by
    refine @reachable_codePool orderly (fun s op => Timely s op) _ (fun s op r s' hok hexec => ?_) (by decide)
    exact ⟨of_decide_eq_true hok, hexec⟩
  exact ⟨revoked_codes_stay hrun, by decide⟩

/-- The transaction of a guest begins, the code is revoked, and the guest goes on. -/
def overtaken : List (Pool.Turn CodeRequest ℕ) :=
  [.spawn (.createUser (guest 1 'a') partyCode), .act 0 1, .spawn (.revoke partyCode), .act 0 1, .act 0 0, .act 0 0,
    .act 1 0, .act 1 0, .act 1 0, .act 1 0]

/-- **A code is redeemed after its revocation**, and the guest is registered. -/
theorem redeemed_after_revocation :
    Pool.Reachable serveCode (execCode False) True (.idle partyWorld) (codePool overtaken) ∧
    (codePool overtaken).shared.history = [.redeemed partyCode, .revoked partyCode 2] ∧
    ¬ Final (codePool overtaken).shared.history ∧
    (codePool overtaken).shared.server.users.rows = [guest 1 'a'] := by
  have hhistory : (codePool overtaken).shared.history = [.redeemed partyCode, .revoked partyCode 2] := by decide
  refine ⟨@reachable_codePool overtaken (fun _ _ => true) _ (fun _ _ _ _ _ h => h) (by decide), hhistory, fun h => ?_,
    by decide⟩
  exact h [] partyCode _ hhistory 2 List.mem_cons_self

end Codes
end Server
end Uwuubox
