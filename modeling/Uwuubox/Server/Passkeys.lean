import Uwuubox.Prog.Tracked
import Uwuubox.Server.Handler
import Uwuubox.Table.Overlay

/-!
# Passkeys and their counters

`authentication_finish` of `src/routes/passkeys.rs`: an authenticator counts its assertions, and a login is refused
when the counter has not advanced.

* `PasskeyEnv` — what lies outside the repository.
* `PasskeyWorld`, `PasskeyOp`, `answerPasskey`, `execPasskey` — the table, the open transactions and their locks.
* `authenticationFinish` — the handler; `Stage` — how far a request has come with its transaction.
* `Advances` — no counter has decreased, and the keys are the same.
* `Forward` — the invariant: who has changed a row has the lock, and has moved its counter forward.
* `passkey_counters_advance` — counters only move forward, in every run.
* `failed_login_advances` — a login that fails after its transaction.
-/

namespace Uwuubox
namespace Server
namespace Passkeys

open Dedupe Storage Table Fallible Relation

/-! ## What lies outside the repository -/

/-- `webauthn_rs`, `serde_json` and `uuid`. -/
structure PasskeyEnv where
  /-- `PasskeyAuthentication` -/
  Authentication : Type
  /-- `PublicKeyCredential` -/
  Credential : Type
  /-- `AuthenticationResult` -/
  Result : Type
  Passkey : Type
  /-- `state.webauthn` is there. -/
  configured : Bool
  finishPasskeyAuthentication : Credential → Authentication → Except Text Result
  credId : Result → Bytes
  counter : Result → UInt32
  fromSlice : Bytes → Except Text Passkey
  /-- `None` for a passkey with another id. -/
  updateCredential : Passkey → Result → Option Passkey
  toVec : Passkey → Except Text Bytes
  parseUuid : Text → Option Uuid

/-! ## The state -/

/-- A row of `passkeys`. -/
structure PasskeyRow where
  id : Uuid
  userId : Uuid
  credId : Bytes
  publicKey : Bytes
  counter : ℤ
deriving DecidableEq

/-- `CounterRow` -/
structure CounterRow where
  id : Uuid
  publicKey : Bytes
  counter : ℤ

/-- The rows of `passkeys`; `cred_id` is unique, too. -/
structure PasskeyTable where
  rows : Keyed PasskeyRow.id
  creds : UniqueOn PasskeyRow.credId rows.rows

/-- An open transaction: its versions of rows, and the rows that it has locked. -/
structure PasskeyTx where
  rows : Keyed PasskeyRow.id
  locked : List Uuid

/-- A version of a row that a transaction has committed. -/
structure PasskeyUpdate where
  tx : ℕ
  row : PasskeyRow

/-- The committed rows, the open transactions, and what has been committed, the last first. -/
structure PasskeyWorld where
  passkeys : Keyed PasskeyRow.id
  txs : ℕ → Option PasskeyTx
  nextTx : ℕ
  history : List PasskeyUpdate

namespace PasskeyWorld

/-- No login is in progress. -/
def idle (passkeys : Keyed PasskeyRow.id) : PasskeyWorld := ⟨passkeys, fun _ => none, 0, []⟩

/-- The transaction goes on, or ends. -/
def withTx (s : PasskeyWorld) (tx : ℕ) (t : Option PasskeyTx) : PasskeyWorld :=
  { s with txs := Function.update s.txs tx t }

/-- The rows that a transaction sees. -/
def seen (s : PasskeyWorld) (t : PasskeyTx) : Keyed PasskeyRow.id := s.passkeys.overlay t.rows

/-- Another transaction has locked the row. -/
def Locked (s : PasskeyWorld) (tx : ℕ) (id : Uuid) : Prop :=
  ∃ tx' < s.nextTx, tx' ≠ tx ∧ ∃ t ∈ s.txs tx', id ∈ t.locked

instance (s : PasskeyWorld) (tx : ℕ) (id : Uuid) : Decidable (s.Locked tx id) :=
  inferInstanceAs (Decidable (∃ tx' < s.nextTx, _))

end PasskeyWorld

/-- What the session of a request has. -/
structure LoginSession (A : Type) where
  /-- `passkey_authentication` -/
  authentication : Option A
  /-- `passkey_authentication_user` -/
  user : Option Text

/-! ## The operations -/

/-- An operation of `authentication_finish`. -/
inductive PasskeyOp (A : Type) where
  /-- `session.remove::<PasskeyAuthentication>(AUTHENTICATION_STATE)` -/
  | removeState
  /-- `session.remove::<String>(AUTHENTICATION_USER)` -/
  | removeUser
  | begin
  /-- `SELECT id, public_key, counter FROM passkeys WHERE user_id = $1 AND cred_id = $2 FOR UPDATE` -/
  | selectForUpdate (tx : ℕ) (userId : Uuid) (credId : Bytes)
  /-- `UPDATE passkeys SET counter = $1, public_key = $2 WHERE id = $3 AND user_id = $4 AND counter = $5` -/
  | update (tx : ℕ) (counter : ℤ) (publicKey : Bytes) (id userId : Uuid) (old : ℤ)
  | commit (tx : ℕ)
  | rollback (tx : ℕ)
  /-- The connection of a transaction is lost, or its request is dropped. -/
  | abandon (tx : ℕ)
  /-- `session.insert(SESSION_USER_ID, user_id.to_string())` -/
  | insertUser (userId : Uuid)
  /-- `session.cycle_id()` -/
  | cycleId

/-- What an operation returns when it does not fail. -/
abbrev PasskeyOp.Val {A : Type} : PasskeyOp A → Type
  | removeState => Option A
  | removeUser => Option Text
  | begin => ℕ
  | selectForUpdate _ _ _ => Option CounterRow
  | update _ _ _ _ _ _ => ℕ
  | commit _ => Unit
  | rollback _ => Unit
  | abandon _ => Unit
  | insertUser _ => Unit
  | cycleId => Unit

abbrev PasskeyOp.Res {A : Type} (op : PasskeyOp A) : Type := Except Failure op.Val

section Operations

variable {A : Type}

/-- A statement in a transaction; where that is over, it fails. -/
def inTx {α : Type} (s : PasskeyWorld) (tx : ℕ) (f : PasskeyTx → Except Failure α × PasskeyWorld) :
    Except Failure α × PasskeyWorld :=
  match s.txs tx with
  | none => (.error (.sql (.io "connection closed")), s)
  | some t => f t

/-- The row of a credential of a user. -/
def credential (rows : Keyed PasskeyRow.id) (userId : Uuid) (credId : Bytes) : Option PasskeyRow :=
  rows.rows.find? fun row => row.userId = userId && row.credId = credId

/-- The row that the `UPDATE` changes. -/
def target (rows : Keyed PasskeyRow.id) (id userId : Uuid) (old : ℤ) : Option PasskeyRow :=
  (rows.find? id).filter fun row => row.userId = userId && row.counter = old

/-- What an operation does if it need not wait and does not fail. -/
def answerPasskey (session : LoginSession A) (s : PasskeyWorld) : (op : PasskeyOp A) → op.Res × PasskeyWorld
  | .removeState => (.ok session.authentication, s)
  | .removeUser => (.ok session.user, s)
  | .begin => (.ok s.nextTx, { s.withTx s.nextTx (some ⟨.empty, []⟩) with nextTx := s.nextTx + 1 })
  | .selectForUpdate tx userId credId => inTx s tx fun t =>
    match credential (s.seen t) userId credId with
    | none => (.ok none, s)
    | some row =>
      (.ok (some ⟨row.id, row.publicKey, row.counter⟩), s.withTx tx (some { t with locked := row.id :: t.locked }))
  | .update tx counter publicKey id userId old => inTx s tx fun t =>
    match target (s.seen t) id userId old with
    | none => (.ok 0, s)
    | some row =>
      let updated := { row with counter := counter, publicKey := publicKey }
      (.ok 1, s.withTx tx (some ⟨t.rows.put updated, id :: t.locked⟩))
  | .commit tx => inTx s tx fun t =>
    (.ok (), { s.withTx tx none with
      passkeys := s.seen t
      history := t.rows.rows.map (fun row => ⟨tx, row⟩) ++ s.history })
  | .rollback tx => (.ok (), s.withTx tx none)
  | .abandon tx => (.ok (), s.withTx tx none)
  | .insertUser _ => (.ok (), s)
  | .cycleId => (.ok (), s)

/-- An operation has to wait for another transaction. -/
def waits (s : PasskeyWorld) : PasskeyOp A → Bool
  | .selectForUpdate tx userId credId => (s.txs tx).any fun t =>
      (credential (s.seen t) userId credId).any fun row => decide (s.Locked tx row.id)
  | .update tx _ _ id userId old => (s.txs tx).any fun t =>
      (target (s.seen t) id userId old).isSome && decide (s.Locked tx id)
  | _ => false

/-- An operation fails.  A `COMMIT` that fails ends the transaction, and may have been carried out all the same. -/
def failsPasskey (s : PasskeyWorld) (op : PasskeyOp A) (s' : PasskeyWorld) : Prop :=
  match op with
  | .commit tx => s' = s.withTx tx none ∨ s' = (answerPasskey (A := A) ⟨none, none⟩ s (.commit tx)).2
  | _ => s' = s

/-- What one operation can do. -/
def execPasskey (faults : Prop) (s : PasskeyWorld) (op : PasskeyOp A) (r : op.Res) (s' : PasskeyWorld) : Prop :=
  (waits s op = false ∧ ∃ session, (r, s') = answerPasskey session s op) ∨
    (faults ∧ (∃ e, r = .error e) ∧ failsPasskey s op s')

/-- An answer that tells of a change. -/
def Tells : (op : PasskeyOp A) → op.Res → Prop
  | .begin, .ok _ => True
  | .selectForUpdate _ _ _, .ok (some _) => True
  | .update _ _ _ _ _ _, .ok affected => affected = 1
  | .commit _, .ok _ => True
  | _, _ => False

/-- All that an operation can do. -/
inductive Effect (s : PasskeyWorld) : (op : PasskeyOp A) → op.Res → PasskeyWorld → Prop
  | stays {op : PasskeyOp A} {r : op.Res} : ¬ Tells op r → Effect s op r s
  | begins : Effect s .begin (.ok s.nextTx) { s.withTx s.nextTx (some ⟨.empty, []⟩) with nextTx := s.nextTx + 1 }
  | locks {tx : ℕ} {t : PasskeyTx} {userId : Uuid} {credId : Bytes} {row : PasskeyRow} : s.txs tx = some t →
      row ∈ s.seen t → row.credId = credId → ¬ s.Locked tx row.id →
      Effect s (.selectForUpdate tx userId credId) (.ok (some ⟨row.id, row.publicKey, row.counter⟩))
        (s.withTx tx (some { t with locked := row.id :: t.locked }))
  | updates {tx : ℕ} {t : PasskeyTx} {counter : ℤ} {publicKey : Bytes} {userId : Uuid} {row : PasskeyRow} :
      s.txs tx = some t → row ∈ s.seen t → ¬ s.Locked tx row.id →
      Effect s (.update tx counter publicKey row.id userId row.counter) (.ok 1)
        (s.withTx tx (some ⟨t.rows.put { row with counter := counter, publicKey := publicKey }, row.id :: t.locked⟩))
  | commits {tx : ℕ} {t : PasskeyTx} {r : PasskeyOp.Res (.commit tx)} : s.txs tx = some t →
      Effect s (.commit tx) r { s.withTx tx none with
        passkeys := s.seen t
        history := t.rows.rows.map (fun row => ⟨tx, row⟩) ++ s.history }
  | ends {op : PasskeyOp A} {r : op.Res} {tx : ℕ} : ¬ Tells op r → Effect s op r (s.withTx tx none)

theorem mem_credential {seen : Keyed PasskeyRow.id} {userId : Uuid} {credId : Bytes} {row : PasskeyRow}
    (h : credential seen userId credId = some row) : row ∈ seen ∧ row.credId = credId := by
  have hwhere := List.find?_some h
  simp only [Bool.and_eq_true, decide_eq_true_eq] at hwhere
  exact ⟨List.mem_of_find?_eq_some h, hwhere.2⟩

theorem mem_target {seen : Keyed PasskeyRow.id} {id userId : Uuid} {old : ℤ} {row : PasskeyRow}
    (h : target seen id userId old = some row) : row ∈ seen ∧ row.id = id ∧ row.counter = old := by
  obtain ⟨hfind, hwhere⟩ := Option.filter_eq_some_iff.1 h
  obtain ⟨hrow, hid⟩ := Keyed.mem_of_find? hfind
  simp only [Bool.and_eq_true, decide_eq_true_eq] at hwhere
  exact ⟨hrow, hid, hwhere.2⟩

theorem effect_answer (session : LoginSession A) {s : PasskeyWorld} {op : PasskeyOp A} (hwaits : waits s op = false) :
    Effect s op (answerPasskey session s op).1 (answerPasskey session s op).2 := by
  have hclosed : Effect s op (.error (.sql (.io "connection closed"))) s := by
    cases op <;> exact .stays id
  cases op with
  | begin => exact .begins
  | rollback tx => exact .ends id
  | abandon tx => exact .ends id
  | selectForUpdate tx userId credId =>
    simp only [answerPasskey, inTx]
    cases ht : s.txs tx with
    | none => exact hclosed
    | some t =>
      dsimp only
      cases hrow : credential (s.seen t) userId credId with
      | none => exact .stays id
      | some row =>
        refine .locks ht (mem_credential hrow).1 (mem_credential hrow).2 ?_
        simpa only [waits, ht, Option.any_some, hrow, decide_eq_false_iff_not] using hwaits
  | update tx counter publicKey id userId old =>
    simp only [answerPasskey, inTx]
    cases ht : s.txs tx with
    | none => exact hclosed
    | some t =>
      dsimp only
      cases hrow : target (s.seen t) id userId old with
      | none => exact .stays Nat.zero_ne_one
      | some row =>
        have hfree : ¬ s.Locked tx id := by
          simpa only [waits, ht, Option.any_some, hrow, Option.isSome_some, Bool.true_and,
            decide_eq_false_iff_not] using hwaits
        obtain ⟨hseen, rfl, rfl⟩ := mem_target hrow
        exact .updates ht hseen hfree
  | commit tx =>
    simp only [answerPasskey, inTx]
    cases ht : s.txs tx with
    | none => exact hclosed
    | some t => exact .commits ht
  | _ => exact .stays id

/-- **One step** of the server has one of these effects. -/
theorem effect_of_exec {faults : Prop} {s s' : PasskeyWorld} {op : PasskeyOp A} {r : op.Res}
    (h : execPasskey faults s op r s') : Effect s op r s' := by
  rcases h with ⟨hwaits, session, heq⟩ | ⟨-, ⟨e, rfl⟩, hfails⟩
  · obtain ⟨rfl, rfl⟩ := Prod.mk.inj heq
    exact effect_answer session hwaits
  · have hquiet : ¬ Tells op (.error e) := by
      cases op <;> exact id
    cases op with
    | commit tx =>
      rcases hfails with rfl | rfl
      · exact .ends hquiet
      · simp only [answerPasskey, inTx]
        cases ht : s.txs tx with
        | none => exact .stays hquiet
        | some t => exact .commits ht
    | _ =>
      obtain rfl : s' = s := hfails
      exact .stays hquiet

end Operations

/-! ## The handler -/

section Handler

variable (env : PasskeyEnv)

abbrev PasskeyHandler (α : Type) :=
  Fallible (PasskeyOp env.Authentication) PasskeyOp.Res AppError α

variable {env}

/-- A statement followed by `?`. -/
def askPasskey (op : PasskeyOp env.Authentication) : PasskeyHandler env op.Val := do
  match ← perform op with
  | .ok v => pure v
  | .error e => throw (.from' e)

/-- What is asked of the session. -/
def askSession (op : PasskeyOp env.Authentication) : PasskeyHandler env op.Val := do
  match ← perform op with
  | .ok v => pure v
  | .error _ => throw .somethingWentWrong

/-- What is done with a transaction; it is rolled back when it is dropped. -/
def inTransaction {α : Type} (p : ℕ → PasskeyHandler env α) : PasskeyHandler env α := do
  let tx ← askPasskey .begin
  match ← always (p tx).run with
  | .ok a => pure a
  | .error e => do
    let _ ← perform (PasskeyOp.rollback tx)
    throw e

/-- What the authenticator has reported. -/
structure Login where
  credId : Bytes
  counter : UInt32
deriving DecidableEq

/-- The statements of the transaction of `authentication_finish`. -/
def advanceCounter (userId : Uuid) (result : env.Result) (tx : ℕ) : PasskeyHandler env Unit := do
  let row ← askPasskey (.selectForUpdate tx userId (env.credId result))
  let row ← orThrow row (.badRequest "passkey login failed")
  let nextCounter : ℤ := (env.counter result).toNat
  reject (0 < row.counter ∧ nextCounter ≤ row.counter) (.forbidden "passkey counter did not advance")
  let passkey ← check ((env.fromSlice row.publicKey).mapError fun _ => .somethingWentWrong)
  let passkey ← orThrow (env.updateCredential passkey result) .somethingWentWrong
  let publicKey ← check ((env.toVec passkey).mapError fun _ => .somethingWentWrong)
  let updated ← askPasskey (.update tx nextCounter publicKey row.id userId row.counter)
  reject (updated ≠ 1) (.badRequest "passkey changed during authentication")
  askPasskey (.commit tx)

/-- `authentication_finish`, with what the authenticator has reported beside the answer. -/
def authenticationFinish (credential : env.Credential) : PasskeyHandler env (Response × Login) := do
  let authentication ← askSession .removeState
  let authentication ← orThrow authentication (.badRequest "passkey authentication was not started")
  let user ← askSession .removeUser
  let userId ← orThrow (user.bind env.parseUuid) (.badRequest "passkey authentication session changed")
  reject (env.configured = false) (.serviceUnavailable "passkeys are unavailable")
  let result ← check ((env.finishPasskeyAuthentication credential authentication).mapError
    fun _ => .badRequest "passkey ceremony failed")
  inTransaction (advanceCounter userId result)
  askSession (.insertUser userId)
  askSession .cycleId
  pure (.json [("ok", .flag true), ("redirect", .text "/account".toList)], ⟨env.credId result, env.counter result⟩)

/-- What is asked for, and the loss of a connection. -/
inductive PasskeyRequest (env : PasskeyEnv) where
  | finish (credential : env.Credential)
  | disconnect (tx : ℕ)

/-- What comes back. -/
inductive PasskeyReply where
  | finished (result : Except AppError (Response × Login))
  | nothing

/-- The program of a request. -/
def servePasskey : PasskeyRequest env → Prog (PasskeyOp env.Authentication) PasskeyOp.Res PasskeyReply
  | .finish credential => PasskeyReply.finished <$> (authenticationFinish credential).run
  | .disconnect tx => (fun _ => PasskeyReply.nothing) <$> Prog.perform (PasskeyOp.abandon tx)

end Handler

/-! ## Counters -/

/-- Another version of a row, which is not behind it. -/
structure Newer (row row' : PasskeyRow) : Prop where
  id : row'.id = row.id
  userId : row'.userId = row.userId
  credId : row'.credId = row.credId
  counter : row.counter ≤ row'.counter

theorem Newer.refl (row : PasskeyRow) : Newer row row := ⟨rfl, rfl, rfl, le_rfl⟩

theorem Newer.trans {row row' row'' : PasskeyRow} (h : Newer row row') (h' : Newer row' row'') : Newer row row'' :=
  ⟨h'.id.trans h.id, h'.userId.trans h.userId, h'.credId.trans h.credId, h.counter.trans h'.counter⟩

/-- **No counter has decreased**, and the keys are the same. -/
structure Advances (before after : Keyed PasskeyRow.id) : Prop where
  kept : ∀ row ∈ before, ∃ row' ∈ after, Newer row row'
  old : ∀ row' ∈ after, ∃ row ∈ before, Newer row row'

theorem Advances.refl (rows : Keyed PasskeyRow.id) : Advances rows rows :=
  ⟨fun row hrow => ⟨row, hrow, .refl row⟩, fun row hrow => ⟨row, hrow, .refl row⟩⟩

theorem Advances.trans {before between after : Keyed PasskeyRow.id} (h : Advances before between)
    (h' : Advances between after) : Advances before after := by
  refine ⟨fun row hrow => ?_, fun row'' hrow'' => ?_⟩
  · obtain ⟨row', hrow', hnewer⟩ := h.kept row hrow
    obtain ⟨row'', hrow'', hnewer'⟩ := h'.kept row' hrow'
    exact ⟨row'', hrow'', hnewer.trans hnewer'⟩
  · obtain ⟨row', hrow', hnewer'⟩ := h'.old row'' hrow''
    obtain ⟨row, hrow, hnewer⟩ := h.old row' hrow'
    exact ⟨row, hrow, hnewer.trans hnewer'⟩

/-- A version that a login may write: the counter has moved forward, but from zero it may stay. -/
structure Moved (row v : PasskeyRow) : Prop extends Newer row v where
  forward : 0 < row.counter → row.counter < v.counter

theorem Moved.trans {row v v' : PasskeyRow} (h : Moved row v) (h' : Moved v v') : Moved row v' := by
  refine ⟨h.toNewer.trans h'.toNewer, fun hpos => ?_⟩
  exact (h.forward hpos).trans (h'.forward (hpos.trans (h.forward hpos)))

/-- What is stored when these updates have been committed. -/
def replay (rows : Keyed PasskeyRow.id) : List PasskeyUpdate → Keyed PasskeyRow.id
  | [] => rows
  | u :: earlier => (replay rows earlier).put u.row

/-- What a transaction has written, one row after the other. -/
theorem mem_replay_commit (rows : Keyed PasskeyRow.id) (tx : ℕ) (earlier : List PasskeyUpdate)
    {written : List PasskeyRow} (hunique : UniqueOn PasskeyRow.id written) (row : PasskeyRow) :
    row ∈ replay rows (written.map (fun row => ⟨tx, row⟩) ++ earlier) ↔
      row ∈ written ∨ row ∈ replay rows earlier ∧ ∀ v ∈ written, v.id ≠ row.id := by
  induction written with
  | nil => simp
  | cons v written ih =>
    obtain ⟨hv, hunique⟩ := List.nodup_cons.1 hunique
    rw [List.map_cons, List.cons_append, replay, Keyed.mem_put, ih hunique]
    simp only [List.mem_cons, forall_eq_or_imp]
    constructor
    · rintro (rfl | ⟨hwritten | ⟨hrow, hother⟩, hne⟩)
      · exact .inl (.inl rfl)
      · exact .inl (.inr hwritten)
      · exact .inr ⟨hrow, hne.symm, hother⟩
    · rintro ((rfl | hwritten) | ⟨hrow, hne, hother⟩)
      · exact .inl rfl
      · exact .inr ⟨.inl hwritten, fun heq => hv (heq ▸ List.mem_map_of_mem hwritten)⟩
      · exact .inr ⟨.inr ⟨hrow, hother⟩, hne.symm⟩

/-- A counter in a history is smaller than the later ones of its row, unless it is zero. -/
def Increasing (history : List PasskeyUpdate) : Prop :=
  history.Pairwise fun later earlier =>
    later.row.id = earlier.row.id → 0 < earlier.row.counter → earlier.row.counter < later.row.counter

/-- **The invariant.**  Who has changed a row has the lock, and has moved its counter forward. -/
structure Forward (rows : Keyed PasskeyRow.id) (s : PasskeyWorld) : Prop where
  stored : ∀ row, row ∈ s.passkeys ↔ row ∈ replay rows s.history
  advances : Advances rows s.passkeys
  increasing : Increasing s.history
  written : ∀ u ∈ s.history, ∃ row ∈ s.passkeys, Newer u.row row
  versions : ∀ tx t, s.txs tx = some t → ∀ v ∈ t.rows, v.id ∈ t.locked ∧ ∃ row ∈ s.passkeys, Moved row v
  sole : ∀ tx t tx' t', s.txs tx = some t → s.txs tx' = some t' → tx ≠ tx' → ∀ id ∈ t.locked, id ∉ t'.locked
  fresh : ∀ tx, s.nextTx ≤ tx → s.txs tx = none

theorem forward_idle (rows : Keyed PasskeyRow.id) : Forward rows (.idle rows) where
  stored := fun _ => Iff.rfl
  advances := .refl rows
  increasing := .nil
  written := fun _ h => absurd h List.not_mem_nil
  versions := nofun
  sole := nofun
  fresh := fun _ _ => rfl

theorem withTx_txs (s : PasskeyWorld) (tx : ℕ) (t : Option PasskeyTx) (tx' : ℕ) :
    (s.withTx tx t).txs tx' = if tx' = tx then t else s.txs tx' := by
  unfold PasskeyWorld.withTx
  exact Function.update_apply _ _ _ _

section Step

variable {A : Type} {rows : Keyed PasskeyRow.id} {s : PasskeyWorld} {tx : ℕ} {t t' : PasskeyTx} {row v : PasskeyRow}

theorem Forward.lt_nextTx (h : Forward rows s) (ht : s.txs tx = some t) : tx < s.nextTx := by
  by_contra hle
  rw [h.fresh tx (not_lt.1 hle)] at ht
  cases ht

/-- What a transaction sees of a row is not behind what is committed. -/
theorem Forward.seen (h : Forward rows s) (ht : s.txs tx = some t) (hv : v ∈ s.seen t) :
    v ∈ s.passkeys ∨ ∃ row ∈ s.passkeys, Moved row v := by
  rcases Keyed.mem_overlay.1 hv with hown | ⟨hcommitted, -⟩
  · exact .inr (h.versions tx t ht v hown).2
  · exact .inl hcommitted

/-- A transaction goes on. -/
theorem Forward.goes_on (h : Forward rows s) (ht : s.txs tx = some t)
    (hversions : ∀ v ∈ t'.rows, v.id ∈ t'.locked ∧ ∃ row ∈ s.passkeys, Moved row v)
    (hlocked : ∀ id ∈ t'.locked, id ∈ t.locked ∨ ¬ s.Locked tx id) : Forward rows (s.withTx tx (some t')) := by
  have hfree : ∀ tx' u, s.txs tx' = some u → tx ≠ tx' → ∀ id ∈ t'.locked, id ∉ u.locked := by
    intro tx' u hu hne id hid
    rcases hlocked id hid with hold | hnot
    · exact h.sole tx t tx' u ht hu hne id hold
    · exact fun hmem => hnot ⟨tx', h.lt_nextTx hu, hne.symm, u, hu, hmem⟩
  refine ⟨h.stored, h.advances, h.increasing, h.written, fun tx' u hu => ?_, ?_, fun tx' hle => ?_⟩
  · rw [withTx_txs] at hu
    split at hu
    · cases hu
      exact hversions
    · exact h.versions tx' u hu
  · intro tx₁ u₁ tx₂ u₂ hu₁ hu₂ hne
    rw [withTx_txs] at hu₁ hu₂
    split at hu₁
    · rename_i heq₁
      cases hu₁
      rw [if_neg fun heq₂ => hne (heq₁.trans heq₂.symm)] at hu₂
      exact hfree tx₂ u₂ hu₂ fun heq => hne (heq₁.trans heq)
    · rename_i hne₁
      split at hu₂
      · cases hu₂
        exact fun id hid hid' => hfree tx₁ u₁ hu₁ (Ne.symm hne₁) id hid' hid
      · exact h.sole tx₁ u₁ tx₂ u₂ hu₁ hu₂ hne
  · have hlt := h.lt_nextTx ht
    have hle : s.nextTx ≤ tx' := hle
    rw [withTx_txs, if_neg (by omega)]
    exact h.fresh tx' hle

/-- A transaction ends without a trace. -/
theorem Forward.ends (h : Forward rows s) (tx : ℕ) : Forward rows (s.withTx tx none) := by
  have hopen : ∀ {tx' u}, (s.withTx tx none).txs tx' = some u → s.txs tx' = some u := by
    intro tx' u hu
    rw [withTx_txs] at hu
    split at hu
    · cases hu
    · exact hu
  refine ⟨h.stored, h.advances, h.increasing, h.written, fun tx' u hu => h.versions tx' u (hopen hu),
    fun tx₁ u₁ tx₂ u₂ hu₁ hu₂ => h.sole tx₁ u₁ tx₂ u₂ (hopen hu₁) (hopen hu₂), fun tx' hle => ?_⟩
  rw [withTx_txs]
  split
  · rfl
  · exact h.fresh tx' hle

/-- A transaction begins. -/
theorem Forward.begins (h : Forward rows s) :
    Forward rows { s.withTx s.nextTx (some ⟨.empty, []⟩) with nextTx := s.nextTx + 1 } := by
  have hopen : ∀ {tx' u}, (s.withTx s.nextTx (some ⟨.empty, []⟩)).txs tx' = some u →
      s.txs tx' = some u ∨ tx' = s.nextTx ∧ u = ⟨.empty, []⟩ := by
    intro tx' u hu
    rw [withTx_txs] at hu
    split at hu
    · rename_i heq
      cases hu
      exact .inr ⟨heq, rfl⟩
    · exact .inl hu
  refine ⟨h.stored, h.advances, h.increasing, h.written, fun tx' u hu => ?_, ?_, fun tx' hle => ?_⟩
  · rcases hopen hu with hu | ⟨-, rfl⟩
    · exact h.versions tx' u hu
    · exact fun v hv => absurd hv Keyed.notMem_empty
  · intro tx₁ u₁ tx₂ u₂ hu₁ hu₂ hne id hid hid'
    rcases hopen hu₁ with hu₁ | ⟨-, rfl⟩
    · rcases hopen hu₂ with hu₂ | ⟨-, rfl⟩
      · exact h.sole tx₁ u₁ tx₂ u₂ hu₁ hu₂ hne id hid hid'
      · exact absurd hid' List.not_mem_nil
    · exact absurd hid List.not_mem_nil
  · have hle : s.nextTx + 1 ≤ tx' := hle
    show (s.withTx s.nextTx _).txs tx' = none
    rw [withTx_txs, if_neg (by omega)]
    exact h.fresh tx' (by omega)

/-- What a transaction sees is not behind what is committed. -/
theorem Forward.seen_advances (h : Forward rows s) (ht : s.txs tx = some t) : Advances s.passkeys (s.seen t) := by
  refine ⟨fun row hrow => ?_, fun v hv => ?_⟩
  · by_cases hown : ∃ v ∈ t.rows, v.id = row.id
    · obtain ⟨v, hv, hid⟩ := hown
      obtain ⟨-, row', hrow', hmoved⟩ := h.versions tx t ht v hv
      obtain rfl := Keyed.eq_of_col hrow' hrow (hmoved.id.symm.trans hid)
      exact ⟨v, Keyed.mem_overlay.2 (.inl hv), hmoved.toNewer⟩
    · exact ⟨row, Keyed.mem_overlay.2 (.inr ⟨hrow, fun v hv hid => hown ⟨v, hv, hid⟩⟩), .refl row⟩
  · rcases h.seen ht hv with hcommitted | ⟨row, hrow, hmoved⟩
    · exact ⟨v, hcommitted, .refl v⟩
    · exact ⟨row, hrow, hmoved.toNewer⟩

/-- **A transaction commits**: each of its versions is ahead of all that was committed of the row. -/
theorem Forward.commits (h : Forward rows s) (ht : s.txs tx = some t) :
    Forward rows { s.withTx tx none with
      passkeys := s.seen t
      history := t.rows.rows.map (fun row => ⟨tx, row⟩) ++ s.history } := by
  have hends := h.ends tx
  have hseen := h.seen_advances ht
  refine ⟨fun row => ?_, h.advances.trans hseen, ?_, fun u hu => ?_, fun tx' u hu v hv => ?_, hends.sole, hends.fresh⟩
  · rw [mem_replay_commit rows tx s.history t.rows.unique row, ← h.stored]
    exact Keyed.mem_overlay
  · refine List.pairwise_append.2 ⟨?_, h.increasing, fun u hu u' hu' hid hpos => ?_⟩
    · refine List.pairwise_map.2 ((List.pairwise_map.1 t.rows.unique).imp fun hne hid => absurd hid hne)
    · obtain ⟨v, hv, rfl⟩ := List.mem_map.1 hu
      obtain ⟨-, row, hrow, hmoved⟩ := h.versions tx t ht v hv
      obtain ⟨row', hrow', hnewer⟩ := h.written u' hu'
      obtain rfl := Keyed.eq_of_col hrow' hrow (hnewer.id.trans (hid.symm.trans hmoved.id))
      exact hnewer.counter.trans_lt (hmoved.forward (hpos.trans_le hnewer.counter))
  · rcases List.mem_append.1 hu with hu | hu
    · obtain ⟨v, hv, rfl⟩ := List.mem_map.1 hu
      exact ⟨v, Keyed.mem_overlay.2 (.inl hv), .refl v⟩
    · obtain ⟨row, hrow, hnewer⟩ := h.written u hu
      obtain ⟨row', hrow', hnewer'⟩ := hseen.kept row hrow
      exact ⟨row', hrow', hnewer.trans hnewer'⟩
  · -- the row of a version is locked, and so it has not changed
    have hu' : s.txs tx' = some u ∧ tx' ≠ tx := by
      have hu : (s.withTx tx none).txs tx' = some u := hu
      rw [withTx_txs] at hu
      split at hu
      · cases hu
      · rename_i hne
        exact ⟨hu, hne⟩
    obtain ⟨hlocked, row, hrow, hmoved⟩ := h.versions tx' u hu'.1 v hv
    refine ⟨hlocked, row, Keyed.mem_overlay.2 (.inr ⟨hrow, fun w hw hid => ?_⟩), hmoved⟩
    refine h.sole tx t tx' u ht hu'.1 hu'.2.symm v.id ?_ hlocked
    rw [hmoved.id, ← hid]
    exact (h.versions tx t ht w hw).1

theorem Forward.locks (h : Forward rows s) (ht : s.txs tx = some t) {id : Uuid} (hfree : ¬ s.Locked tx id) :
    Forward rows (s.withTx tx (some { t with locked := id :: t.locked })) := by
  refine h.goes_on ht (fun v hv => ?_) fun id' hid' => ?_
  · obtain ⟨hlocked, hrow⟩ := h.versions tx t ht v hv
    exact ⟨List.mem_cons_of_mem _ hlocked, hrow⟩
  · rcases List.mem_cons.1 hid' with rfl | hold
    · exact .inr hfree
    · exact .inl hold

/-- **A row is changed**: the version is ahead of the one that the transaction has seen. -/
theorem Forward.updates (h : Forward rows s) (ht : s.txs tx = some t) {counter : ℤ} (publicKey : Bytes)
    (hrow : row ∈ s.seen t) (hle : row.counter ≤ counter) (hforward : 0 < row.counter → row.counter < counter)
    (hfree : ¬ s.Locked tx row.id) :
    Forward rows (s.withTx tx (some
      ⟨t.rows.put { row with counter := counter, publicKey := publicKey }, row.id :: t.locked⟩)) := by
  have hmoved : Moved row { row with counter := counter, publicKey := publicKey } := ⟨⟨rfl, rfl, rfl, hle⟩, hforward⟩
  refine h.goes_on ht (fun v hv => ?_) fun id' hid' => ?_
  · rcases Keyed.mem_put.1 hv with rfl | ⟨hold, -⟩
    · refine ⟨List.mem_cons_self, ?_⟩
      rcases h.seen ht hrow with hcommitted | ⟨row', hrow', hmoved'⟩
      · exact ⟨row, hcommitted, hmoved⟩
      · exact ⟨row', hrow', hmoved'.trans hmoved⟩
    · obtain ⟨hlocked, hcommitted⟩ := h.versions tx t ht v hold
      exact ⟨List.mem_cons_of_mem _ hlocked, hcommitted⟩
  · rcases List.mem_cons.1 hid' with rfl | hold
    · exact .inr hfree
    · exact .inl hold

/-- The counter that an `UPDATE` writes is ahead of the one that it expects. -/
def Ahead : PasskeyOp A → Prop
  | .update _ counter _ _ _ old => old ≤ counter ∧ (0 < old → old < counter)
  | _ => True

/-- **One operation** keeps the invariant. -/
theorem Forward.step {s' : PasskeyWorld} {op : PasskeyOp A} {r : op.Res} (h : Forward rows s) (hahead : Ahead op)
    (heffect : Effect s op r s') : Forward rows s' := by
  cases heffect with
  | stays => exact h
  | begins => exact h.begins
  | locks ht _ _ hfree => exact h.locks ht hfree
  | updates ht hrow hfree => exact h.updates ht _ hrow hahead.1 hahead.2 hfree
  | commits ht => exact h.commits ht
  | ends => exact h.ends _

/-- **What is stored advances** with every operation. -/
theorem Forward.step_advances {s' : PasskeyWorld} {op : PasskeyOp A} {r : op.Res} (h : Forward rows s)
    (heffect : Effect s op r s') : Advances s.passkeys s'.passkeys := by
  cases heffect with
  | commits ht => exact h.seen_advances ht
  | _ => exact .refl _

end Step

/-! ## Requests -/

/-- How far a request has come with its transaction. -/
inductive Stage where
  | began (tx : ℕ)
  /-- It has the row. -/
  | locked (tx : ℕ) (id : Uuid) (credId : Bytes)
  | updated (tx : ℕ) (credId : Bytes) (counter : ℤ)
  | committed (tx : ℕ) (credId : Bytes) (counter : ℤ)
  /-- The `COMMIT` has failed. -/
  | uncertain (tx : ℕ)
  /-- The session has failed after the `COMMIT`. -/
  | loggedOut (tx : ℕ)
deriving DecidableEq

namespace Stage

/-- Whose stage it is. -/
def tx : Stage → ℕ
  | began tx | locked tx _ _ | updated tx _ _ | committed tx _ _ | uncertain tx | loggedOut tx => tx

/-- The request has asked for a `COMMIT`, and something has failed. -/
def CommitAsked : Stage → Prop
  | uncertain _ | loggedOut _ => True
  | _ => False

section After

variable {A : Type}

/-- The stage after the answer to an operation. -/
def after (stage : Stage) : (op : PasskeyOp A) → op.Res → Stage
  | .selectForUpdate tx _ credId, .ok (some row) =>
    match stage with
    | began tx' => if tx' = tx then locked tx row.id credId else stage
    | _ => stage
  | .update tx counter _ id _ _, .ok affected =>
    match stage with
    | locked tx' id' credId => if tx' = tx ∧ id' = id ∧ affected = 1 then updated tx credId counter else stage
    | _ => stage
  | .commit tx, r =>
    match stage with
    | updated tx' credId counter =>
      if tx' = tx then
        match r with
        | .ok () => committed tx credId counter
        | .error _ => uncertain tx
      else stage
    | _ => stage
  | .insertUser _, .error _ | .cycleId, .error _ =>
    match stage with
    | committed tx _ _ => loggedOut tx
    | _ => stage
  | _, _ => stage

end After

end Stage

section Requests

variable {A : Type} {s s' : PasskeyWorld}

/-- A transaction that has begun. -/
def started : (op : PasskeyOp A) → op.Res → Multiset Stage
  | .begin, .ok tx => {.began tx}
  | _, _ => 0

/-- The stages of a request after an answer. -/
def progress (g : Multiset Stage) (op : PasskeyOp A) (r : op.Res) : Multiset Stage :=
  started op r + g.map fun stage => stage.after op r

/-- What a request may perform with its stages. -/
def may (g : Multiset Stage) : PasskeyOp A → Prop
  | .selectForUpdate tx _ _ => .began tx ∈ g
  | .update tx counter _ id _ old => (old ≤ counter ∧ (0 < old → old < counter)) ∧ ∃ credId, .locked tx id credId ∈ g
  | .commit tx => ∃ credId counter, .updated tx credId counter ∈ g
  | _ => True

theorem ahead_of_may {g : Multiset Stage} {op : PasskeyOp A} (h : may g op) : Ahead op := by
  cases op with
  | update tx counter publicKey id userId old => exact h.1
  | _ => exact trivial

@[simp] theorem after_tx (stage : Stage) (op : PasskeyOp A) (r : op.Res) : (stage.after op r).tx = stage.tx := by
  unfold Stage.after
  split
  · split
    · split
      · rename_i heq
        exact heq.symm
      · rfl
    · rfl
  · split
    · split
      · rename_i heq
        exact heq.1.symm
      · rfl
    · rfl
  · split
    · split
      · rename_i heq
        split <;> exact heq.symm
      · rfl
    · rfl
  · split <;> rfl
  · split <;> rfl
  · rfl

/-- Nothing of the transaction has been committed. -/
def Unwritten (s : PasskeyWorld) (tx : ℕ) : Prop := ∀ u ∈ s.history, u.tx ≠ tx

/-- What a stage says about the state. -/
def Stage.Holds (s : PasskeyWorld) : Stage → Prop
  | .began tx => Unwritten s tx
  | .locked tx id credId => Unwritten s tx ∧ ∃ row ∈ s.passkeys, row.id = id ∧ row.credId = credId
  | .updated tx credId counter => Unwritten s tx ∧
      ∀ t, s.txs tx = some t → ∃ v ∈ t.rows, v.credId = credId ∧ v.counter = counter
  | .committed tx credId counter => ∃ u ∈ s.history, u.tx = tx ∧ u.row.credId = credId ∧ u.row.counter = counter
  | .uncertain _ | .loggedOut _ => True

/-- The operation writes in the transaction, or commits it. -/
def Writes (tx : ℕ) : PasskeyOp A → Prop
  | .update tx' _ _ _ _ _ | .commit tx' => tx' = tx
  | _ => False

/-- The stage that an operation which writes is for. -/
inductive Fits : Stage → PasskeyOp A → Prop
  | update {tx : ℕ} {counter : ℤ} {publicKey : Bytes} {id userId : Uuid} {old : ℤ} {credId : Bytes} :
      Fits (.locked tx id credId) (.update tx counter publicKey id userId old)
  | commit {tx : ℕ} {credId : Bytes} {counter : ℤ} : Fits (.updated tx credId counter) (.commit tx)

section Effects

variable {rows : Keyed PasskeyRow.id} {op : PasskeyOp A} {r : op.Res} {tx : ℕ} {stage : Stage}

theorem Effect.history_grows (h : Effect s op r s') : ∀ u ∈ s.history, u ∈ s'.history := by
  cases h with
  | commits ht => exact fun u hu => List.mem_append_right _ hu
  | _ => exact fun u hu => hu

theorem Effect.nextTx_le (h : Effect s op r s') : s.nextTx ≤ s'.nextTx := by
  cases h with
  | begins => exact Nat.le_succ _
  | _ => exact le_rfl

theorem Effect.unwritten (h : Effect s op r s') (hnot : ¬ Writes tx op) (hun : Unwritten s tx) : Unwritten s' tx := by
  cases h with
  | commits ht =>
    intro u hu
    rcases List.mem_append.1 hu with hu | hu
    · obtain ⟨v, -, rfl⟩ := List.mem_map.1 hu
      exact hnot
    · exact hun u hu
  | _ => exact hun

/-- The versions of a transaction are changed by its own operations only. -/
theorem Effect.versions (h : Effect s op r s') (hnot : ¬ Writes tx op) (hlt : tx < s.nextTx) {t' : PasskeyTx}
    (ht' : s'.txs tx = some t') : ∃ t, s.txs tx = some t ∧ t'.rows = t.rows := by
  cases h with
  | stays => exact ⟨t', ht', rfl⟩
  | begins =>
    have ht' : (s.withTx s.nextTx (some ⟨.empty, []⟩)).txs tx = some t' := ht'
    rw [withTx_txs, if_neg (by omega)] at ht'
    exact ⟨t', ht', rfl⟩
  | @locks tx₀ t userId credId row ht _ _ _ =>
    rw [withTx_txs] at ht'
    split at ht'
    · rename_i heq
      cases ht'
      exact ⟨t, heq ▸ ht, rfl⟩
    · exact ⟨t', ht', rfl⟩
  | updates ht _ _ =>
    rw [withTx_txs, if_neg fun heq => hnot heq.symm] at ht'
    exact ⟨t', ht', rfl⟩
  | @commits tx₀ t r ht =>
    have ht' : (s.withTx tx₀ none).txs tx = some t' := ht'
    rw [withTx_txs, if_neg fun heq => hnot heq.symm] at ht'
    exact ⟨t', ht', rfl⟩
  | ends =>
    rw [withTx_txs] at ht'
    split at ht'
    · cases ht'
    · exact ⟨t', ht', rfl⟩

/-- **What a stage says stays true** while its transaction does not write. -/
theorem Stage.Holds.unaffected (hstage : stage.Holds s) (hforward : Forward rows s) (h : Effect s op r s')
    (hnot : ¬ Writes stage.tx op) (hlt : stage.tx < s.nextTx) : stage.Holds s' := by
  cases stage with
  | began tx => exact h.unwritten hnot hstage
  | locked tx id credId =>
    obtain ⟨hun, row, hrow, rfl, rfl⟩ := hstage
    obtain ⟨row', hrow', hnewer⟩ := (hforward.step_advances h).kept row hrow
    exact ⟨h.unwritten hnot hun, row', hrow', hnewer.id, hnewer.credId⟩
  | updated tx credId counter =>
    refine ⟨h.unwritten hnot hstage.1, fun t' ht' => ?_⟩
    obtain ⟨t, ht, hrows⟩ := h.versions hnot hlt ht'
    rw [hrows]
    exact hstage.2 t ht
  | committed tx credId counter =>
    obtain ⟨u, hu, hrow⟩ := hstage
    exact ⟨u, h.history_grows u hu, hrow⟩
  | uncertain tx => trivial
  | loggedOut tx => trivial

/-- What an answer does to the stage of its request where nothing has been written. -/
theorem Stage.Holds.after_of_not_writes (hstage : stage.Holds s) (hforward : Forward rows s) (h : Effect s op r s')
    (hnot : ¬ Writes stage.tx op) (hlt : stage.tx < s.nextTx) : (stage.after op r).Holds s' := by
  have hkept := hstage.unaffected hforward h hnot hlt
  unfold Stage.after
  split
  · split
    · split
      · rename_i tx userId credId row _ _ heq
        subst heq
        refine ⟨hkept, ?_⟩
        cases h with
        | stays hquiet => exact absurd trivial hquiet
        | ends hquiet => exact absurd trivial hquiet
        | locks ht hseen hcred hfree =>
          obtain ⟨row', hrow', hnewer⟩ := (hforward.seen_advances ht).old _ hseen
          exact ⟨row', hrow', hnewer.id.symm, hnewer.credId.symm.trans hcred⟩
      · exact hkept
    · exact hkept
  · split
    · rw [if_neg fun heq => hnot heq.1.symm]
      exact hkept
    · exact hkept
  · split
    · rw [if_neg fun heq => hnot heq.symm]
      exact hkept
    · exact hkept
  · split
    · trivial
    · exact hkept
  · split
    · trivial
    · exact hkept
  · exact hkept

/-- What an answer does to the stage of its request. -/
theorem Stage.Holds.after (hstage : stage.Holds s) (hforward : Forward rows s) (h : Effect s op r s')
    (hlt : stage.tx < s.nextTx) (hfits : Writes stage.tx op → Fits stage op) : (stage.after op r).Holds s' := by
  by_cases hwrites : Writes stage.tx op
  · cases hfits hwrites with
    | @update tx counter publicKey id userId old credId =>
      obtain ⟨hun, row, hrow, hid, hcred⟩ := hstage
      -- without an answer that tells of it nothing has been written
      have hquiet : ¬ Tells (.update tx counter publicKey id userId old) r → s'.passkeys = s.passkeys →
          s'.history = s.history →
          ((Stage.locked tx id credId).after (.update tx counter publicKey id userId old) r).Holds s' := by
        intro hr hpasskeys hhistory
        have hsame : (Stage.locked tx id credId).after (.update tx counter publicKey id userId old) r =
            .locked tx id credId := by
          cases r with
          | error e => rfl
          | ok affected => exact if_neg fun hand => hr hand.2.2
        rw [hsame]
        refine ⟨fun u hu => hun u (hhistory ▸ hu), row, hpasskeys ▸ hrow, hid, hcred⟩
      cases h with
      | stays hr => exact hquiet hr rfl rfl
      | ends hr => exact hquiet hr rfl rfl
      | @updates _ t _ _ _ seen ht hseen _ =>
        have hafter : Stage.after (A := A) (.locked tx seen.id credId)
            (.update tx counter publicKey seen.id userId seen.counter) (.ok 1) = .updated tx credId counter := by
          simp [Stage.after]
        rw [hafter]
        refine ⟨hun, fun t' ht' => ?_⟩
        rw [withTx_txs, if_pos rfl] at ht'
        cases ht'
        refine ⟨_, Keyed.mem_put.2 (.inl rfl), ?_, rfl⟩
        obtain ⟨row', hrow', hnewer⟩ := (hforward.seen_advances ht).old seen hseen
        obtain rfl := Keyed.eq_of_col hrow' hrow (hnewer.id.symm.trans hid.symm)
        exact hnewer.credId.trans hcred
    | @commit tx credId counter =>
      cases r with
      | error e =>
        have hafter : Stage.after (A := A) (.updated tx credId counter) (.commit tx) (.error e) = .uncertain tx := if_pos rfl
        rw [hafter]
        trivial
      | ok done =>
        have hafter : Stage.after (A := A) (.updated tx credId counter) (.commit tx) (.ok done) =
            .committed tx credId counter := if_pos rfl
        rw [hafter]
        cases h with
        | stays hquiet => exact absurd trivial hquiet
        | ends hquiet => exact absurd trivial hquiet
        | @commits _ t _ ht =>
          obtain ⟨v, hv, hcred, hcounter⟩ := hstage.2 t ht
          exact ⟨⟨tx, v⟩, List.mem_append_left _ (List.mem_map_of_mem hv), rfl, hcred, hcounter⟩
  · exact hstage.after_of_not_writes hforward h hwrites hlt

end Effects

/-! ### All requests together -/

/-- The invariant, with the stages of all requests. -/
structure Together (rows : Keyed PasskeyRow.id) (s : PasskeyWorld) (g : Multiset Stage) : Prop where
  forward : Forward rows s
  /-- A transaction is of one request. -/
  nodup : (g.map Stage.tx).Nodup
  lt : ∀ stage ∈ g, stage.tx < s.nextTx
  written : ∀ u ∈ s.history, u.tx < s.nextTx
  holds : ∀ stage ∈ g, stage.Holds s

theorem together_idle (rows : Keyed PasskeyRow.id) : Together rows (.idle rows) 0 where
  forward := forward_idle rows
  nodup := Multiset.nodup_zero
  lt := fun _ h => absurd h (Multiset.notMem_zero _)
  written := fun _ h => absurd h List.not_mem_nil
  holds := fun _ h => absurd h (Multiset.notMem_zero _)

section Together

variable {rows : Keyed PasskeyRow.id} {g f : Multiset Stage} {op : PasskeyOp A} {r : op.Res}

theorem Effect.written_lt (h : Effect s op r s') (hforward : Forward rows s)
    (hlt : ∀ u ∈ s.history, u.tx < s.nextTx) : ∀ u ∈ s'.history, u.tx < s'.nextTx := by
  cases h with
  | begins => exact fun u hu => Nat.lt_succ_of_lt (hlt u hu)
  | commits ht =>
    intro u hu
    rcases List.mem_append.1 hu with hu | hu
    · obtain ⟨v, -, rfl⟩ := List.mem_map.1 hu
      exact hforward.lt_nextTx ht
    · exact hlt u hu
  | _ => exact hlt

theorem started_eq_zero (h : ¬ Tells op r) : started op r = 0 := by
  cases op with
  | begin =>
    cases r with
    | ok tx => exact absurd trivial h
    | error e => rfl
  | _ => rfl

/-- A transaction that has begun is a new one. -/
theorem Effect.started (h : Effect s op r s') : started op r = 0 ∨
    started op r = {.began s.nextTx} ∧ s'.nextTx = s.nextTx + 1 ∧ s'.history = s.history := by
  cases h with
  | begins => exact .inr ⟨rfl, rfl, rfl⟩
  | stays hquiet => exact .inl (started_eq_zero hquiet)
  | ends hquiet => exact .inl (started_eq_zero hquiet)
  | _ => exact .inl rfl

/-- An operation which writes is for the only stage of its transaction. -/
theorem fits_of_may (hmay : may g op) (hnodup : ((g + f).map Stage.tx).Nodup) {stage : Stage} (hstage : stage ∈ g + f)
    (hwrites : Writes stage.tx op) : Fits stage op ∧ stage ∈ g := by
  have hsame : ∀ {own : Stage}, own ∈ g → own.tx = stage.tx → own = stage := fun hown htx =>
    Multiset.inj_on_of_nodup_map hnodup _ (Multiset.mem_add.2 (.inl hown)) _ hstage htx
  cases op with
  | update tx counter publicKey id userId old =>
    obtain ⟨-, credId, hown⟩ := hmay
    obtain rfl := hsame hown hwrites
    exact ⟨.update, hown⟩
  | commit tx =>
    obtain ⟨credId, counter, hown⟩ := hmay
    obtain rfl := hsame hown hwrites
    exact ⟨.commit, hown⟩
  | _ => exact hwrites.elim

/-- **One operation of a request**, among the others. -/
theorem Together.step (h : Together rows s (g + f)) (hmay : may g op) (heffect : Effect s op r s') :
    Together rows s' (progress g op r + f) := by
  have hstarted := heffect.started
  have hnew' : ∀ {stage}, stage ∈ started op r → stage = .began s.nextTx ∧ s'.nextTx = s.nextTx + 1 ∧
      s'.history = s.history := by
    intro stage hstage
    rcases hstarted with hnone | ⟨hbegan, hsame⟩
    · rw [hnone] at hstage
      exact absurd hstage (Multiset.notMem_zero _)
    · rw [hbegan] at hstage
      exact ⟨Multiset.mem_singleton.1 hstage, hsame⟩
  have hmem : ∀ stage ∈ progress g op r + f, stage ∈ started op r ∨
      (∃ stage' ∈ g, stage'.after op r = stage) ∨ stage ∈ f := by
    intro stage hstage
    unfold progress at hstage
    rw [Multiset.mem_add, Multiset.mem_add, Multiset.mem_map, or_assoc] at hstage
    exact hstage
  refine ⟨h.forward.step (ahead_of_may hmay) heffect, ?_, ?_, heffect.written_lt h.forward h.written, ?_⟩
  · have htxs : (progress g op r + f).map Stage.tx = (started op r).map Stage.tx + (g + f).map Stage.tx := by
      unfold progress
      simp only [Multiset.map_add, Multiset.map_map, Function.comp_def, after_tx, add_assoc]
    rw [htxs]
    rcases hstarted with hnone | ⟨hbegan, -⟩
    · rw [hnone, Multiset.map_zero, zero_add]
      exact h.nodup
    · rw [hbegan, Multiset.map_singleton, Multiset.singleton_add]
      refine Multiset.nodup_cons.2 ⟨fun hold => ?_, h.nodup⟩
      obtain ⟨stage, hstage, htx⟩ := Multiset.mem_map.1 hold
      exact absurd (h.lt stage hstage) (htx ▸ lt_irrefl s.nextTx)
  · intro stage hstage
    rcases hmem stage hstage with hnew | ⟨stage', hown, rfl⟩ | hother
    · obtain ⟨rfl, hnext, -⟩ := hnew' hnew
      rw [hnext]
      exact Nat.lt_succ_self _
    · rw [after_tx]
      exact (h.lt stage' (Multiset.mem_add.2 (.inl hown))).trans_le heffect.nextTx_le
    · exact (h.lt stage (Multiset.mem_add.2 (.inr hother))).trans_le heffect.nextTx_le
  · intro stage hstage
    rcases hmem stage hstage with hnew | ⟨stage', hown, rfl⟩ | hother
    · obtain ⟨rfl, -, hhistory⟩ := hnew' hnew
      intro u hu
      rw [hhistory] at hu
      exact (h.written u hu).ne
    · have hin : stage' ∈ g + f := Multiset.mem_add.2 (.inl hown)
      exact (h.holds stage' hin).after h.forward heffect (h.lt stage' hin) fun hwrites =>
        (fits_of_may hmay h.nodup hin hwrites).1
    · have hin : stage ∈ g + f := Multiset.mem_add.2 (.inr hother)
      refine (h.holds stage hin).unaffected h.forward heffect (fun hwrites => ?_) (h.lt stage hin)
      -- the stage would be of this request, too
      have hown := (fits_of_may hmay h.nodup hin hwrites).2
      have hnodup := h.nodup
      rw [Multiset.map_add] at hnodup
      exact Multiset.disjoint_left.1 (Multiset.disjoint_of_nodup_add hnodup) (Multiset.mem_map_of_mem Stage.tx hown)
        (Multiset.mem_map_of_mem Stage.tx hother)

/-- A request that has gone is not missed. -/
theorem Together.drop (h : Together rows s (g + f)) : Together rows s f := by
  have hmem : ∀ {stage}, stage ∈ f → stage ∈ g + f := fun hstage => Multiset.mem_add.2 (.inr hstage)
  have hnodup := h.nodup
  rw [Multiset.map_add, Multiset.nodup_add] at hnodup
  exact ⟨h.forward, hnodup.2.1, fun stage hstage => h.lt stage (hmem hstage), h.written,
    fun stage hstage => h.holds stage (hmem hstage)⟩

end Together

end Requests

/-! ### The handler -/

/-- No stage of the request is `committed`. -/
def Uncommitted (g : Multiset Stage) : Prop := ∀ tx credId counter, .committed tx credId counter ∉ g

/-- The stages with which a request ends. -/
def Ended : PasskeyReply → Multiset Stage → Prop
  | .finished (.ok (_, login)), g => ∃ tx, g = {.committed tx login.credId login.counter.toNat}
  | .finished (.error _), g => Uncommitted g
  | .nothing, _ => True

section Obeys

variable {env : PasskeyEnv} {α : Type} {g : Multiset Stage}

/-- What a request may perform, and what becomes of its stages. -/
abbrev rules (A : Type) : Protocol (Multiset Stage) (PasskeyOp A) PasskeyOp.Res :=
  Tracked.protocol progress may fun _ _ => True

theorem obeys_askPasskey {op : PasskeyOp env.Authentication} {fin : op.Val → Multiset Stage → Prop}
    {err : AppError → Multiset Stage → Prop} (hmay : may g op) (hok : ∀ v, fin v (progress g op (.ok v)))
    (herr : ∀ e e', err e (progress g op (.error e'))) : (askPasskey op).Obeys (rules _) fin err g := by
  refine (obeys_bind _ _).2 ⟨hmay, ?_⟩
  rintro r g' ⟨-, rfl⟩
  cases r with
  | ok v => exact hok v
  | error e => exact herr _ e

theorem obeys_askSession {op : PasskeyOp env.Authentication} {fin : op.Val → Multiset Stage → Prop}
    {err : AppError → Multiset Stage → Prop} (hmay : may g op) (hok : ∀ v, fin v (progress g op (.ok v)))
    (herr : ∀ e e', err e (progress g op (.error e'))) : (askSession op).Obeys (rules _) fin err g := by
  refine (obeys_bind _ _).2 ⟨hmay, ?_⟩
  rintro r g' ⟨-, rfl⟩
  cases r with
  | ok v => exact hok v
  | error e => exact herr _ e

/-- A transaction, and its rollback. -/
theorem obeys_inTransaction {p : ℕ → PasskeyHandler env α} {fin : α → Multiset Stage → Prop}
    (hp : ∀ tx, (p tx).Obeys (rules _) fin (fun _ g => ∃ stage, g = {stage} ∧ Uncommitted {stage}) {.began tx}) :
    (inTransaction p).Obeys (rules _) fin (fun _ => Uncommitted) 0 := by
  refine (obeys_bind _ _).2 (obeys_askPasskey trivial (fun tx => ?_) fun e e' => ?_)
  · refine (obeys_bind _ _).2 (obeys_always.2 (Prog.Obeys.mono (hp tx) fun r g hr => ?_))
    cases r with
    | ok a => exact hr
    | error e =>
      obtain ⟨stage, rfl, hstage⟩ := hr
      refine (obeys_bind _ _).2 ⟨trivial, ?_⟩
      rintro r g' ⟨-, rfl⟩
      exact hstage
  · exact fun tx credId counter => Multiset.notMem_zero _

theorem obeys_advanceCounter {userId : Uuid} {result : env.Result} {tx : ℕ} :
    (advanceCounter userId result tx).Obeys (rules _)
      (fun _ g => g = {.committed tx (env.credId result) (env.counter result).toNat})
      (fun _ g => ∃ stage, g = {stage} ∧ Uncommitted {stage}) {.began tx} := by
  have hbegan : ∃ stage, ({.began tx} : Multiset Stage) = {stage} ∧ Uncommitted {stage} :=
    ⟨_, rfl, fun tx credId counter h => nomatch Multiset.mem_singleton.1 h⟩
  have hlocked : ∀ id, ∃ stage, ({.locked tx id (env.credId result)} : Multiset Stage) = {stage} ∧
      Uncommitted {stage} := fun id => ⟨_, rfl, fun tx credId counter h => nomatch Multiset.mem_singleton.1 h⟩
  refine (obeys_bind _ _).2 (obeys_askPasskey (Multiset.mem_singleton_self _) (fun row => ?_) fun e e' => hbegan)
  cases row with
  | none => exact (obeys_bind _ _).2 (obeys_orThrow.2 ⟨fun _ => hbegan, nofun⟩)
  | some row =>
    have hselected : progress (A := env.Authentication) {.began tx}
        (.selectForUpdate tx userId (env.credId result)) (.ok (some row)) = {.locked tx row.id (env.credId result)} := by
      simp [progress, started, Stage.after]
    rw [hselected]
    have hstop := hlocked row.id
    refine (obeys_bind _ _).2 (obeys_orThrow.2 ⟨nofun, ?_⟩)
    rintro _ ⟨⟩
    refine (obeys_bind _ _).2 (obeys_reject.2 ⟨fun _ => hstop, fun hadvanced => ?_⟩)
    refine (obeys_bind _ _).2 (obeys_check.2 ⟨fun _ _ => hstop, fun passkey _ => ?_⟩)
    refine (obeys_bind _ _).2 (obeys_orThrow.2 ⟨fun _ => hstop, fun passkey' _ => ?_⟩)
    refine (obeys_bind _ _).2 (obeys_check.2 ⟨fun _ _ => hstop, fun publicKey _ => ?_⟩)
    have hahead : row.counter ≤ (env.counter result).toNat ∧
        (0 < row.counter → row.counter < (env.counter result).toNat) := by
      omega
    refine (obeys_bind _ _).2 (obeys_askPasskey ⟨hahead, _, Multiset.mem_singleton_self _⟩ (fun updated => ?_)
      fun e e' => hstop)
    by_cases hone : updated = 1
    · subst hone
      have hupdated : progress (A := env.Authentication) {.locked tx row.id (env.credId result)}
          (.update tx (env.counter result).toNat publicKey row.id userId row.counter) (.ok 1) =
            {.updated tx (env.credId result) (env.counter result).toNat} := by
        simp [progress, started, Stage.after]
      rw [hupdated]
      refine (obeys_bind _ _).2 (obeys_reject.2 ⟨fun hne => absurd rfl hne, fun _ => ?_⟩)
      refine obeys_askPasskey ⟨_, _, Multiset.mem_singleton_self _⟩ (fun done => ?_) fun e e' => ?_
      · simp [progress, started, Stage.after]
      · refine ⟨.uncertain tx, ?_, fun tx credId counter h => nomatch Multiset.mem_singleton.1 h⟩
        simp [progress, started, Stage.after]
    · have hsame : progress (A := env.Authentication) {.locked tx row.id (env.credId result)}
          (.update tx (env.counter result).toNat publicKey row.id userId row.counter) (.ok updated) =
            {.locked tx row.id (env.credId result)} := by
        simp [progress, started, Stage.after, hone]
      rw [hsame]
      exact (obeys_bind _ _).2 (obeys_reject.2 ⟨fun _ => hstop, fun hnot => absurd hone hnot⟩)

theorem obeys_authenticationFinish (credential : env.Credential) :
    (authenticationFinish credential).Obeys (rules _)
      (fun answer g => ∃ tx, g = {.committed tx answer.2.credId answer.2.counter.toNat}) (fun _ => Uncommitted) 0 := by
  have hzero : Uncommitted 0 := fun tx credId counter => Multiset.notMem_zero _
  refine (obeys_bind _ _).2 (obeys_askSession trivial (fun authentication => ?_) fun e e' => hzero)
  refine (obeys_bind _ _).2 (obeys_orThrow.2 ⟨fun _ => hzero, fun authentication' _ => ?_⟩)
  refine (obeys_bind _ _).2 (obeys_askSession trivial (fun user => ?_) fun e e' => hzero)
  refine (obeys_bind _ _).2 (obeys_orThrow.2 ⟨fun _ => hzero, fun userId _ => ?_⟩)
  refine (obeys_bind _ _).2 (obeys_reject.2 ⟨fun _ => hzero, fun _ => ?_⟩)
  refine (obeys_bind _ _).2 (obeys_check.2 ⟨fun _ _ => hzero, fun result _ => ?_⟩)
  refine (obeys_bind _ _).2 (obeys_inTransaction fun tx => obeys_advanceCounter.mono ?_ fun _ _ h => h)
  rintro - g rfl
  have hlost : ∀ {stage : Stage}, stage = .loggedOut tx → Uncommitted {stage} := by
    rintro stage rfl tx credId counter h
    exact nomatch Multiset.mem_singleton.1 h
  refine (obeys_bind _ _).2 (obeys_askSession trivial (fun _ => ?_) fun e e' => hlost rfl)
  refine (obeys_bind _ _).2 (obeys_askSession trivial (fun _ => ?_) fun e e' => hlost rfl)
  exact ⟨tx, rfl⟩

/-- **Every request** keeps to the rules. -/
theorem obeys_servePasskey (req : PasskeyRequest env) : (servePasskey req).Obeys (rules _) Ended 0 := by
  cases req with
  | finish credential =>
    refine (Prog.obeys_bind _ _ _).2 (Prog.Obeys.mono (obeys_authenticationFinish credential) fun r g hr => ?_)
    cases r with
    | ok answer => exact hr
    | error e => exact hr
  | disconnect tx => exact ⟨trivial, fun r g' _ => trivial⟩

end Obeys

/-! ## Runs -/

section Runs

variable {env : PasskeyEnv} {faults : Prop}

/-- Requests in progress, each with its stages. -/
abbrev PasskeyPool (env : PasskeyEnv) :=
  Pool PasskeyWorld (PasskeyRequest env × Multiset Stage) (PasskeyOp env.Authentication) PasskeyOp.Res PasskeyReply

/-- One step of any request. -/
abbrev LoginStep (env : PasskeyEnv) (faults : Prop) : PasskeyPool env → PasskeyPool env → Prop :=
  Tracked.Step progress (fun _ _ _ _ => True) (fun _ _ => True) servePasskey (execPasskey faults)

/-- What is reached from a table. -/
abbrev Reached (env : PasskeyEnv) (faults : Prop) (rows : Keyed PasskeyRow.id) : PasskeyPool env → Prop :=
  Tracked.Reachable progress (fun _ _ _ _ => True) (fun _ _ => True) servePasskey (execPasskey faults) (.idle rows)

/-- Two logins with a credential do not report the same counter, unless it is zero. -/
def NotReplayed (a b : PasskeyReply) : Prop :=
  ∀ r login r' login', a = .finished (.ok (r, login)) → b = .finished (.ok (r', login')) →
    login.credId = login'.credId → 0 < login.counter → login.counter ≠ login'.counter

variable {rows : Keyed PasskeyRow.id} {p q : PasskeyPool env}

theorem Reached.together (hp : Reached env faults rows p) : Together rows p.shared (Tracked.total p.threads) ∧
    ∀ t ∈ p.threads, t.2.Obeys (rules env.Authentication) Ended t.1.2 := by
  have hcode : ∀ req : PasskeyRequest env, (servePasskey req).Obeys (rules env.Authentication) Ended 0 :=
    obeys_servePasskey
  exact Tracked.Reachable.invariant (together_idle rows) hcode
    (fun _ _ _ _ _ _ _ hmay h _ hexec => ⟨trivial, h.step hmay (effect_of_exec hexec)⟩) (fun _ _ _ _ h => h.drop) hp

/-- What is stored advances in every run. -/
theorem Reached.advances (hp : Reached env faults rows p) (hq : ReflTransGen (LoginStep env faults) p q) :
    Advances p.shared.passkeys q.shared.passkeys := by
  induction hq with
  | refl => exact .refl _
  | @tail q q' hq hlast ih =>
    have hforward := (Reached.together (ReflTransGen.trans hp hq)).1.forward
    refine ih.trans ?_
    cases hlast with
    | spawn s ts i => exact .refl _
    | act _ hexec => exact hforward.step_advances (effect_of_exec hexec)
    | leave _ => exact .refl _

theorem mem_total {ts : Tracked.Threads (PasskeyRequest env) (Multiset Stage) (PasskeyOp env.Authentication)
    PasskeyOp.Res PasskeyReply} {t} (ht : t ∈ ts) {stage : Stage} (hstage : stage ∈ t.1.2) :
    stage ∈ Tracked.total ts := by
  obtain ⟨pre, post, rfl⟩ := List.append_of_mem ht
  rw [Tracked.total_middle]
  exact Multiset.mem_add.2 (.inl hstage)

/-- No two requests have a transaction in common. -/
theorem pairwise_of_total {ts : Tracked.Threads (PasskeyRequest env) (Multiset Stage) (PasskeyOp env.Authentication)
    PasskeyOp.Res PasskeyReply} (h : ((Tracked.total ts).map Stage.tx).Nodup) :
    ts.Pairwise fun t u => ∀ stage ∈ t.1.2, ∀ stage' ∈ u.1.2, stage.tx ≠ stage'.tx := by
  induction ts with
  | nil => exact .nil
  | cons t ts ih =>
    rw [Tracked.total_cons, Multiset.map_add, Multiset.nodup_add] at h
    refine .cons (fun u hu stage hstage stage' hstage' heq => ?_) (ih h.2.1)
    refine Multiset.disjoint_left.1 h.2.2 (Multiset.mem_map_of_mem Stage.tx hstage) ?_
    rw [heq]
    exact Multiset.mem_map_of_mem Stage.tx (mem_total hu hstage')

/-- Two updates of one credential do not write the same counter. -/
theorem Forward.ne_counter {table : PasskeyTable} {s : PasskeyWorld} (h : Forward table.rows s)
    {u u' : PasskeyUpdate} (hu : u ∈ s.history) (hu' : u' ∈ s.history) (htx : u.tx ≠ u'.tx)
    (hcred : u.row.credId = u'.row.credId) (hpos : 0 < u.row.counter) : u.row.counter ≠ u'.row.counter := by
  have horigin : ∀ {u}, u ∈ s.history → ∃ row ∈ table.rows, row.id = u.row.id ∧ row.credId = u.row.credId := by
    intro u hu
    obtain ⟨row, hrow, hnewer⟩ := h.written u hu
    obtain ⟨row₀, hrow₀, hnewer₀⟩ := h.advances.old row hrow
    exact ⟨row₀, hrow₀, hnewer₀.id.symm.trans hnewer.id, hnewer₀.credId.symm.trans hnewer.credId⟩
  obtain ⟨row, hrow, hid, hc⟩ := horigin hu
  obtain ⟨row', hrow', hid', hc'⟩ := horigin hu'
  obtain rfl := table.creds.eq hrow hrow' (hc.trans (hcred.trans hc'.symm))
  have hsame : u.row.id = u'.row.id := hid.symm.trans hid'
  -- one of the two is the later one
  obtain ⟨i, hi, rfl⟩ := List.getElem_of_mem hu
  obtain ⟨j, hj, rfl⟩ := List.getElem_of_mem hu'
  have hincreasing := List.pairwise_iff_getElem.1 h.increasing
  rcases lt_trichotomy i j with hlt | rfl | hlt
  · intro heq
    exact absurd (hincreasing i j hi hj hlt hsame (heq ▸ hpos)) (heq ▸ lt_irrefl _)
  · exact absurd rfl htx
  · exact (hincreasing j i hj hi hlt hsame.symm hpos).ne

/-- **Passkey counters only move forward**, in every run of any logins and whatever the authenticators report: no
stored counter decreases, no two logins that succeed report the same counter of a credential but zero, and a request
that fails has changed nothing, unless its `COMMIT` has failed or its session after the `COMMIT`.  The stored rows are
what the committed transactions have written. -/
theorem passkey_counters_advance {table : PasskeyTable} (hp : Reached env faults table.rows p)
    (hq : ReflTransGen (LoginStep env faults) p q) :
    Advances p.shared.passkeys q.shared.passkeys ∧
    (p.threads.Pairwise fun t u => ∀ a b, t.2 = .ret a → u.2 = .ret b → NotReplayed a b) ∧
    (∀ t ∈ p.threads, ∀ e, t.2 = .ret (.finished (.error e)) →
      ∀ stage ∈ t.1.2, stage.CommitAsked ∨ Unwritten p.shared stage.tx) ∧
    ∀ row, row ∈ p.shared.passkeys ↔ row ∈ replay table.rows p.shared.history := by
  obtain ⟨h, hobeys⟩ := Reached.together hp
  refine ⟨Reached.advances hp hq, ?_, fun t ht e hret stage hstage => ?_, h.forward.stored⟩
  · refine (pairwise_of_total h.nodup).imp_of_mem ?_
    rintro t u ht hu hdisjoint a b hta hub r login r' login' rfl rfl hcred hpos
    have hended := hobeys t ht
    have hended' := hobeys u hu
    rw [hta] at hended
    rw [hub] at hended'
    obtain ⟨tx, hstages⟩ : ∃ tx, t.1.2 = {.committed tx login.credId login.counter.toNat} := hended
    obtain ⟨tx', hstages'⟩ : ∃ tx, u.1.2 = {.committed tx login'.credId login'.counter.toNat} := hended'
    have hmem := hstages ▸ Multiset.mem_singleton_self _
    have hmem' := hstages' ▸ Multiset.mem_singleton_self _
    obtain ⟨w, hw, hwtx, hwcred, hwcounter⟩ := h.holds _ (mem_total ht hmem)
    obtain ⟨w', hw', hwtx', hwcred', hwcounter'⟩ := h.holds _ (mem_total hu hmem')
    have htx : w.tx ≠ w'.tx := by
      rw [hwtx, hwtx']
      exact hdisjoint _ hmem _ hmem'
    have hne := h.forward.ne_counter hw hw' htx (hwcred.trans (hcred.trans hwcred'.symm)) (by
      rw [hwcounter]
      exact_mod_cast hpos)
    rw [hwcounter, hwcounter'] at hne
    exact fun heq => hne (by rw [heq])
  · have hended : Uncommitted t.1.2 := by
      have hended := hobeys t ht
      rw [hret] at hended
      exact hended
    have hholds := h.holds stage (mem_total ht hstage)
    cases stage with
    | began tx => exact .inr hholds
    | locked tx id credId => exact .inr hholds.1
    | updated tx credId counter => exact .inr hholds.1
    | committed tx credId counter => exact absurd hstage (hended tx credId counter)
    | uncertain tx => exact .inl trivial
    | loggedOut tx => exact .inl trivial

end Runs

/-! ### Two logins -/

/-- An authenticator with one credential, which reports the counter it is told. -/
def oneKey : PasskeyEnv where
  Authentication := Unit
  Credential := UInt32
  Result := UInt32
  Passkey := UInt32
  configured := true
  finishPasskeyAuthentication := fun counter _ => .ok counter
  credId := fun _ => [7]
  counter := id
  fromSlice := fun bytes => .ok (bytes.headD 0).toUInt32
  updateCredential := fun _ counter => some counter
  toVec := fun counter => .ok [counter.toUInt8]
  parseUuid := fun _ => some 1

/-- Its row, when the counter is three. -/
def oneRow : PasskeyTable := ⟨⟨[⟨1, 1, [7], [3], 3⟩], List.nodup_singleton _⟩, List.nodup_singleton _⟩

/-- How an operation goes. -/
inductive Outcome where
  | done
  | failed
  /-- The `COMMIT` is carried out, but the answer is lost. -/
  | lost

/-- The answer to an operation. -/
def answerOutcome (outcome : Outcome) (s : PasskeyWorld) (op : PasskeyOp Unit) : op.Res × PasskeyWorld :=
  let answer := answerPasskey ⟨some (), some ['1']⟩ s op
  match outcome with
  | .done => answer
  | .failed => (.error (.sql (.io "connection closed")), s)
  | .lost => (.error (.sql (.io "connection closed")), answer.2)

/-- An operation can go so. -/
def canGo (faulty : Bool) (outcome : Outcome) (s : PasskeyWorld) (op : PasskeyOp Unit) : Bool :=
  match outcome, op with
  | .done, op => !waits s op
  | .failed, .commit _ => false
  | .failed, _ => faulty
  | .lost, .commit _ => faulty
  | .lost, _ => false

/-- Play a schedule. -/
def loginPool (turns : List (Tracked.Turn (PasskeyRequest oneKey) Outcome)) : PasskeyPool oneKey :=
  Tracked.play progress servePasskey answerOutcome (.idle oneRow.rows) turns

theorem reached_loginPool (faulty : Bool) (turns : List (Tracked.Turn (PasskeyRequest oneKey) Outcome))
    (hok : Tracked.playOk progress servePasskey answerOutcome (fun outcome s _ _ op => canGo faulty outcome s op)
      (fun _ _ => true) ⟨.idle oneRow.rows, []⟩ turns = true) :
    Reached oneKey (faulty = true) oneRow.rows (loginPool turns) := by
  refine Tracked.reachable_play (fun outcome s g f op hgo => ⟨trivial, ?_⟩) (fun _ _ _ => trivial) _ turns hok
  cases outcome with
  | done =>
    have hfree : waits s op = false := Bool.not_eq_true' _ ▸ hgo
    exact .inl ⟨hfree, ⟨some (), some ['1']⟩, rfl⟩
  | failed =>
    cases op with
    | commit tx => cases hgo
    | _ => exact .inr ⟨hgo, ⟨_, rfl⟩, rfl⟩
  | lost =>
    cases op with
    | commit tx => exact .inr ⟨hgo, ⟨_, rfl⟩, .inr rfl⟩
    | _ => cases hgo

/-- Two logins with the counters five and six; the one that begins first is the second to lock the row. -/
def twoLogins : List (Tracked.Turn (PasskeyRequest oneKey) Outcome) :=
  .spawn (.finish (6 : UInt32)) :: .spawn (.finish (5 : UInt32)) :: List.replicate 3 (.act 1 .done) ++
    List.replicate 6 (.act 0 .done) ++ List.replicate 5 (.act 1 .done) ++ List.replicate 2 (.act 0 .done)

theorem passkey_counters_advance_twoLogins :
    Advances oneRow.rows (loginPool twoLogins).shared.passkeys ∧
    ((loginPool twoLogins).threads.Pairwise fun t u => ∀ a b, t.2 = .ret a → u.2 = .ret b → NotReplayed a b) ∧
    (loginPool twoLogins).shared.passkeys.rows = [⟨1, 1, [7], [6], 6⟩] ∧
    (loginPool twoLogins).threads.map (fun t => t.1.2) =
      [{.committed 1 [7] 5}, {.committed 0 [7] 6}] := by
  have hrun : Reached oneKey (false = true) oneRow.rows (loginPool twoLogins) := 
    reached_loginPool false twoLogins (by decide)
  exact ⟨(passkey_counters_advance .refl hrun).1, (passkey_counters_advance hrun .refl).2.1, by decide, by decide⟩

/-- A login whose transaction has committed, and then the session fails. -/
def sessionFails : List (Tracked.Turn (PasskeyRequest oneKey) Outcome) :=
  .spawn (.finish (5 : UInt32)) :: List.replicate 7 (.act 0 .done) ++ [.act 0 .failed]

/-- A login that does not hear of its `COMMIT`. -/
def commitLost : List (Tracked.Turn (PasskeyRequest oneKey) Outcome) :=
  .spawn (.finish (5 : UInt32)) :: List.replicate 5 (.act 0 .done) ++ [.act 0 .lost, .act 0 .done]

/-- A request has ended with an error. -/
def failed (p : PasskeyPool oneKey) : Bool :=
  p.threads.all fun t => match t.2 with
    | .ret (.finished (.error _)) => true
    | _ => false

/-- **A login that fails advances the counter**, when it is the session that fails or the answer to the `COMMIT`. -/
theorem failed_login_advances :
    (Reached oneKey True oneRow.rows (loginPool sessionFails) ∧ failed (loginPool sessionFails) = true ∧
      (loginPool sessionFails).threads.length = 1 ∧
      (loginPool sessionFails).shared.passkeys.rows = [⟨1, 1, [7], [5], 5⟩]) ∧
    Reached oneKey True oneRow.rows (loginPool commitLost) ∧ failed (loginPool commitLost) = true ∧
      (loginPool commitLost).threads.length = 1 ∧
      (loginPool commitLost).shared.passkeys.rows = [⟨1, 1, [7], [5], 5⟩] := by
  have hany : ∀ {turns}, Tracked.playOk progress servePasskey answerOutcome
      (fun outcome s _ _ op => canGo true outcome s op) (fun _ _ => true) ⟨.idle oneRow.rows, []⟩ turns = true →
      Reached oneKey True oneRow.rows (loginPool turns) := by
    intro turns hok
    have hrun := reached_loginPool true turns hok
    rwa [eq_self] at hrun
  exact ⟨⟨hany (by decide), by decide, by decide, by decide⟩, hany (by decide), by decide, by decide, by decide⟩

end Passkeys
end Server
end Uwuubox
