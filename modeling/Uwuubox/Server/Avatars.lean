import Uwuubox.Server.Callers
import Uwuubox.Server.Sequential
import Uwuubox.Dedupe.Work
import Uwuubox.Prog.Tracked

/-!
# Avatars

`upload_avatar` of `src/routes/accounts.rs` puts the new bytes, deletes the key that it has read at its start,
and then updates the row.

* `avatarKey` — one key for each type of image; a key belongs to one user (`avatarKey_id_eq`).
* `AvatarWorld`, `AvatarOp`, `execAvatar` — the server with the column `avatar_key`, and what the store does.
* `uploadAvatar` — the handler.
* `AvatarToken`, `owned` — what an upload has done: written a temporary file, put a key, deleted one.
* `Spares`, `Recorded` — **the conditions**: no upload deletes a key that another one has put and not yet recorded, and none
  ends after it has deleted the key that is recorded.
* `avatar_stored_of_spares` — then the recorded avatar has its bytes when no upload is in progress.
* `avatar_dangles` — an upload whose `UPDATE` fails.
-/

namespace Uwuubox
namespace Server

open Dedupe Storage Table Fallible

/-! ## Keys -/

/-- The digits of a UUID. -/
def hexDigits (id : Uuid) : List Char := (List.range 32).map fun i => Nat.digitChar (id.toNat / 16 ^ (31 - i) % 16)

/-- A UUID as it is displayed. -/
def hyphenated (id : Uuid) : Text :=
  (hexDigits id).take 8 ++ '-' :: ((hexDigits id).drop 8).take 4 ++ '-' :: ((hexDigits id).drop 12).take 4 ++
    '-' :: ((hexDigits id).drop 16).take 4 ++ '-' :: (hexDigits id).drop 20

theorem mem_hexDigits {id : Uuid} {c : Char} (h : c ∈ hexDigits id) : c ≠ '.' ∧ c ≠ '/' := by
  obtain ⟨i, -, rfl⟩ := List.mem_map.1 h
  have hdigit : ∀ n < 16, Nat.digitChar n ≠ '.' ∧ Nat.digitChar n ≠ '/' := by decide
  exact hdigit _ (Nat.mod_lt _ (by decide))

theorem mem_hyphenated {id : Uuid} {c : Char} (h : c ∈ hyphenated id) : c ≠ '.' ∧ c ≠ '/' := by
  have hdash : '-' ≠ '.' ∧ '-' ≠ '/' := by decide
  have htake : ∀ m n, c ∈ ((hexDigits id).drop m).take n → c ≠ '.' ∧ c ≠ '/' :=
    fun m n hmem => mem_hexDigits (List.mem_of_mem_drop (List.mem_of_mem_take hmem))
  simp only [hyphenated, List.mem_append, List.mem_cons] at h
  rcases h with (((h | rfl | h) | rfl | h) | rfl | h) | rfl | h
  · exact htake 0 8 h
  · exact hdash
  · exact htake 8 4 h
  · exact hdash
  · exact htake 12 4 h
  · exact hdash
  · exact htake 16 4 h
  · exact hdash
  · exact mem_hexDigits (List.mem_of_mem_drop h)

/-- `avatar_key`. -/
def avatarKey (id : Uuid) (ext : Ext) : SafeKey :=
  ⟨['a', 'v', 'a', 't', 'a', 'r', 's', '/'] ++ hyphenated id ++ ext.val, by
    refine assertSafeKey_of_count (by decide) ?_
    show (['a', 'v', 'a', 't', 'a', 'r', 's', '/'] ++ hyphenated id ++ ext.val).count '.' ≤ 1
    have hid : (hyphenated id).count '.' = 0 := List.count_eq_zero.2 fun h => (mem_hyphenated h).1 rfl
    have hext := count_dot_ext ext
    rw [List.count_append, List.count_append, hid]
    simpa using hext⟩

/-- Some user's avatar would be stored here. -/
def IsAvatarKey (key : SafeKey) : Prop := ∃ id ext, key = avatarKey id ext

/-- Digits that agree are digits of one number. -/
theorem eq_of_digits {m n : ℕ} (k : ℕ) (hm : m < 16 ^ k) (hn : n < 16 ^ k)
    (h : ∀ i < k, m / 16 ^ i % 16 = n / 16 ^ i % 16) : m = n := by
  induction k generalizing m n with
  | zero => omega
  | succ k ih =>
    have hhead := h 0 (Nat.succ_pos k)
    have hrest : m / 16 = n / 16 := by
      refine ih (by rw [pow_succ] at hm; omega) (by rw [pow_succ] at hn; omega) fun i hi => ?_
      have hdigit := h (i + 1) (Nat.succ_lt_succ hi)
      rwa [Nat.pow_succ', ← Nat.div_div_eq_div_mul, ← Nat.div_div_eq_div_mul] at hdigit
    simp only [pow_zero, Nat.div_one] at hhead
    omega

theorem hexDigits_injective : Function.Injective hexDigits := by
  intro id id' h
  have hdigit : ∀ a < 16, ∀ b < 16, Nat.digitChar a = Nat.digitChar b → a = b := by decide
  refine BitVec.eq_of_toNat_eq (eq_of_digits 32 id.isLt id'.isLt fun i hi => ?_)
  have hi' : 31 - i < (List.range 32).length := by rw [List.length_range]; omega
  have hget := congrArg (fun cs => cs[31 - i]?) h
  simp only [hexDigits, List.getElem?_map, List.getElem?_range (show 31 - i < 32 by omega), Option.map_some,
    Option.some.injEq] at hget
  rw [show 31 - (31 - i) = i by omega] at hget
  exact hdigit _ (Nat.mod_lt _ (by decide)) _ (Nat.mod_lt _ (by decide)) hget

theorem length_hexDigits (id : Uuid) : (hexDigits id).length = 32 := by simp [hexDigits]

/-- The digits, without the dashes. -/
theorem filter_hyphenated (id : Uuid) : (hyphenated id).filter (· ≠ '-') = hexDigits id := by
  have hall : ∀ c ∈ hexDigits id, c ≠ '-' := by
    intro c hc
    obtain ⟨i, -, rfl⟩ := List.mem_map.1 hc
    have hdigit : ∀ n < 16, Nat.digitChar n ≠ '-' := by decide
    exact hdigit _ (Nat.mod_lt _ (by decide))
  have hpiece : ∀ m n, (((hexDigits id).drop m).take n).filter (· ≠ '-') = ((hexDigits id).drop m).take n :=
    fun m n => List.filter_eq_self.2 fun c hc =>
      decide_eq_true (hall c (List.mem_of_mem_drop (List.mem_of_mem_take hc)))
  have hlast : ((hexDigits id).drop 20).filter (· ≠ '-') = (hexDigits id).drop 20 :=
    List.filter_eq_self.2 fun c hc => decide_eq_true (hall c (List.mem_of_mem_drop hc))
  have hfirst : ((hexDigits id).take 8).filter (· ≠ '-') = (hexDigits id).take 8 := hpiece 0 8
  have hdash : ∀ cs : List Char, ('-' :: cs).filter (· ≠ '-') = cs.filter (· ≠ '-') := fun cs => rfl
  unfold hyphenated
  simp only [List.filter_append, hdash, hpiece, hlast, hfirst, List.append_assoc]
  have hjoin : ∀ m n k, m + n = k → ((hexDigits id).drop m).take n ++ (hexDigits id).drop k = (hexDigits id).drop m := by
    rintro m n _ rfl
    rw [← List.drop_drop, List.take_append_drop]
  rw [hjoin 16 4 20 rfl, hjoin 12 4 16 rfl, hjoin 8 4 12 rfl, List.take_append_drop]

theorem length_hyphenated (id : Uuid) : (hyphenated id).length = 36 := by simp [hyphenated, length_hexDigits]

/-- **A key belongs to one user.** -/
theorem avatarKey_id_eq {id id' : Uuid} {ext ext' : Ext} (h : avatarKey id ext = avatarKey id' ext') : id = id' := by
  have hval : ['a', 'v', 'a', 't', 'a', 'r', 's', '/'] ++ (hyphenated id ++ ext.val) =
      ['a', 'v', 'a', 't', 'a', 'r', 's', '/'] ++ (hyphenated id' ++ ext'.val) := by
    simpa only [avatarKey, List.append_assoc] using congrArg Subtype.val h
  have hlen : (hyphenated id).length = (hyphenated id').length := by rw [length_hyphenated, length_hyphenated]
  have heq := (List.append_inj (List.append_cancel_left hval) hlen).1
  exact hexDigits_injective (by rw [← filter_hyphenated, ← filter_hyphenated, heq])

/-- `avatar_ext`. -/
def avatarExt (mime : Text) : Option Ext :=
  if mime = ['i', 'm', 'a', 'g', 'e', '/', 'p', 'n', 'g'] then some ⟨['.', 'p', 'n', 'g'], rfl⟩
  else if mime = imageJpeg then some ⟨['.', 'j', 'p', 'g'], rfl⟩
  else if mime = ['i', 'm', 'a', 'g', 'e', '/', 'g', 'i', 'f'] then some ⟨['.', 'g', 'i', 'f'], rfl⟩
  else if mime = ['i', 'm', 'a', 'g', 'e', '/', 'w', 'e', 'b', 'p'] then some ⟨['.', 'w', 'e', 'b', 'p'], rfl⟩
  else if mime = ['i', 'm', 'a', 'g', 'e', '/', 'a', 'v', 'i', 'f'] then some ⟨['.', 'a', 'v', 'i', 'f'], rfl⟩
  else none

theorem slash_not_mem_ext (ext : Ext) : '/' ∉ ext.val := by
  obtain ⟨cs, h⟩ := ext
  cases cs with
  | nil => exact List.not_mem_nil
  | cons dot tail =>
    simp only [isExt, Bool.and_eq_true, List.all_eq_true, beq_iff_eq] at h
    intro hmem
    rcases List.mem_cons.1 hmem with hdot | hmem
    · rw [h.1.1.1] at hdot
      exact absurd hdot (by decide)
    · exact absurd (h.2 _ hmem) (by decide)

theorem hyphenated_ne_nil (id : Uuid) : hyphenated id ≠ [] := by simp [hyphenated]

/-- A temporary file is not an avatar. -/
theorem tempName_not_avatarKey {key tmp : SafeKey} (h : TempName key tmp) (hkey : IsAvatarKey key) :
    ¬ IsAvatarKey tmp := by
  obtain ⟨simple, htmp⟩ := h
  obtain ⟨id, ext, rfl⟩ := hkey
  rintro ⟨id', ext', rfl⟩
  have hslash : '/' ∉ hyphenated id ++ ext.val := by
    intro hmem
    rcases List.mem_append.1 hmem with hmem | hmem
    · exact (mem_hyphenated hmem).2 rfl
    · exact slash_not_mem_ext ext hmem
  have hkey : (avatarKey id ext).val = ['a', 'v', 'a', 't', 'a', 'r', 's'] ++ '/' :: (hyphenated id ++ ext.val) := by
    simp [avatarKey]
  have hdirectory : directory (avatarKey id ext) = ['a', 'v', 'a', 't', 'a', 'r', 's', '/'] :=
    directory_append hkey hslash
  rw [hdirectory] at htmp
  have hname : hyphenated id' ++ ext'.val = ['.', 't', 'm', 'p', '-'] ++ simple.val :=
    List.append_cancel_left ((List.append_assoc _ _ _).symm.trans (htmp.trans (List.append_assoc _ _ _)))
  obtain ⟨c, cs, hcons⟩ := List.exists_cons_of_ne_nil (hyphenated_ne_nil id')
  rw [hcons] at hname
  obtain rfl : c = '.' := (List.cons.inj hname).1
  have hdot : '.' ∈ hyphenated id' := hcons ▸ List.mem_cons_self
  exact (mem_hyphenated hdot).1 rfl

/-! ## The state and the operations -/

/-- The server, with `users.avatar_key`. -/
structure AvatarWorld where
  server : World
  avatarKey : Uuid → Option SafeKey

/-- The store holds bytes at the key. -/
def AvatarWorld.Stored (s : AvatarWorld) (key : SafeKey) : Prop := (s.server.dedupe.store key).isSome

instance (s : AvatarWorld) (key : SafeKey) : Decidable (s.Stored key) := inferInstanceAs (Decidable (_ = true))

/-- One operation of an upload of an avatar. -/
inductive AvatarOp where
  | server (op : Op)
  /-- One step of `LocalStore::put`. -/
  | file (op : FileOp)
  /-- `S3Store::put` -/
  | putObject (key : SafeKey) (bytes : Bytes)
  /-- `Store::delete` -/
  | delete (key : SafeKey)
  /-- `UPDATE users SET avatar_key = $1 WHERE id = $2` -/
  | setAvatarKey (id : Uuid) (key : SafeKey)

/-- What an operation returns; a statement of the server also shows `avatar_key` of the rows it returns. -/
abbrev AvatarOp.Res : AvatarOp → Type
  | server op => op.Res × (Uuid → Option SafeKey)
  | file op => op.Res
  | putObject _ _ => Except Failure Unit
  | delete _ => Except Failure Unit
  | setAvatarKey _ _ => Except Failure Unit

/-- The store with other bytes at a key. -/
def AvatarWorld.store (s : AvatarWorld) (key : SafeKey) (bytes : Option Bytes) : AvatarWorld :=
  { s with server.dedupe.store := Function.update s.server.dedupe.store key bytes }

/-- What one operation can do.  What a request to the bucket does that fails is not known. -/
def execAvatar (backend : Backend) (faults : Prop) (s : AvatarWorld) :
    (op : AvatarOp) → op.Res → AvatarWorld → Prop
  | .server op, r, s' => ∃ w, exec (fun _ => faults) s.server op r.1 w ∧ r.2 = s.avatarKey ∧ s' = { s with server := w }
  | .file op, r, s' => ∃ d, execFile faults s.server.dedupe op r d ∧ s' = { s with server.dedupe := d }
  | .putObject key bytes, r, s' => (r = .ok () ∧ s' = s.store key (some bytes)) ∨
      (faults ∧ (∃ e, r = .error e) ∧ (s' = s ∨ s' = s.store key (some bytes)))
  | .delete key, r, s' => (r = .ok () ∧ s' = s.store key none) ∨
      (faults ∧ (∃ e, r = .error e) ∧ (s' = s ∨ backend = .s3 ∧ s' = s.store key none))
  | .setAvatarKey id key, r, s' =>
      (r = .ok () ∧ s' = { s with avatarKey := Function.update s.avatarKey id (some key) }) ∨
      (faults ∧ (∃ e, r = .error e) ∧ s' = s)

/-! ## The handler -/

abbrev AvatarProg (α : Type) := Prog AvatarOp AvatarOp.Res α

abbrev AvatarHandler (α : Type) := Fallible AvatarOp AvatarOp.Res Abort α

/-- The statement returns a row of `users`. -/
def Op.readsUser : Op → Bool
  | findUserById _ | findUserByName _ | findOidcUser _ _ | tokenIdentity _ => true
  | _ => false

/-- What the server does, and `avatar_key` as the last statement that returned a user has shown it. -/
def withAvatars {α : Type} (shown : Uuid → Option SafeKey) :
    Query α → AvatarProg (α × (Uuid → Option SafeKey))
  | .ret a => .ret (a, shown)
  | .call op k => .call (.server op) fun r => withAvatars (if op.readsUser then r.2 else shown) (k r.1)

/-- A handler of the server. -/
def onAvatars {α : Type} (p : Handler α) : AvatarHandler α := do
  let (r, _) ← always (withAvatars (fun _ => none) p.run)
  check r

/-- An operation followed by `?`. -/
def askAvatar (p : AvatarProg (Except Failure Unit)) : AvatarHandler Unit := do
  match ← always p with
  | .ok () => pure ()
  | .error e => throw (Abort.error (.from' e))

/-- `Store::put`. -/
def putAvatar (backend : Backend) (key : SafeKey) (bytes : Bytes) : AvatarProg (Except Failure Unit) :=
  match backend with
  | .localFs => (localPut key bytes).interp fun op => Prog.perform (AvatarOp.file op)
  | .s3 => Prog.perform (AvatarOp.putObject key bytes)

/-- A field of the form, as the loop over the fields gets it. -/
inductive AvatarField where
  /-- `avatar` or `file`; an error where the bytes cannot be read. -/
  | avatar (bytes : Except String Bytes)
  | other
  | malformed (msg : String)

/-- One turn of the loop over the fields. -/
def readAvatarField (data : Option Bytes) : AvatarField → Except Abort (Option Bytes)
  | .avatar (.ok bytes) => .ok (some bytes)
  | .avatar (.error msg) => .error (AppError.badRequest s!"unreadable upload: {msg}")
  | .other => .ok data
  | .malformed msg => .error (AppError.badRequest s!"malformed multipart: {msg}")

/-- Delete the old avatar, unless the new one is in its place.  A failure is only logged. -/
def deleteOld (old : Option SafeKey) (key : SafeKey) : AvatarProg Unit :=
  match old with
  | none => pure ()
  | some old =>
    if old = key then pure ()
    else do
      let _ ← Prog.perform (AvatarOp.delete old)
      pure ()

/-- From the sniffed bytes on. -/
def storeAvatar (backend : Backend) (id : Uuid) (old : Option SafeKey) (key : SafeKey) (data : Bytes) :
    AvatarHandler Unit := do
  askAvatar (putAvatar backend key data)
  always (deleteOld old key)
  askAvatar (Prog.perform (AvatarOp.setAvatarKey id key))

/-- `upload_avatar`. -/
def uploadAvatar (env : Env) (backend : Backend) (caller : Caller) (fields : List AvatarField) :
    AvatarHandler Response := do
  let (found, shown) ← always (withAvatars (fun _ => none) (currentUser env caller))
  let user ← orThrow found AppError.unauthorized
  let cfg ← onAvatars (ask .instanceConfig)
  let limits ← onAvatars (effectiveLimits cfg (some user))
  let data ← check (fields.foldlM readAvatarField none)
  let data ← orThrow data (AppError.badRequest "missing avatar field")
  reject ((data.length : ℤ) > limits.maxAvatarBytes) (AppError.tooLarge limits.maxAvatarBytes)
  let ext ← orThrow (avatarExt (env.sniffMime data)) (AppError.unsupportedMedia (env.sniffMime data))
  storeAvatar backend user.id (shown user.id) (avatarKey user.id ext) data
  pure (.seeOther accountPath)

/-- What is asked for, and the time that passes. -/
inductive AvatarRequest where
  | upload (caller : Caller) (fields : List AvatarField)
  | clock (dt : ℕ)

/-- The program of a request. -/
def serveAvatar (env : Env) (backend : Backend) : AvatarRequest → AvatarProg Outcome
  | .upload caller fields => (uploadAvatar env backend caller fields).run
  | .clock dt => do
    let _ ← Prog.perform (AvatarOp.server (.tick dt))
    pure (.ok .nothing)

/-- The request is not by another user. -/
def AvatarRequest.By (env : Env) (w : World) (userId : Uuid) : AvatarRequest → Prop
  | .upload caller _ => ∀ id, MadeBy env w caller id → id = userId
  | .clock _ => True

/-! ## What an upload has done -/

/-- What an upload has done to the store. -/
inductive AvatarToken where
  | temp (tmp : SafeKey)
  | put (key : SafeKey)
  | deleted (key : SafeKey)
deriving DecidableEq

/-- What an upload has done since it began, until it has recorded its key.  A request to the bucket to delete
a key may have been carried out though it failed. -/
def owned (backend : Backend) (g : Multiset AvatarToken) : (op : AvatarOp) → op.Res → Multiset AvatarToken
  | .file (.create _ _), r => {.temp r.1} + g
  | .file (.rename _ key), .ok () => {.put key} + g
  | .putObject key _, .ok () => {.put key} + g
  | .delete key, .ok () => {.deleted key} + g
  | .delete key, .error _ => if backend = .s3 then {.deleted key} + g else g
  | .setAvatarKey _ _, .ok () => 0
  | _, _ => g

/-- **The first condition**: no upload deletes a key that another one has put and not yet recorded. -/
def Spares (_ : AvatarWorld) (_g others : Multiset AvatarToken) (op : AvatarOp) : Prop :=
  ∀ key, op = .delete key → .put key ∉ others

/-- **The second condition**: no upload ends after it has deleted the key that is recorded. -/
def Recorded (userId : Uuid) (s : AvatarWorld) (g : Multiset AvatarToken) : Prop :=
  ∀ key, .deleted key ∈ g → s.avatarKey userId ≠ some key

/-- What an upload of the user performs. -/
def MayAvatar (userId : Uuid) (g : Multiset AvatarToken) : AvatarOp → Prop
  | .server op => op.area = none ∨ ∃ dt, op = .tick dt
  | .file (.create key _) => IsAvatarKey key
  | .file (.rename tmp key) => .temp tmp ∈ g ∧ IsAvatarKey key
  | .file _ => False
  | .putObject key _ => IsAvatarKey key
  | .delete key => .put key ∉ g
  | .setAvatarKey id key => id = userId ∧ .put key ∈ g

/-- The answers, where the sessions and the tokens are these. -/
def ShowsAccounts (w : World) : (op : AvatarOp) → op.Res → Prop
  | .server (.session sid), (.ok session, _) => session = w.sessions sid
  | .server (.findUserById id), (.ok (some u), _) => u.id = id
  | .server (.tokenIdentity hash), (.ok (some (u, _)), _) =>
    ∃ row ∈ w.apiTokens, row.tokenHash = hash ∧ row.userId = u.id
  | _, _ => True

/-! ## The invariant -/

/-- **The invariant**: what has been put and not yet recorded is stored, and if the recorded avatar is not, an upload
in progress has deleted it. -/
structure Kept (w : World) (userId : Uuid) (s : AvatarWorld) (total : Multiset AvatarToken) : Prop where
  sessions : s.server.sessions = w.sessions
  apiTokens : s.server.apiTokens = w.apiTokens
  temps : ∀ tmp, .temp tmp ∈ total → ¬ IsAvatarKey tmp
  puts : ∀ key, .put key ∈ total → IsAvatarKey key ∧ s.Stored key
  recorded : ∀ key, s.avatarKey userId = some key →
    (s.Stored key ∧ .temp key ∉ total) ∨ .deleted key ∈ total

section Step

variable {w : World} {userId : Uuid} {s s' : AvatarWorld} {t t' g f : Multiset AvatarToken} {backend : Backend}
  {faults : Prop}

theorem stored_store {key key' : SafeKey} {bytes : Option Bytes} :
    (s.store key bytes).Stored key' ↔ if key' = key then bytes.isSome = true else s.Stored key' := by
  unfold AvatarWorld.Stored AvatarWorld.store
  by_cases heq : key' = key
  · subst heq
    simp
  · simp [heq]

/-- Where only temporary files go, the invariant stays. -/
theorem Kept.grow (h : Kept w userId s t) (hcolumn : s'.avatarKey = s.avatarKey)
    (hsessions : s'.server.sessions = s.server.sessions) (hapiTokens : s'.server.apiTokens = s.server.apiTokens)
    (hstored : ∀ key, s.Stored key → .temp key ∉ t' → s'.Stored key)
    (htemps : ∀ tmp, .temp tmp ∈ t' → .temp tmp ∈ t ∨ ¬ IsAvatarKey tmp ∧ ¬ s.Stored tmp)
    (hputs : ∀ key, .put key ∈ t' → .put key ∈ t ∨ IsAvatarKey key ∧ s'.Stored key)
    (hdeleted : ∀ key, .deleted key ∈ t → .deleted key ∈ t') : Kept w userId s' t' := by
  have hnames : ∀ tmp, .temp tmp ∈ t' → ¬ IsAvatarKey tmp := by
    intro tmp htmp
    rcases htemps tmp htmp with hold | hnew
    · exact h.temps tmp hold
    · exact hnew.1
  refine ⟨hsessions.trans h.sessions, hapiTokens.trans h.apiTokens, hnames, fun key hkey => ?_, fun key hkey => ?_⟩
  · rcases hputs key hkey with hold | hnew
    · obtain ⟨hname, hkept⟩ := h.puts key hold
      exact ⟨hname, hstored key hkept fun htmp => hnames key htmp hname⟩
    · exact hnew
  · rcases h.recorded key (hcolumn ▸ hkey) with ⟨hkept, hfresh⟩ | hgone
    · have htmp : .temp key ∉ t' := fun htmp => (htemps key htmp).elim hfresh fun hnew => hnew.2 hkept
      exact .inl ⟨hstored key hkept htmp, htmp⟩
    · exact .inr (hdeleted key hgone)

/-- A key is deleted that no upload has put and not yet recorded. -/
theorem Kept.delete (h : Kept w userId s (g + f)) {key : SafeKey} (hown : .put key ∉ g) (hothers : .put key ∉ f) :
    Kept w userId (s.store key none) ({.deleted key} + g + f) := by
  have hmem : ∀ token, token ∈ {.deleted key} + g + f ↔ token = .deleted key ∨ token ∈ g + f := by
    intro token
    rw [add_assoc, Multiset.mem_add, Multiset.mem_singleton]
  refine ⟨h.sessions, h.apiTokens, fun tmp htmp => ?_, fun key' hkey' => ?_, fun key' hkey' => ?_⟩
  · exact h.temps tmp (((hmem _).1 htmp).resolve_left (by simp))
  · have hput : .put key' ∈ g + f := ((hmem _).1 hkey').resolve_left (by simp)
    have hne : key' ≠ key := by
      rintro rfl
      exact (Multiset.mem_add.1 hput).elim hown hothers
    obtain ⟨hname, hkept⟩ := h.puts key' hput
    rw [stored_store, if_neg hne]
    exact ⟨hname, hkept⟩
  · by_cases heq : key' = key
    · exact .inr ((hmem _).2 (.inl (heq ▸ rfl)))
    · rw [stored_store, if_neg heq]
      rcases h.recorded key' hkey' with ⟨hkept, hfresh⟩ | hgone
      · exact .inl ⟨hkept, fun htmp => hfresh (((hmem _).1 htmp).resolve_left (by simp))⟩
      · exact .inr ((hmem _).2 (.inr hgone))

/-- A key is left that might have been deleted. -/
theorem Kept.mark (h : Kept w userId s t) (key : SafeKey) : Kept w userId s ({.deleted key} + t) := by
  have hold : ∀ token, token ∈ {.deleted key} + t → token ≠ .deleted key → token ∈ t := by
    intro token hmem hne
    rw [Multiset.mem_add, Multiset.mem_singleton] at hmem
    exact hmem.resolve_left hne
  exact h.grow rfl rfl rfl (fun _ hkey _ => hkey) (fun tmp htmp => .inl (hold _ htmp (by simp)))
    (fun key' hkey' => .inl (hold _ hkey' (by simp))) fun _ hkey' => Multiset.mem_add.2 (.inr hkey')

/-- A key is recorded that has been put. -/
theorem Kept.record (h : Kept w userId s (g + f)) {key : SafeKey} (hput : .put key ∈ g) :
    Kept w userId { s with avatarKey := Function.update s.avatarKey userId (some key) } (0 + f) := by
  have hrest : ∀ token, token ∈ 0 + f → token ∈ g + f := by
    intro token hmem
    rw [zero_add] at hmem
    exact Multiset.mem_add.2 (.inr hmem)
  refine ⟨h.sessions, h.apiTokens, fun tmp htmp => h.temps tmp (hrest _ htmp),
    fun key' hkey' => h.puts key' (hrest _ hkey'), fun key' hkey' => ?_⟩
  simp only [Function.update_self] at hkey'
  obtain rfl := Option.some.inj hkey'
  obtain ⟨hname, hkept⟩ := h.puts key (Multiset.mem_add.2 (.inl hput))
  exact .inl ⟨hkept, fun htmp => h.temps key (hrest _ htmp) hname⟩

/-- An upload ends that has not deleted the recorded avatar. -/
theorem Kept.leave (h : Kept w userId s (g + f)) (hg : Recorded userId s g) : Kept w userId s f where
  sessions := h.sessions
  apiTokens := h.apiTokens
  temps tmp htmp := h.temps tmp (Multiset.mem_add.2 (.inr htmp))
  puts key hkey := h.puts key (Multiset.mem_add.2 (.inr hkey))
  recorded key hkey := by
    rcases h.recorded key hkey with ⟨hkept, hfresh⟩ | hgone
    · exact .inl ⟨hkept, fun htmp => hfresh (Multiset.mem_add.2 (.inr htmp))⟩
    · exact .inr ((Multiset.mem_add.1 hgone).resolve_left fun hmem => hg key hmem hkey)

/-- The answers of the server are about the sessions and the tokens there are. -/
theorem exec_showsAccounts {op : Op} {r : op.Res} {shown : Uuid → Option SafeKey} {server : World}
    (hexec : exec (fun _ => faults) s.server op r server) (h : Kept w userId s t) :
    ShowsAccounts w (.server op) (r, shown) := by
  cases op with
  | session sid =>
    rcases exec_statement hexec rfl with heq | ⟨-, ⟨_, rfl⟩, -⟩
    · cases heq
      exact congrFun h.sessions sid
    · trivial
  | findUserById id =>
    rcases exec_statement hexec rfl with heq | ⟨-, ⟨_, rfl⟩, -⟩
    · obtain rfl : r = .ok (s.server.users.find? id) := congrArg Prod.fst heq
      cases hfind : s.server.users.find? id with
      | none => trivial
      | some u => exact (Keyed.mem_of_find? hfind).2
    · trivial
  | tokenIdentity hash =>
    rcases exec_statement hexec rfl with heq | ⟨-, ⟨_, rfl⟩, -⟩
    · match r, congrArg Prod.fst heq with
      | .ok (some (u, scopes)), hr =>
        obtain ⟨-, row, hrow, hhash, hid⟩ := tokenIdentity_found hr.symm
        exact ⟨row, h.apiTokens ▸ hrow, hhash, hid⟩
      | .ok none, _ => trivial
    · trivial
  | _ => trivial

/-- What the server reads for an upload, and the time, leave everything as it is. -/
theorem Kept.server (h : Kept w userId s t) {op : Op} {r : op.Res} {server : World}
    (hop : op.area = none ∨ ∃ dt, op = .tick dt) (hexec : exec (fun _ => faults) s.server op r server) :
    Kept w userId { s with server := server } t := by
  have hframe : server.sessions = s.server.sessions ∧ server.apiTokens = s.server.apiTokens ∧
      server.dedupe = s.server.dedupe := by
    rcases hop with harea | ⟨dt, rfl⟩
    · obtain rfl := exec_read hexec harea
      exact ⟨rfl, rfl, rfl⟩
    · obtain ⟨_, rfl⟩ := exec_frame hexec
      exact ⟨rfl, rfl, rfl⟩
  obtain ⟨hsessions, hapiTokens, hdedupe⟩ := hframe
  refine h.grow rfl hsessions hapiTokens (fun key hkey _ => ?_) (fun _ => .inl) (fun _ => .inl) fun _ => id
  unfold AvatarWorld.Stored at hkey ⊢
  simp only [hdedupe]
  exact hkey

/-- A temporary file is created. -/
theorem Kept.create (h : Kept w userId s t) {key : SafeKey} {bytes : Bytes} {r : (FileOp.create key bytes).Res}
    {d : Dedupe.World} (hkey : IsAvatarKey key) (hexec : execFile faults s.server.dedupe (.create key bytes) r d) :
    Kept w userId { s with server.dedupe := d } ({.temp r.1} + t) := by
  obtain ⟨hname, hfresh, hsame, -⟩ := execFile_create hexec
  have hmem : ∀ token, token ∈ {.temp r.1} + t ↔ token = .temp r.1 ∨ token ∈ t := by
    intro token
    rw [Multiset.mem_add, Multiset.mem_singleton]
  refine h.grow rfl rfl rfl (fun key' hkey' htmp => ?_) (fun tmp htmp => ?_)
    (fun key' hkey' => .inl (((hmem _).1 hkey').resolve_left (by simp))) fun _ hkey' => (hmem _).2 (.inr hkey')
  · have hne : key' ≠ r.1 := by
      rintro rfl
      exact htmp ((hmem _).2 (.inl rfl))
    unfold AvatarWorld.Stored
    rw [hsame.store key' hne]
    exact hkey'
  · rcases (hmem _).1 htmp with heq | hold
    · obtain rfl := AvatarToken.temp.inj heq
      refine .inr ⟨tempName_not_avatarKey hname hkey, ?_⟩
      simp [AvatarWorld.Stored, hfresh]
    · exact .inl hold

/-- A temporary file is renamed. -/
theorem Kept.rename (h : Kept w userId s t) {tmp key : SafeKey} {r : (FileOp.rename tmp key).Res} {d : Dedupe.World}
    (htmp : .temp tmp ∈ t) (hkey : IsAvatarKey key)
    (hexec : execFile faults s.server.dedupe (.rename tmp key) r d) :
    (r = .ok () → Kept w userId { s with server.dedupe := d } ({.put key} + t)) ∧
      ((∃ e, r = .error e) → Kept w userId { s with server.dedupe := d } t) := by
  rcases execFile_rename hexec with ⟨bytes, -, rfl, rfl⟩ | ⟨⟨e, rfl⟩, -, rfl⟩
  · refine ⟨fun _ => ?_, nofun⟩
    have hmem : ∀ token, token ∈ {.put key} + t ↔ token = .put key ∨ token ∈ t := by
      intro token
      rw [Multiset.mem_add, Multiset.mem_singleton]
    have hkept : ∀ key', key' = key ∨ s.Stored key' ∧ key' ≠ tmp → AvatarWorld.Stored { s with
        server.dedupe.store := Function.update (Function.update s.server.dedupe.store tmp none) key (some bytes) }
          key' := by
      intro key' hkey'
      unfold AvatarWorld.Stored
      by_cases heq : key' = key
      · simp [heq]
      · obtain ⟨hstored, hne⟩ := hkey'.resolve_left heq
        unfold AvatarWorld.Stored at hstored
        simpa [heq, hne] using hstored
    refine h.grow rfl rfl rfl (fun key' hkey' hfresh => hkept key' (.inr ⟨hkey', ?_⟩))
      (fun _ htmp' => .inl (((hmem _).1 htmp').resolve_left (by simp))) (fun key' hkey' => ?_)
      fun _ hkey' => (hmem _).2 (.inr hkey')
    · rintro rfl
      exact hfresh ((hmem _).2 (.inr htmp))
    · rcases (hmem _).1 hkey' with heq | hold
      · obtain rfl := AvatarToken.put.inj heq
        exact .inr ⟨hkey, hkept key' (.inl rfl)⟩
      · exact .inl hold
  · exact ⟨nofun, fun _ => h⟩

/-- An object is put, or perhaps not. -/
theorem Kept.putObject (h : Kept w userId s t) {key : SafeKey} (bytes : Bytes) (hkey : IsAvatarKey key) :
    Kept w userId (s.store key (some bytes)) ({.put key} + t) ∧ Kept w userId (s.store key (some bytes)) t := by
  have hkept : ∀ key', key' = key ∨ s.Stored key' → (s.store key (some bytes)).Stored key' := by
    intro key' hkey'
    rw [stored_store]
    split
    · rfl
    · rename_i hne
      exact hkey'.resolve_left hne
  have hrest : Kept w userId (s.store key (some bytes)) t :=
    h.grow rfl rfl rfl (fun key' hkey' _ => hkept key' (.inr hkey')) (fun _ => .inl) (fun _ => .inl) fun _ => id
  refine ⟨?_, hrest⟩
  have hmem : ∀ token, token ∈ {.put key} + t ↔ token = .put key ∨ token ∈ t := by
    intro token
    rw [Multiset.mem_add, Multiset.mem_singleton]
  refine hrest.grow rfl rfl rfl (fun _ hkey' _ => hkey')
    (fun _ htmp => .inl (((hmem _).1 htmp).resolve_left (by simp))) (fun key' hkey' => ?_)
    fun _ hkey' => (hmem _).2 (.inr hkey')
  rcases (hmem _).1 hkey' with heq | hold
  · obtain rfl := AvatarToken.put.inj heq
    exact .inr ⟨hkey, hkept key' (.inl rfl)⟩
  · exact .inl hold

/-- **Every operation keeps the invariant**, if it deletes no key that another upload has put and not yet recorded. -/
theorem Kept.step {op : AvatarOp} {r : op.Res} (hmay : MayAvatar userId g op) (h : Kept w userId s (g + f))
    (hspares : Spares s g f op) (hexec : execAvatar backend faults s op r s') :
    ShowsAccounts w op r ∧ Kept w userId s' (owned backend g op r + f) := by
  cases op with
  | server op =>
    obtain ⟨server, hexec, -, rfl⟩ := hexec
    exact ⟨exec_showsAccounts hexec h, h.server hmay hexec⟩
  | file op =>
    obtain ⟨d, hexec, rfl⟩ := hexec
    refine ⟨trivial, ?_⟩
    cases op with
    | create key bytes =>
      simp only [owned, add_assoc]
      exact h.create hmay hexec
    | rename tmp key =>
      have hrename := h.rename (Multiset.mem_add.2 (.inl hmay.1)) hmay.2 hexec
      match r with
      | .ok () =>
        simp only [owned, add_assoc]
        exact hrename.1 rfl
      | .error e => exact hrename.2 ⟨e, rfl⟩
    | db | linkThumb | findFile => exact hmay.elim
  | putObject key bytes =>
    refine ⟨trivial, ?_⟩
    rcases hexec with ⟨rfl, rfl⟩ | ⟨-, ⟨e, rfl⟩, rfl | rfl⟩
    · simp only [owned, add_assoc]
      exact (h.putObject bytes hmay).1
    · exact h
    · exact (h.putObject bytes hmay).2
  | delete key =>
    refine ⟨trivial, ?_⟩
    have hdelete := h.delete hmay (hspares key rfl)
    rcases hexec with ⟨rfl, rfl⟩ | ⟨-, ⟨e, rfl⟩, hsame⟩
    · exact hdelete
    · cases backend with
      | localFs =>
        obtain rfl : s' = s := hsame.resolve_right (by simp)
        exact h
      | s3 =>
        rcases hsame with rfl | ⟨-, rfl⟩
        · simp only [owned, if_true, add_assoc]
          exact h.mark key
        · exact hdelete
  | setAvatarKey id key =>
    refine ⟨trivial, ?_⟩
    obtain ⟨rfl, hput⟩ := hmay
    rcases hexec with ⟨rfl, rfl⟩ | ⟨-, ⟨e, rfl⟩, rfl⟩
    · exact h.record hput
    · exact h

end Step

/-! ## The handler -/

section Program

variable (w : World) (userId : Uuid) (backend : Backend)

/-- What an upload does, as far as the store and the row are concerned. -/
abbrev avatarProtocol : Protocol (Multiset AvatarToken) AvatarOp AvatarOp.Res :=
  Tracked.protocol (owned backend) (MayAvatar userId) (ShowsAccounts w)

/-- What the server reads for an upload. -/
abbrev readsProtocol : Protocol Unit Op Op.Res :=
  .flat (fun op => op.area = none) fun op r => ∃ shown, ShowsAccounts w (.server op) (r, shown)

variable {w userId backend} {α : Type} {g : Multiset AvatarToken}

theorem obeys_withAvatars {p : Query α} {fin : α → Unit → Prop} (h : p.Obeys (readsProtocol w) fin ())
    (shown : Uuid → Option SafeKey) : (withAvatars shown p).Obeys (avatarProtocol w userId backend)
      (fun a g' => g' = g ∧ fin a.1 ()) g := by
  induction p generalizing shown with
  | ret a => exact ⟨rfl, h⟩
  | call op k ih =>
    refine ⟨.inl h.1, ?_⟩
    rintro r _ ⟨hok, rfl⟩
    exact ih r.1 (h.2 r.1 () ⟨r.2, hok⟩) _

theorem obeys_onAvatars {p : Handler α} (h : Only [] p) : (onAvatars p).Obeys (avatarProtocol w userId backend)
    (fun _ g' => g' = g) (fun _ _ => True) g := by
  have hreads : p.run.Obeys (readsProtocol w) (fun _ _ => True) () := by
    refine Query.Only.obeys h.run (fun _ op hop => ?_) ()
    cases harea : op.area with
    | none => exact harea
    | some a => exact absurd (hop a harea) List.not_mem_nil
  refine (obeys_bind _ _).2 (obeys_always.2 ((obeys_withAvatars hreads _).mono fun a g' h => ?_))
  exact obeys_check.2 ⟨fun _ _ => trivial, fun _ _ => h.1⟩

/-- The handler goes on only where the operation has not failed. -/
theorem obeys_askAvatar {p : AvatarProg (Except Failure Unit)} {fin : Multiset AvatarToken → Prop}
    (h : p.Obeys (avatarProtocol w userId backend) (fun r g' => r = .ok () → fin g') g) :
    (askAvatar p).Obeys (avatarProtocol w userId backend) (fun _ => fin) (fun _ _ => True) g := by
  refine (obeys_bind _ _).2 (obeys_always.2 (h.mono fun r g' hr => ?_))
  match r with
  | .ok () => exact hr rfl
  | .error e => trivial

/-- An avatar is put, and nothing else. -/
theorem obeys_putAvatar {key : SafeKey} (hkey : IsAvatarKey key) (bytes : Bytes) :
    (putAvatar backend key bytes).Obeys (avatarProtocol w userId backend)
      (fun r g' => r = .ok () → ∀ key', .put key' ∈ g' ↔ key' = key) 0 := by
  cases backend with
  | localFs =>
    refine ⟨hkey, ?_⟩
    rintro ⟨tmp, created⟩ _ ⟨-, rfl⟩
    match created with
    | .error e => exact nofun
    | .ok () =>
      refine ⟨⟨Multiset.mem_add.2 (.inl (Multiset.mem_singleton_self _)), hkey⟩, ?_⟩
      rintro r _ ⟨-, rfl⟩ rfl key'
      simp [owned]
  | s3 =>
    refine ⟨hkey, ?_⟩
    rintro r _ ⟨-, rfl⟩ rfl key'
    simp [owned]

/-- The new avatar is not deleted. -/
theorem obeys_deleteOld {key : SafeKey} (old : Option SafeKey) (hg : ∀ key', .put key' ∈ g ↔ key' = key) :
    (deleteOld old key).Obeys (avatarProtocol w userId backend) (fun _ g' => .put key ∈ g') g := by
  have hput : .put key ∈ g := (hg key).2 rfl
  unfold deleteOld
  cases old with
  | none => exact hput
  | some old =>
    by_cases heq : old = key
    · simp only [if_pos heq]
      exact hput
    · simp only [if_neg heq]
      refine ⟨fun hmem => heq ((hg old).1 hmem), ?_⟩
      rintro r _ ⟨-, rfl⟩
      have hkept : .put key ∈ owned backend g (.delete old) r := by
        match r with
        | .ok () => exact Multiset.mem_add.2 (.inr hput)
        | .error e =>
          simp only [owned]
          split
          · exact Multiset.mem_add.2 (.inr hput)
          · exact hput
      exact hkept

theorem obeys_storeAvatar {key : SafeKey} (hkey : IsAvatarKey key) (old : Option SafeKey) (data : Bytes) :
    (storeAvatar backend userId old key data).Obeys (avatarProtocol w userId backend) (fun _ _ => True)
      (fun _ _ => True) 0 := by
  refine (obeys_bind _ _).2 ((obeys_askAvatar (obeys_putAvatar hkey data)).mono (fun _ g hg => ?_) fun _ _ h => h)
  refine (obeys_bind _ _).2 (obeys_always.2 ((obeys_deleteOld old hg).mono fun _ g hput => ?_))
  exact obeys_askAvatar ⟨⟨rfl, hput⟩, fun _ _ _ _ => trivial⟩

/-- Whoever uploads is the user. -/
theorem vouches_user {env : Env} {caller : Caller} (h : ∀ id, MadeBy env w caller id → id = userId) :
    Vouches (readsProtocol w) env caller fun u => u.id = userId where
  may _ _ hop := hop
  session := by
    rintro _ session _ _ id u _ ⟨_, rfl⟩ huid ⟨_, rfl⟩
    exact h u.id (.inl huid)
  token := by
    rintro _ token u scopes _ hbearer ⟨_, row, hrow, hhash, hid⟩
    refine h u.id (.inr ⟨row, hrow, hid, ?_⟩)
    rw [hbearer, hhash]
    rfl

/-- **What a request performs.** -/
theorem serveAvatar_obeys {env : Env} (req : AvatarRequest) (hreq : req.By env w userId) :
    (serveAvatar env backend req).Obeys (avatarProtocol w userId backend) (fun _ _ => True) 0 := by
  cases req with
  | clock dt => exact ⟨.inr ⟨dt, rfl⟩, fun _ _ _ => trivial⟩
  | upload caller fields =>
    have hupload : (uploadAvatar env backend caller fields).Obeys (avatarProtocol w userId backend)
        (fun _ _ => True) (fun _ _ => True) 0 := by
      refine (obeys_bind _ _).2 (obeys_always.2 ((obeys_withAvatars (obeys_currentUser (vouches_user hreq)) _).mono ?_))
      rintro ⟨found, shown⟩ _ ⟨rfl, hfound⟩
      refine (obeys_bind _ _).2 (obeys_orThrow.2 ⟨fun _ => trivial, fun user huser => ?_⟩)
      obtain rfl : user.id = userId := hfound user huser
      refine (obeys_bind _ _).2 ((obeys_onAvatars (.read rfl)).mono ?_ fun _ _ h => h)
      rintro cfg _ rfl
      refine (obeys_bind _ _).2 ((obeys_onAvatars (only_effectiveLimits cfg _)).mono ?_ fun _ _ h => h)
      rintro limits _ rfl
      refine (obeys_bind _ _).2 (obeys_check.2 ⟨fun _ _ => trivial, fun data _ => ?_⟩)
      refine (obeys_bind _ _).2 (obeys_orThrow.2 ⟨fun _ => trivial, fun data _ => ?_⟩)
      refine (obeys_bind _ _).2 (obeys_reject.2 ⟨fun _ => trivial, fun _ => ?_⟩)
      refine (obeys_bind _ _).2 (obeys_orThrow.2 ⟨fun _ => trivial, fun ext _ => ?_⟩)
      exact (obeys_bind _ _).2 ((obeys_storeAvatar ⟨_, _, rfl⟩ _ data).mono (fun _ _ _ => trivial) fun _ _ h => h)
    exact Prog.Obeys.mono hupload fun _ _ _ => trivial

end Program

/-! ## Runs -/

/-- **A recorded avatar has its bytes** when no upload is in progress, in every run in which no upload deletes a key that
another one has put and not yet recorded, and none ends after it has deleted the key that is recorded. -/
theorem avatar_stored_of_spares {env : Env} {backend : Backend} {faults : Prop} {userId : Uuid} {s : AvatarWorld}
    (hstored : ∀ key, s.avatarKey userId = some key → s.Stored key)
    {p : Pool AvatarWorld ({req : AvatarRequest // req.By env s.server userId} × Multiset AvatarToken) AvatarOp
      AvatarOp.Res Outcome}
    (hp : Tracked.Reachable (owned backend) Spares (Recorded userId) (fun req => serveAvatar env backend req.1)
      (execAvatar backend faults) s p) (hquiet : p.threads = []) :
    ∀ key, p.shared.avatarKey userId = some key → p.shared.Stored key := by
  have hstart : Kept s.server userId s 0 :=
    ⟨rfl, rfl, fun _ h => absurd h (Multiset.notMem_zero _), fun _ h => absurd h (Multiset.notMem_zero _),
      fun key hkey => .inl ⟨hstored key hkey, Multiset.notMem_zero _⟩⟩
  have hkept := (Tracked.Reachable.invariant hstart
    (fun req : {req : AvatarRequest // req.By env s.server userId} => serveAvatar_obeys req.1 req.2)
    (fun _ _ _ _ _ _ _ hmay h hcond hexec => Kept.step hmay h hcond hexec) (fun _ _ _ hg h => h.leave hg) hp).1
  rw [hquiet] at hkept
  intro key hkey
  rcases hkept.recorded key hkey with ⟨hkey, -⟩ | hgone
  · exact hkey
  · exact absurd hgone (Multiset.notMem_zero _)

/-! ### A new avatar -/

def pngExt : Ext := ⟨['.', 'p', 'n', 'g'], rfl⟩

def jpgExt : Ext := ⟨['.', 'j', 'p', 'g'], rfl⟩

/-- A user whose avatar is a PNG, and who is signed in. -/
def pngWorld : AvatarWorld where
  server :=
    { World.empty with
      users := ⟨[⟨1, ['u'], none, false, none, none, false, none⟩], List.nodup_singleton _⟩
      sessions := fun _ => { Session.fresh with uid := some 1 }
      dedupe := { Dedupe.World.empty with
        store := Function.update (fun _ => none) (avatarKey 1 pngExt) (some [7]) } }
  avatarKey := fun _ => some (avatarKey 1 pngExt)

/-- Everything is a JPEG. -/
def jpegEnv : Env := { Env.plain with sniffMime := fun _ => imageJpeg }

/-- The user uploads a JPEG. -/
def jpegUpload : {req : AvatarRequest // req.By jpegEnv pngWorld.server 1} :=
  ⟨.upload ⟨0, .none⟩ [.avatar (.ok [8])], fun id hid => by
    rcases hid with hid | ⟨row, hrow, -⟩
    · exact (Option.some.inj hid).symm
    · exact absurd hrow List.not_mem_nil⟩

/-- Carry out an operation on a bucket; the `UPDATE` fails if `succeeds` is false. -/
def answerAvatar (succeeds : Bool) (s : AvatarWorld) : (op : AvatarOp) → op.Res × AvatarWorld
  | .server op => (((answer s.server op).1, s.avatarKey), { s with server := (answer s.server op).2 })
  | .file op =>
    let r := answerFile ⟨['x'], rfl⟩ s.server.dedupe op
    (r.1, { s with server.dedupe := r.2 })
  | .putObject key bytes => (.ok (), s.store key (some bytes))
  | .delete key => (.ok (), s.store key none)
  | .setAvatarKey id key =>
    if succeeds then (.ok (), { s with avatarKey := Function.update s.avatarKey id (some key) })
    else (.error (.sql (.io "connection closed")), s)

/-- The operation is one on a bucket. -/
def onBucket : AvatarOp → Bool
  | .file _ => false
  | _ => true

theorem execAvatar_answer (succeeds : Bool) (s : AvatarWorld) {op : AvatarOp} (hop : onBucket op = true) :
    execAvatar .s3 True s op (answerAvatar succeeds s op).1 (answerAvatar succeeds s op).2 := by
  cases op with
  | server op => exact ⟨_, exec_answer _ s.server op, rfl, rfl⟩
  | file op => cases hop
  | putObject key bytes => exact .inl ⟨rfl, rfl⟩
  | delete key => exact .inl ⟨rfl, rfl⟩
  | setAvatarKey id key =>
    cases succeeds with
    | true => exact .inl ⟨rfl, rfl⟩
    | false => exact .inr ⟨trivial, ⟨_, rfl⟩, rfl⟩

/-- The test of the first condition. -/
def spares (f : Multiset AvatarToken) : AvatarOp → Bool
  | .delete key => decide (.put key ∉ f)
  | _ => true

theorem spares_sound {s : AvatarWorld} {g f : Multiset AvatarToken} {op : AvatarOp} (h : spares f op = true) :
    Spares s g f op := by
  rintro key rfl
  exact of_decide_eq_true h

/-- The test of the second condition. -/
def recorded (userId : Uuid) (s : AvatarWorld) (g : Multiset AvatarToken) : Bool :=
  match s.avatarKey userId with
  | some key => decide (.deleted key ∉ g)
  | none => true

theorem recorded_sound {userId : Uuid} {s : AvatarWorld} {g : Multiset AvatarToken}
    (h : recorded userId s g = true) : Recorded userId s g := by
  intro key hmem hkey
  simp only [recorded, hkey, decide_eq_true_eq] at h
  exact h hmem

/-- Runs of uploads by the user, on a bucket. -/
def avatarPool (turns : List (Tracked.Turn {req : AvatarRequest // req.By jpegEnv pngWorld.server 1} Bool)) :
    Pool AvatarWorld ({req : AvatarRequest // req.By jpegEnv pngWorld.server 1} × Multiset AvatarToken) AvatarOp
      AvatarOp.Res Outcome :=
  Tracked.play (owned .s3) (fun req => serveAvatar jpegEnv .s3 req.1) answerAvatar pngWorld turns

/-- An upload whose last operation ends as `succeeds` says. -/
def oneUpload (succeeds : Bool) :
    List (Tracked.Turn {req : AvatarRequest // req.By jpegEnv pngWorld.server 1} Bool) :=
  .spawn jpegUpload :: List.replicate 6 (.act 0 succeeds) ++ [.leave 0]

/-- The PNG is replaced. -/
theorem avatar_stored_jpeg : (avatarPool (oneUpload true)).shared.avatarKey 1 = some (avatarKey 1 jpgExt) ∧
    (avatarPool (oneUpload true)).shared.Stored (avatarKey 1 jpgExt) := by
  have hrun : Tracked.Reachable (owned .s3) Spares (Recorded 1) (fun req => serveAvatar jpegEnv .s3 req.1)
      (execAvatar .s3 True) pngWorld (avatarPool (oneUpload true)) :=
    @Tracked.reachable_play _ _ _ _ _ _ _ (owned .s3) _ _ _ _ Bool answerAvatar
      (fun _ _ _ f op => spares f op && onBucket op) (recorded 1)
      (fun how s g f op hok => by
        rw [Bool.and_eq_true] at hok
        exact ⟨spares_sound hok.1, execAvatar_answer how s hok.2⟩)
      (fun _ _ => recorded_sound) pngWorld (oneUpload true) (by decide)
  refine ⟨by decide, avatar_stored_of_spares (fun key hkey => ?_) hrun (by decide) _ (by decide)⟩
  obtain rfl := Option.some.inj hkey
  decide

/-- **An upload whose `UPDATE` fails leaves the user without an avatar**: the PNG is recorded, and gone. -/
theorem avatar_dangles :
    pngWorld.avatarKey 1 = some (avatarKey 1 pngExt) ∧ pngWorld.Stored (avatarKey 1 pngExt) ∧
    Tracked.Reachable (owned .s3) (fun _ _ _ _ => True) (fun _ _ => True)
      (fun req : {req : AvatarRequest // req.By jpegEnv pngWorld.server 1} => serveAvatar jpegEnv .s3 req.1)
      (execAvatar .s3 True) pngWorld (avatarPool (oneUpload false)) ∧
    (avatarPool (oneUpload false)).threads.length = 0 ∧
    (avatarPool (oneUpload false)).shared.avatarKey 1 = some (avatarKey 1 pngExt) ∧
    ¬ (avatarPool (oneUpload false)).shared.Stored (avatarKey 1 pngExt) := by
  refine ⟨rfl, by decide, ?_, by decide, by decide, by decide⟩
  exact @Tracked.reachable_play _ _ _ _ _ _ _ (owned .s3) _ _ _ _ Bool answerAvatar
    (fun _ _ _ _ op => onBucket op) (fun _ _ => true)
    (fun how s _ _ op hok => ⟨trivial, execAvatar_answer how s hok⟩) (fun _ _ _ => trivial) pngWorld
    (oneUpload false) (by decide)

end Server
end Uwuubox
