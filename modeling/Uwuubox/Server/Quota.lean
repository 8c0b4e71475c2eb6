import Uwuubox.Server.Links
import Uwuubox.Server.Callers
import Uwuubox.Prog.Tracked

/-!
# The account quota

An upload reads how much its user stores, caps the body by what remains of the quota, and inserts
its row when the body has been read, checked and stored.  It does not look at the sum again.

* `effectiveQuota`, `World.used` — the quota of a user, and what the user stores.
* `seen` — what a request has read of the sum.
* `NotStale` — **the condition**: when an upload of the user inserts its row, the sum is not larger than what the
  upload has read.
* `quota_kept_of_notStale` — then the sum stays within the quota.
* `quota_exceeded` — two uploads at once, after which it is not.
-/

namespace Uwuubox
namespace Server

open Dedupe Storage Table Fallible

/-! ## What is stored and what may be -/

/-- The quota that `effective_limits` gives a user, once the role has been read. -/
def quotaOf (roles : Keyed Role.id) (user : User) : Option ℤ :=
  user.quotaOverrideBytes.or ((user.roleId.bind roles.find?).bind fun role => role.quotaBytes)

/-- The effective quota of a user. -/
def effectiveQuota (w : World) (userId : Uuid) : Option ℤ := (w.users.find? userId).bind (quotaOf w.roles)

/-- The rows of a user. -/
def World.filesOf (w : World) (userId : Uuid) : List FileRow :=
  w.dedupe.files.rows.filter fun row => (w.fileColumns row.idCore).ownerId = some userId

/-- What a user stores: the sum of `size_bytes`. -/
def World.used (w : World) (userId : Uuid) : ℤ := ((w.filesOf userId).map fun row => (row.sizeBytes : ℤ)).sum

/-- `storage_used` reads this sum. -/
theorem answer_storageUsed (w : World) (userId : Uuid) :
    answer w (.storageUsed userId) = (.ok (w.used userId), w) := by
  simp only [answer, World.used, World.filesOf, List.filter_map, List.map_map]
  rfl

/-- Fewer rows are not more bytes. -/
theorem sum_sizes_le {rows rows' : List FileRow} (h : rows'.Sublist rows) :
    (rows'.map fun row => (row.sizeBytes : ℤ)).sum ≤ (rows.map fun row => (row.sizeBytes : ℤ)).sum := by
  induction h with
  | slnil => rfl
  | cons row _ ih =>
    rw [List.map_cons, List.sum_cons]
    exact le_add_of_nonneg_of_le (Int.natCast_nonneg _) ih
  | cons_cons row _ ih =>
    rw [List.map_cons, List.map_cons, List.sum_cons, List.sum_cons]
    exact add_le_add_right ih _

/-! ## What one operation does to the sum -/

section Step

variable {mayFail : Op → Prop} {w w' : World} {op : Op} {r : op.Res}

/-- What uploads and removals do to `files` beside the insertion of a row: rows go. -/
theorem files_sublist {faults : Prop} {d d' : Dedupe.World} {op : DbOp} {r : op.Res}
    (h : Dedupe.exec faults d op r d') (hop : op.isInsertFile = false) :
    d'.files.rows.Sublist d.files.rows := by
  rcases h with h | ⟨-, h⟩
  · obtain rfl : d' = (Dedupe.answer d op).2 := congrArg Prod.snd h
    cases op with
    | insertFile row => cases hop
    | deleteFile core =>
      simp only [Dedupe.answer]
      split
      · exact .refl _
      · exact List.filter_sublist
    | claimCore | insertObject | bumpObject | dropObject =>
      simp only [Dedupe.answer]
      repeat' split
      all_goals exact .refl _
    | deleteObject | put | delete => exact .refl _
  · rw [h.files]

/-- A sum over rows does not change with what the rows and their columns have beside the sizes and the
owners. -/
theorem used_congr {userId : Uuid} {f : FileRow → FileRow}
    (hrows : w'.dedupe.files.rows = w.dedupe.files.rows.map f) (hsize : ∀ row, (f row).sizeBytes = row.sizeBytes)
    (howner : ∀ row ∈ w.dedupe.files.rows,
      (w'.fileColumns (f row).idCore).ownerId = (w.fileColumns row.idCore).ownerId) :
    w'.used userId = w.used userId := by
  unfold World.used World.filesOf
  rw [hrows, List.filter_map, List.map_map]
  have hfilter : w.dedupe.files.rows.filter
      ((fun row => decide ((w'.fileColumns row.idCore).ownerId = some userId)) ∘ f) =
      w.dedupe.files.rows.filter fun row => (w.fileColumns row.idCore).ownerId = some userId := by
    refine List.filter_congr fun row hrow => ?_
    simp only [Function.comp, howner row hrow]
  rw [hfilter]
  congr 1
  refine List.map_congr_left fun row _ => ?_
  simp only [Function.comp, hsize]

/-- **What an operation does to the sum**: a row of the user that is inserted adds its size, and nothing else
makes the sum larger. -/
theorem exec_used {userId : Uuid} (h : exec mayFail w op r w') (hbare : ∀ row, op ≠ .storage (.insertFile row)) :
    w'.used userId ≤ w.used userId ∨ ∃ row columns, op = .insertFile row columns ∧
      columns.ownerId = some userId ∧ w'.used userId = w.used userId + row.sizeBytes := by
  cases op with
  | storage op =>
    left
    obtain ⟨dedupe, rfl, hdedupe⟩ := exec_storage h
    have hinsert : op.isInsertFile = false := by
      cases op with
      | insertFile row => exact absurd rfl (hbare row)
      | _ => rfl
    exact sum_sizes_le ((files_sublist hdedupe hinsert).filter _)
  | insertFile row columns =>
    rcases exec_insertFile h with ⟨hcore, -, rfl⟩ | ⟨-, rfl⟩
    · have hold : (w.dedupe.files.rows.filter fun old =>
          (Function.update w.fileColumns row.idCore columns old.idCore).ownerId = some userId) =
          w.filesOf userId := by
        refine List.filter_congr fun old hmem => ?_
        rw [Function.update_of_ne (hcore old hmem)]
      have hrows : World.filesOf { w with
          dedupe := { w.dedupe with files := w.dedupe.files.insert row hcore }
          fileColumns := Function.update w.fileColumns row.idCore columns } userId =
          if columns.ownerId = some userId then row :: w.filesOf userId else w.filesOf userId := by
        unfold World.filesOf at hold ⊢
        simp only [FileTable.insert, List.filter_cons, Function.update_self, hold, decide_eq_true_eq]
      unfold World.used
      rw [hrows]
      by_cases howner : columns.ownerId = some userId
      · right
        refine ⟨row, columns, rfl, howner, ?_⟩
        rw [if_pos howner, List.map_cons, List.sum_cons, add_comm]
      · left
        rw [if_neg howner]
    · exact .inl le_rfl
  | setFileVisibility core visibility =>
    left
    rcases exec_setFileVisibility h with ⟨changed, -, -, rfl⟩ | rfl
    · refine le_of_eq (used_congr (f := id) ?_ (fun _ => rfl) fun row _ => ?_)
      · exact (List.map_id _).symm
      · by_cases hsame : row.idCore = changed.idCore
        · simp [hsame]
        · simp [Function.update_of_ne hsame]
    · exact le_rfl
  | linkThumb core key =>
    left
    rcases exec_statement h rfl with heq | ⟨-, -, rfl⟩
    · simp only [answer] at heq
      split at heq
      · cases heq
        refine (used_congr rfl (fun row => ?_) fun row _ => ?_).le
        · split <;> rfl
        · split <;> rfl
      · cases heq
        exact le_rfl
    · exact le_rfl
  | _ =>
    left
    obtain ⟨_, _, rfl⟩ := exec_frame h
    exact le_rfl

end Step

/-! ## What a request reads and may insert -/

/-- What a request has read of the sum of a user. -/
def seen (userId : Uuid) (g : Multiset ℤ) : (op : Op) → op.Res → Multiset ℤ
  | .storageUsed id, .ok used => if id = userId then {used} + g else g
  | _, _ => g

/-- **The condition**: when a row of the user is inserted, the sum is not larger than what the request has
read. -/
def NotStale (userId : Uuid) (w : World) (g _others : Multiset ℤ) (op : Op) : Prop :=
  ∀ row columns, op = .insertFile row columns → columns.ownerId = some userId →
    ∀ used ∈ g, w.used userId ≤ used

/-- An operation leaves the users alone, and inserts no row of the user that does not fit what the request has
read. -/
structure MayStore (userId : Uuid) (quota : ℤ) (g : Multiset ℤ) (op : Op) : Prop where
  users : op.area ≠ some .users ∧ op.area ≠ some .admins ∧ op.area ≠ some .roleOfUser
  bare : ∀ row, op ≠ .storage (.insertFile row)
  fits : ∀ row columns, op = .insertFile row columns → columns.ownerId = some userId →
    ∃ used ∈ g, used + row.sizeBytes ≤ quota

/-- The answers, where the users and the roles are these. -/
def ReadsUsers (users : Keyed User.id) (roles : Keyed Role.id) : (op : Op) → op.Res → Prop
  | .findUserById _, .ok user => ∀ u, user = some u → u ∈ users
  | .tokenIdentity _, .ok found => ∀ u, found = some u → u.1 ∈ users
  | .findRole id, .ok role => role = roles.find? id
  | _, _ => True

/-- The users change only in their areas. -/
theorem exec_users {mayFail : Op → Prop} {w w' : World} {op : Op} {r : op.Res} (h : exec mayFail w op r w')
    (hop : op.area ≠ some .users ∧ op.area ≠ some .admins ∧ op.area ≠ some .roleOfUser) :
    w'.users = w.users := by
  obtain ⟨husers, hadmins, hroles⟩ := hop
  have hframe := exec_frame h
  generalize op.area = area at *
  rcases area with _ | area
  · exact congrArg World.users hframe
  · cases area <;> first
      | exact absurd rfl husers | exact absurd rfl hadmins | exact absurd rfl hroles
      | (obtain ⟨_, rfl⟩ := hframe; rfl) | (obtain ⟨_, _, rfl⟩ := hframe; rfl)

/-- The answers are about the users and the roles there are. -/
theorem exec_readsUsers {mayFail : Op → Prop} {w w' : World} {op : Op} {r : op.Res}
    (h : exec mayFail w op r w') : ReadsUsers w.users w.roles op r := by
  cases op with
  | findUserById id =>
    rcases exec_statement h rfl with heq | ⟨-, ⟨_, rfl⟩, -⟩
    · cases heq
      intro u hu
      exact (Keyed.mem_of_find? hu).1
    · trivial
  | tokenIdentity hash =>
    rcases exec_statement h rfl with heq | ⟨-, ⟨_, rfl⟩, -⟩
    · cases r with
      | error e => trivial
      | ok found =>
        rintro ⟨user, scopes⟩ rfl
        exact (tokenIdentity_found (congrArg Prod.fst heq).symm).1
    · trivial
  | findRole id =>
    rcases exec_statement h rfl with heq | ⟨-, ⟨_, rfl⟩, -⟩
    · cases heq
      rfl
    · trivial
  | _ => trivial

section Program

variable (users : Keyed User.id) (roles : Keyed Role.id) (userId : Uuid) (quota : ℤ)

/-- What a request does, as far as the quota is concerned. -/
abbrev quotaProtocol : Protocol (Multiset ℤ) Op Op.Res :=
  Tracked.protocol (seen userId) (MayStore userId quota) (ReadsUsers users roles)

variable {users roles userId quota} {g : Multiset ℤ}

theorem mayStore_of_area {op : Op} (hnew : op.area ≠ some .newFiles)
    (husers : op.area ≠ some .users ∧ op.area ≠ some .admins ∧ op.area ≠ some .roleOfUser) :
    MayStore userId quota g op where
  users := husers
  bare := by
    rintro row rfl
    exact hnew rfl
  fits := by
    rintro row columns rfl
    exact absurd rfl hnew

theorem mayStore_read {op : Op} (h : op.area = none) : MayStore userId quota g op := by
  refine mayStore_of_area ?_ ⟨?_, ?_, ?_⟩ <;> rw [h] <;> exact nofun

theorem mayStore_files {op : Op} (h : op.area = some .files) : MayStore userId quota g op := by
  refine mayStore_of_area ?_ ⟨?_, ?_, ?_⟩ <;> simp [h]

/-- A handler that writes nothing. -/
theorem Only.storesNothing {α : Type} {p : Handler α} (h : Only [] p) :
    p.Obeys (quotaProtocol users roles userId quota) (fun _ _ => True) (fun _ _ => True) g := by
  refine h.obeys (fun γ op hop => mayStore_read ?_) g
  cases harea : op.area with
  | none => rfl
  | some a => exact absurd (hop a harea) List.not_mem_nil

/-- Whoever asks is one of the users. -/
theorem vouches_users (env : Env) (caller : Caller) :
    Vouches (quotaProtocol users roles userId quota) env caller (· ∈ users) where
  may _ _ hop := mayStore_read hop
  session _ _ _ _ _ u _ _ _ h := h.1 u rfl
  token _ _ _ _ _ _ h := h.1 _ rfl

/-- The limits of a user name the effective quota. -/
theorem effectiveLimits_quota (cfg : InstanceConfig) (user : Option User) : (effectiveLimits cfg user).Obeys
    (quotaProtocol users roles userId quota)
    (fun limits _ => ∀ u, user = some u → limits.quotaBytes = quotaOf roles u) (fun _ _ => True) g := by
  unfold effectiveLimits roleOf
  cases user with
  | none => exact (obeys_bind _ _).2 (obeys_pure.2 nofun)
  | some user =>
    cases hrole : user.roleId with
    | none =>
      simp only [Option.bind_some, hrole]
      refine (obeys_bind _ _).2 (obeys_pure.2 ?_)
      rintro _ ⟨⟩
      simp [quotaOf, EffectiveLimits.merge, hrole]
    | some id =>
      simp only [Option.bind_some, hrole]
      refine (obeys_bind _ _).2 (obeys_ask.2 ⟨mayStore_read rfl, fun r g' hr => ⟨?_, fun _ _ => trivial⟩⟩)
      rintro role rfl
      have hfound : role = roles.find? id := hr.1
      rintro _ ⟨⟩
      simp [quotaOf, EffectiveLimits.merge, hrole, hfound]

/-- **What remains of the quota**, and what has been read of the sum to know it. -/
theorem quotaRemaining_seen {user : User} {limits : EffectiveLimits} (huser : user.id = userId)
    (hlimits : limits.quotaBytes = some quota) : (quotaRemaining (some user) limits).Obeys
    (quotaProtocol users roles userId quota)
    (fun remaining g' => ∃ used ∈ g', used < quota ∧ remaining = some (max (quota - used) 0))
    (fun _ _ => True) g := by
  unfold quotaRemaining
  simp only [hlimits]
  refine (obeys_bind _ _).2 (obeys_ask.2 ⟨mayStore_read rfl, fun r g' hr => ⟨?_, fun _ _ => trivial⟩⟩)
  rintro (used : ℤ) rfl
  have hseen : g' = if user.id = userId then {used} + g else g := hr.2
  rw [if_pos huser] at hseen
  refine (obeys_bind _ _).2 (obeys_reject.2 ⟨fun _ => trivial, fun hless => obeys_pure.2 ?_⟩)
  refine ⟨used, ?_, Int.not_lt.1 hless, rfl⟩
  rw [hseen]
  exact Multiset.mem_add.2 (.inl (Multiset.mem_singleton_self used))

/-- What has been read is not forgotten. -/
theorem mem_seen {op : Op} {r : op.Res} {used : ℤ} (h : used ∈ g) : used ∈ seen userId g op r := by
  unfold seen
  split
  · split
    · exact Multiset.mem_add.2 (.inr h)
    · exact h
  · exact h

end Program

/-! ## The size of what is stored -/

/-- One field leaves a file that is within the cap. -/
theorem readField_spooled {cap : ℤ} {form form' : UploadForm} {field : Field}
    (h : readField cap form field = .ok form') (hform : ∀ bytes, form.spooled = some bytes →
      (bytes.length : ℤ) ≤ max cap 0) : ∀ bytes, form'.spooled = some bytes → (bytes.length : ℤ) ≤ max cap 0 := by
  cases field with
  | file name bytes =>
    simp only [readField] at h
    split at h
    · cases h
    · rename_i hsize
      cases h
      rintro _ ⟨⟩
      omega
  | brokenFile msg => cases h
  | malformed msg => cases h
  | text label value =>
    cases label <;> cases value <;> first | (cases h; exact hform) | cases h

/-- **The file of a form is within the cap.** -/
theorem readFields_spooled {cap : ℤ} {fields : List Field} {form : UploadForm}
    (h : readFields cap fields = .ok form) :
    ∀ bytes, form.spooled = some bytes → (bytes.length : ℤ) ≤ max cap 0 := by
  unfold readFields at h
  have hstart : ∀ bytes, (⟨none, none, fun _ => none⟩ : UploadForm).spooled = some bytes →
      (bytes.length : ℤ) ≤ max cap 0 := nofun
  generalize (⟨none, none, fun _ => none⟩ : UploadForm) = start at h hstart
  induction fields generalizing start with
  | nil =>
    cases h
    exact hstart
  | cons field fields ih =>
    rw [List.foldlM_cons] at h
    cases hfield : readField cap start field with
    | error e =>
      rw [hfield] at h
      cases h
    | ok next =>
      rw [hfield] at h
      exact ih next h (readField_spooled hfield hstart)

/-- `strip_image_metadata` does not make a file larger. -/
def Env.StripShrinks (env : Env) : Prop :=
  ∀ bytes out stripped, env.stripImageMetadata bytes = .ok (out, stripped) → out.length ≤ bytes.length

theorem stripMetadata_length {env : Env} (henv : env.StripShrinks) {strip : Bool} {bytes : Bytes}
    {stripped : Bytes × Bool} (h : stripMetadata env strip bytes = .ok stripped) :
    stripped.1.length ≤ bytes.length := by
  unfold stripMetadata at h
  split at h
  · split at h
    · cases h
    · cases hstrip : env.stripImageMetadata bytes with
      | error e =>
        rw [hstrip] at h
        cases h
      | ok out =>
        rw [hstrip] at h
        cases h
        exact henv bytes _ _ hstrip
  · cases h
    exact le_rfl

/-- **The plan of an upload** is for a file that is not larger than the one of the form, and for a row of the user. -/
theorem uploadPlan_size {Γ : Type} {next : Γ → (op : Op) → op.Res → Γ → Prop} {env : Env}
    (henv : env.StripShrinks) (cfg : InstanceConfig) (limits : EffectiveLimits) (user : Option User)
    (req : UploadRequest) (form : UploadForm) :
    Ends next (fun plan _ => (∃ bytes, form.spooled = some bytes ∧ plan.bytes.length ≤ bytes.length) ∧
      ∀ name, (plan.columns name).ownerId = user.map User.id) (uploadPlan env cfg limits user req form) :=
  .orThrow fun bytes hbytes => .reject fun _ => .check fun _ _ => .check fun _ hstripped => .check fun _ _ =>
    .check fun _ _ => .check fun _ _ => .reject fun _ => .check fun _ _ => .check fun _ _ =>
    .skip fun _ => .check fun _ _ =>
      .pure fun _ => ⟨⟨bytes, hbytes, stripMetadata_length henv hstripped⟩, fun _ => rfl⟩

/-- The rows that a program inserts have the size `n`. -/
def InsertsSize (n : ℕ) {α : Type} (p : Dedupe.Handler α) : Prop :=
  p.Obeys (.flat (fun op => ∀ row, op = .insertFile row → row.sizeBytes = n) fun _ _ => True)
    (fun _ _ => True) ()

namespace InsertsSize

variable {α β : Type} {n : ℕ}

theorem pure {a : α} : InsertsSize n (pure a : Dedupe.Handler α) := trivial

theorem bind {p : Dedupe.Handler α} {f : α → Dedupe.Handler β} (hp : InsertsSize n p)
    (hf : ∀ a, InsertsSize n (f a)) : InsertsSize n (p >>= f) := by
  unfold InsertsSize at hp ⊢
  rw [Prog.obeys_bind]
  exact hp.mono fun a _ _ => hf a

theorem of_none {p : Dedupe.Handler α} (h : InsertsNoFile p) : InsertsSize n p :=
  h.weaken fun op hop => by
    rintro row rfl
    cases hop

theorem of_objects {p : Dedupe.Handler α} (h : ObjectsOnly p) : InsertsSize n p := .of_none (.of_objects h)

theorem publish (sha256 : Bytes → Digest) (u : Upload) (core : Core) (key : SafeKey) :
    InsertsSize u.content.bytes.length (publish sha256 u core key) := by
  refine .bind (.of_objects (.uploadThumbnail sha256 u core)) fun thumbKey => .bind ⟨?_, fun _ _ _ => trivial⟩
    fun r => ?_
  · rintro row ⟨⟩
    rfl
  · match r with
    | .ok () => exact .pure
    | .error e =>
      refine .bind (.of_objects (.rollbackObject key)) fun _ => ?_
      cases thumbKey with
      | none => exact .pure
      | some thumbKey => exact .bind (.of_objects (.rollbackObject thumbKey)) fun _ => .pure

/-- **An upload inserts rows of the size of its content.** -/
theorem uploadInner (sha256 : Bytes → Digest) (u : Upload) :
    InsertsSize u.content.bytes.length (uploadInner sha256 u) := by
  refine .bind (.of_none (.claimCore _)) fun claimed => ?_
  match claimed with
  | .error e => exact .pure
  | .ok none => exact .pure
  | .ok (some core) =>
    refine .bind (.of_objects (.acquireObject _ _ _ _)) fun acquired => ?_
    match acquired with
    | .error e => exact .pure
    | .ok (key, false) => exact publish sha256 u core key
    | .ok (key, true) =>
      refine .bind (.of_none (.perform rfl)) fun r => ?_
      match r with
      | .ok () => exact publish sha256 u core key
      | .error e => exact .bind (.of_objects (.rollbackObject key)) fun _ => .pure

end InsertsSize

/-! ## An upload -/

section Upload

variable {users : Keyed User.id} {roles : Keyed Role.id} {userId : Uuid} {quota : ℤ} {g : Multiset ℤ}

/-- **An upload inserts what fits**: its row is not the user's, or its size and what the request has read of
the sum are within the quota. -/
theorem storeUpload_quota (env : Env) (plan : UploadPlan) (req : UploadRequest) {owner : Option Uuid}
    (howner : ∀ name, (plan.columns name).ownerId = owner)
    (hfits : owner = some userId → ∃ used ∈ g, used + plan.bytes.length ≤ quota) :
    (storeUpload env plan req).Obeys (quotaProtocol users roles userId quota) (fun _ _ => True)
      (fun _ _ => True) g := by
  unfold storeUpload
  split
  · rename_i hlength
    have hsized : (uploadInner env.sha256 (plan.upload env ⟨plan.bytes, hlength⟩ req)).Obeys
        ⟨fun γ op => γ = g ∧ ∀ row, op = .insertFile row → row.sizeBytes = plan.bytes.length,
          fun γ _ _ γ' => γ' = γ⟩ (fun _ _ => True) g := by
      have hinner := InsertsSize.uploadInner env.sha256 (plan.upload env ⟨plan.bytes, hlength⟩ req)
      refine (Prog.Obeys.simulate (fun _ γ => γ = g) ?_ ?_ hinner rfl).mono fun _ _ _ => trivial
      · intro _ _ _ hγ hop
        exact ⟨hγ, hop⟩
      · intro _ _ _ _ _ hγ _ hnext
        exact ⟨(), trivial, Eq.trans hnext hγ⟩
    refine (obeys_bind _ _).2 (Fallible.Obeys.mono (Prog.Obeys.interp_fallible ?_ hsized)
      (fun _ _ _ => obeys_check.2 ⟨fun _ _ => trivial, fun _ _ => trivial⟩) fun _ _ h => h)
    rintro γ op ⟨rfl, hop⟩
    cases op with
    | insertFile row =>
      refine (obeys_bind _ _).2 (obeys_orThrow.2 ⟨fun _ => trivial, fun name _ => ⟨?_, fun r γ' hr => hr.2⟩⟩)
      refine ⟨⟨by simp [Op.area], by simp [Op.area], by simp [Op.area]⟩, fun _ heq => (by cases heq), ?_⟩
      rintro _ _ ⟨⟩ hrow
      rw [hop row rfl]
      exact hfits ((howner name).symm.trans hrow)
    | _ => exact ⟨mayStore_files rfl, fun r γ' hr => hr.2⟩
  · refine (obeys_bind _ _).2 ((Only.obeys (only_claimNewCore (S := [.files]) req.draws
      (List.mem_singleton.2 rfl)) (fun γ op hop => ?_) g).mono (fun _ _ _ => trivial) fun _ _ h => h)
    have harea : op.area = none ∨ op.area = some .files := by
      cases harea : op.area with
      | none => exact .inl rfl
      | some a => exact .inr (congrArg some (List.mem_singleton.1 (hop a harea)))
    rcases harea with harea | harea
    · exact mayStore_read harea
    · exact mayStore_files harea

/-- **An upload of the user inserts what fits.** -/
theorem upload_quota {env : Env} (henv : env.StripShrinks) (caller : Caller) (req : UploadRequest)
    (hquota : (users.find? userId).bind (quotaOf roles) = some quota) :
    (upload env caller req).Obeys (quotaProtocol users roles userId quota) (fun _ _ => True)
      (fun _ _ => True) g := by
  refine (obeys_bind _ _).2 (obeys_always.2 ((obeys_currentIdentity (vouches_users env caller)).mono
    fun identity g hid => ?_))
  refine (obeys_bind _ _).2 ((Only.storesNothing (only_requireScopeIfBearer caller _ _)).mono
    (fun _ g _ => ?_) fun _ _ h => h)
  refine (obeys_bind _ _).2 ((Only.storesNothing (.read rfl)).mono (fun cfg g _ => ?_) fun _ _ h => h)
  refine (obeys_bind _ _).2 (obeys_reject.2 ⟨fun _ => trivial, fun _ => ?_⟩)
  refine (obeys_bind _ _).2 (obeys_reject.2 ⟨fun _ => trivial, fun _ => ?_⟩)
  refine (obeys_bind _ _).2 ((effectiveLimits_quota cfg _).mono (fun limits g hlimits => ?_) fun _ _ h => h)
  have hremaining : (quotaRemaining (identity.map Identity.user) limits).Obeys
      (quotaProtocol users roles userId quota)
      (fun remaining g' => (identity.map Identity.user).map User.id = some userId →
        ∃ used ∈ g', used < quota ∧ remaining = some (max (quota - used) 0)) (fun _ _ => True) g := by
    cases hidentity : identity with
    | none => exact (Only.storesNothing (only_quotaRemaining _ limits)).mono (fun _ _ _ => nofun) fun _ _ h => h
    | some id =>
      by_cases hown : id.user.id = userId
      · have hfound : users.find? userId = some id.user := Keyed.find?_eq_some.2 ⟨hid id hidentity, hown⟩
        have hq : limits.quotaBytes = some quota := by
          rw [hlimits id.user (congrArg (Option.map Identity.user) hidentity)]
          rw [hfound] at hquota
          exact hquota
        exact (quotaRemaining_seen hown hq).mono (fun _ _ h _ => h) fun _ _ h => h
      · exact (Only.storesNothing (only_quotaRemaining _ limits)).mono
          (fun _ _ _ h => absurd (Option.some.inj h) hown) fun _ _ h => h
  refine (obeys_bind _ _).2 (hremaining.mono (fun remaining g hseen => ?_) fun _ _ h => h)
  refine (obeys_bind _ _).2 (obeys_check.2 ⟨fun _ _ => trivial, fun form hform => ?_⟩)
  have hplan : (uploadPlan env cfg limits (identity.map Identity.user) req form).Obeys
      (quotaProtocol users roles userId quota) (fun plan g' =>
        (∀ name, (plan.columns name).ownerId = (identity.map Identity.user).map User.id) ∧
        ((identity.map Identity.user).map User.id = some userId →
          ∃ used ∈ g', used + plan.bytes.length ≤ quota)) (fun _ _ => True) g := by
    have hsize : (uploadPlan env cfg limits (identity.map Identity.user) req form).Obeys
        (.ofExec (quotaProtocol users roles userId quota).next)
        (fun plan _ => (∃ bytes, form.spooled = some bytes ∧ plan.bytes.length ≤ bytes.length) ∧
          ∀ name, (plan.columns name).ownerId = (identity.map Identity.user).map User.id)
        (fun _ _ => True) g := uploadPlan_size henv cfg limits _ req form g
    have hkept : (uploadPlan env cfg limits (identity.map Identity.user) req form).Obeys
        (.ofExec (quotaProtocol users roles userId quota).next) (fun _ g' => ∀ used ∈ g, used ∈ g')
        (fun _ _ => True) g := by
      refine Prog.Obeys.mono (Prog.Obeys.stays (P := fun g' => ∀ used ∈ g, used ∈ g') ?_ _ fun _ h => h) ?_
      · rintro γ op r _ ⟨-, rfl⟩ hγ used hused
        exact mem_seen (hγ used hused)
      · intro r g' h
        cases r with
        | ok _ => exact h
        | error _ => trivial
    refine (Fallible.Obeys.and hsize (Fallible.Obeys.and hkept (Only.storesNothing
      (only_uploadPlan env cfg limits _ req form)))).mono ?_ fun _ _ _ => trivial
    rintro plan g' ⟨⟨⟨bytes, hbytes, hlength⟩, howner⟩, hkept, -⟩
    refine ⟨howner, fun hown => ?_⟩
    obtain ⟨used, hused, hless, rfl⟩ := hseen hown
    have hcap := readFields_spooled hform bytes hbytes
    refine ⟨used, hkept used hused, ?_⟩
    simp only [Option.map_some, Option.getD_some] at hcap
    omega
  refine (obeys_bind _ _).2 (hplan.mono (fun plan g h => ?_) fun _ _ h => h)
  refine (obeys_bind _ _).2 ((storeUpload_quota env plan req h.1 h.2).mono (fun core _ _ => ?_) fun _ _ h => h)
  by_cases hhtml : wantsHtml caller.headers = true
  · simp only [hhtml]
    exact trivial
  · simp only [hhtml]
    exact trivial

end Upload

/-! ## Runs -/

/-- The requests that leave the users and their roles alone. -/
def Request.LeavesUsers (req : Request) : Prop :=
  Area.users ∉ req.areas ∧ Area.admins ∉ req.areas ∧ Area.roleOfUser ∉ req.areas

section Runs

variable {users : Keyed User.id} {roles : Keyed Role.id} {userId : Uuid} {quota : ℤ}

/-- **What a request performs**: an upload inserts what fits, and no other request inserts a row. -/
theorem serve_quota {env : Env} (henv : env.StripShrinks)
    (hquota : (users.find? userId).bind (quotaOf roles) = some quota) (req : Request) (hreq : req.LeavesUsers) :
    (serve env req).Obeys (quotaProtocol users roles userId quota) (fun _ _ => True) 0 := by
  by_cases hnew : Area.newFiles ∈ req.areas
  · cases req with
    | upload caller req =>
      refine Prog.Obeys.mono (upload_quota henv caller req hquota) fun r _ _ => trivial
    | _ => simp [Request.areas] at hnew
  · have hout : ∀ {a : Area} {op : Op}, a ∉ req.areas → Within req.areas op → op.area ≠ some a :=
      fun ha hop harea => ha (hop _ harea)
    exact Query.Only.obeys (serve_only env req) (fun γ op hop => mayStore_of_area (hout hnew hop)
      ⟨hout hreq.1 hop, hout hreq.2.1 hop, hout hreq.2.2 hop⟩) 0

/-- The requests of a run about a quota. -/
abbrev QuotaRequest := {req : Request // req.LeavesUsers}

/-- What stays as it is, and what is bounded, whatever the requests have read. -/
structure WithinQuota (users : Keyed User.id) (roles : Keyed Role.id) (userId : Uuid) (quota : ℤ) (w : World)
    (_total : Multiset ℤ) : Prop where
  users : w.users = users
  roles : w.roles = roles
  used : w.used userId ≤ quota

/-- **One operation keeps the sum within the quota**, if no row is inserted on a stale sum. -/
theorem WithinQuota.step {mayFail : Op → Prop} {w w' : World} {g f : Multiset ℤ} {op : Op} {r : op.Res}
    (hmay : MayStore userId quota g op) (h : WithinQuota users roles userId quota w (g + f))
    (hfresh : NotStale userId w g f op) (hexec : exec mayFail w op r w') :
    ReadsUsers users roles op r ∧
      WithinQuota users roles userId quota w' (seen userId g op r + f) := by
  refine ⟨h.users ▸ h.roles ▸ exec_readsUsers hexec, ?_, (exec_roles hexec).trans h.roles, ?_⟩
  · exact (exec_users hexec hmay.users).trans h.users
  · rcases exec_used hexec hmay.bare with hless | ⟨row, columns, rfl, howner, heq⟩
    · exact hless.trans h.used
    · obtain ⟨used, hused, hfits⟩ := hmay.fits row columns rfl howner
      have hsum := hfresh row columns rfl howner used hused
      omega

/-- **The sum stays within the quota** in every run in which uploads insert their rows while the sum is not
larger than what they have read. -/
theorem quota_kept_of_notStale {env : Env} (henv : env.StripShrinks) (mayFail : Op → Prop) {w : World}
    (hquota : effectiveQuota w userId = some quota) (hused : w.used userId ≤ quota)
    {p : Pool World (QuotaRequest × Multiset ℤ) Op Op.Res Outcome}
    (hp : Tracked.Reachable (seen userId) (NotStale userId) (fun _ _ => True)
      (fun req : QuotaRequest => serve env req.1) (exec mayFail) w p) :
    p.shared.used userId ≤ quota := by
  have hstart : WithinQuota w.users w.roles userId quota w 0 := ⟨rfl, rfl, hused⟩
  have hinv := (Tracked.Reachable.invariant hstart
    (fun req : QuotaRequest => serve_quota henv hquota req.1 req.2)
    (fun _ _ _ _ _ _ _ hmay hs hcond hexec => WithinQuota.step hmay hs hcond hexec)
    (fun _ _ _ _ hs => ⟨hs.users, hs.roles, hs.used⟩) hp).1
  exact hinv.used

end Runs

/-! ### Two uploads of a byte -/

/-- A user who may store one byte, and is signed in. -/
def oneByteWorld : World :=
  { World.empty with
    users := ⟨[⟨1, ['u'], none, false, none, some 1, false, none⟩], List.nodup_singleton _⟩
    sessions := fun _ => { Session.fresh with uid := some 1 } }

/-- An upload of the user, of one byte. -/
def userUpload (bytes : Vector UInt8 idLen) : QuotaRequest :=
  ⟨.upload ⟨0, .none⟩ (oneByteUpload bytes), by simp [Request.LeavesUsers, Request.areas]⟩

/-- The second letter, again and again. -/
def oneBytes : Vector UInt8 idLen := Vector.replicate idLen 1

/-- Runs of requests with what they have read of the sum. -/
abbrev QuotaPool := Pool World (QuotaRequest × Multiset ℤ) Op Op.Res Outcome

/-- Play a schedule in which nothing fails. -/
def quotaPool (turns : List (Tracked.Turn QuotaRequest Unit)) : QuotaPool :=
  Tracked.play (seen 1) (fun req : QuotaRequest => serve .plain req.1) (fun _ w op => answer w op) oneByteWorld
    turns

/-- One upload after the other. -/
def uploadsInTurn : List (Tracked.Turn QuotaRequest Unit) :=
  .spawn (userUpload zeroBytes) :: List.replicate 9 (.act 0 ()) ++
    .spawn (userUpload oneBytes) :: List.replicate 9 (.act 0 ())

/-- The second upload runs between the read of the sum and the insertion of the first. -/
def uploadsAtOnce : List (Tracked.Turn QuotaRequest Unit) :=
  .spawn (userUpload zeroBytes) :: List.replicate 4 (.act 0 ()) ++
    .spawn (userUpload oneBytes) :: List.replicate 9 (.act 0 ()) ++ List.replicate 5 (.act 1 ())

/-- The test of the condition. -/
def notStale (userId : Uuid) (w : World) (g : Multiset ℤ) : Op → Bool
  | .insertFile _ columns => columns.ownerId ≠ some userId || decide (∀ used ∈ g, w.used userId ≤ used)
  | _ => true

theorem notStale_sound {userId : Uuid} {w : World} {g others : Multiset ℤ} {op : Op}
    (h : notStale userId w g op = true) : NotStale userId w g others op := by
  rintro row columns rfl howner
  simpa [notStale, howner] using h

theorem stripShrinks_plain : Env.plain.StripShrinks := by
  rintro bytes _ _ ⟨⟩
  exact le_rfl

/-- The second upload finds the quota used up. -/
theorem quota_kept_inTurn : (quotaPool uploadsInTurn).shared.used 1 ≤ 1 := by
  have hrun : Tracked.Reachable (seen 1) (NotStale 1) (fun _ _ => True)
      (fun req : QuotaRequest => serve .plain req.1) (exec fun _ => False) oneByteWorld
      (quotaPool uploadsInTurn) :=
    @Tracked.reachable_play _ _ _ _ _ _ _ (seen 1) _ _ _ _ Unit (fun _ w op => answer w op)
      (fun _ w g _ op => notStale 1 w g op) (fun _ _ => true)
      (fun _ w _ _ op hok => ⟨notStale_sound hok, exec_answer _ w op⟩) (fun _ _ _ => trivial)
      oneByteWorld uploadsInTurn (by decide)
  exact quota_kept_of_notStale stripShrinks_plain (fun _ => False) rfl (by decide) hrun

/-- **Two uploads that have both read the sum before either is stored exceed the quota.** -/
theorem quota_exceeded :
    Env.plain.StripShrinks ∧ effectiveQuota oneByteWorld 1 = some 1 ∧ oneByteWorld.used 1 = 0 ∧
    Tracked.Reachable (seen 1) (fun _ _ _ _ => True) (fun _ _ => True)
      (fun req : QuotaRequest => serve .plain req.1) (exec fun _ => False) oneByteWorld
      (quotaPool uploadsAtOnce) ∧
    (quotaPool uploadsAtOnce).shared.used 1 = 2 := by
  refine ⟨stripShrinks_plain, rfl, rfl, ?_, rfl⟩
  exact @Tracked.reachable_play _ _ _ _ _ _ _ (seen 1) _ _ _ _ Unit (fun _ w op => answer w op)
    (fun _ _ _ _ _ => true) (fun _ _ => true) (fun _ w _ _ op _ => ⟨trivial, exec_answer _ w op⟩)
    (fun _ _ _ => trivial) oneByteWorld uploadsAtOnce (by decide)

end Server
end Uwuubox
