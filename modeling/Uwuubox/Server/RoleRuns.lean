import Uwuubox.Server.Bootstrap
import Uwuubox.Server.Quota
import Uwuubox.Server.RoleRights

/-!
# Roles in every run

* `exec_user`, `execRole_user` — what one operation does to the row of a user.
* `Intact` — **the invariant**: roles that are named are there, and are valid; `intact_exec`: every operation that is
  allowed keeps it.
* `RoleTold` — the runs in which requests carry what they have been told.
* `roles_intact` — **every run keeps the invariant**.
* `role_changed` — **a user's role is changed by an administrator**, or given by a login to a user without one.
-/

namespace Uwuubox
namespace Server
namespace Roles

open Dedupe Storage Table Fallible

/-! ## One operation -/

theorem hasRole_iff {w : World} {id : Uuid} : hasRole w id = true ↔ ∃ role ∈ w.roles, role.id = id := by
  unfold hasRole
  constructor
  · intro h
    obtain ⟨role, hrole⟩ := Option.isSome_iff_exists.1 h
    exact ⟨role, Keyed.mem_of_find? hrole⟩
  · rintro ⟨role, hrole⟩
    exact Option.isSome_iff_exists.2 ⟨role, Keyed.find?_eq_some.2 hrole⟩

section Server

variable {mayFail : Op → Prop} {w w' : World} {op : Op} {r : op.Res}

theorem exec_roleOidcGroups (h : exec mayFail w op r w') : w'.roleOidcGroups = w.roleOidcGroups := by
  have hframe := exec_frame h
  generalize op.area = area at hframe
  rcases area with _ | area
  · exact congrArg World.roleOidcGroups hframe
  · cases area <;> first | (obtain ⟨_, rfl⟩ := hframe; rfl) | (obtain ⟨_, _, rfl⟩ := hframe; rfl)

/-- The role and the quota of a row are those of another. -/
def SameRole (old row : User) : Prop := row.roleId = old.roleId ∧ row.quotaOverrideBytes = old.quotaOverrideBytes

/-- **What an operation of the server does to the row of a user**: it inserts the row, or leaves its role and its quota
alone, or gives a role to who has none. -/
theorem exec_user (h : exec mayFail w op r w') {row : User} (hrow : row ∈ w'.users) :
    (op.inserts = some row ∧ ∀ old ∈ w.users, old.id ≠ row.id) ∨ ∃ old ∈ w.users, old.id = row.id ∧
      (SameRole old row ∨ ∃ roleId, op = .assignRole row.id roleId ∧ old.roleId = none ∧ row.roleId = some roleId ∧
        row.quotaOverrideBytes = old.quotaOverrideBytes) := by
  by_cases hold : row ∈ w.users
  · exact .inr ⟨row, hold, rfl, .inl ⟨rfl, rfl⟩⟩
  by_cases hop : ∃ new, op.inserts = some new
  · obtain ⟨new, hnew⟩ := hop
    rcases exec_inserts h hnew with hrows | hrows
    · rcases List.mem_cons.1 (hrows ▸ Keyed.mem_def.1 hrow) with rfl | hmem
      · refine .inl ⟨hnew, fun old hmem hid => hold ?_⟩
        have hkept : old ∈ w'.users := Keyed.mem_def.2 (hrows ▸ List.mem_cons_of_mem _ hmem)
        rwa [← Keyed.eq_of_col hkept hrow hid]
      · exact absurd hmem hold
    · exact absurd (Keyed.mem_def.2 (hrows ▸ Keyed.mem_def.1 hrow)) hold
  · refine .inr ?_
    cases op with
    | insertUser new => exact absurd ⟨new, rfl⟩ hop
    | createUser new code => exact absurd ⟨new, rfl⟩ hop
    | setAdmin id admin by' =>
      rcases exec_statement h rfl with heq | ⟨-, -, rfl⟩
      · cases heq
        rcases mem_updateWhere.1 (Keyed.mem_def.1 hrow) with ⟨hmem, -⟩ | ⟨old, hmem, -, rfl⟩
        · exact absurd hmem hold
        · exact ⟨old, hmem, rfl, .inl ⟨rfl, rfl⟩⟩
      · exact absurd hrow hold
    | assignRole userId roleId =>
      rcases exec_statement h rfl with heq | ⟨-, -, rfl⟩
      · simp only [answer] at heq
        split at heq
        · cases heq
          rcases mem_updateWhere.1 (Keyed.mem_def.1 hrow) with ⟨hmem, -⟩ | ⟨old, hmem, hmatch, rfl⟩
          · exact absurd hmem hold
          · simp only [Bool.and_eq_true, decide_eq_true_eq, Option.isNone_iff_eq_none] at hmatch
            obtain ⟨rfl, hnone⟩ := hmatch
            exact ⟨old, hmem, rfl, .inr ⟨roleId, rfl, hnone, rfl, rfl⟩⟩
        · cases heq
          exact absurd hrow hold
      · exact absurd hrow hold
    | storage op =>
      obtain ⟨_, rfl, -⟩ := exec_storage h
      exact absurd hrow hold
    | _ =>
      have hsame := exec_users h (by simp [Op.area])
      exact absurd (hsame ▸ hrow) hold

end Server

section Exec

variable {mayFail : RoleOp → Prop} {w w' : World} {op : RoleOp} {r : op.Res}

/-- A statement about roles does what it should, or nothing. -/
theorem of_statement (h : (r, w') = answerRole w op ∨ mayFail op ∧ (∃ e, r = .error e) ∧ w' = w) :
    w' = (answerRole w op).2 ∨ w' = w := by
  rcases h with heq | ⟨-, -, rfl⟩
  · exact .inl (congrArg Prod.snd heq)
  · exact .inr rfl

/-- How an operation changes the row of a user. -/
inductive UserChange (w : World) (old row : User) : RoleOp → Prop
  | same {op : RoleOp} : SameRole old row → UserChange w old row op
  | assigned {roleId : Uuid} : old.roleId = none → row.roleId = some roleId →
      row.quotaOverrideBytes = old.quotaOverrideBytes → hasRole w roleId = true →
      UserChange w old row (.server (.assignRole old.id roleId))
  | set {roleId : Option Uuid} {quota : Option ℤ} : row.roleId = roleId → row.quotaOverrideBytes = quota →
      (∀ id, roleId = some id → hasRole w id = true) → UserChange w old row (.setUserRole old.id roleId quota)
  | dropped {id : Uuid} : old.roleId = some id → row.roleId = none →
      row.quotaOverrideBytes = old.quotaOverrideBytes → UserChange w old row (.deleteRole id)

/-- **What one operation does to the row of a user.** -/
theorem execRole_user (h : execRole mayFail w op r w') {row : User} (hrow : row ∈ w'.users) :
    (∃ op', op = .server op' ∧ op'.inserts = some row ∧ ∀ old ∈ w.users, old.id ≠ row.id) ∨
      ∃ old ∈ w.users, old.id = row.id ∧ UserChange w old row op := by
  have hsame : w'.users = w.users → ∃ old ∈ w.users, old.id = row.id ∧ UserChange w old row op :=
    fun heq => ⟨row, heq ▸ hrow, rfl, .same ⟨rfl, rfl⟩⟩
  cases op with
  | server op =>
    rcases h with ⟨hviolates, hexec⟩ | ⟨-, -, rfl⟩
    · rcases exec_user hexec hrow with ⟨hnew, hother⟩ | ⟨old, hold, hid, hchange⟩
      · exact .inl ⟨op, rfl, hnew, hother⟩
      · refine .inr ⟨old, hold, hid, ?_⟩
        rcases hchange with hkept | ⟨roleId, rfl, hnone, hrole, hquota⟩
        · exact .same hkept
        · rw [← hid] at hviolates ⊢
          refine .assigned hnone hrole hquota ?_
          -- there is a user that gets the role, so the role has to be there
          have hany : (w.users.rows.any fun u => u.id = old.id && u.roleId.isNone) = true :=
            List.any_eq_true.2 ⟨old, hold, by simp [hnone]⟩
          simpa [violates, hany] using hviolates
    · exact .inr (hsame rfl)
  | deleteRole id =>
    rcases of_statement h with rfl | rfl
    · rcases mem_updateWhere.1 (Keyed.mem_def.1 hrow) with ⟨hold, -⟩ | ⟨old, hold, hrole, rfl⟩
      · exact .inr ⟨row, hold, rfl, .same ⟨rfl, rfl⟩⟩
      · exact .inr ⟨old, hold, rfl, .dropped (of_decide_eq_true hrole) rfl rfl⟩
    · exact .inr (hsame rfl)
  | setUserRole userId roleId quota =>
    rcases of_statement h with heq | rfl
    · simp only [answerRole] at heq
      split at heq
      · exact .inr (hsame (congrArg World.users heq))
      · split at heq
        · exact .inr (hsame (congrArg World.users heq))
        · rename_i hroles
          subst heq
          rcases mem_updateWhere.1 (Keyed.mem_def.1 hrow) with ⟨hold, -⟩ | ⟨old, hold, hid, rfl⟩
          · exact .inr ⟨row, hold, rfl, .same ⟨rfl, rfl⟩⟩
          · obtain rfl : old.id = userId := of_decide_eq_true hid
            refine .inr ⟨old, hold, rfl, .set rfl rfl ?_⟩
            rintro id rfl
            simpa using hroles
    · exact .inr (hsame rfl)
  | _ =>
    rcases of_statement h with rfl | rfl
    · refine .inr (hsame ?_)
      simp only [answerRole]
      repeat' split
      all_goals rfl
    · exact .inr (hsame rfl)

end Exec

/-! ## The invariant -/

/-- Roles that are named are there, and can be told apart; roles are valid, and so are the quotas of users. -/
structure Intact (w : World) : Prop where
  users : ∀ user ∈ w.users, ∀ id, user.roleId = some id → hasRole w id = true
  groups : ∀ g ∈ w.roleOidcGroups, hasRole w g.roleId = true
  keys : (w.roleOidcGroups.map mappingKey).Nodup
  names : ∀ role ∈ w.roles, ∀ other ∈ w.roles, citext role.name = citext other.name → role = other
  valid : ∀ role ∈ w.roles, role.validate = .ok ()
  quotas : ∀ user ∈ w.users, ∀ value, user.quotaOverrideBytes = some value → 0 ≤ value

theorem intact_empty : Intact World.empty where
  users _ hmem := absurd hmem List.not_mem_nil
  groups _ hmem := absurd hmem List.not_mem_nil
  keys := List.nodup_nil
  names _ hmem := absurd hmem List.not_mem_nil
  valid _ hmem := absurd hmem List.not_mem_nil
  quotas _ hmem := absurd hmem List.not_mem_nil

section Kept

variable {w : World}

/-- No other role has the name. -/
theorem ne_of_not_nameTaken {id : Uuid} {name : Text} (h : ¬ nameTaken w id name = true) {role : Role}
    (hrole : role ∈ w.roles) (hname : citext role.name = citext name) : role.id = id := by
  by_contra hid
  exact h (List.any_eq_true.2 ⟨role, hrole, by simp [hid, hname]⟩)

theorem intact_insertRole {row : Role} (hvalid : row.validate = .ok ()) (hw : Intact w) :
    Intact (answerRole w (.insertRole row)).2 := by
  simp only [answerRole]
  split
  · exact hw
  · rename_i hname
    split
    · exact hw
    · rename_i roles hinsert
      have hnew := (Keyed.insert?_eq_some hinsert).2
      have hroles : ∀ {id : Uuid}, hasRole w id = true → hasRole { w with roles := roles } id = true := by
        intro id hid
        obtain ⟨role, hrole, heq⟩ := hasRole_iff.1 hid
        exact hasRole_iff.2 ⟨role, (Keyed.mem_insert? hinsert).2 (.inr hrole), heq⟩
      refine ⟨fun user huser id hid => hroles (hw.users user huser id hid), fun g hg => hroles (hw.groups g hg),
        hw.keys, fun role hrole other hother heq => ?_, fun role hrole => ?_, hw.quotas⟩
      · rcases (Keyed.mem_insert? hinsert).1 hrole with rfl | hrole'
        · rcases (Keyed.mem_insert? hinsert).1 hother with rfl | hother'
          · rfl
          · exact absurd (ne_of_not_nameTaken hname hother' heq.symm) (hnew other hother')
        · rcases (Keyed.mem_insert? hinsert).1 hother with rfl | hother'
          · exact absurd (ne_of_not_nameTaken hname hrole' heq) (hnew role hrole')
          · exact hw.names role hrole' other hother' heq
      · rcases (Keyed.mem_insert? hinsert).1 hrole with rfl | hrole
        · exact hvalid
        · exact hw.valid role hrole

theorem intact_updateRole {id : Uuid} {input : RoleInput} (hvalid : input.validate = .ok ()) (hw : Intact w) :
    Intact (answerRole w (.updateRole id input)).2 := by
  simp only [answerRole]
  split
  · exact hw
  · split
    · exact hw
    · rename_i hname
      have hroles : ∀ {p : Role → Bool} {f : Role → Role} {hf : ∀ role, (f role).id = role.id} {other : Uuid},
          hasRole w other = true → hasRole { w with roles := w.roles.update p f hf } other = true := by
        intro p f hf other hother
        obtain ⟨role, hrole, heq⟩ := hasRole_iff.1 hother
        refine hasRole_iff.2 ?_
        cases hp : p role with
        | false => exact ⟨role, mem_updateWhere.2 (.inl ⟨hrole, hp⟩), heq⟩
        | true => exact ⟨f role, mem_updateWhere.2 (.inr ⟨role, hrole, hp, rfl⟩), (hf role).trans heq⟩
      refine ⟨fun user huser other hid => hroles (hw.users user huser other hid), fun g hg => hroles (hw.groups g hg),
        hw.keys, fun role hrole other hother heq => ?_, fun role hrole => ?_, hw.quotas⟩
      · rcases mem_updateWhere.1 (Keyed.mem_def.1 hrole) with ⟨hrole, hne⟩ | ⟨old, hold, hid, rfl⟩
        · rcases mem_updateWhere.1 (Keyed.mem_def.1 hother) with ⟨hother, -⟩ | ⟨old', hold', hid', rfl⟩
          · exact hw.names role hrole other hother heq
          · exact absurd (ne_of_not_nameTaken hname hrole heq) (of_decide_eq_false hne)
        · rcases mem_updateWhere.1 (Keyed.mem_def.1 hother) with ⟨hother, hne⟩ | ⟨old', hold', hid', rfl⟩
          · exact absurd (ne_of_not_nameTaken hname hother heq.symm) (of_decide_eq_false hne)
          · rw [Keyed.eq_of_col hold hold' ((of_decide_eq_true hid).trans (of_decide_eq_true hid').symm)]
      · rcases mem_updateWhere.1 (Keyed.mem_def.1 hrole) with ⟨hrole, -⟩ | ⟨old, hold, -, rfl⟩
        · exact hw.valid role hrole
        · exact hvalid

theorem intact_dropRole {id : Uuid} (hw : Intact w) : Intact (dropRole w id) := by
  have hroles : ∀ {other : Uuid}, other ≠ id → hasRole w other = true → hasRole (dropRole w id) other = true := by
    intro other hne hother
    obtain ⟨role, hrole, heq⟩ := hasRole_iff.1 hother
    refine hasRole_iff.2 ⟨role, Keyed.mem_delete.2 ⟨hrole, decide_eq_false ?_⟩, heq⟩
    exact fun hid => hne (heq.symm.trans hid)
  refine ⟨fun user huser other hother => ?_, fun g hg => ?_, hw.keys.sublist (List.filter_sublist.map mappingKey),
    fun role hrole other hother => ?_, fun role hrole => hw.valid role (Keyed.mem_delete.1 hrole).1,
    fun user huser => ?_⟩
  · rcases mem_updateWhere.1 (Keyed.mem_def.1 huser) with ⟨huser, hne⟩ | ⟨old, -, -, rfl⟩
    · refine hroles ?_ (hw.users user huser other hother)
      rintro rfl
      exact of_decide_eq_false hne hother
    · cases hother
  · obtain ⟨hg, hne⟩ := List.mem_filter.1 hg
    exact hroles (of_decide_eq_true hne) (hw.groups g hg)
  · exact hw.names role (Keyed.mem_delete.1 hrole).1 other (Keyed.mem_delete.1 hother).1
  · rcases mem_updateWhere.1 (Keyed.mem_def.1 huser) with ⟨huser, -⟩ | ⟨old, hold, -, rfl⟩
    · exact hw.quotas user huser
    · exact hw.quotas old hold

theorem intact_setUserRole {userId : Uuid} {roleId : Option Uuid} {quota : Option ℤ}
    (hquota : ∀ value, quota = some value → 0 ≤ value) (hw : Intact w) :
    Intact (answerRole w (.setUserRole userId roleId quota)).2 := by
  simp only [answerRole]
  split
  · exact hw
  · split
    · exact hw
    · rename_i hroles
      refine ⟨fun user huser id hid => ?_, hw.groups, hw.keys, hw.names, hw.valid, fun user huser => ?_⟩
      · rcases mem_updateWhere.1 (Keyed.mem_def.1 huser) with ⟨huser, -⟩ | ⟨old, -, -, rfl⟩
        · exact hw.users user huser id hid
        · obtain rfl : roleId = some id := hid
          have hthere : hasRole w id = true := by simpa using hroles
          exact hthere
      · rcases mem_updateWhere.1 (Keyed.mem_def.1 huser) with ⟨huser, -⟩ | ⟨old, -, -, rfl⟩
        · exact hw.quotas user huser
        · exact hquota

theorem intact_addMapping {row : RoleOidcGroup} (hw : Intact w) : Intact (answerRole w (.addMapping row)).2 := by
  simp only [answerRole]
  split
  · exact hw
  · rename_i hrole
    have hthere : hasRole w row.roleId = true := by simpa using hrole
    split
    · refine ⟨hw.users, fun g hg => ?_, ?_, hw.names, hw.valid, hw.quotas⟩
      · obtain ⟨old, hold, rfl⟩ := List.mem_map.1 hg
        split
        · exact hthere
        · exact hw.groups old hold
      · -- the row that is replaced has the key of the new one
        have hkeys : (w.roleOidcGroups.map fun g => if mappingKey g = mappingKey row then row else g).map mappingKey =
            w.roleOidcGroups.map mappingKey := by
          rw [List.map_map]
          refine List.map_congr_left fun g _ => ?_
          show mappingKey (if mappingKey g = mappingKey row then row else g) = mappingKey g
          split
          · exact Eq.symm ‹_›
          · rfl
        rw [hkeys]
        exact hw.keys
    · rename_i hnew
      refine ⟨hw.users, fun g hg => ?_, ?_, hw.names, hw.valid, hw.quotas⟩
      · rcases List.mem_cons.1 hg with rfl | hg
        · exact hthere
        · exact hw.groups g hg
      · refine List.nodup_cons.2 ⟨fun hmem => hnew ?_, hw.keys⟩
        obtain ⟨g, hg, heq⟩ := List.mem_map.1 hmem
        exact List.any_eq_true.2 ⟨g, hg, decide_eq_true heq⟩

end Kept

section Step

variable {env : Env} {req : RoleRequest} {known : Shown → Prop} {mayFail : RoleOp → Prop} {w w' : World} {op : RoleOp}
  {r : op.Res}

/-- **An operation that is allowed keeps the invariant.** -/
theorem intact_exec (hmay : Allowed env req known op) (h : execRole mayFail w op r w') (hw : Intact w) : Intact w' := by
  cases op with
  | server op =>
    have hnew : ∀ row, op.inserts = some row → row.roleId = none ∧ row.quotaOverrideBytes = none := by
      intro row hop
      cases op with
      | insertUser new =>
        cases hop
        exact hmay
      | createUser new code =>
        cases hop
        exact hmay
      | _ => cases hop
    have hsame : w'.roles = w.roles ∧ w'.roleOidcGroups = w.roleOidcGroups := by
      rcases h with ⟨-, hexec⟩ | ⟨-, -, rfl⟩
      · exact ⟨exec_roles hexec, exec_roleOidcGroups hexec⟩
      · exact ⟨rfl, rfl⟩
    obtain ⟨hroles, hgroups⟩ := hsame
    have hthere : ∀ id, hasRole w' id = hasRole w id := fun id => by
      unfold hasRole
      rw [hroles]
    refine ⟨fun user huser id hid => ?_, fun g hg => ?_, ?_, ?_, ?_, fun user huser value hvalue => ?_⟩
    · rw [hthere]
      rcases execRole_user h huser with ⟨op', heq, hinserts, -⟩ | ⟨old, hold, -, hchange⟩
      · cases heq
        exact absurd ((hnew user hinserts).1.symm.trans hid) nofun
      · cases hchange with
        | same hkept => exact hw.users old hold id (hkept.1.symm.trans hid)
        | assigned _ hrole _ hsome =>
          obtain rfl := Option.some.inj (hrole.symm.trans hid)
          exact hsome
    · rw [hthere]
      exact hw.groups g (hgroups ▸ hg)
    · rw [hgroups]
      exact hw.keys
    · rw [hroles]
      exact hw.names
    · rw [hroles]
      exact hw.valid
    · rcases execRole_user h huser with ⟨op', heq, hinserts, -⟩ | ⟨old, hold, -, hchange⟩
      · cases heq
        exact absurd ((hnew user hinserts).2.symm.trans hvalue) nofun
      · cases hchange with
        | same hkept => exact hw.quotas old hold value (hkept.2.symm.trans hvalue)
        | assigned _ _ hquota _ => exact hw.quotas old hold value (hquota.symm.trans hvalue)
  | insertRole row =>
    rcases of_statement h with rfl | rfl
    · exact intact_insertRole hmay.2 hw
    · exact hw
  | updateRole id input =>
    rcases of_statement h with rfl | rfl
    · exact intact_updateRole hmay.2 hw
    · exact hw
  | deleteRole id =>
    rcases of_statement h with rfl | rfl
    · exact intact_dropRole hw
    · exact hw
  | setUserRole userId roleId quota =>
    rcases of_statement h with rfl | rfl
    · exact intact_setUserRole hmay.2.1 hw
    · exact hw
  | addMapping row =>
    rcases of_statement h with rfl | rfl
    · exact intact_addMapping hw
    · exact hw
  | removeMapping roleId issuer groupName =>
    rcases of_statement h with rfl | rfl
    · exact ⟨hw.users, fun g hg => hw.groups g (List.mem_filter.1 hg).1,
        hw.keys.sublist (List.filter_sublist.map mappingKey), hw.names, hw.valid, hw.quotas⟩
    · exact hw

end Step

/-! ## Runs -/

/-- The requests, each with what it has been told. -/
abbrev RolePool := Pool World (RoleRequest × Multiset Shown) RoleOp RoleOp.Res Outcome

/-- One step of a run in which requests carry what they have been told. -/
abbrev RoleStep (env : Env) (mayFail : RoleOp → Prop) : RolePool → RolePool → Prop :=
  Tracked.Step (Tracked.learn RoleOp.facts) (fun _ _ _ _ => True) (fun _ _ => True) (serveRole env) (execRole mayFail)

/-- The runs in which requests carry what they have been told, and may end anywhere. -/
def RoleTold (env : Env) (mayFail : RoleOp → Prop) (w₀ : World) (p : RolePool) : Prop :=
  Tracked.Reachable (Tracked.learn RoleOp.facts) (fun _ _ _ _ => True) (fun _ _ => True) (serveRole env)
    (execRole mayFail) w₀ p

/-- Why the role or the quota of a user is changed. -/
inductive Changes (env : Env) (req : RoleRequest) (known : Shown → Prop) (old row : User) : Prop
  /-- An administrator has chosen the role for this user. -/
  | chosen {caller : Caller} {form : UserRoleForm} : req = .updateUserRole caller old.id form →
      form.roleId = row.roleId.map some → ByAdmin env req known → Changes env req known old row
  /-- An administrator has deleted the role that the user had. -/
  | deleted {caller : Caller} {id : Uuid} : req = .deleteRole caller id → old.roleId = some id → row.roleId = none →
      row.quotaOverrideBytes = old.quotaOverrideBytes → ByAdmin env req known → Changes env req known old row
  /-- The user has had no role, and the provider says a group that stands for this one. -/
  | groups {roleId : Uuid} : ByGroups req known roleId → old.roleId = none → row.roleId = some roleId →
      row.quotaOverrideBytes = old.quotaOverrideBytes → Changes env req known old row

/-! ### A run -/

/-- Requests that come one after the other, from a fresh instance. -/
def played (reqs : List (RoleRequest × ℕ)) : RolePool :=
  Tracked.play (Tracked.learn RoleOp.facts) (serveRole .plain) (fun _ : Unit => answerRole) .empty (Tracked.inTurn reqs)

/-- The next operation of the last request. -/
def RolePool.next (p : RolePool) : RolePool :=
  Tracked.turn (Tracked.learn RoleOp.facts) (serveRole .plain) (fun _ : Unit => answerRole) p (.act 0 ())

theorem told_played (reqs : List (RoleRequest × ℕ)) : RoleTold .plain (fun _ => False) .empty (played reqs) :=
  Tracked.reachable_inTurn (exec_answerRole _) .empty reqs

theorem step_next {p : RolePool} {req : RoleRequest} {g : Multiset Shown} {op : RoleOp}
    {k : op.Res → Prog RoleOp RoleOp.Res Outcome} (hget : p.threads[0]? = some ((req, g), .call op k)) :
    RoleStep .plain (fun _ => False) p p.next := Tracked.act_step hget trivial (exec_answerRole _ _ _)

/-- A form that leaves the limits open. -/
def openForm (name : Text) : RoleForm := ⟨name, none, none, none, none, none, none, none, none, none, none, none, none⟩

/-- Kaz registers, makes a role, and is about to give it to himself. -/
def promotes : RolePool :=
  played [(.other (.served (registers ['k', 'a', 'z'] 1).1), 4),
    (.createRole anonymous (openForm ['m', 'o', 'd']) 7, 4), (.updateUserRole anonymous 1 ⟨some (some 7), none⟩, 3)]

/-- The role. -/
def modRole : Role where
  name := ['m', 'o', 'd']
  maxFileBytes := none
  maxPasteBytes := none
  maxAvatarBytes := none
  minExpirySecs := none
  maxExpirySecs := none
  defaultExpirySecs := none
  quotaBytes := none
  canPublishPublic := false
  canBurn := false
  canComment := false
  canCreateCollections := false
  canModerate := false
  id := 7

section Runs

variable {env : Env} {mayFail : RoleOp → Prop} {w₀ : World} {p q : RolePool}

/-- A statement that fails tells nothing. -/
theorem matches_error (op : Op) (e : Failure) : Matches op (.error e) := by
  cases op <;> trivial

theorem execRole_tells {w w' : World} {op : RoleOp} {r : op.Res} (h : execRole mayFail w op r w') : RoleTells op r := by
  cases op with
  | server op =>
    rcases h with ⟨-, hexec⟩ | ⟨-, ⟨e, rfl⟩, -⟩
    · exact exec_matches hexec
    · exact matches_error op e
  | _ => trivial

/-- What a request is about to perform is allowed. -/
theorem roleTold_allowed (hp : RoleTold env mayFail w₀ p) {req : RoleRequest} {g : Multiset Shown} {op : RoleOp}
    {k : op.Res → Prog RoleOp RoleOp.Res Outcome} (ht : ((req, g), .call op k) ∈ p.threads) :
    Allowed env req (· ∈ g) op :=
  hp.justified (fun _ _ _ _ hexec => execRole_tells hexec) (justified_serveRole env) ht

/-- **Roles stay intact**: in every run, whatever requests interleave, fail or stop, roles that users and groups name
are there, two roles have two names, each role is valid, and no quota of a user is negative. -/
theorem roles_intact (hw₀ : Intact w₀) (hp : RoleTold env mayFail w₀ p) : Intact p.shared := by
  induction hp with
  | refl => exact hw₀
  | @tail p q hprev hlast ih =>
    cases hlast with
    | spawn => exact ih
    | leave => exact ih
    | act _ hexec => exact intact_exec (roleTold_allowed hprev List.mem_append_cons_self) hexec ih

theorem roles_intact_promotes :
    promotes.next.shared.roles.rows = [modRole] ∧ Intact promotes.next.shared :=
  ⟨rfl, roles_intact intact_empty ((told_played _).tail (step_next (by rfl)))⟩

/-- **A user's role is changed by an administrator, or given by a login to a user without one.**  In every run, whatever
requests interleave, fail or stop, a step that changes the role or the quota of a user is one of a request that has
been shown its caller as an administrator and is about this user, or about the role that the user had, or of a login
through the provider, when the user has no role: it gives the role that has been shown for the groups of the login. -/
theorem role_changed (hp : RoleTold env mayFail w₀ p) (hstep : RoleStep env mayFail p q) {old row : User}
    (hold : old ∈ p.shared.users) (hrow : row ∈ q.shared.users) (hid : row.id = old.id)
    (hchanged : ¬ SameRole old row) :
    ∃ req g, (∃ prog, ((req, g), prog) ∈ p.threads) ∧ Changes env req (· ∈ g) old row := by
  cases hstep with
  | spawn =>
    obtain rfl := Keyed.eq_of_col hold hrow hid.symm
    exact absurd ⟨rfl, rfl⟩ hchanged
  | leave =>
    obtain rfl := Keyed.eq_of_col hold hrow hid.symm
    exact absurd ⟨rfl, rfl⟩ hchanged
  | @act w w' pre post req g op k r _ hexec =>
    refine ⟨req, g, ⟨_, List.mem_append_cons_self⟩, ?_⟩
    have hmay : Allowed env req (· ∈ g) op := roleTold_allowed hp List.mem_append_cons_self
    rcases execRole_user hexec hrow with ⟨_, -, -, hnew⟩ | ⟨old', hold', hid', hchange⟩
    · exact absurd hid.symm (hnew old hold)
    · obtain rfl := Keyed.eq_of_col hold' hold (hid'.trans hid)
      cases hchange with
      | same hkept => exact absurd hkept hchanged
      | assigned hnone hrole hquota _ => exact .groups hmay hnone hrole hquota
      | set hrole _ _ =>
        subst hrole
        obtain ⟨hadmin, -, caller, form, hreq, hform⟩ := hmay
        exact .chosen hreq hform hadmin
      | dropped hrole hnone hquota =>
        obtain ⟨hadmin, caller, hreq⟩ := hmay
        exact .deleted hreq hrole hnone hquota hadmin

theorem role_changed_promotes : ∃ old ∈ promotes.shared.users, ∃ row ∈ promotes.next.shared.users,
    old.roleId = none ∧ row.roleId = some 7 ∧
      ∃ req g, (∃ prog, ((req, g), prog) ∈ promotes.threads) ∧ Changes .plain req (· ∈ g) old row := by
  refine ⟨_, List.mem_cons_self, _, List.mem_cons_self, rfl, rfl, ?_⟩
  refine role_changed (told_played _) (step_next (by rfl)) List.mem_cons_self List.mem_cons_self rfl ?_
  exact fun hsame => absurd hsame.1 nofun

end Runs

end Roles
end Server
end Uwuubox
