import Uwuubox.Server.Login

/-!
# Roles

`src/routes/roles.rs`: roles, the roles of users and the groups of identity providers that stand for roles, beside the
requests of the server.

* `RoleForm`, `intoInput` — the forms.
* `RoleOp`, `answerRole`, `execRole` — the statements, with the foreign keys on `roles`: a deleted role is taken from
  its users, and its groups go with it.
* `createRole`, `updateRole`, `deleteRole`, `updateUserRole`, `addOidcMapping`, `removeOidcMapping` — the handlers;
  `RoleRequest`, `serveRole`.
-/

namespace Uwuubox
namespace Server
namespace Roles

open Dedupe Storage Table Fallible

/-! ## The forms -/

structure RoleForm where
  name : Text
  maxFileBytes : Option Text
  maxPasteBytes : Option Text
  maxAvatarBytes : Option Text
  minExpirySecs : Option Text
  maxExpirySecs : Option Text
  defaultExpirySecs : Option Text
  quotaBytes : Option Text
  canPublishPublic : Option Text
  canBurn : Option Text
  canComment : Option Text
  canCreateCollections : Option Text
  canModerate : Option Text

/-- `optional_i64` -/
def optionalI64 (value : Option Text) (field : String) : Except Abort (Option ℤ) :=
  let value := trim (value.getD [])
  if value.isEmpty then .ok none
  else match parseI64 value with
    | some n => .ok (some n)
    | none => .error (AppError.badRequest (field ++ " must be a number"))

/-- `into_input` -/
def RoleForm.intoInput (form : RoleForm) : Except Abort RoleInput := do
  let maxFileBytes ← optionalI64 form.maxFileBytes "max_file_bytes"
  let maxPasteBytes ← optionalI64 form.maxPasteBytes "max_paste_bytes"
  let maxAvatarBytes ← optionalI64 form.maxAvatarBytes "max_avatar_bytes"
  let minExpirySecs ← optionalI64 form.minExpirySecs "min_expiry_secs"
  let maxExpirySecs ← optionalI64 form.maxExpirySecs "max_expiry_secs"
  let defaultExpirySecs ← optionalI64 form.defaultExpirySecs "default_expiry_secs"
  let quotaBytes ← optionalI64 form.quotaBytes "quota_bytes"
  pure {
    name := trim form.name
    maxFileBytes := maxFileBytes
    maxPasteBytes := maxPasteBytes
    maxAvatarBytes := maxAvatarBytes
    minExpirySecs := minExpirySecs
    maxExpirySecs := maxExpirySecs
    defaultExpirySecs := defaultExpirySecs
    quotaBytes := quotaBytes
    canPublishPublic := form.canPublishPublic.isSome
    canBurn := form.canBurn.isSome
    canComment := form.canComment.isSome
    canCreateCollections := form.canCreateCollections.isSome
    canModerate := form.canModerate.isSome }

/-- `UserRoleForm`; `role_id` is trimmed, and `some none` where it is not an id. -/
structure UserRoleForm where
  roleId : Option (Option Uuid)
  quotaOverrideBytes : Option Text

structure MappingForm where
  issuer : Text
  groupName : Text
  priority : ℤ

/-! ## The statements -/

inductive RoleOp where
  | server (op : Op)
  /-- `INSERT INTO roles .. RETURNING *` -/
  | insertRole (row : Role)
  /-- `UPDATE roles SET .. WHERE id = $1 RETURNING *` -/
  | updateRole (id : Uuid) (input : RoleInput)
  /-- `DELETE FROM roles WHERE id = $1`: whether there was one -/
  | deleteRole (id : Uuid)
  /-- `UPDATE users SET role_id = $2, quota_override_bytes = $3 WHERE id = $1` -/
  | setUserRole (userId : Uuid) (roleId : Option Uuid) (quota : Option ℤ)
  /-- `INSERT INTO role_oidc_groups .. ON CONFLICT .. DO UPDATE SET priority = EXCLUDED.priority` -/
  | addMapping (row : RoleOidcGroup)
  /-- `DELETE FROM role_oidc_groups WHERE ..` -/
  | removeMapping (roleId : Uuid) (issuer groupName : Text)

namespace RoleOp

abbrev Val : RoleOp → Type
  | server op => op.Val
  | insertRole _ => Role
  | updateRole _ _ => Option Role
  | deleteRole _ => Bool
  | setUserRole _ _ _ => Bool
  | addMapping _ => Unit
  | removeMapping _ _ _ => Bool

abbrev Res (op : RoleOp) : Type := Except Failure op.Val

end RoleOp

/-- `violates foreign key constraint` -/
def noSuchRole : Failure := .sql (.io "foreign key violation")

/-- There is a role with this id. -/
def hasRole (w : World) (id : Uuid) : Bool := (w.roles.find? id).isSome

/-- The statement would give a role that is not there to a user. -/
def violates (w : World) : Op → Bool
  | .assignRole userId roleId => !hasRole w roleId && w.users.rows.any fun u => u.id = userId && u.roleId.isNone
  | _ => false

/-- The key of `role_oidc_groups`. -/
def mappingKey (g : RoleOidcGroup) : Uuid × Text × Text := (g.roleId, g.issuer, g.groupName)

/-- The name is that of another role. -/
def nameTaken (w : World) (id : Uuid) (name : Text) : Bool :=
  w.roles.rows.any fun role => role.id ≠ id && citext role.name = citext name

/-- A role that is deleted is taken from its users. -/
def dropRole (w : World) (id : Uuid) : World where
  __ := w
  roles := w.roles.delete fun role => role.id = id
  users := w.users.update (fun u => u.roleId = some id) (fun u => { u with roleId := none }) fun _ => rfl
  roleOidcGroups := w.roleOidcGroups.filter fun g => g.roleId ≠ id

/-- What an operation returns and does when it does not fail. -/
def answerRole (w : World) : (op : RoleOp) → op.Res × World
  | .server op => if violates w op then (.error noSuchRole, w) else answer w op
  | .insertRole row =>
    if nameTaken w row.id row.name then (.error (.sql (.uniqueViolation "roles_name_key")), w)
    else match w.roles.insert? row with
      | none => (.error (.sql (.uniqueViolation "roles_pkey")), w)
      | some roles => (.ok row, { w with roles := roles })
  | .updateRole id input =>
    match w.roles.find? id with
    | none => (.ok none, w)
    | some row =>
      if nameTaken w id input.name then (.error (.sql (.uniqueViolation "roles_name_key")), w)
      else
        let roles := w.roles.update (fun role => role.id = id) (fun role => { role with toRoleInput := input })
          fun _ => rfl
        (.ok (some { row with toRoleInput := input }), { w with roles := roles })
  | .deleteRole id => (.ok (hasRole w id), dropRole w id)
  | .setUserRole userId roleId quota =>
    if (w.users.find? userId).isNone then (.ok false, w)
    else if roleId.any fun id => !hasRole w id then (.error noSuchRole, w)
    else
      let users := w.users.update (fun u => u.id = userId)
        (fun u => { u with roleId := roleId, quotaOverrideBytes := quota }) fun _ => rfl
      (.ok true, { w with users := users })
  | .addMapping row =>
    if !hasRole w row.roleId then (.error noSuchRole, w)
    else if w.roleOidcGroups.any fun g => mappingKey g = mappingKey row then
      let groups := w.roleOidcGroups.map fun g => if mappingKey g = mappingKey row then row else g
      (.ok (), { w with roleOidcGroups := groups })
    else (.ok (), { w with roleOidcGroups := row :: w.roleOidcGroups })
  | .removeMapping roleId issuer groupName =>
    (.ok (w.roleOidcGroups.any fun g => mappingKey g = (roleId, issuer, groupName)),
      { w with roleOidcGroups := w.roleOidcGroups.filter fun g => mappingKey g ≠ (roleId, issuer, groupName) })

/-- What one operation can do: what it should, or it fails; a statement that fails has no effect. -/
def execRole (mayFail : RoleOp → Prop) (w : World) : (op : RoleOp) → op.Res → World → Prop
  | .server op, r, w' => (violates w op = false ∧ exec (fun op => mayFail (.server op)) w op r w') ∨
      (violates w op = true ∧ (∃ e, r = .error e) ∧ w' = w)
  | op, r, w' => (r, w') = answerRole w op ∨ mayFail op ∧ (∃ e, r = .error e) ∧ w' = w

theorem exec_answerRole (mayFail : RoleOp → Prop) (w : World) (op : RoleOp) :
    execRole mayFail w op (answerRole w op).1 (answerRole w op).2 := by
  cases op with
  | server op =>
    cases hviolates : violates w op with
    | true =>
      have hanswer : answerRole w (.server op) = (.error noSuchRole, w) := if_pos hviolates
      rw [hanswer]
      exact .inr ⟨hviolates, ⟨_, rfl⟩, rfl⟩
    | false =>
      have hanswer : answerRole w (.server op) = answer w op := if_neg (by simp [hviolates])
      rw [hanswer]
      exact .inl ⟨hviolates, exec_answer _ w op⟩
  | _ => exact .inl rfl

/-! ## The handlers -/

abbrev RoleHandler (α : Type) := Fallible RoleOp RoleOp.Res Abort α

/-- A query of the server. -/
def onServer {α : Type} (p : Query α) : Prog RoleOp RoleOp.Res α :=
  p.interp fun op => Prog.perform (RoleOp.server op)

/-- A handler of the server. -/
def onRoles {α : Type} (p : Handler α) : RoleHandler α := ExceptT.mk (onServer p.run)

/-- A statement followed by `?`. -/
def askRole (op : RoleOp) : RoleHandler op.Val := do
  match ← perform op with
  | .ok v => pure v
  | .error e => throw (Abort.error (.from' e))

/-- `map_role_db_error` -/
def mapRoleDbError : Failure → AppError
  | .sql (.uniqueViolation _) => .badRequest "role name already exists"
  | e => .from' e

/-- A statement followed by `.map_err(map_role_db_error)?`. -/
def askNamed (op : RoleOp) : RoleHandler op.Val := do
  match ← perform op with
  | .ok v => pure v
  | .error e => throw (Abort.error (mapRoleDbError e))

/-- `validate`, as a 400. -/
def validated (input : RoleInput) : Except Abort Unit := input.validate.mapError fun e => AppError.badRequest e

/-- `create_role`; `id` is a new id. -/
def createRole (env : Env) (caller : Caller) (form : RoleForm) (id : Uuid) : RoleHandler Response := do
  let actor ← onRoles (requireAdmin env caller)
  let input ← check form.intoInput
  check (validated input)
  let _role ← askNamed (.insertRole { input with id := id })
  onRoles (ask (.audit (some actor.id) "role.create"))
  pure (.seeOther adminPath)

/-- `update_role` -/
def updateRole (env : Env) (caller : Caller) (id : Uuid) (form : RoleForm) : RoleHandler Response := do
  let actor ← onRoles (requireAdmin env caller)
  let input ← check form.intoInput
  check (validated input)
  let role ← askNamed (.updateRole id input)
  let _role ← orThrow role AppError.notFound
  onRoles (ask (.audit (some actor.id) "role.update"))
  pure (.seeOther adminPath)

/-- `delete_role` -/
def deleteRole (env : Env) (caller : Caller) (id : Uuid) : RoleHandler Response := do
  let actor ← onRoles (requireAdmin env caller)
  let role ← onRoles (ask (.findRole id))
  let _role ← orThrow role AppError.notFound
  let _deleted ← askRole (.deleteRole id)
  onRoles (ask (.audit (some actor.id) "role.delete"))
  pure (.seeOther adminPath)

/-- The role that a form names. -/
def chosenRole : Option (Option Uuid) → RoleHandler (Option Uuid)
  | none => pure none
  | some id => do
    let id ← orThrow id (AppError.badRequest "bad role id")
    let role ← onRoles (ask (.findRole id))
    let _role ← orThrow role AppError.notFound
    pure (some id)

/-- `update_user_role` -/
def updateUserRole (env : Env) (caller : Caller) (userId : Uuid) (form : UserRoleForm) : RoleHandler Response := do
  let actor ← onRoles (requireAdmin env caller)
  let roleId ← chosenRole form.roleId
  let quota ← check (optionalI64 form.quotaOverrideBytes "quota_override_bytes")
  reject (quota.any fun value => value < 0) (AppError.badRequest "quota_override_bytes must be at least 0")
  let found ← askRole (.setUserRole userId roleId quota)
  reject (!found) AppError.notFound
  onRoles (ask (.audit (some actor.id) "user.role"))
  pure (.seeOther adminPath)

/-- `add_oidc_mapping` -/
def addOidcMapping (env : Env) (caller : Caller) (roleId : Uuid) (form : MappingForm) : RoleHandler Response := do
  let actor ← onRoles (requireAdmin env caller)
  let role ← onRoles (ask (.findRole roleId))
  let _role ← orThrow role AppError.notFound
  let issuer := trim form.issuer
  let groupName := trim form.groupName
  reject (issuer.isEmpty ∨ groupName.isEmpty) (AppError.badRequest "issuer and group name are required")
  askRole (.addMapping ⟨roleId, issuer, groupName, form.priority⟩)
  onRoles (ask (.audit (some actor.id) "role.oidc_group.add"))
  pure (.seeOther adminPath)

/-- `remove_oidc_mapping` -/
def removeOidcMapping (env : Env) (caller : Caller) (roleId : Uuid) (issuer groupName : Text) :
    RoleHandler Response := do
  let actor ← onRoles (requireAdmin env caller)
  let found ← askRole (.removeMapping roleId (trim issuer) (trim groupName))
  reject (!found) AppError.notFound
  onRoles (ask (.audit (some actor.id) "role.oidc_group.remove"))
  pure (.seeOther adminPath)

/-! ## The requests -/

/-- The requests of the server, and those about roles. -/
inductive RoleRequest where
  | other (req : AuthRequest)
  | createRole (caller : Caller) (form : RoleForm) (id : Uuid)
  | updateRole (caller : Caller) (id : Uuid) (form : RoleForm)
  | deleteRole (caller : Caller) (id : Uuid)
  | updateUserRole (caller : Caller) (userId : Uuid) (form : UserRoleForm)
  | addOidcMapping (caller : Caller) (roleId : Uuid) (form : MappingForm)
  | removeOidcMapping (caller : Caller) (roleId : Uuid) (issuer groupName : Text)

/-- The program of a request. -/
def serveRole (env : Env) : RoleRequest → Prog RoleOp RoleOp.Res Outcome
  | .other req => onServer (serveAuth env req)
  | .createRole caller form id => (createRole env caller form id).run
  | .updateRole caller id form => (updateRole env caller id form).run
  | .deleteRole caller id => (deleteRole env caller id).run
  | .updateUserRole caller userId form => (updateUserRole env caller userId form).run
  | .addOidcMapping caller roleId form => (addOidcMapping env caller roleId form).run
  | .removeOidcMapping caller roleId issuer groupName => (removeOidcMapping env caller roleId issuer groupName).run

end Roles
end Server
end Uwuubox
