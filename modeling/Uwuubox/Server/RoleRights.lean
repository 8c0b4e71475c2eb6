import Uwuubox.Server.Roles
import Uwuubox.Server.Shown

/-!
# Who changes roles

The endpoints of `Server.Roles` are for administrators; a login through the provider gives a role only for the groups
that the provider says.

* `RoleOp.facts`, `RoleTells` — what answers show.
* `ByAdmin`, `Allowed` — what a request may perform, as what it brings and has been told.
* `lawful_createRole` .. `lawful_removeOidcMapping`, `lawful_oidcCallback` — the handlers perform no more.
* `justified_serveRole` — **nor does any request.**
-/

namespace Uwuubox
namespace Server
namespace Roles

open Dedupe Storage Table Fallible

/-! ## Facts -/

/-- What an answer shows. -/
def RoleOp.facts : (op : RoleOp) → op.Res → List Shown
  | .server op, r => op.shows r
  | _, _ => []

/-- What is true of an answer in every state. -/
def RoleTells : (op : RoleOp) → op.Res → Prop
  | .server op, r => Matches op r
  | _, _ => True

/-! ## What may be performed -/

/-- Where a request about roles comes from. -/
def RoleRequest.caller? : RoleRequest → Option Caller
  | other _ => none
  | createRole caller _ _ | updateRole caller _ _ | deleteRole caller _ | updateUserRole caller _ _
  | addOidcMapping caller _ _ | removeOidcMapping caller _ _ _ => some caller

section Grounds

variable (env : Env) (req : RoleRequest) (known : Shown → Prop)

/-- The request is one of an administrator, whose row has been shown. -/
def ByAdmin : Prop := ∃ caller, req.caller? = some caller ∧ ForAdmin known env caller

/-- The request is a login through the provider, whose groups stand for the role. -/
def ByGroups (roleId : Uuid) : Prop :=
  ∃ sid state claims id, req = .other (.served (.oidcCallback sid state (.ok claims) id)) ∧
    known (.grouped claims.issuer claims.groups roleId)

/-- What the operations of the server may do to users. -/
def AllowedServer : Op → Prop
  | .insertUser row | .createUser row _ => row.roleId = none ∧ row.quotaOverrideBytes = none
  | .assignRole _ roleId => ByGroups req known roleId
  | _ => True

/-- What a request may perform, knowing what it has been told. -/
def Allowed : RoleOp → Prop
  | .server op => AllowedServer req known op
  | .insertRole row => ByAdmin env req known ∧ row.validate = .ok ()
  | .updateRole _ input => ByAdmin env req known ∧ input.validate = .ok ()
  | .deleteRole id => ByAdmin env req known ∧ ∃ caller, req = .deleteRole caller id
  | .setUserRole userId roleId quota => ByAdmin env req known ∧ (∀ value, quota = some value → 0 ≤ value) ∧
      ∃ caller form, req = .updateUserRole caller userId form ∧ form.roleId = roleId.map some
  | .addMapping _ | .removeMapping _ _ _ => ByAdmin env req known

end Grounds

/-- Knowing what it is told, the handler performs only what is allowed, and returns what `P` accepts. -/
abbrev Lawful {α : Type} (env : Env) (req : RoleRequest) (known : Shown → Prop) (P : α → Prop) (p : RoleHandler α) :
    Prop := p.Conforms (Allowed env req known) (fun op r => RoleTells op r ∧ Prog.Known RoleOp.facts known op r) P

/-- The same for what the server does. -/
abbrev LawfulServer {α : Type} (req : RoleRequest) (known : Shown → Prop) (P : α → Prop) (p : Handler α) : Prop :=
  p.Conforms (AllowedServer req known) (Displays known) P

section Rules

variable {env : Env} {req : RoleRequest} {known : Shown → Prop} {α β : Type} {P : α → Prop} {Q : β → Prop}

/-- What the server does. -/
theorem obeys_onServer {p : Query α} {fin : α → Unit → Prop}
    (h : p.Obeys (.flat (AllowedServer req known) (Displays known)) fin ()) :
    (onServer p).Obeys (Prog.justice RoleTells RoleOp.facts (Allowed env req) known) fin () := by
  refine Prog.Obeys.interp ?_ h
  exact fun _ op hop => ⟨hop, fun r _ hr => hr⟩

/-- The areas of new users, and of their roles. -/
def Area.ofUsers : List Area := [.users, .roleOfUser]

theorem allowed_of_within {S : List Area} (hS : ∀ a ∈ S, a ∉ Area.ofUsers) {op : Op} (hop : Within S op) :
    AllowedServer req known op := by
  have hnot : ∀ a, op.area = some a → a ∉ Area.ofUsers := fun a ha => hS a (hop a ha)
  cases op with
  | insertUser row => exact absurd (by simp [Area.ofUsers]) (hnot .users rfl)
  | createUser row code => exact absurd (by simp [Area.ofUsers]) (hnot .users rfl)
  | assignRole userId roleId => exact absurd (by simp [Area.ofUsers]) (hnot .roleOfUser rfl)
  | _ => trivial

theorem lawful_only {S : List Area} (hS : ∀ a ∈ S, a ∉ Area.ofUsers) {p : Query α} (hp : Query.Only S p) :
    p.Obeys (.flat (AllowedServer req known) (Displays known)) (fun _ _ => True) () :=
  hp.obeys (fun _ _ hop => allowed_of_within hS hop) ()

namespace LawfulServer

/-- A step that reads, and whose value does not matter. -/
theorem skip {p : Handler α} {f : α → Handler β} (hp : Only [] p) (hf : ∀ a, LawfulServer req known Q (f a)) :
    LawfulServer req known Q (p >>= f) :=
  Conforms.bind (P := fun _ => True) (hp.obeys (fun _ _ hop => allowed_of_within (by simp) hop) ()) fun a _ => hf a

/-- An operation that is allowed, with its answer. -/
theorem ask {op : Op} (h : AllowedServer req known op) :
    LawfulServer req known (fun v => Displays known op (.ok v)) (Server.ask op) := by
  refine obeys_ask.2 ⟨h, fun r _ hr => ⟨?_, fun _ _ => trivial⟩⟩
  rintro v rfl
  exact hr

/-- An operation whose answer does not matter. -/
theorem ask_bind {op : Op} {f : op.Val → Handler β} (h : AllowedServer req known op)
    (hf : ∀ v, LawfulServer req known Q (f v)) : LawfulServer req known Q (Server.ask op >>= f) :=
  Conforms.bind (ask h) fun v _ => hf v

end LawfulServer

namespace Lawful

/-- A step of the server that reads, and what it returns. -/
theorem read {p : Handler α} (hp : Only [] p) (hP : Ends (displayed known) (fun a _ => P a) p) :
    Lawful env req known P (onRoles p) := by
  have hreads : Prog.Obeys (.flat (AllowedServer req known) fun _ _ => True) (fun _ _ => True) p.run () :=
    hp.run.obeys (fun _ _ hop => allowed_of_within (by simp) hop) ()
  exact obeys_onServer (Conforms.of_parts hreads hP)

/-- A step of the server that reads, and whose value does not matter. -/
theorem skip {p : Handler α} {f : α → RoleHandler β} (hp : Only [] p) (hf : ∀ a, Lawful env req known Q (f a)) :
    Lawful env req known Q (onRoles p >>= f) := Conforms.bind (read hp .trivially) fun a _ => hf a

/-- Every handler begins with the administrator. -/
theorem admin {caller : Caller} (hcaller : req.caller? = some caller) {f : User → RoleHandler β}
    (hf : ByAdmin env req known → ∀ admin, Lawful env req known Q (f admin)) :
    Lawful env req known Q (onRoles (requireAdmin env caller) >>= f) := by
  refine .bind (read (.bind (.always (only_currentUser env caller)) fun _ => .orThrow) found_requireAdmin) ?_
  exact fun admin hadmin => hf ⟨caller, hcaller, admin, hadmin⟩ admin

/-- A statement that is allowed. -/
theorem statement {op : RoleOp} {f : op.Val → RoleHandler β} (h : Allowed env req known op)
    (hf : ∀ v, Lawful env req known Q (f v)) : Lawful env req known Q (askRole op >>= f) := by
  refine .bind (P := fun _ => True) ?_ fun v _ => hf v
  unfold Conforms askRole
  rw [obeys_bind, obeys_perform]
  refine ⟨h, fun r _ _ => ?_⟩
  cases r with
  | ok v => trivial
  | error e => trivial

theorem named {op : RoleOp} {f : op.Val → RoleHandler β} (h : Allowed env req known op)
    (hf : ∀ v, Lawful env req known Q (f v)) : Lawful env req known Q (askNamed op >>= f) := by
  refine .bind (P := fun _ => True) ?_ fun v _ => hf v
  unfold Conforms askNamed
  rw [obeys_bind, obeys_perform]
  refine ⟨h, fun r _ _ => ?_⟩
  cases r with
  | ok v => trivial
  | error e => trivial

end Lawful

end Rules

/-! ## The handlers for administrators -/

section Handlers

variable {env : Env} {known : Shown → Prop} {caller : Caller}

theorem validate_of_validated {input : RoleInput} (h : validated input = .ok ()) : input.validate = .ok () := by
  unfold validated at h
  cases hvalidate : input.validate with
  | ok u => rfl
  | error e =>
    rw [hvalidate] at h
    cases h

/-- The end of a handler. -/
theorem lawful_done {req : RoleRequest} (actor : User) (what : String) :
    Lawful env req known (fun _ => True)
      (onRoles (ask (.audit (some actor.id) what)) >>= fun _ => pure (Response.seeOther adminPath)) :=
  Lawful.skip (.read rfl) fun _ => .pure trivial

theorem lawful_createRole (form : RoleForm) (id : Uuid) :
    Lawful env (.createRole caller form id) known (fun _ => True) (createRole env caller form id) :=
  Lawful.admin rfl fun hadmin actor => .check fun _ _ => .check fun _ hvalid =>
    Lawful.named ⟨hadmin, validate_of_validated hvalid⟩ fun _ => lawful_done actor _

theorem lawful_updateRole (id : Uuid) (form : RoleForm) :
    Lawful env (.updateRole caller id form) known (fun _ => True) (updateRole env caller id form) :=
  Lawful.admin rfl fun hadmin actor => .check fun _ _ => .check fun _ hvalid =>
    Lawful.named ⟨hadmin, validate_of_validated hvalid⟩ fun _ => .orThrow fun _ _ => lawful_done actor _

theorem lawful_deleteRole (id : Uuid) :
    Lawful env (.deleteRole caller id) known (fun _ => True) (deleteRole env caller id) :=
  Lawful.admin rfl fun hadmin actor => Lawful.skip (.read rfl) fun _ => .orThrow fun _ _ =>
    Lawful.statement ⟨hadmin, caller, rfl⟩ fun _ => lawful_done actor _

theorem lawful_chosenRole {req : RoleRequest} (roleId : Option (Option Uuid)) :
    Lawful env req known (fun chosen => roleId = chosen.map some) (chosenRole roleId) := by
  cases roleId with
  | none => exact .pure rfl
  | some id =>
    exact .orThrow fun id hid => Lawful.skip (.read rfl) fun _ => .orThrow fun _ _ => .pure (congrArg some hid)

theorem lawful_updateUserRole (userId : Uuid) (form : UserRoleForm) :
    Lawful env (.updateUserRole caller userId form) known (fun _ => True) (updateUserRole env caller userId form) := by
  refine Lawful.admin rfl fun hadmin actor => .bind (lawful_chosenRole form.roleId) fun roleId hchosen =>
    .check fun quota _ => .reject fun hquota =>
      Lawful.statement ⟨hadmin, fun value hvalue => ?_, caller, form, rfl, hchosen⟩ fun _ =>
        .reject fun _ => lawful_done actor _
  subst hvalue
  simpa using hquota

theorem lawful_addOidcMapping (roleId : Uuid) (form : MappingForm) :
    Lawful env (.addOidcMapping caller roleId form) known (fun _ => True) (addOidcMapping env caller roleId form) :=
  Lawful.admin rfl fun hadmin actor => Lawful.skip (.read rfl) fun _ => .orThrow fun _ _ => .reject fun _ =>
    Lawful.statement hadmin fun _ => lawful_done actor _

theorem lawful_removeOidcMapping (roleId : Uuid) (issuer groupName : Text) :
    Lawful env (.removeOidcMapping caller roleId issuer groupName) known (fun _ => True)
      (removeOidcMapping env caller roleId issuer groupName) :=
  Lawful.admin rfl fun hadmin actor => Lawful.statement hadmin fun _ => .reject fun _ => lawful_done actor _

end Handlers

/-! ## New users, and their roles -/

section Users

variable {env : Env} {req : RoleRequest} {known : Shown → Prop}

/-- A program that inserts a new user. -/
theorem lawful_insertOpen {row : User} (hrow : row.roleId = none ∧ row.quotaOverrideBytes = none) :
    (insertOpen row).Obeys (.flat (AllowedServer req known) (Displays known)) (fun _ _ => True) () := by
  refine ⟨hrow, fun r _ _ => ?_⟩
  cases r with
  | error e => trivial
  | ok u => trivial

theorem lawful_createInvited {row : User} (code : Text) (hrow : row.roleId = none ∧ row.quotaOverrideBytes = none) :
    (createInvited row code).Obeys (.flat (AllowedServer req known) (Displays known)) (fun _ _ => True) () := by
  refine ⟨hrow, fun r _ _ => ?_⟩
  rcases r with e | _ | u
  · trivial
  · trivial
  · trivial

theorem lawful_finishRegistration (sid : SessionId) (result : Except InviteRegistrationError User) :
    LawfulServer req known (fun _ => True) (finishRegistration env sid result) :=
  (only_finishRegistration env sid result List.mem_cons_self).obeys (S := [.sessions])
    (fun _ _ hop => allowed_of_within (by simp [Area.ofUsers]) hop) ()

theorem lawful_registerErrorPage : LawfulServer req known (fun _ => True) (registerErrorPage env) :=
  .reject fun _ => .pure trivial

theorem lawful_registerPost (sid : SessionId) (form : RegisterForm) (salt : Text) (id : Uuid) :
    LawfulServer req known (fun _ => True) (registerPost env sid form salt id) := by
  refine LawfulServer.skip (.read rfl) fun cfg => .reject fun _ => .reject fun _ =>
    .ite (fun _ => lawful_registerErrorPage) fun _ => ?_
  split
  · refine LawfulServer.skip (.read rfl) fun count => .ite (fun _ => ?_) fun _ => .ite (fun _ => ?_) fun _ => .throw
    · exact .always (lawful_insertOpen ⟨rfl, rfl⟩) fun result _ => lawful_finishRegistration sid result
    · refine .ite (fun _ => lawful_registerErrorPage) fun _ => ?_
      exact .always (lawful_createInvited _ ⟨rfl, rfl⟩) fun result _ => lawful_finishRegistration sid result
  · exact lawful_registerErrorPage

theorem lawful_provision (cfg : InstanceConfig) {row : User} (invite : Option Text)
    (hrow : row.roleId = none ∧ row.quotaOverrideBytes = none) :
    LawfulServer req known (fun _ => True) (provision cfg row invite) := by
  refine .ite (fun _ => ?_) fun _ => .mono (LawfulServer.ask hrow) fun _ _ => trivial
  refine .always (lawful_createInvited _ hrow) fun result _ => ?_
  rcases result with (_ | e) | u
  · exact .throw
  · exact .throw
  · exact .pure trivial

theorem lawful_logIn (sid : SessionId) (id : Uuid) : LawfulServer req known (fun _ => True) (logIn sid id) :=
  .mono (LawfulServer.ask trivial) fun _ _ => trivial

end Users

section Callback

variable {env : Env} {known : Shown → Prop} {sid : SessionId} {state : Text} {claims : Claims} {id : Uuid}

/-- A role is given for the groups of the provider. -/
theorem lawful_applyGroupRole (user : User) :
    LawfulServer (.other (.served (.oidcCallback sid state (.ok claims) id))) known (fun _ => True)
      (applyGroupRole user claims.issuer claims.groups) := by
  refine .ite (fun _ => .pure trivial) fun _ => .bind (LawfulServer.ask trivial) fun found hfound => ?_
  cases found with
  | none => exact .pure trivial
  | some roleId =>
    have hgrouped : known (.grouped claims.issuer claims.groups roleId) := hfound.2 _ (by simp [Op.shows, Op.rows])
    refine LawfulServer.ask_bind ⟨sid, state, claims, id, rfl, hgrouped⟩ fun assigned => ?_
    cases assigned with
    | none => exact .pure trivial
    | some _ => exact .mono (LawfulServer.ask trivial) fun _ _ => trivial

theorem lawful_oidcCallback (claims : Except AppError Claims) :
    LawfulServer (.other (.served (.oidcCallback sid state claims id))) known (fun _ => True)
      (oidcCallback env sid state claims id) := by
  refine LawfulServer.skip (.read rfl) fun cfg => .reject fun _ => .reject fun _ => LawfulServer.skip (.read rfl)
    fun session => .check fun _ _ => .check fun found hfound => ?_
  obtain rfl : claims = .ok found := by
    cases claims with
    | error e => cases hfound
    | ok claims => exact congrArg Except.ok (Except.ok.inj hfound)
  cases session.oidcLinkUid with
  | some uid =>
    exact LawfulServer.skip (.read rfl) fun user => .orThrow fun user _ => LawfulServer.ask_bind trivial fun _ =>
      .bind (lawful_applyGroupRole user) fun _ _ => LawfulServer.ask_bind trivial fun _ =>
        .bind (lawful_logIn sid user.id) fun _ _ => .pure trivial
  | none =>
    refine LawfulServer.skip (.read rfl) fun user => ?_
    cases user with
    | some user =>
      exact .bind (lawful_applyGroupRole user) fun _ _ => .bind (lawful_logIn sid user.id) fun _ _ => .pure trivial
    | none =>
      exact .reject fun _ => LawfulServer.skip (.read rfl) fun _ => .reject fun _ =>
        LawfulServer.skip (only_freeUsername _ _ _) fun _ => LawfulServer.skip (.read rfl) fun _ =>
          .bind (lawful_provision cfg _ ⟨rfl, rfl⟩) fun user _ => LawfulServer.ask_bind trivial fun _ =>
            .bind (lawful_applyGroupRole user) fun _ _ => LawfulServer.ask_bind trivial fun _ =>
              .bind (lawful_logIn sid user.id) fun _ _ => .pure trivial

end Callback

/-- What the requests of the server perform. -/
theorem lawful_serveAuth {env : Env} {known : Shown → Prop} (req : AuthRequest) :
    (serveAuth env req).Obeys (.flat (AllowedServer (.other req) known) (Displays known)) (fun _ _ => True) () := by
  by_cases hareas : ∀ a ∈ req.areas, a ∉ Area.ofUsers
  · exact lawful_only hareas (serveAuth_only env req)
  · cases req with
    | served req =>
      cases req with
      | register sid form salt id => exact (lawful_registerPost sid form salt id).run
      | oidcCallback sid state claims id => exact (lawful_oidcCallback claims).run
      | _ => exact absurd (by simp [AuthRequest.areas, Request.areas, Area.ofUsers]) hareas
    | _ => exact absurd (by simp [AuthRequest.areas, Area.ofUsers]) hareas

/-- **No request performs more than it is allowed**, knowing what it has been told. -/
theorem justified_serveRole (env : Env) (req : RoleRequest) :
    (serveRole env req).Justified RoleTells RoleOp.facts (Allowed env req) := by
  intro known
  cases req with
  | other req => exact obeys_onServer (lawful_serveAuth req)
  | createRole caller form id => exact (lawful_createRole form id).run
  | updateRole caller id form => exact (lawful_updateRole id form).run
  | deleteRole caller id => exact (lawful_deleteRole id).run
  | updateUserRole caller userId form => exact (lawful_updateUserRole userId form).run
  | addOidcMapping caller roleId form => exact (lawful_addOidcMapping roleId form).run
  | removeOidcMapping caller roleId issuer groupName => exact (lawful_removeOidcMapping roleId issuer groupName).run

end Roles
end Server
end Uwuubox
