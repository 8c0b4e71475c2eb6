import Uwuubox.Server.Grounds
import Uwuubox.Server.Publishing

/-!
# The rows that requests are shown

Beside the facts of `Server.Facts` answers show rows: those of the user that a request acts for, of its role, and of
collections.

* `Shown`, `Op.shows` — what an answer shows; `Matches` — a row has the key that it has been looked up by.
* `found_currentIdentity`, `found_requireAdmin` — who is found acts for the user, whose row has been shown.
* `told_effectiveLimits` — who may moderate has been shown with the role.
-/

namespace Uwuubox
namespace Server

open Dedupe Storage Table Fallible

/-- What an answer shows. -/
inductive Shown where
  | fact (fact : Fact)
  | user (row : User)
  | role (role : Role)
  | collection (id ownerId : Uuid)
  /-- The role of the groups of an issuer. -/
  | grouped (issuer : Text) (groups : List Text) (roleId : Uuid)

/-- The rows in an answer. -/
def Op.rows : (op : Op) → op.Res → List Shown
  | .findUserById _, .ok (some row) => [.user row]
  | .tokenIdentity _, .ok (some (row, _)) => [.user row]
  | .findRole _, .ok (some role) => [.role role]
  | .findCollection _, .ok (some collection) => [.collection collection.id collection.ownerId]
  | .groupRole issuer groups, .ok (some roleId) => [.grouped issuer groups roleId]
  | _, _ => []

def Op.shows (op : Op) (r : op.Res) : List Shown := (op.facts r).map .fact ++ op.rows r

/-- What is true of an answer in every state. -/
def Matches : (op : Op) → op.Res → Prop
  | .findRole id, .ok (some role) => role.id = id
  | .findCollection id, .ok (some collection) => collection.id = id
  | op, r => Tells op r

theorem exec_matches {mayFail : Op → Prop} {w w' : World} {op : Op} {r : op.Res} (h : exec mayFail w op r w') :
    Matches op r := by
  unfold Matches
  split
  · have hfind := Except.ok.inj (congrArg Prod.fst (exec_answered h rfl))
    exact (Keyed.mem_of_find? hfind.symm).2
  · have hfind := Except.ok.inj (congrArg Prod.fst (exec_answered h rfl))
    exact (Keyed.mem_of_find? hfind.symm).2
  · exact exec_told h

theorem Matches.tells {op : Op} {r : op.Res} (h : Matches op r) : Tells op r := by
  unfold Matches at h
  split at h
  · trivial
  · trivial
  · exact h

/-- What is shown is so: rows may have changed since. -/
def Shown.Holds (h : World × Inserted) : Shown → Prop
  | fact told => told.Holds h
  | _ => True

section Holds

variable {mayFail : Op → Prop} {h h' : World × Inserted} {op : Op} {r : op.Res} {x : Shown}

/-- The rows in an answer are no facts. -/
theorem fact_notMem_rows {fact : Fact} : Shown.fact fact ∉ op.rows r := by
  intro hmem
  unfold Op.rows at hmem
  split at hmem <;> simp at hmem

theorem mem_shows_fact {fact : Fact} (hfact : .fact fact ∈ op.shows r) : fact ∈ op.facts r := by
  rcases List.mem_append.1 hfact with hfact | hfact
  · obtain ⟨fact', hfact', heq⟩ := List.mem_map.1 hfact
    cases heq
    exact hfact'
  · exact absurd hfact fact_notMem_rows

theorem shownHolds_new (honce : Once h 0) (hexec : logged recordItem (exec mayFail) h op r h')
    (hx : x ∈ op.shows r) : x.Holds h' := by
  cases x with
  | fact fact => exact holds_new honce hexec (mem_shows_fact hx)
  | _ => trivial

theorem shownHolds_kept (honce : Once h' 0) (hexec : logged recordItem (exec mayFail) h op r h')
    (hx : x.Holds h) : x.Holds h' := by
  cases x with
  | fact fact => exact holds_kept honce hexec hx
  | _ => trivial

end Holds

section Known

variable (known : Shown → Prop)

/-- The answer only shows what is known. -/
def Displays (op : Op) (r : op.Res) : Prop := Matches op r ∧ ∀ x ∈ op.shows r, known x

/-- The answers that only show what is known. -/
def displayed : Unit → (op : Op) → op.Res → Unit → Prop := fun _ op r _ => Displays known op r

/-- The facts that are known. -/
def factsOf : Fact → Prop := fun fact => known (.fact fact)

/-- The caller acts for the user. -/
def ActsFor (env : Env) (caller : Caller) (uid : Uuid) : Prop := ActsAs env (factsOf known) caller uid

/-- The caller acts for the user, whose row has been shown. -/
def FoundAs (env : Env) (caller : Caller) (user : User) : Prop := ActsFor known env caller user.id ∧ known (.user user)

/-- The caller acts for an administrator. -/
def ForAdmin (env : Env) (caller : Caller) : Prop := ∃ admin, FoundAs known env caller admin ∧ admin.isAdmin = true

end Known

section Told

variable {env : Env} {known : Shown → Prop} {caller : Caller} {α : Type}

/-- What is displayed tells the facts. -/
theorem Displays.told {op : Op} {r : op.Res} (h : Displays known op r) :
    Server.told (factsOf known) () op r () :=
  ⟨h.1.tells, fun fact hfact => h.2 (.fact fact) (List.mem_append_left _ (List.mem_map_of_mem hfact))⟩

/-- What is shown to who is told facts is shown to who is shown rows, too. -/
theorem displayed_of_told {p : Query α} {fin : α → Unit → Prop}
    (h : p.Obeys ⟨fun _ _ => True, Server.told (factsOf known)⟩ fin ()) :
    p.Obeys ⟨fun _ _ => True, displayed known⟩ fin () := by
  refine (Prog.Obeys.simulate (fun _ _ => True) (fun _ _ => trivial) ?_ h trivial).mono fun _ _ ⟨_, _, hfin⟩ => hfin
  intro _ _ op r _ _ _ hnext
  exact ⟨(), Displays.told hnext, trivial⟩

theorem shown_sessionUser (sid : SessionId) : (sessionUser sid).Obeys ⟨fun _ _ => True, displayed known⟩
    (fun found _ => ∀ user, found = some user → known (.user user)) () := by
  refine ⟨trivial, fun r _ _ => ?_⟩
  cases r with
  | error _ => exact fun _ h => by cases h
  | ok session =>
    obtain ⟨uid, _, _, _, _, _, _⟩ := session
    cases uid with
    | none => exact fun _ h => by cases h
    | some id =>
      refine ⟨trivial, fun r' _ hr' => ?_⟩
      cases r' with
      | error _ => exact fun _ h => by cases h
      | ok found =>
        rintro user rfl
        exact hr'.2 _ (by simp [Op.shows, Op.rows])

theorem shown_bearerIdentity : (bearerIdentity env caller.headers).Obeys ⟨fun _ _ => True, displayed known⟩
    (fun found _ => ∀ identity, found = some identity → known (.user identity.user)) () := by
  unfold bearerIdentity
  split
  · exact fun _ h => by cases h
  · split
    · exact fun _ h => by cases h
    · refine ⟨trivial, fun r _ hr => ?_⟩
      rcases r with _ | _ | ⟨user, scopes⟩
      · exact fun _ h => by cases h
      · exact fun _ h => by cases h
      · refine ⟨trivial, fun _ _ _ => ?_⟩
        rintro _ ⟨⟩
        exact hr.2 _ (by simp [Op.shows, Op.rows])

theorem shown_currentIdentity : (currentIdentity env caller).Obeys ⟨fun _ _ => True, displayed known⟩
    (fun found _ => ∀ identity, found = some identity → known (.user identity.user)) () := by
  refine (Prog.obeys_bind _ _ _).2 ((shown_sessionUser caller.session).mono fun found _ hfound => ?_)
  cases found with
  | some user =>
    rintro _ ⟨⟩
    exact hfound user rfl
  | none => exact shown_bearerIdentity

theorem shown_currentUser : (currentUser env caller).Obeys ⟨fun _ _ => True, displayed known⟩
    (fun found _ => ∀ user, found = some user → known (.user user)) () := by
  refine (Prog.obeys_bind _ _ _).2 ((shown_sessionUser caller.session).mono fun found _ hfound => ?_)
  cases found with
  | some user =>
    rintro _ ⟨⟩
    exact hfound user rfl
  | none =>
    refine (Prog.obeys_bind _ _ _).2 (shown_bearerIdentity.mono fun identity _ hidentity => ?_)
    intro user huser
    obtain ⟨identity, rfl, rfl⟩ := Option.map_eq_some_iff.1 huser
    exact hidentity identity rfl

/-- **Who is found acts for the user, whose row has been shown.** -/
theorem found_currentIdentity : (currentIdentity env caller).Obeys ⟨fun _ _ => True, displayed known⟩
    (fun found _ => ∀ identity, found = some identity → FoundAs known env caller identity.user) () :=
  ((displayed_of_told told_currentIdentity).and shown_currentIdentity).mono fun _ _ h identity hidentity =>
    ⟨h.1 identity hidentity, h.2 identity hidentity⟩

theorem found_requireAdmin : Ends (displayed known)
    (fun admin _ => FoundAs known env caller admin ∧ admin.isAdmin = true) (requireAdmin env caller) := by
  have hfound : (currentUser env caller).Obeys ⟨fun _ _ => True, displayed known⟩
      (fun found _ => ∀ user, found = some user → FoundAs known env caller user) () :=
    ((displayed_of_told told_currentUser).and shown_currentUser).mono fun _ _ h user huser =>
      ⟨h.1 user huser, h.2 user huser⟩
  refine .always (fun _ => hfound) fun found hfound _ => ?_
  refine obeys_orThrow.2 ⟨fun _ => trivial, fun admin hadmin => ?_⟩
  obtain ⟨huser, hisAdmin⟩ := Option.filter_eq_some_iff.1 hadmin
  exact ⟨hfound admin huser, hisAdmin⟩

/-- Who may moderate has been shown with the role. -/
theorem told_effectiveLimits (cfg : InstanceConfig) (user : User) : Ends (displayed known)
    (fun limits _ => limits.canModerate = true →
      ∃ role : Role, user.roleId = some role.id ∧ known (.role role) ∧ role.canModerate = true)
    (effectiveLimits cfg (some user)) := by
  refine .step (P := fun role => ∀ r, role = some r → user.roleId = some r.id ∧ known (.role r)) ?_ fun role hrole =>
    .pure fun _ => ?_
  · intro _
    unfold roleOf
    cases hid : user.roleId with
    | none =>
      simp only [Option.bind_some, hid]
      rintro _ ⟨⟩
    | some id =>
      simp only [Option.bind_some, hid]
      refine obeys_ask.2 ⟨trivial, fun r _ hr => ⟨?_, fun _ _ => trivial⟩⟩
      rintro _ rfl role rfl
      exact ⟨congrArg some (Eq.symm hr.1), hr.2 _ (by simp [Op.shows, Op.rows])⟩
  · intro hmoderates
    cases role with
    | none => cases hmoderates
    | some role => exact ⟨role, (hrole role rfl).1, (hrole role rfl).2, hmoderates⟩

end Told

end Server
end Uwuubox
