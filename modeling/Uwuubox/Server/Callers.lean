import Uwuubox.Server.Requests

/-!
# Who a request is by

`session_user`, `bearer_identity`, `current_identity` and `current_user` read a session, a row of `users` and a
token.  What the answers say of the rows is so of whoever a request turns out to be by.

* `Vouches` — the protocol allows reading, and its answers are about users that `P` accepts.
* `obeys_sessionUser`, `obeys_bearerIdentity`, `obeys_currentIdentity`, `obeys_currentUser` — then `P` accepts
  the user that is found.
-/

namespace Uwuubox
namespace Server

/-- The answers of the protocol are about users that `P` accepts. -/
structure Vouches {Γ : Type} (π : Protocol Γ Op Op.Res) (env : Env) (caller : Caller) (P : User → Prop) : Prop where
  may : ∀ γ op, op.area = none → π.may γ op
  session : ∀ γ session γ' δ id u δ', π.next γ (.session caller.session) (.ok session) γ' →
    session.uid = some id → π.next δ (.findUserById id) (.ok (some u)) δ' → P u
  token : ∀ γ token u scopes γ', bearer caller.headers.authorization = some token →
    π.next γ (.tokenIdentity (env.apiTokenHash token)) (.ok (some (u, scopes))) γ' → P u

section Found

variable {Γ : Type} {π : Protocol Γ Op Op.Res} {env : Env} {caller : Caller} {P : User → Prop} {γ : Γ}

/-- The user of the session. -/
theorem obeys_sessionUser (h : Vouches π env caller P) :
    (sessionUser caller.session).Obeys π (fun user _ => ∀ u, user = some u → P u) γ := by
  refine (Prog.obeys_bind _ _ _).2 ⟨h.may _ _ rfl, fun r γ' hr => ?_⟩
  match r with
  | .error _ => exact nofun
  | .ok session =>
    rw [Prog.obeys_ret]
    cases huid : session.uid with
    | none =>
      simp only [huid]
      exact nofun
    | some id =>
      simp only [huid]
      rw [Prog.obeys_bind]
      refine ⟨h.may _ _ rfl, fun r' γ'' hr' => ?_⟩
      match r' with
      | .error _ => exact nofun
      | .ok found =>
        rintro u rfl
        exact h.session _ _ _ _ _ _ _ hr huid hr'

/-- The user of the token. -/
theorem obeys_bearerIdentity (h : Vouches π env caller P) :
    (bearerIdentity env caller.headers).Obeys π (fun id _ => ∀ i, id = some i → P i.user) γ := by
  unfold bearerIdentity
  split
  · exact nofun
  · rename_i token hbearer
    split
    · exact nofun
    · refine (Prog.obeys_bind _ _ _).2 ⟨h.may _ _ rfl, fun r γ' hr => ?_⟩
      match r with
      | .ok (some (user, scopes)) =>
        refine (Prog.obeys_bind _ _ _).2 ⟨h.may _ _ rfl, fun _ _ _ => ?_⟩
        rintro _ ⟨⟩
        exact h.token _ _ _ _ _ hbearer hr
      | .ok none => exact nofun
      | .error _ => exact nofun

/-- Whoever is asking, with the scopes. -/
theorem obeys_currentIdentity (h : Vouches π env caller P) :
    (currentIdentity env caller).Obeys π (fun id _ => ∀ i, id = some i → P i.user) γ := by
  refine (Prog.obeys_bind _ _ _).2 ((obeys_sessionUser h).mono fun found γ hfound => ?_)
  match found with
  | some user =>
    rintro _ ⟨⟩
    exact hfound user rfl
  | none => exact obeys_bearerIdentity h

/-- **Whoever is asking** is a user that the answers are about. -/
theorem obeys_currentUser (h : Vouches π env caller P) :
    (currentUser env caller).Obeys π (fun user _ => ∀ u, user = some u → P u) γ := by
  refine (Prog.obeys_bind _ _ _).2 ((obeys_sessionUser h).mono fun found γ hfound => ?_)
  match found with
  | some user => exact hfound
  | none =>
    refine (Prog.obeys_bind _ _ _).2 ((obeys_bearerIdentity h).mono fun identity γ hidentity => ?_)
    intro u hu
    obtain ⟨i, rfl, rfl⟩ := Option.map_eq_some_iff.1 hu
    exact hidentity i rfl

end Found

end Server
end Uwuubox
