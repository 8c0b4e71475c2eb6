import Uwuubox.Server.Admins

/-!
# The first administrator

A registration counts the users and makes its user an administrator if there is none.  The
`COUNT` and the `INSERT` are two statements.

* `counting` — the protocol of registrations: an administrator is inserted only right after a
  `COUNT` that returned zero.
* `AloneAtInsert` — while there is no user, a user is inserted only when no other registration
  stands between its `COUNT` and its `INSERT`.
* `oneAdmin_of_alone` — **in a run that meets it at most one user ever is an administrator.**
* `twoAdmins_of_race` — two registrations that both count no user.
-/

open Relation

namespace Uwuubox
namespace Server

open Dedupe Storage Table Fallible

/-- A request that grants no rights. -/
abbrev Ordinary := { req : Request // .admins ∉ req.areas }

/-- A `COUNT` that returned zero. -/
def countedZero : (op : Op) → op.Res → Bool
  | .userCount, .ok 0 => true
  | _, _ => false

/-- Registrations, with the phase right after a `COUNT` of zero. -/
def counting : Protocol Bool Op Op.Res where
  may γ op := (∀ row, op.inserts = some row → row.isAdmin = true → γ = true) ∧ op.area ≠ some .admins
  next _ op r γ := γ = countedZero op r

/-- From every phase on, the handler obeys the protocol. -/
def Counting {α : Type} (p : Handler α) : Prop :=
  ∀ γ, p.Obeys counting (fun _ _ => True) (fun _ _ => True) γ

section Rules

variable {α β : Type} {γ : Bool}

theorem counting_may {S : List Area} (husers : .users ∉ S) (hadmins : .admins ∉ S) (γ : Bool) (op : Op)
    (h : Within S op) : counting.may γ op := by
  refine ⟨fun row hrow => ?_, fun harea => hadmins (h _ harea)⟩
  have harea : op.area = some .users := by
    cases op <;> first | rfl | cases hrow
  exact absurd (h _ harea) husers

namespace Counting

/-- What writes no users is in order. -/
theorem of_only {S : List Area} {p : Handler α} (h : Only S p) (husers : .users ∉ S)
    (hadmins : .admins ∉ S) : Counting p :=
  h.obeys (counting_may husers hadmins)

/-- What comes after an operation is in order from every phase on. -/
theorem bind_of {p : Handler α} {f : α → Handler β}
    (hp : p.Obeys counting (fun _ _ => True) (fun _ _ => True) γ) (hf : ∀ a, Counting (f a)) :
    (p >>= f).Obeys counting (fun _ _ => True) (fun _ _ => True) γ := by
  rw [obeys_bind]
  exact hp.mono (fun a γ _ => hf a γ) fun _ _ _ => trivial

theorem bind {p : Handler α} {f : α → Handler β} (hp : Counting p) (hf : ∀ a, Counting (f a)) :
    Counting (p >>= f) := fun γ => bind_of (hp γ) hf

/-- After the `COUNT`, the phase says whether it was zero. -/
theorem bind_userCount {f : ℕ → Handler β}
    (hf : ∀ n, (f n).Obeys counting (fun _ _ => True) (fun _ _ => True) (decide (n = 0))) :
    Counting (ask .userCount >>= f) := by
  intro γ
  refine (obeys_bind _ _).2 (obeys_ask.2 ⟨counting_may List.not_mem_nil List.not_mem_nil _ _
    (within_of_none rfl), ?_⟩)
  rintro r γ' rfl
  refine ⟨fun n hn => ?_, fun _ _ => trivial⟩
  subst hn
  have hphase : countedZero .userCount (.ok n) = decide (n = 0) := by
    cases n <;> rfl
  exact hphase ▸ hf n

end Counting

/-- The two ways to insert a user, an administrator only right after a `COUNT` of zero. -/
theorem insertOpen_counting {row : User} (hrow : row.isAdmin = true → γ = true) :
    (insertOpen row).Obeys counting (fun _ _ => True) γ := by
  refine ⟨⟨fun _ h => ?_, by simp [Op.area]⟩, fun r _ _ => ?_⟩
  · cases h
    exact hrow
  · cases r <;> exact trivial

theorem createInvited_counting {row : User} {code : Text} (hrow : row.isAdmin = true → γ = true) :
    (createInvited row code).Obeys counting (fun _ _ => True) γ := by
  refine ⟨⟨fun _ h => ?_, by simp [Op.area]⟩, fun r _ _ => ?_⟩
  · cases h
    exact hrow
  · rcases r with _ | _ | _
    · exact trivial
    · exact trivial
    · exact trivial

end Rules

/-! ## The registrations -/

variable (env : Env) (sid : SessionId)

theorem register_counting (cfg : InstanceConfig) (form : RegisterForm) (hash : Text) (id : Uuid) :
    Counting (register env sid cfg form hash id) := by
  have hfinish : ∀ result, Counting (finishRegistration env sid result) := fun result =>
    .of_only (S := [.sessions]) (only_finishRegistration env sid result List.mem_cons_self)
      (by decide) (by decide)
  have hpage : Counting (registerErrorPage env) :=
    .of_only (S := []) (only_registerErrorPage env) List.not_mem_nil List.not_mem_nil
  refine Counting.bind_userCount fun n => ?_
  have hrow : (newUser id (trim form.username) (some hash) (form.address env) (n = 0)).isAdmin = true →
      decide (n = 0) = true := fun h => h
  split
  · exact Counting.bind_of (obeys_always.2 (insertOpen_counting hrow)) hfinish
  · split
    · dsimp only
      split
      · exact hpage _
      · exact Counting.bind_of (obeys_always.2 (createInvited_counting hrow)) hfinish
    · exact trivial

theorem registerPost_counting (form : RegisterForm) (salt : Text) (id : Uuid) :
    Counting (registerPost env sid form salt id) := by
  have hquiet {α : Type} {p : Handler α} (h : Only [] p) : Counting p :=
    .of_only h List.not_mem_nil List.not_mem_nil
  refine (hquiet (.read rfl)).bind fun cfg => (hquiet .reject).bind fun _ =>
    (hquiet .reject).bind fun _ => ?_
  split
  · exact hquiet (only_registerErrorPage env)
  · split
    · exact register_counting env sid cfg form _ id
    · exact hquiet (only_registerErrorPage env)

theorem provision_counting (cfg : InstanceConfig) {row : User} (invite : Option Text) {γ : Bool}
    (hrow : row.isAdmin = true → γ = true) :
    (provision cfg row invite).Obeys counting (fun _ _ => True) (fun _ _ => True) γ := by
  unfold provision
  split
  · refine Counting.bind_of (obeys_always.2 (createInvited_counting hrow)) fun result γ => ?_
    match result with
    | .ok user => exact trivial
    | .error .invalid => exact trivial
    | .error (.database e) => exact trivial
  · refine obeys_ask.2 ⟨⟨fun _ h => ?_, by simp [Op.area]⟩, fun _ _ _ =>
      ⟨fun _ _ => trivial, fun _ _ => trivial⟩⟩
    cases h
    exact hrow

theorem oidcFirstLogin_counting (cfg : InstanceConfig) (claims : Claims) (id : Uuid) :
    Counting (oidcFirstLogin env sid cfg claims id) := by
  have hquiet {α : Type} {p : Handler α} (h : Only [.roleOfUser, .identities, .sessions] p) :
      Counting p := .of_only h (by decide) (by decide)
  refine (hquiet .reject).bind fun _ => (hquiet (.read rfl)).bind fun session =>
    (hquiet .reject).bind fun _ => (hquiet (only_freeUsername _ _ _)).bind fun username =>
      Counting.bind_userCount fun n => ?_
  refine Counting.bind_of (provision_counting cfg _ ?_) fun user => hquiet ?_
  · exact fun h => h
  · exact .bind (.ask (within_of_some rfl (by decide))) fun _ =>
      .bind (only_applyGroupRole user _ _ (by decide)) fun _ =>
        .bind (.ask (within_of_some rfl (by decide))) fun _ =>
          .bind (only_logIn sid user.id (by decide)) fun _ => .pure

theorem oidcCallback_counting (state : Text) (claims : Except AppError Claims) (id : Uuid) :
    Counting (oidcCallback env sid state claims id) := by
  have hquiet {α : Type} {p : Handler α} (h : Only [.roleOfUser, .identities, .sessions] p) :
      Counting p := .of_only h (by decide) (by decide)
  refine (hquiet (.read rfl)).bind fun cfg => (hquiet .reject).bind fun _ =>
    (hquiet .reject).bind fun _ => (hquiet (.read rfl)).bind fun session =>
      (hquiet .check).bind fun _ => (hquiet .check).bind fun claims => ?_
  split
  · exact hquiet (.bind (.read rfl) fun _ => .bind .orThrow fun user =>
      .bind (.ask (within_of_some rfl (by decide))) fun _ =>
        .bind (only_applyGroupRole user _ _ (by decide)) fun _ =>
          .bind (.ask (within_of_some rfl (by decide))) fun _ =>
            .bind (only_logIn sid user.id (by decide)) fun _ => .pure)
  · refine (hquiet (.read rfl)).bind fun user => ?_
    match user with
    | some user =>
      exact hquiet (.bind (only_applyGroupRole user _ _ (by decide)) fun _ =>
        .bind (only_logIn sid user.id (by decide)) fun _ => .pure)
    | none => exact oidcFirstLogin_counting env sid cfg claims id

theorem serve_counting (req : Ordinary) (γ : Bool) :
    (serve env req.1).Obeys counting (fun _ _ => True) γ := by
  obtain ⟨req, hadmins⟩ := req
  by_cases husers : .users ∈ req.areas
  · cases req with
    | register sid form salt id =>
      exact Prog.Obeys.mono (registerPost_counting env sid form salt id γ) fun _ _ _ => trivial
    | oidcCallback sid state claims id =>
      exact Prog.Obeys.mono (oidcCallback_counting env sid state claims id γ) fun _ _ _ => trivial
    | _ => simp [Request.areas] at husers
  · exact (serve_only env req).obeys (counting_may husers hadmins) γ

/-! ## One administrator -/

/-- While there is no user, a user is inserted only when no other registration is about to
insert one. -/
def AloneAtInsert (w : World) (others : List (Ordinary × Op)) (op : Op) : Prop :=
  w.users.rows = [] → op.inserts.isSome → ∀ other ∈ others, other.2.inserts = none

/-- At most one user is an administrator. -/
def OneAdmin (w : World) : Prop := ∀ i j, (i, true) ∈ w.rights → (j, true) ∈ w.rights → i = j

/-- What a registration relies on: if it has counted no user and is about to insert one, there
still is none. -/
def CountHolds (w : World) (t : Ordinary × Query Outcome) : Prop :=
  ∃ γ, t.2.Obeys counting (fun _ _ => True) γ ∧
    (γ = true → w.users.rows = [] ∨ ∀ op k, t.2 = .call op k → op.inserts = none)

section Steps

variable {mayFail : Op → Prop} {w w' : World} {op : Op} {r : op.Res}

theorem exec_userCount {n : ℕ} (h : exec mayFail w .userCount (.ok n) w') :
    n = w.users.rows.length ∧ w' = w := by
  rcases h with h | ⟨-, h⟩
  · cases h
    exact ⟨rfl, rfl⟩
  · cases h

/-- After the step the phase is right. -/
theorem empty_of_countedZero (h : exec mayFail w op r w') (hzero : countedZero op r = true) :
    w'.users.rows = [] := by
  cases op with
  | userCount =>
    match r with
    | .ok 0 =>
      obtain ⟨hlen, rfl⟩ := exec_userCount h
      exact List.length_eq_zero_iff.1 hlen.symm
    | .ok (n + 1) => cases hzero
    | .error _ => cases hzero
  | _ => cases hzero

/-- An administrator is inserted only into an empty table, so there is still at most one. -/
theorem oneAdmin_exec (hw : OneAdmin w) (hadmins : op.area ≠ some .admins)
    (hempty : ∀ row, op.inserts = some row → row.isAdmin = true → w.users.rows = [])
    (h : exec mayFail w op r w') : OneAdmin w' := by
  cases hinserts : op.inserts with
  | none =>
    unfold OneAdmin
    rwa [exec_rights h hinserts hadmins]
  | some row =>
    unfold OneAdmin
    rcases rights_inserts h hinserts with hrights | hrights
    · rw [hrights]
      cases hrow : row.isAdmin with
      | true =>
        rw [rights_eq_nil.2 (hempty row hinserts hrow)]
        simp
      | false => simpa [OneAdmin] using hw
    · rwa [hrights]

/-- Who is an administrator remains one. -/
theorem admin_exec (hadmins : op.area ≠ some .admins) (h : exec mayFail w op r w') {id : Uuid}
    (hid : (id, true) ∈ w.rights) : (id, true) ∈ w'.rights := by
  cases hinserts : op.inserts with
  | none => rwa [exec_rights h hinserts hadmins]
  | some row =>
    rcases rights_inserts h hinserts with hrights | hrights
    · exact hrights ▸ List.mem_cons_of_mem _ hid
    · exact hrights ▸ hid

/-- No operation disturbs what another registration has counted. -/
theorem countHolds_exec (hadmins : op.area ≠ some .admins) {ts : List (Ordinary × Query Outcome)}
    (hcond : AloneAtInsert w (Pool.pending ⟨w, ts⟩) op) (h : exec mayFail w op r w')
    {t : Ordinary × Query Outcome} (ht : t ∈ ts) (hgood : CountHolds w t) : CountHolds w' t := by
  obtain ⟨γ, hobeys, hphase⟩ := hgood
  refine ⟨γ, hobeys, fun hγ => ?_⟩
  rcases hphase hγ with hempty | hnone
  · cases hinserts : op.inserts with
    | none =>
      left
      rw [← rights_eq_nil] at hempty ⊢
      rwa [exec_rights h hinserts hadmins]
    | some row =>
      right
      rintro op' k hcall
      have hpending : (t.1, op') ∈ Pool.pending ⟨w, ts⟩ :=
        Pool.mem_pending.2 ⟨k, by rw [← hcall]; exact ht⟩
      exact hcond hempty (by simp [hinserts]) _ hpending
  · exact .inr hnone

end Steps

/-- The rule for a property that the insertion of a first administrator keeps. -/
theorem counting_invariant {mayFail : Op → Prop} {stop : Prop} {Inv : World → Prop}
    (hstep : ∀ w w' op r, Inv w → op.area ≠ some .admins →
      (∀ row, op.inserts = some row → row.isAdmin = true → w.users.rows = []) →
      exec mayFail w op r w' → Inv w')
    {p q : Pool World Ordinary Op Op.Res Outcome}
    (hpq : ReflTransGen (Pool.StepWhen AloneAtInsert (fun i => serve env i.1) (exec mayFail) stop) p q)
    (hp : Inv p.shared ∧ ∀ t ∈ p.threads, CountHolds p.shared t) :
    Inv q.shared ∧ ∀ t ∈ q.threads, CountHolds q.shared t := by
  refine Pool.invariant_of_steps ?_ ?_ ?_ hpq hp
  · intro w i _
    exact ⟨false, serve_counting env i false, fun h => nomatch h⟩
  · rintro w w' i op k r others hw ⟨γ, ⟨⟨hinserts, hadmins⟩, hrest⟩, hphase⟩ _ hexec
    refine ⟨hstep w w' op r hw hadmins (fun row hrow hadmin => ?_) hexec, countedZero op r,
      hrest r _ rfl, fun hzero => .inl (empty_of_countedZero hexec hzero)⟩
    rcases hphase (hinserts row hrow hadmin) with hempty | hnone
    · exact hempty
    · have hsome := hnone op k rfl
      rw [hrow] at hsome
      cases hsome
  · rintro w w' i op k r ts _ ⟨γ, ⟨⟨-, hadmins⟩, -⟩, -⟩ hcond hexec t ht hgood
    exact countHolds_exec hadmins hcond hexec ht hgood

/-- **One administrator.**  From an empty table of users, whatever registrations and other
requests interleave, fail or stop, at most one user ever is an administrator, if while there is
no user each `INSERT` of one finds no other registration between its `COUNT` and its `INSERT`,
and nobody uses the grant endpoint: who is an administrator at some moment of a run and who is
one at any later moment are the same user. -/
theorem oneAdmin_of_alone (mayFail : Op → Prop) (stop : Prop) {w₀ : World} (hw₀ : w₀.users.rows = [])
    {p q : Pool World Ordinary Op Op.Res Outcome}
    (hp : Pool.ReachableWhen AloneAtInsert (fun i => serve env i.1) (exec mayFail) stop w₀ p)
    (hpq : ReflTransGen (Pool.StepWhen AloneAtInsert (fun i => serve env i.1) (exec mayFail) stop) p q)
    {u v : User} (hu : u ∈ p.shared.users) (hv : v ∈ q.shared.users) (hadmin : u.isAdmin = true)
    (hadmin' : v.isAdmin = true) : u.id = v.id := by
  have hone : OneAdmin p.shared ∧ ∀ t ∈ p.threads, CountHolds p.shared t := by
    refine counting_invariant env (fun _ _ _ _ hw hadmins hempty h => oneAdmin_exec hw hadmins hempty h)
      hp ⟨?_, fun t ht => absurd ht List.not_mem_nil⟩
    unfold OneAdmin
    rw [rights_eq_nil.2 hw₀]
    simp
  have hstays : (OneAdmin q.shared ∧ (u.id, true) ∈ q.shared.rights) ∧
      ∀ t ∈ q.threads, CountHolds q.shared t :=
    counting_invariant env (fun w op r w' (hw : OneAdmin w ∧ (u.id, true) ∈ w.rights) hadmins hempty h =>
        ⟨oneAdmin_exec hw.1 hadmins hempty h, admin_exec hadmins h hw.2⟩) hpq
      ⟨⟨hone.1, mem_rights.2 ⟨u, hu, rfl, hadmin⟩⟩, hone.2⟩
  exact hstays.1.1 _ _ hstays.1.2 (mem_rights.2 ⟨v, hv, rfl, hadmin'⟩)

/-! ### Two registrations -/

/-- A registration of `name`. -/
def registers (name : Text) (id : Uuid) : Ordinary :=
  ⟨.register 0 ⟨name, none, ['p', 'a', 's', 's', 'w', 'o', 'r', 'd'], none⟩ [] id,
    by simp [Request.areas]⟩

/-- One after the other. -/
def oneRegisters : List (Pool.Turn Ordinary Unit) :=
  .spawn (registers ['k', 'a', 'z'] 1) :: List.replicate 4 (.act 0 ()) ++
    .spawn (registers ['m', 'i', 'a'] 2) :: List.replicate 4 (.act 0 ())

/-- `AloneAtInsert`, as a test. -/
def aloneAtInsert (w : World) (others : List (Ordinary × Op)) (op : Op) : Bool :=
  !w.users.rows.isEmpty || op.inserts.isNone || others.all fun other => other.2.inserts.isNone

theorem aloneAtInsert_of_test (w : World) (others : List (Ordinary × Op)) (op : Op)
    (h : aloneAtInsert w others op = true) : AloneAtInsert w others op := by
  intro hempty hinserts other hother
  simp only [aloneAtInsert, hempty, Bool.or_eq_true, List.all_eq_true] at h
  rcases h with (h | h) | h
  · cases h
  · simp_all
  · exact Option.isNone_iff_eq_none.1 (h other hother)

/-- The server after the two. -/
def orderlyPool : Pool World Ordinary Op Op.Res Outcome :=
  Pool.play (fun i => serve .plain i.1) (fun _ w op => answer w op) World.empty oneRegisters

theorem reachable_orderlyPool : Pool.ReachableWhen AloneAtInsert (fun i : Ordinary => serve .plain i.1)
    (exec fun _ => False) False World.empty orderlyPool :=
  @Pool.reachableWhen_play _ _ _ _ _ AloneAtInsert (fun i : Ordinary => serve .plain i.1) _ False Unit
    (fun _ w op => answer w op) aloneAtInsert aloneAtInsert_of_test (fun _ w op => exec_answer _ w op)
    World.empty oneRegisters (by rfl)

theorem oneAdmin_of_alone_oneRegisters :
    (orderlyPool.shared.users.rows.filter User.isAdmin).all (fun u => u.id = 1) = true := by
  have hrights : orderlyPool.shared.rights = [(2, false), (1, true)] := rfl
  obtain ⟨v, hv, hid, hadmin⟩ := mem_rights.1 (show (1, true) ∈ orderlyPool.shared.rights by simp [hrights])
  rw [List.all_eq_true]
  intro u hu
  obtain ⟨hmem, hadmin'⟩ := List.mem_filter.1 hu
  exact decide_eq_true ((oneAdmin_of_alone .plain (fun _ => False) False rfl reachable_orderlyPool .refl
    hmem hv hadmin' hadmin).trans hid)

/-- Both count no user before one of them is inserted. -/
def registrationRace : List (Pool.Turn Ordinary Unit) :=
  [.spawn (registers ['k', 'a', 'z'] 1), .act 0 (), .act 0 (), .spawn (registers ['m', 'i', 'a'] 2),
    .act 0 (), .act 0 (), .act 0 (), .act 1 ()]

/-- The server then. -/
def racePool : Pool World Ordinary Op Op.Res Outcome :=
  Pool.play (fun i => serve .plain i.1) (fun _ w op => answer w op) World.empty registrationRace

theorem reachable_racePool :
    Pool.Reachable (fun i : Ordinary => serve .plain i.1) (exec fun _ => False) False World.empty
      racePool :=
  @Pool.reachable_play _ _ _ _ _ (fun i : Ordinary => serve .plain i.1) _ False Unit
    (fun _ w op => answer w op) (fun _ _ => true) (fun _ w op _ => exec_answer _ w op) World.empty
    registrationRace (by rfl)

/-- Both are administrators. -/
theorem twoAdmins_of_race : ∃ p : Pool World Ordinary Op Op.Res Outcome,
    Pool.Reachable (fun i => serve .plain i.1) (exec fun _ => False) False World.empty p ∧
    ∃ u ∈ p.shared.users, ∃ v ∈ p.shared.users,
      u.isAdmin = true ∧ v.isAdmin = true ∧ u.id ≠ v.id := by
  have hrights : racePool.shared.rights = [(1, true), (2, true)] := rfl
  have hone : (1, true) ∈ racePool.shared.rights := by simp [hrights]
  have htwo : (2, true) ∈ racePool.shared.rights := by simp [hrights]
  obtain ⟨u, hu, huid, hadmin⟩ := mem_rights.1 hone
  obtain ⟨v, hv, hvid, hadmin'⟩ := mem_rights.1 htwo
  refine ⟨racePool, reachable_racePool, u, hu, v, hv, hadmin, hadmin', ?_⟩
  rw [huid, hvid]
  decide

end Server
end Uwuubox
