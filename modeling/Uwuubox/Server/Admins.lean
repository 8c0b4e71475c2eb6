import Uwuubox.Server.Frames
import Uwuubox.Prog.Schedule

/-!
# Who is an administrator

* `exec_users` and one lemma for each operation that writes users.
* `AdminRemains` — some user is an administrator; `adminRemains_of_stillAdmin`: **it stays so in
  every run in which who revokes is still an administrator when the `UPDATE` is executed.**
* `noAdmin_after_mutual` — two administrators who revoke each other.
-/

namespace Uwuubox
namespace Server

open Dedupe Storage Table Fallible

/-- Who is an administrator, and who is not. -/
def World.rights (w : World) : List (Uuid × Bool) := w.users.rows.map fun u => (u.id, u.isAdmin)

section Rights

variable {mayFail : Op → Prop} {w w' : World} {op : Op}

theorem eq_setAdmin (h : op.area = some .admins) : ∃ id admin by', op = .setAdmin id admin by' := by
  cases op with
  | setAdmin id admin by' => exact ⟨id, admin, by', rfl⟩
  | storage op => cases op <;> simp [Op.area] at h
  | _ => simp [Op.area] at h

theorem mem_rights {w : World} {id : Uuid} {admin : Bool} :
    (id, admin) ∈ w.rights ↔ ∃ u ∈ w.users, u.id = id ∧ u.isAdmin = admin := by
  simp [World.rights, Keyed.mem_def]

theorem rights_eq_nil {w : World} : w.rights = [] ↔ w.users.rows = [] := List.map_eq_nil_iff

/-- A registration inserts its user, or it changes nobody's rights. -/
theorem rights_inserts {r : op.Res} (h : exec mayFail w op r w') {row : User}
    (hop : op.inserts = some row) :
    w'.rights = (row.id, row.isAdmin) :: w.rights ∨ w'.rights = w.rights := by
  rcases exec_inserts h hop with hrows | hrows
  · exact .inl (congrArg (List.map fun u : User => (u.id, u.isAdmin)) hrows)
  · exact .inr (congrArg (List.map fun u : User => (u.id, u.isAdmin)) hrows)

theorem exec_setAdmin {id : Uuid} {admin : Bool} {by' : Uuid} {r : (Op.setAdmin id admin by').Res}
    (h : exec mayFail w (.setAdmin id admin by') r w') :
    w'.rights = w.rights.map (fun u => (u.1, if u.1 = id then admin else u.2)) ∨
    w'.rights = w.rights := by
  rcases h with h | ⟨-, h⟩
  · cases h
    left
    simp only [World.rights, Keyed.update, updateWhere, List.map_map]
    apply List.map_congr_left
    intro u _
    by_cases hid : u.id = id
    · simp [hid]
    · simp [hid]
  · cases h
    exact .inr rfl

theorem exec_assignRole {userId roleId : Uuid} {r : (Op.assignRole userId roleId).Res}
    (h : exec mayFail w (.assignRole userId roleId) r w') : w'.rights = w.rights := by
  rcases h with h | ⟨-, h⟩
  · simp only [answer] at h
    split at h
    · cases h
      exact map_updateWhere fun _ => rfl
    · cases h
      rfl
  · cases h
    rfl

/-- Nothing else changes anybody's rights. -/
theorem exec_rights {r : op.Res} (h : exec mayFail w op r w') (husers : op.inserts = none)
    (hadmins : op.area ≠ some .admins) : w'.rights = w.rights := by
  have hframe := exec_frame h
  cases op with
  | insertUser | createUser => cases husers
  | setAdmin => exact absurd rfl hadmins
  | assignRole => exact exec_assignRole h
  | storage op =>
    cases op <;>
    · obtain ⟨_, _, rfl⟩ := hframe
      rfl
  | _ =>
    obtain ⟨_, _, rfl⟩ := hframe
    rfl

end Rights

/-! ## An administrator remains -/

/-- Some user is an administrator. -/
def AdminRemains (w : World) : Prop := ∃ u ∈ w.users, u.isAdmin = true

theorem adminRemains_iff {w : World} : AdminRemains w ↔ ∃ id, (id, true) ∈ w.rights := by
  simp [AdminRemains, mem_rights]

/-- The administrator for whom a right is revoked still is one. -/
def StillAdmin (w : World) (op : Op) : Prop :=
  ∀ id by', op = .setAdmin id false by' → ∃ u ∈ w.users, u.id = by' ∧ u.isAdmin = true

/-- Nobody revokes their own right. -/
def NotOwn (op : Op) : Prop := ∀ id by', op = .setAdmin id false by' → id ≠ by'

theorem notOwn_of_within {S : List Area} {op : Op} (h : Within S op) (hS : .admins ∉ S) : NotOwn op := by
  rintro id by' rfl
  exact absurd (h _ rfl) hS

/-- One operation keeps an administrator. -/
theorem adminRemains_exec {mayFail : Op → Prop} {w w' : World} {op : Op} {r : op.Res}
    (hw : AdminRemains w) (hown : NotOwn op) (hstill : StillAdmin w op)
    (h : exec mayFail w op r w') : AdminRemains w' := by
  rw [adminRemains_iff] at hw ⊢
  cases hinserts : op.inserts with
  | some row =>
    obtain ⟨id, hid⟩ := hw
    rcases rights_inserts h hinserts with hrights | hrights
    · exact ⟨id, hrights ▸ List.mem_cons_of_mem _ hid⟩
    · exact ⟨id, hrights ▸ hid⟩
  | none =>
    by_cases hadmins : op.area = some .admins
    · obtain ⟨id, admin, by', rfl⟩ := eq_setAdmin hadmins
      rcases exec_setAdmin h with hrights | hrights
      · rw [hrights]
        cases admin with
        | true =>
          obtain ⟨other, hother⟩ := hw
          exact ⟨other, List.mem_map.2 ⟨_, hother, by simp⟩⟩
        | false =>
          -- the one who revokes keeps the right
          obtain ⟨u, hu, rfl, hadmin⟩ := hstill id by' rfl
          have hne : u.id ≠ id := fun heq => hown id u.id rfl heq.symm
          exact ⟨u.id, List.mem_map.2 ⟨_, mem_rights.2 ⟨u, hu, rfl, hadmin⟩, by simp [hne]⟩⟩
      · rwa [hrights]
    · rwa [exec_rights h hinserts hadmins]

variable (env : Env)

/-- `grant` refuses to revoke the right of who asks. -/
theorem grant_notOwn (caller : Caller) (id : Option Uuid) (action : Text) :
    (grant env caller id action).Obeys (.flat NotOwn fun _ _ => True) (fun _ _ => True)
      (fun _ _ => True) () := by
  have hnothing : ∀ (_ : Unit) op, Within [] op → NotOwn op := fun _ op h =>
    notOwn_of_within h List.not_mem_nil
  unfold grant
  rw [obeys_bind]
  apply ((only_requireAdmin env caller).obeys hnothing ()).mono _ fun _ _ _ => trivial
  intro admin _ _
  rw [obeys_bind, obeys_orThrow]
  refine ⟨fun _ => trivial, fun id _ => ?_⟩
  rw [obeys_bind, obeys_check]
  refine ⟨fun _ _ => trivial, fun makeAdmin _ => ?_⟩
  rw [obeys_bind, obeys_reject]
  refine ⟨fun _ => trivial, fun hown => ?_⟩
  refine (obeys_bind _ _).2 (obeys_ask.2 ⟨hnothing () _ (within_of_none rfl),
    fun _ _ _ => ⟨fun user _ => ?_, fun _ _ => trivial⟩⟩)
  rw [obeys_bind, obeys_orThrow]
  refine ⟨fun _ => trivial, fun _ _ => ?_⟩
  refine (obeys_bind _ _).2 (obeys_ask.2 ⟨?_, fun _ _ _ => ⟨fun _ _ => ?_, fun _ _ => trivial⟩⟩)
  · rintro id' by' ⟨⟩ heq
    exact hown ⟨heq, rfl⟩
  · have hrest : Only [] (do
        ask (.audit (some admin.id) "user.admin")
        pure (Response.seeOther adminPath)) := .bind (.read rfl) fun _ => .pure
    exact hrest.obeys hnothing ()

theorem serve_notOwn (req : Request) :
    (serve env req).Obeys (.flat NotOwn fun _ _ => True) (fun _ _ => True) () := by
  by_cases hadmins : .admins ∈ req.areas
  · cases req with
    | grant caller id action =>
      exact Prog.Obeys.mono (grant_notOwn env caller id action) fun _ _ _ => trivial
    | _ => simp [Request.areas] at hadmins
  · exact (serve_only env req).obeys (fun _ op h => notOwn_of_within h hadmins) ()

/-- **An administrator remains.**  In every run that starts with an administrator, whatever requests
interleave, fail or stop, there always is one, if every revoking `UPDATE` is executed while
the one who asked for it still is an administrator. -/
theorem adminRemains_of_stillAdmin (mayFail : Op → Prop) (stop : Prop) {w₀ : World}
    (hw₀ : AdminRemains w₀) {p : Pool World Request Op Op.Res Outcome}
    (hp : Pool.Reachable (serve env) (guarded StillAdmin (exec mayFail)) stop w₀ p) :
    AdminRemains p.shared :=
  (hp.invariant hw₀ (serve_notOwn env)
    fun _ _ _ _ _ hown hw hexec => ⟨trivial, adminRemains_exec hw hown hexec.1 hexec.2⟩).1

/-! ### Two administrators -/

/-- Two administrators, each with a session. -/
def twoAdmins : World where
  __ := World.empty
  users := ⟨[newUser 1 ['k', 'a', 'z'] none none true, newUser 2 ['m', 'i', 'a'] none none true],
    by simp [UniqueOn, newUser]⟩
  sessions := fun sid => { Session.fresh with uid := some (BitVec.ofNat 128 sid) }

/-- The administrator in session `sid` revokes the right of `other`. -/
def revokes (sid : SessionId) (other : Uuid) : Request :=
  .grant ⟨sid, .none⟩ (some other) ['r', 'e', 'v', 'o', 'k', 'e']

/-- `StillAdmin`, as a test. -/
def stillAdmin (w : World) : Op → Bool
  | .setAdmin _ false by' => w.users.rows.any fun u => u.id = by' && u.isAdmin
  | _ => true

theorem stillAdmin_of_test {w : World} {op : Op} (h : stillAdmin w op = true) : StillAdmin w op := by
  rintro id by' rfl
  simpa [stillAdmin, Keyed.mem_def] using h

/-- One revokes the right of the other, who then asks for the same and is refused. -/
def oneRevokes : List (Pool.Turn Request Unit) :=
  .spawn (revokes 1 2) :: List.replicate 5 (.act 0 ()) ++
    .spawn (revokes 2 1) :: List.replicate 5 (.act 0 ())

theorem adminRemains_of_stillAdmin_oneRevokes :
    AdminRemains (Pool.play (serve .plain) (fun _ w op => answer w op) twoAdmins oneRevokes).shared := by
  exact adminRemains_of_stillAdmin .plain (fun _ => False) False
    ⟨_, List.mem_cons_self, rfl⟩
    (@Pool.reachable_play _ _ _ _ _ (serve .plain) _ False Unit (fun _ w op => answer w op) stillAdmin
      (fun _ w op hok => ⟨stillAdmin_of_test hok, exec_answer _ w op⟩) twoAdmins oneRevokes (by rfl))

/-- Both pass their checks before the first right is revoked. -/
def mutualRevokes : List (Pool.Turn Request Unit) :=
  [.spawn (revokes 1 2), .act 0 (), .act 0 (), .act 0 (), .spawn (revokes 2 1), .act 0 (), .act 0 (),
    .act 0 (), .act 0 (), .act 1 ()]

/-- Then nobody is an administrator. -/
theorem noAdmin_after_mutual : AdminRemains twoAdmins ∧
    ∃ p : Pool World Request Op Op.Res Outcome,
      Pool.Reachable (serve .plain) (exec fun _ => False) False twoAdmins p ∧
      ¬ AdminRemains p.shared := by
  refine ⟨⟨_, List.mem_cons_self, rfl⟩,
    Pool.play (serve .plain) (fun _ w op => answer w op) twoAdmins mutualRevokes,
    @Pool.reachable_play _ _ _ _ _ (serve .plain) _ False Unit (fun _ w op => answer w op)
      (fun _ _ => true) (fun _ w op _ => exec_answer _ w op) twoAdmins mutualRevokes (by rfl), ?_⟩
  have hrights : (Pool.play (serve .plain) (fun _ w op => answer w op) twoAdmins
    mutualRevokes).shared.rights = [(1, false), (2, false)] := rfl
  rw [adminRemains_iff, hrights]
  simp

end Server
end Uwuubox
