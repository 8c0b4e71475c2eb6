import Uwuubox.Server.Footprint

/-!
# What an operation leaves alone

`Op.area` says what an operation writes; here it is shown that it writes nothing else.

* `Frame` — the states that differ in one area only; `exec_frame`: an operation stays in its
  area, whether it fails or not.
* `exec_roles`, `exec_apiTokens`, `exec_dedupe` — what that says of a table, or of the storage part;
  `exec_inserts` of a registration.
* `Query.Only.obeys` — a program that writes only to some areas obeys every protocol that allows
  the operations of these areas.
-/

namespace Uwuubox
namespace Server

open Dedupe Storage Table Fallible

/-- Two states that differ at most in an area. -/
def Frame (w w' : World) : Option Area → Prop
  | none => w' = w
  | some .files => ∃ dedupe, w' = { w with dedupe := dedupe }
  | some .newFiles => ∃ dedupe columns, w' = { w with dedupe := dedupe, fileColumns := columns }
  | some .fileVisibility => ∃ columns, w' = { w with fileColumns := columns }
  | some .pastes | some .newPastes | some .pasteVisibility => ∃ pastes, w' = { w with pastes := pastes }
  | some .collections | some .collectionRemovals => ∃ collections, w' = { w with collections := collections }
  | some .users => ∃ users codes, w' = { w with users := users, inviteCodes := codes }
  | some .admins | some .roleOfUser => ∃ users, w' = { w with users := users }
  | some .identities => ∃ identities, w' = { w with oidcIdentities := identities }
  | some .tokens | some .revocations => ∃ tokens, w' = { w with apiTokens := tokens }
  | some .sessions => ∃ sessions, w' = { w with sessions := sessions }
  | some .clock => ∃ now, w' = { w with now := now }

variable {w w' : World} {op : Op} {r : op.Res} {mayFail : Op → Prop}

theorem Frame.refl (w : World) (area : Option Area) : Frame w w area := by
  cases area with
  | none => rfl
  | some area => cases area <;> first | exact ⟨_, rfl⟩ | exact ⟨_, _, rfl⟩

theorem insertUser_frame (w : World) (row : User) :
    ∃ users, (insertUser w row).2 = { w with users := users } := by
  unfold insertUser
  split
  · exact ⟨_, rfl⟩
  · split
    · exact ⟨_, rfl⟩
    · split
      · exact ⟨_, rfl⟩
      · exact ⟨_, rfl⟩

theorem answer_frame (w : World) (op : Op) : Frame w (answer w op).2 op.area := by
  cases op with
  | storage op => cases op <;> first | exact ⟨_, rfl⟩ | exact ⟨_, _, rfl⟩
  | insertUser row =>
    obtain ⟨users, h⟩ := insertUser_frame w row
    exact ⟨users, w.inviteCodes, h⟩
  | createUser row code =>
    simp only [answer]
    split
    · split
      · exact .refl w _
      · rename_i user w' heq
        obtain ⟨users, h⟩ := insertUser_frame w row
        rw [heq] at h
        simp only at h
        subst h
        exact ⟨users, _, rfl⟩
    · exact .refl w _
  | insertFile | setFileVisibility | linkThumb | get | getStream | getRangeStream | insertPaste
  | insertCollection | updateCollection | linkOidc | assignRole | insertToken =>
    simp only [answer]
    repeat' split
    all_goals first | exact .refl w _ | exact ⟨_, rfl⟩ | exact ⟨_, _, rfl⟩
  | findFile | expiredFiles | expiredPastes | storageUsed | findPaste | findCollection
  | instanceConfig | findRole | userCount | findUserById | findUserByName | findOidcUser | groupRole
  | tokenIdentity | touchToken | dashboard | session | audit | now => rfl
  | setPasteVisibility | deletePaste | deleteCollection | setAdmin | revokeToken | setSession | tick =>
    exact ⟨_, rfl⟩

/-- **An operation stays in its area.** -/
theorem exec_frame (h : exec mayFail w op r w') : Frame w w' op.area := by
  rcases h with h | ⟨-, h⟩
  · rw [show w' = (answer w op).2 from congrArg Prod.snd h]
    exact answer_frame w op
  · cases h with
    | statement e => exact .refl w _
    | @storage op r dedupe h => cases op <;> first | exact ⟨_, rfl⟩ | exact ⟨_, _, rfl⟩
    | getStream => rfl
    | getRangeStream => rfl

/-! ## The tables -/

/-- An operation that writes nothing. -/
theorem exec_read (h : exec mayFail w op r w') (harea : op.area = none) : w' = w := by
  have hframe := exec_frame h
  rw [harea] at hframe
  exact hframe

/-- Nothing that a handler does changes the roles. -/
theorem exec_roles (h : exec mayFail w op r w') : w'.roles = w.roles := by
  have hframe := exec_frame h
  generalize op.area = area at hframe
  rcases area with _ | area
  · exact congrArg World.roles hframe
  · cases area <;> first | (obtain ⟨_, rfl⟩ := hframe; rfl) | (obtain ⟨_, _, rfl⟩ := hframe; rfl)

theorem exec_apiTokens (h : exec mayFail w op r w') (htokens : op.area ≠ some .tokens)
    (hrevocations : op.area ≠ some .revocations) : w'.apiTokens = w.apiTokens := by
  have hframe := exec_frame h
  generalize op.area = area at *
  rcases area with _ | area
  · exact congrArg World.apiTokens hframe
  · cases area <;> first
      | exact absurd rfl htokens | exact absurd rfl hrevocations
      | (obtain ⟨_, rfl⟩ := hframe; rfl) | (obtain ⟨_, _, rfl⟩ := hframe; rfl)

/-- What writes elsewhere leaves the storage part alone. -/
theorem exec_dedupe (h : exec mayFail w op r w') (hfiles : op.area ≠ some .files)
    (hnew : op.area ≠ some .newFiles) : w'.dedupe = w.dedupe := by
  have hframe := exec_frame h
  generalize op.area = area at *
  rcases area with _ | area
  · exact congrArg World.dedupe hframe
  · cases area <;> first
      | exact absurd rfl hfiles | exact absurd rfl hnew
      | (obtain ⟨_, rfl⟩ := hframe; rfl) | (obtain ⟨_, _, rfl⟩ := hframe; rfl)

/-! ## New users -/

/-- The user that an operation inserts. -/
def Op.inserts : Op → Option User
  | insertUser row => some row
  | createUser row _ => some row
  | _ => none

theorem insertUser_rows (w : World) (row : User) :
    (insertUser w row).2.users.rows = row :: w.users.rows ∨
      (insertUser w row).2.users.rows = w.users.rows := by
  unfold insertUser
  split
  · exact .inr rfl
  · split
    · exact .inr rfl
    · split
      · exact .inr rfl
      · rename_i users hinsert
        exact .inl (Keyed.insert?_eq_some hinsert).1

/-- A registration inserts its user, or nobody. -/
theorem exec_inserts (h : exec mayFail w op r w') {row : User} (hop : op.inserts = some row) :
    w'.users.rows = row :: w.users.rows ∨ w'.users.rows = w.users.rows := by
  rcases h with h | ⟨-, h⟩
  · rw [show w' = (answer w op).2 from congrArg Prod.snd h]
    cases op with
    | insertUser row' =>
      cases hop
      exact insertUser_rows w row
    | createUser row' code =>
      cases hop
      have hrow := insertUser_rows w row
      simp only [answer]
      split
      · split
        · exact .inr rfl
        · rename_i heq
          rw [heq] at hrow
          exact hrow
      · exact .inr rfl
    | _ => cases hop
  · cases h <;> exact .inr rfl

/-! ## Protocols -/

section Protocols

variable {Γ α : Type} {S : List Area} {π : Protocol Γ Op Op.Res}

/-- What writes only to some areas obeys a protocol that always allows this. -/
theorem Query.Only.obeys {p : Query α} (h : Query.Only S p)
    (hπ : ∀ γ op, Within S op → π.may γ op) (γ : Γ) : p.Obeys π (fun _ _ => True) γ := by
  have hsim : p.Obeys π (fun _ _ => ∃ _ : Unit, True ∧ True) γ :=
    Prog.Obeys.simulate (fun _ _ => True) (fun _ => hπ _ _) (fun _ _ _ => ⟨(), trivial, trivial⟩) h
      trivial
  exact hsim.mono fun _ _ _ => trivial

theorem Only.obeys {p : Handler α} (h : Only S p) (hπ : ∀ γ op, Within S op → π.may γ op) (γ : Γ) :
    p.Obeys π (fun _ _ => True) (fun _ _ => True) γ := by
  apply Prog.Obeys.mono (Query.Only.obeys h.run hπ γ)
  intro r _ _
  cases r with
  | ok a => trivial
  | error e => trivial

end Protocols

end Server
end Uwuubox
