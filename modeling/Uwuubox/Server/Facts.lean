import Uwuubox.Prog.Evidence
import Uwuubox.Server.Login
import Uwuubox.Server.Passwords
import Uwuubox.Server.ScopeMap

/-!
# What requests are told

A handler decides on rows, sessions and tokens that it has read a while ago.

* `Guards` — the columns of an item that handlers decide on; nothing writes to them.
* `Fact`, `Op.facts` — what an answer shows.
* `Tells` — what is true of answers in every state.
* `Fact.Holds` — what a fact says of the state: an item that has been shown has the guards that were
  shown, as long as it is there, and no other item gets its core.
* `exec_told`, `holds_new`, `holds_kept` — facts hold when they are shown, and from then on.
* `Told`, `told_once`, `told_holds` — the runs in which requests carry what they have been told.
-/

namespace Uwuubox
namespace Server

open Dedupe Storage Table Fallible

/-! ## Guards -/

/-- The columns of a file or a paste that decide who may do what with it. -/
structure Guards where
  ownerId : Option Uuid
  burnAfterRead : Bool
  accessPasswordHash : Option Text
  expiresAt : Option ℤ
  deleteTokenHash : Option Text
deriving DecidableEq

def FileColumns.guards (columns : FileColumns) : Guards where
  ownerId := columns.ownerId
  burnAfterRead := columns.burnAfterRead
  accessPasswordHash := columns.accessPasswordHash
  expiresAt := columns.expiresAt
  deleteTokenHash := columns.deleteTokenHash

def PasteRow.guards (row : PasteRow) : Guards where
  ownerId := row.ownerId
  burnAfterRead := row.burnAfterRead
  accessPasswordHash := row.accessPasswordHash
  expiresAt := row.expiresAt
  deleteTokenHash := row.deleteTokenHash

/-- The row of the item, if there is one, has these guards. -/
def World.Guarded (w : World) (guards : Guards) : Item → Prop
  | .file core => ∀ row ∈ w.dedupe.files.rows, row.idCore = core → (w.fileColumns row.idCore).guards = guards
  | .paste core => ∀ row ∈ w.pastes, row.idCore = core → row.guards = guards

section Row

variable {mayFail : Op → Prop} {w w' : World} {op : Op} {r : op.Res} {item : Item} {guards : Guards}

/-- A row has one set of guards. -/
theorem World.Guarded.unique {guards' : Guards} (h : w.Guarded guards item) (h' : w.Guarded guards' item)
    (hitem : w.Has item) : guards = guards' := by
  cases item with
  | file core | paste core =>
    obtain ⟨row, hrow, hcore⟩ := hitem
    exact (h row hrow hcore).symm.trans (h' row hrow hcore)

/-- A file that is read has its guards. -/
theorem guarded_fileOf (w : World) (row : FileRow) : w.Guarded (w.fileOf row).guards (.file row.idCore) := by
  rintro other - hcore
  rw [hcore]
  rfl

theorem guarded_paste {row : PasteRow} (hrow : row ∈ w.pastes) : w.Guarded row.guards (.paste row.idCore) := by
  intro other hother hcore
  rw [Keyed.eq_of_col hother hrow hcore]

/-- **Nothing writes to the guards** of a row from before. -/
theorem exec_guarded (h : exec mayFail w op r w') (hnew : op.newItem r ≠ some item)
    (hw : w.Guarded guards item) : w'.Guarded guards item := by
  by_cases hop : op.InsertsNone
  · cases item with
    | file core =>
      rintro row hrow rfl
      obtain ⟨old, hold, hsame⟩ := exec_fileCores h hop.1 hrow
      obtain ⟨_, hcolumns⟩ := exec_fileColumns h hop.1 row.idCore
      rw [hcolumns, ← hsame]
      exact hw old hold hsame
    | paste core =>
      rintro row hrow rfl
      obtain ⟨old, hold, _, rfl⟩ := exec_pasteRow h hop.2 hrow
      exact hw old hold rfl
  · cases op with
    | insertFile row columns =>
      rcases exec_insertFile h with ⟨hcore, rfl, rfl⟩ | ⟨-, rfl⟩
      · cases item with
        | file core =>
          have hother : row.idCore ≠ core := fun heq => hnew (heq ▸ rfl)
          rintro other hmem rfl
          rcases List.mem_cons.1 hmem with rfl | hmem
          · exact absurd rfl hother
          · simpa [hother.symm] using hw other hmem rfl
        | paste core => exact hw
      · exact hw
    | insertPaste row =>
      rcases exec_insertPaste h with ⟨pastes, hinsert, rfl, rfl⟩ | ⟨-, rfl⟩
      · cases item with
        | file core => exact hw
        | paste core =>
          rintro other hmem rfl
          rcases (Keyed.mem_insert? hinsert).1 hmem with rfl | hmem
          · exact absurd rfl hnew
          · exact hw other hmem rfl
      · exact hw
    | storage op =>
      cases op with
      | insertFile row =>
        obtain ⟨dedupe, rfl, hdedupe⟩ := exec_storage h
        rcases Dedupe.exec_insertFile hdedupe with ⟨hcore, rfl, rfl⟩ | ⟨e, rfl, rfl⟩
        · cases item with
          | file core =>
            rintro other hmem rfl
            rcases List.mem_cons.1 hmem with rfl | hmem
            · exact absurd rfl hnew
            · exact hw other hmem rfl
          | paste core => exact hw
        · exact hw
      | _ => exact absurd (by simp [Op.InsertsNone, Op.area]) hop
    | _ => exact absurd (by simp [Op.InsertsNone, Op.area]) hop

/-- An item whose row has not been inserted now has been there. -/
theorem exec_has_of_new (h : exec mayFail w op r w') (hnew : op.newItem r ≠ some item) (hitem : w'.Has item) :
    w.Has item := by
  by_cases hop : op.InsertsNone
  · exact exec_has h hop hitem
  · cases op with
    | insertFile row columns =>
      rcases exec_insertFile h with ⟨hcore, rfl, rfl⟩ | ⟨-, rfl⟩
      · exact (has_insertFile rfl hitem).resolve_left fun heq => hnew (congrArg some heq.symm)
      · exact hitem
    | insertPaste row =>
      rcases exec_insertPaste h with ⟨pastes, hinsert, rfl, rfl⟩ | ⟨-, rfl⟩
      · exact (has_insertPaste hinsert hitem).resolve_left fun heq => hnew (congrArg some heq.symm)
      · exact hitem
    | storage op =>
      cases op with
      | insertFile row =>
        obtain ⟨dedupe, rfl, hdedupe⟩ := exec_storage h
        rcases Dedupe.exec_insertFile hdedupe with ⟨hcore, rfl, rfl⟩ | ⟨e, -, rfl⟩
        · exact (has_insertFile rfl hitem).resolve_left fun heq => hnew (congrArg some heq.symm)
        · exact hitem
      | _ => exact absurd (by simp [Op.InsertsNone, Op.area]) hop
    | _ => exact absurd (by simp [Op.InsertsNone, Op.area]) hop

/-- The clock does not go back. -/
theorem exec_now (h : exec mayFail w op r w') : w.now ≤ w'.now := by
  cases op with
  | tick dt =>
    rcases exec_statement h rfl with heq | ⟨-, -, rfl⟩
    · cases heq
      exact le_add_of_nonneg_right (Int.natCast_nonneg dt)
    · exact le_rfl
  | storage op =>
    obtain ⟨dedupe, rfl, -⟩ := exec_storage h
    exact le_rfl
  | _ =>
    obtain ⟨_, _, rfl⟩ := exec_frame h
    exact le_rfl

end Row

/-! ## Facts -/

/-- What a request has been told. -/
inductive Fact where
  /-- The session is logged in. -/
  | session (sid : SessionId) (uid : Uuid)
  /-- The session has the flag of the core. -/
  | unlocked (sid : SessionId) (core : Core)
  /-- The session is to link an identity to the user. -/
  | linking (sid : SessionId) (uid : Uuid)
  /-- The session expects this `state` in the callback. -/
  | started (sid : SessionId) (csrf : Text)
  /-- A token with this hash is one of the user's. -/
  | token (tokenHash : Text) (uid : Uuid)
  /-- The account with this name. -/
  | account (name : Text) (user : User)
  /-- The account has been made. -/
  | created (uid : Uuid)
  /-- The identity is linked to the user. -/
  | identity (issuer sub : Text) (uid : Uuid)
  /-- The item has these guards. -/
  | shown (item : Item) (guards : Guards)
  /-- The item has these guards, and has expired. -/
  | expired (item : Item) (guards : Guards)

/-- What the keys of a session show. -/
def Session.facts (sid : SessionId) (session : Session) : List Fact :=
  (session.uid.map (Fact.session sid)).toList ++ session.unlocked.map (Fact.unlocked sid) ++
    (session.oidcLinkUid.map (Fact.linking sid)).toList ++ (session.oidcCsrf.map (Fact.started sid)).toList

/-- What an answer shows. -/
def Op.facts : (op : Op) → op.Res → List Fact
  | .session sid, .ok s => s.facts sid
  | .tokenIdentity tokenHash, .ok (some (user, _)) => [.token tokenHash user.id]
  | .findUserByName name, .ok (some user) => [.account name user]
  | .insertUser _, .ok user | .createUser _ _, .ok (some user) => [.created user.id]
  | .findOidcUser issuer sub, .ok (some user) => [.identity issuer sub user.id]
  | .findFile _, .ok (some file) => [.shown (.file file.idCore) file.guards]
  | .findPaste _, .ok (some paste) => [.shown (.paste paste.idCore) paste.guards]
  | .expiredFiles _, .ok files => files.map fun file => .expired (.file file.idCore) file.guards
  | .expiredPastes _, .ok pastes => pastes.map fun paste => .expired (.paste paste.idCore) paste.guards
  | _, _ => []

/-- What is true of an answer in every state: a row has the key that it has been looked up by. -/
def Tells : (op : Op) → op.Res → Prop
  | .findUserById id, .ok (some user) => user.id = id
  | .findFile core, .ok (some file) => file.idCore.val = core
  | .findPaste core, .ok (some paste) => paste.idCore.val = core
  | _, _ => True

/-- What a fact says of the state, and of the items that there have been. -/
def Fact.Holds (h : World × Inserted) : Fact → Prop
  | shown item guards => item ∈ h.2 ∧ h.1.Guarded guards item
  | expired item guards =>
    item ∈ h.2 ∧ h.1.Guarded guards item ∧ Server.expired guards.expiresAt h.1.now = true
  | _ => True

section Told

variable {mayFail : Op → Prop}

/-- A statement that is answered without an error has been executed. -/
theorem exec_answered {w w' : World} {op : Op} {v : op.Val} (h : exec mayFail w op (.ok v) w')
    (hop : op.isStatement = true) : (Except.ok v, w') = answer w op := by
  rcases exec_statement h hop with heq | ⟨-, ⟨e, herr⟩, -⟩
  · exact heq
  · cases herr

theorem file?_spec {w : World} {core : Text} {file : File} (h : w.file? core = some file) :
    ∃ row ∈ w.dedupe.files.rows, file = w.fileOf row ∧ row.idCore.val = core := by
  obtain ⟨row, hrow, rfl⟩ := Option.map_eq_some_iff.1 h
  exact ⟨row, List.mem_of_find?_eq_some hrow, rfl, by simpa using List.find?_some hrow⟩

theorem paste?_spec {w : World} {core : Text} {paste : PasteRow} (h : w.paste? core = some paste) :
    paste ∈ w.pastes ∧ paste.idCore.val = core :=
  ⟨List.mem_of_find?_eq_some h, by simpa using List.find?_some h⟩

/-- Answers tell the truth. -/
theorem exec_told {w w' : World} {op : Op} {r : op.Res} (h : exec mayFail w op r w') : Tells op r := by
  unfold Tells
  split
  · have hfind := Except.ok.inj (congrArg Prod.fst (exec_answered h rfl))
    exact (Keyed.mem_of_find? hfind.symm).2
  · have hfind := Except.ok.inj (congrArg Prod.fst (exec_answered h rfl))
    obtain ⟨row, -, rfl, hcore⟩ := file?_spec hfind.symm
    exact hcore
  · have hfind := Except.ok.inj (congrArg Prod.fst (exec_answered h rfl))
    exact (paste?_spec hfind.symm).2
  · trivial

/-- What has expired stays so. -/
theorem expired_mono {expiresAt : Option ℤ} {now later : ℤ} (hle : now ≤ later)
    (h : expired expiresAt now = true) : expired expiresAt later = true := by
  unfold expired at h ⊢
  obtain ⟨at', hat, hlt⟩ := (Option.any_eq_true _ _).1 h
  exact (Option.any_eq_true _ _).2 ⟨at', hat, decide_eq_true (lt_of_lt_of_le (of_decide_eq_true hlt) hle)⟩

/-- Facts about sessions say nothing about items. -/
theorem Session.facts_hold {sid : SessionId} {session : Session} {fact : Fact} (hfact : fact ∈ session.facts sid)
    (h : World × Inserted) : fact.Holds h := by
  simp only [Session.facts, List.mem_append, Option.mem_toList, Option.map_eq_some_iff, List.mem_map] at hfact
  obtain ((⟨_, -, rfl⟩ | ⟨_, -, rfl⟩) | ⟨_, -, rfl⟩) | ⟨_, -, rfl⟩ := hfact <;> trivial

/-- An answer to an operation that writes nothing shows the state as it is. -/
theorem logged_read {h h' : World × Inserted} {op : Op} {r : op.Res}
    (hexec : logged recordItem (exec mayFail) h op r h') (harea : op.area = none) : h' = h := by
  obtain ⟨w, inserted⟩ := h
  obtain ⟨w', inserted'⟩ := h'
  obtain ⟨hexec, hlog⟩ := hexec
  have hnone : op.newItem r = none := newItem_of_insertsNone (by simp [Op.InsertsNone, harea]) r
  have hworld : w' = w := exec_read hexec harea
  simp only [recordItem, hnone, Option.toList_none, List.nil_append] at hlog
  rw [hlog, hworld]

theorem shown_file {h : World × Inserted} (honce : Once h 0) {row : FileRow}
    (hrow : row ∈ h.1.dedupe.files.rows) :
    (Fact.shown (.file row.idCore) (h.1.fileOf row).guards).Holds h :=
  ⟨honce.logged (.file row.idCore) ⟨row, hrow, rfl⟩, guarded_fileOf h.1 row⟩

theorem shown_paste {h : World × Inserted} (honce : Once h 0) {row : PasteRow} (hrow : row ∈ h.1.pastes) :
    (Fact.shown (.paste row.idCore) row.guards).Holds h :=
  ⟨honce.logged (.paste row.idCore) ⟨row, hrow, rfl⟩, guarded_paste hrow⟩

/-- What `expired_files` and `expired_pastes` select. -/
theorem mem_oldest {R : Type} {rows : List R} {expiresAt : R → Option ℤ} {now : ℤ} {limit : ℕ} {row : R}
    (hrow : row ∈ ((rows.filter fun row => expired (expiresAt row) now).insertionSort
      fun a b => (expiresAt a).getD 0 ≤ (expiresAt b).getD 0).take limit) :
    row ∈ rows ∧ expired (expiresAt row) now = true := by
  have hsorted := List.mem_of_mem_take hrow
  rw [List.mem_insertionSort, List.mem_filter] at hsorted
  exact hsorted

/-- **Facts hold when they are shown**, where every item that there is has been logged. -/
theorem holds_new {h h' : World × Inserted} {op : Op} {r : op.Res} (honce : Once h 0)
    (hexec : logged recordItem (exec mayFail) h op r h') {fact : Fact} (hfact : fact ∈ op.facts r) :
    fact.Holds h' := by
  unfold Op.facts at hfact
  split at hfact
  · exact Session.facts_hold hfact h'
  · cases List.mem_singleton.1 hfact
    trivial
  · cases List.mem_singleton.1 hfact
    trivial
  · cases List.mem_singleton.1 hfact
    trivial
  · cases List.mem_singleton.1 hfact
    trivial
  · cases List.mem_singleton.1 hfact
    trivial
  · cases List.mem_singleton.1 hfact
    obtain rfl := logged_read hexec rfl
    have hfind := Except.ok.inj (congrArg Prod.fst (exec_answered hexec.1 rfl))
    obtain ⟨row, hrow, rfl, -⟩ := file?_spec hfind.symm
    exact shown_file honce hrow
  · cases List.mem_singleton.1 hfact
    obtain rfl := logged_read hexec rfl
    have hfind := Except.ok.inj (congrArg Prod.fst (exec_answered hexec.1 rfl))
    exact shown_paste honce (paste?_spec hfind.symm).1
  · obtain rfl := logged_read hexec rfl
    have hfiles := Except.ok.inj (congrArg Prod.fst (exec_answered hexec.1 rfl))
    obtain ⟨file, hfile, rfl⟩ := List.mem_map.1 hfact
    rw [hfiles] at hfile
    obtain ⟨hmem, hexpired⟩ := mem_oldest hfile
    obtain ⟨row, hrow, rfl⟩ := List.mem_map.1 hmem
    obtain ⟨hlogged, hguarded⟩ := shown_file honce hrow
    exact ⟨hlogged, hguarded, hexpired⟩
  · obtain rfl := logged_read hexec rfl
    have hpastes := Except.ok.inj (congrArg Prod.fst (exec_answered hexec.1 rfl))
    obtain ⟨paste, hpaste, rfl⟩ := List.mem_map.1 hfact
    rw [hpastes] at hpaste
    obtain ⟨hrow, hexpired⟩ := mem_oldest hpaste
    obtain ⟨hlogged, hguarded⟩ := shown_paste honce hrow
    exact ⟨hlogged, hguarded, hexpired⟩
  · exact absurd hfact List.not_mem_nil

/-- The row that an operation inserts is of an item that there has not been. -/
theorem newItem_ne {h h' : World × Inserted} {op : Op} {r : op.Res} (honce : Once h' 0)
    (hexec : logged recordItem (exec mayFail) h op r h') {item : Item} (hitem : item ∈ h.2) :
    op.newItem r ≠ some item := by
  intro hnew
  have hnodup := honce.nodup
  rw [hexec.2, recordItem, hnew, add_zero] at hnodup
  have hcons : ((item :: h.2).map Item.core).Nodup := Multiset.coe_nodup.1 hnodup
  rw [List.map_cons, List.nodup_cons] at hcons
  exact hcons.1 (List.mem_map_of_mem hitem)

/-- **Facts stay true.** -/
theorem holds_kept {h h' : World × Inserted} {op : Op} {r : op.Res} (honce : Once h' 0)
    (hexec : logged recordItem (exec mayFail) h op r h') {fact : Fact} (hfact : fact.Holds h) : fact.Holds h' := by
  have hlogged : ∀ item ∈ h.2, item ∈ h'.2 := fun item hitem => by
    rw [hexec.2]
    exact List.mem_append_right _ hitem
  cases fact with
  | shown item guards =>
    obtain ⟨hitem, hguarded⟩ := hfact
    exact ⟨hlogged item hitem, exec_guarded hexec.1 (newItem_ne honce hexec hitem) hguarded⟩
  | expired item guards =>
    obtain ⟨hitem, hguarded, hexpired⟩ := hfact
    exact ⟨hlogged item hitem, exec_guarded hexec.1 (newItem_ne honce hexec hitem) hguarded,
      expired_mono (exec_now hexec.1) hexpired⟩
  | _ => trivial

end Told

/-! ## Runs -/

/-- The runs of the server in which requests carry what they have been told, and may end anywhere. -/
def Told (env : Env) (mayFail : Op → Prop) (h₀ : World × Inserted)
    (p : Pool (World × Inserted) (AuthRequest × Multiset Fact) Op Op.Res Outcome) : Prop :=
  Tracked.Reachable (Tracked.learn Op.facts) (fun _ _ _ _ => True) (fun _ _ => True) (serveAuth env)
    (logged recordItem (exec mayFail)) h₀ p

section Runs

variable {env : Env} {mayFail : Op → Prop} {h₀ : World × Inserted}
  {p : Pool (World × Inserted) (AuthRequest × Multiset Fact) Op Op.Res Outcome}

/-- Cores are claimed before they are used. -/
theorem told_once (h₀once : Once h₀ 0) (hp : Told env mayFail h₀ p) : Once p.shared 0 := by
  obtain ⟨ts, hreach, -⟩ := hp.of_shares
  exact names_once (serveAuth_claims env) h₀once hreach

/-- **What requests have been told holds.** -/
theorem told_holds (h₀once : Once h₀ 0) (hp : Told env mayFail h₀ p) :
    ∀ t ∈ p.threads, ∀ fact ∈ t.1.2, fact.Holds p.shared :=
  hp.holds (fun h => Once h 0) (fun h fact => fact.Holds h) (fun _ hq => told_once h₀once hq)
    (fun _ _ _ _ honce _ hexec _ hfact => holds_new honce hexec hfact)
    (fun _ _ _ _ _ _ honce hexec hfact => holds_kept honce hexec hfact)

end Runs

end Server
end Uwuubox
