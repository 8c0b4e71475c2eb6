import Uwuubox.Server.ScopeMap

/-!
# The publish gate

A role may forbid its users to publish.  Seven endpoints write a visibility, and each checks the
role by itself, or does not.

* `MayNotPublish`, `NothingPublic` — a user with such a role, and none of whose items is public.
* `Op.Keeps` — the policy: an operation that makes no item of the user public.
* `nothingPublic_of_not_publishes` — **no sequence of requests makes one public, if none is a toggle
  that asks for it.**
* `publishes_toggleFile` — a toggle of a file that does.
-/

open Relation

namespace Uwuubox
namespace Server

open Dedupe Storage Table Fallible

/-- The role of the user forbids to publish. -/
def MayNotPublish (w : World) (id : Uuid) : Prop :=
  ∃ u ∈ w.users, u.id = id ∧ ∃ role ∈ w.roles, u.roleId = some role.id ∧ role.canPublishPublic = false

/-- No item of the user is public. -/
structure NothingPublic (w : World) (id : Uuid) : Prop where
  files : ∀ row ∈ w.dedupe.files.rows, (w.fileColumns row.idCore).ownerId = some id →
    (w.fileColumns row.idCore).visibility ≠ .published
  pastes : ∀ row ∈ w.pastes, row.ownerId = some id → row.visibility ≠ .published
  collections : ∀ row ∈ w.collections, row.ownerId = id → row.visibility ≠ .published

/-- The operation makes no item of the user public. -/
def Op.Keeps (id : Uuid) (w : World) : Op → Prop
  | .storage op => op.isInsertFile = false
  | .insertFile _ columns => columns.ownerId = some id → columns.visibility ≠ .published
  | .setFileVisibility core visibility => visibility = .published →
    ∀ row ∈ w.dedupe.files.rows, row.idCore.val = core → (w.fileColumns row.idCore).ownerId ≠ some id
  | .insertPaste row => row.ownerId = some id → row.visibility ≠ .published
  | .setPasteVisibility core visibility => visibility = .published →
    ∀ row ∈ w.pastes, row.idCore.val = core → row.ownerId ≠ some id
  | .insertCollection row => row.ownerId = id → row.visibility ≠ .published
  | .updateCollection collection _ _ visibility => visibility = .published →
    ∀ row ∈ w.collections, row.id = collection → row.ownerId ≠ id
  | _ => True

section Keeps

variable {id : Uuid} {mayFail : Op → Prop} {w w' : World} {op : Op}

theorem files_exec (hw : NothingPublic w id) (hop : op.Keeps id w) {r : op.Res}
    (h : exec mayFail w op r w') : ∀ row ∈ w'.dedupe.files.rows,
      (w'.fileColumns row.idCore).ownerId = some id →
      (w'.fileColumns row.idCore).visibility ≠ .published := by
  cases op with
  | storage op =>
    obtain ⟨dedupe, rfl, hdedupe⟩ := exec_storage h
    exact fun row hrow => hw.files row (exec_files hdedupe hop hrow)
  | insertFile new columns =>
    rcases exec_insertFile h with ⟨hcore, -, rfl⟩ | ⟨-, rfl⟩
    · intro row hrow
      rcases List.mem_cons.1 hrow with rfl | hrow
      · simpa [Op.Keeps] using hop
      · simpa [Function.update_of_ne (hcore row hrow)] using hw.files row hrow
    · exact hw.files
  | setFileVisibility core visibility =>
    rcases exec_setFileVisibility h with ⟨changed, hchanged, hcore, rfl⟩ | rfl
    · intro row hrow
      by_cases hsame : row.idCore = changed.idCore
      · -- the row that is changed is not the user's, or does not become public
        simp only [hsame, Function.update_self]
        exact fun howner hpublic => hop hpublic changed hchanged hcore howner
      · simpa only [Function.update_of_ne hsame] using hw.files row hrow
    · exact hw.files
  | linkThumb core key =>
    rcases exec_statement h rfl with heq | ⟨-, -, rfl⟩
    · simp only [answer] at heq
      split at heq
      · cases heq
        intro row hrow
        rcases mem_updateWhere.1 hrow with ⟨hold, -⟩ | ⟨old, hold, -, rfl⟩
        · exact hw.files row hold
        · exact hw.files old hold
      · cases heq
        exact hw.files
    · exact hw.files
  | _ =>
    obtain ⟨_, _, rfl⟩ := exec_frame h
    exact hw.files

theorem pastes_exec (hw : NothingPublic w id) (hop : op.Keeps id w) {r : op.Res}
    (h : exec mayFail w op r w') :
    ∀ row ∈ w'.pastes, row.ownerId = some id → row.visibility ≠ .published := by
  cases op with
  | insertPaste new =>
    rcases exec_insertPaste h with ⟨pastes, hinsert, -, rfl⟩ | ⟨-, rfl⟩
    · intro row hrow
      rcases (Keyed.mem_insert? hinsert).1 hrow with rfl | hrow
      · exact hop
      · exact hw.pastes row hrow
    · exact hw.pastes
  | setPasteVisibility core visibility =>
    rcases exec_statement h rfl with heq | ⟨-, -, rfl⟩
    · cases heq
      intro row hrow
      rcases mem_updateWhere.1 (Keyed.mem_def.1 hrow) with ⟨hold, -⟩ | ⟨old, hold, hcore, rfl⟩
      · exact hw.pastes row hold
      · exact fun howner hpublic => hop hpublic old hold (by simpa using hcore) howner
    · exact hw.pastes
  | deletePaste core =>
    rcases exec_statement h rfl with heq | ⟨-, -, rfl⟩
    · cases heq
      exact fun row hrow => hw.pastes row (Keyed.mem_delete.1 hrow).1
    · exact hw.pastes
  | storage op =>
    obtain ⟨dedupe, rfl, -⟩ := exec_storage h
    exact hw.pastes
  | _ =>
    obtain ⟨_, _, rfl⟩ := exec_frame h
    exact hw.pastes

theorem collections_exec (hw : NothingPublic w id) (hop : op.Keeps id w) {r : op.Res}
    (h : exec mayFail w op r w') :
    ∀ row ∈ w'.collections, row.ownerId = id → row.visibility ≠ .published := by
  cases op with
  | insertCollection new =>
    rcases exec_statement h rfl with heq | ⟨-, -, rfl⟩
    · simp only [answer] at heq
      split at heq
      · cases heq
        exact hw.collections
      · rename_i collections hinsert
        cases heq
        intro row hrow
        rcases (Keyed.mem_insert? hinsert).1 hrow with rfl | hrow
        · exact hop
        · exact hw.collections row hrow
    · exact hw.collections
  | updateCollection collection title description visibility =>
    rcases exec_statement h rfl with heq | ⟨-, -, rfl⟩
    · simp only [answer] at heq
      split at heq
      · cases heq
        exact hw.collections
      · cases heq
        intro row hrow
        rcases mem_updateWhere.1 (Keyed.mem_def.1 hrow) with ⟨hold, -⟩ | ⟨old, hold, hid, rfl⟩
        · exact hw.collections row hold
        · exact fun howner hpublic => hop hpublic old hold (by simpa using hid) howner
    · exact hw.collections
  | deleteCollection collection =>
    rcases exec_statement h rfl with heq | ⟨-, -, rfl⟩
    · cases heq
      exact fun row hrow => hw.collections row (Keyed.mem_delete.1 hrow).1
    · exact hw.collections
  | storage op =>
    obtain ⟨dedupe, rfl, -⟩ := exec_storage h
    exact hw.collections
  | _ =>
    obtain ⟨_, _, rfl⟩ := exec_frame h
    exact hw.collections

/-- **The policy keeps the user's items from the public.** -/
theorem nothingPublic_exec (hw : NothingPublic w id) (hop : op.Keeps id w) {r : op.Res}
    (h : exec mayFail w op r w') : NothingPublic w' id :=
  ⟨files_exec hw hop h, pastes_exec hw hop h, collections_exec hw hop h⟩

/-- No operation of a request gives the user another role. -/
theorem mayNotPublish_exec (hw : MayNotPublish w id) {r : op.Res} (h : exec mayFail w op r w') :
    MayNotPublish w' id := by
  obtain ⟨u, hu, hid, role, hrole, hroleId, hcannot⟩ := hw
  have hroles : role ∈ w'.roles := by rwa [exec_roles h]
  suffices hkeep : ∃ v ∈ w'.users, v.id = u.id ∧ v.roleId = u.roleId by
    obtain ⟨v, hv, hvid, hvrole⟩ := hkeep
    exact ⟨v, hv, hvid.trans hid, role, hroles, hvrole.trans hroleId, hcannot⟩
  cases op with
  | insertUser row | createUser row =>
    have hrows := exec_inserts h rfl
    refine ⟨u, ?_, rfl, rfl⟩
    rw [Keyed.mem_def] at hu ⊢
    rcases hrows with hrows | hrows
    · rw [hrows]
      exact List.mem_cons_of_mem _ hu
    · rwa [hrows]
  | setAdmin other admin by' =>
    rcases exec_statement h rfl with heq | ⟨-, -, rfl⟩
    · cases heq
      by_cases hother : u.id = other
      · exact ⟨_, mem_updateWhere.2 (.inr ⟨u, hu, by simp [hother], rfl⟩), rfl, rfl⟩
      · exact ⟨u, mem_updateWhere.2 (.inl ⟨hu, by simp [hother]⟩), rfl, rfl⟩
    · exact ⟨u, hu, rfl, rfl⟩
  | assignRole userId roleId =>
    rcases exec_statement h rfl with heq | ⟨-, -, rfl⟩
    · simp only [answer] at heq
      split at heq
      · cases heq
        exact ⟨u, mem_updateWhere.2 (.inl ⟨hu, by simp [hroleId]⟩), rfl, rfl⟩
      · cases heq
        exact ⟨u, hu, rfl, rfl⟩
    · exact ⟨u, hu, rfl, rfl⟩
  | storage op =>
    obtain ⟨dedupe, rfl, -⟩ := exec_storage h
    exact ⟨u, hu, rfl, rfl⟩
  | _ =>
    obtain ⟨_, _, rfl⟩ := exec_frame h
    exact ⟨u, hu, rfl, rfl⟩

end Keeps

/-! ## The rules -/

/-- Started in `w`, the handler performs only what the policy allows. -/
def Gated {α : Type} (id : Uuid) (mayFail : Op → Prop) (w : World) (p : Handler α) : Prop :=
  p.Obeys ⟨Op.Keeps id, exec mayFail⟩ (fun _ _ => True) (fun _ _ => True) w

/-- The areas in which nothing becomes public. -/
def Area.harmless : Area → Bool
  | newFiles | fileVisibility | newPastes | pasteVisibility | collections => false
  | _ => true

section Rules

variable {id : Uuid} {mayFail : Op → Prop} {w : World} {α β : Type} {S : List Area}

theorem keeps_of_within (hS : S.all Area.harmless = true) (w : World) (op : Op) (h : Within S op) :
    op.Keeps id w := by
  have hno : ∀ a, op.area = some a → a.harmless = true := fun a ha => List.all_eq_true.1 hS a (h a ha)
  cases op with
  | storage op => cases op <;> first | rfl | exact absurd (hno _ rfl) (by decide)
  | insertFile | setFileVisibility | insertPaste | setPasteVisibility | insertCollection
  | updateCollection => exact absurd (hno _ rfl) (by decide)
  | _ => exact trivial

namespace Gated

theorem of_only {p : Handler α} (h : Only S p) (hS : S.all Area.harmless = true) :
    Gated id mayFail w p :=
  h.obeys (keeps_of_within hS) w

theorem bind {p : Handler α} {f : α → Handler β} (hp : Gated id mayFail w p)
    (hf : ∀ a w', Gated id mayFail w' (f a)) : Gated id mayFail w (p >>= f) := by
  unfold Gated
  rw [obeys_bind]
  exact hp.mono (fun a w' _ => hf a w') fun _ _ _ => trivial

/-- A step that only reads, with what is known of its value. -/
theorem read {p : Handler α} {f : α → Handler β} {Q : α → Prop} (hp : Only [] p)
    (hspec : Triple mayFail w p (fun a _ => Q a) fun _ _ => True)
    (hf : ∀ a, Q a → Gated id mayFail w (f a)) : Gated id mayFail w (p >>= f) := by
  have hgated : Gated id mayFail w p := of_only hp rfl
  unfold Gated
  rw [obeys_bind]
  apply (hspec.and ((triple_of_only hp).and hgated)).mono
  · rintro a w' ⟨hQ, rfl, -⟩
    exact hf a hQ
  · exact fun _ _ _ => trivial

/-- A step that only reads, and whose value does not matter. -/
theorem skip {p : Handler α} {f : α → Handler β} (hp : Only [] p)
    (hf : ∀ a, Gated id mayFail w (f a)) : Gated id mayFail w (p >>= f) := by
  refine read (Q := fun _ => True) hp ?_ fun a _ => hf a
  exact (triple_of_only hp).mono (fun _ _ _ => trivial) fun _ _ _ => trivial

theorem reject {c : Prop} [Decidable c] {e : Abort} {f : Unit → Handler β}
    (hf : ¬ c → Gated id mayFail w (f ())) : Gated id mayFail w (Fallible.reject c e >>= f) :=
  read .reject (obeys_reject.2 ⟨fun _ => trivial, fun h => h⟩) fun _ h => hf h

theorem check {x : Except Abort α} {f : α → Handler β}
    (hf : ∀ a, x = .ok a → Gated id mayFail w (f a)) : Gated id mayFail w (Fallible.check x >>= f) :=
  read .check (obeys_check.2 ⟨fun _ _ => trivial, fun _ h => h⟩) hf

theorem orThrow {o : Option α} {e : Abort} {f : α → Handler β}
    (hf : ∀ a, o = some a → Gated id mayFail w (f a)) : Gated id mayFail w (Fallible.orThrow o e >>= f) :=
  read .orThrow (obeys_orThrow.2 ⟨fun _ => trivial, fun _ h => h⟩) hf

/-- A statement that reads. -/
theorem ask_read {op : Op} {f : op.Val → Handler β} (hop : op.isStatement = true)
    (harea : op.area = none) (hf : ∀ v, (answer w op).1 = .ok v → Gated id mayFail w (f v)) :
    Gated id mayFail w (ask op >>= f) :=
  read (.read harea) (triple_read hop harea (fun _ h => h) fun _ => trivial) hf

/-- A statement that writes, and what comes after it. -/
theorem ask_write {op : Op} {f : op.Val → Handler β} (hop : op.Keeps id w)
    (hf : ∀ v w', Gated id mayFail w' (f v)) : Gated id mayFail w (ask op >>= f) :=
  bind (obeys_ask.2 ⟨hop, fun _ _ _ => ⟨fun _ _ => trivial, fun _ _ => trivial⟩⟩) hf

theorem pure {a : α} : Gated id mayFail w (pure a) := trivial

end Gated

end Rules

/-! ## The endpoints that check the role -/

section Checked

variable {id : Uuid} {mayFail : Op → Prop} {w : World} {env : Env} {caller : Caller}

/-- The limits of the user forbid to publish. -/
theorem triple_effectiveLimits (hw : MayNotPublish w id) (cfg : InstanceConfig) (user : Option User) :
    Triple mayFail w (effectiveLimits cfg user) (fun limits _ => ∀ u, user = some u → u ∈ w.users →
      u.id = id → limits.canPublishPublic = false) fun _ _ => True := by
  obtain ⟨v, hv, hvid, role, hrole, hroleId, hcannot⟩ := hw
  unfold effectiveLimits roleOf
  refine (obeys_bind _ _).2 ?_
  by_cases huser : user = some v
  · subst huser
    simp only [Option.bind_some, hroleId]
    refine triple_read rfl rfl (fun found hfound u hu _ _ => ?_) fun _ => trivial
    obtain rfl : w.roles.find? role.id = found := Except.ok.inj hfound
    rw [Keyed.find?_eq_some.2 ⟨hrole, rfl⟩]
    exact hcannot
  · -- another user, whose limits do not matter
    have hother : ∀ u, user = some u → u ∈ w.users → u.id ≠ id := by
      rintro u rfl hu rfl
      exact huser (congrArg some (Keyed.eq_of_col hu hv hvid.symm))
    cases hroleOf : user.bind User.roleId with
    | none => exact fun u hu hmem hid => absurd hid (hother u hu hmem)
    | some roleId =>
      exact triple_read rfl rfl (fun found _ u hu hmem hid => absurd hid (hother u hu hmem))
        fun _ => trivial

/-- A visibility that passes the check of uploads and pastes. -/
theorem parseVisibility_published {value : Option Text} {authed can : Bool} {refusal : String}
    (h : parseVisibility value authed can refusal = .ok .published) : authed = true → can = true := by
  unfold parseVisibility at h
  simp only at h
  split at h
  · cases h
  · split at h
    · split at h
      · cases h
      · rename_i hallowed
        simpa using hallowed
    · cases h

/-- A new item is another user's, or its owner may not publish and it is not public. -/
theorem not_published {identity : Option Identity} {limits : EffectiveLimits} {ownerId : Option Uuid}
    {visibility : Visibility} (hidentity : ∀ i, identity = some i → i.user ∈ w.users)
    (hlimits : ∀ u, identity.map Identity.user = some u → u ∈ w.users → u.id = id →
      limits.canPublishPublic = false)
    (howner : ownerId = (identity.map Identity.user).map User.id)
    (hcan : visibility = .published → (identity.map Identity.user).isSome = true →
      limits.canPublishPublic = true) : ownerId = some id → visibility ≠ .published := by
  rintro hid hpublic
  rw [howner] at hid
  obtain ⟨u, hu, rfl⟩ := Option.map_eq_some_iff.1 hid
  obtain ⟨i, hi, rfl⟩ := Option.map_eq_some_iff.1 hu
  have hcannot := hlimits i.user hu (hidentity i hi) rfl
  rw [hcan hpublic (by rw [hu]; rfl)] at hcannot
  cases hcannot

/-- The owner and the visibility of a new paste. -/
theorem triple_pasteColumns (limits : EffectiveLimits) (allowNever : Bool) (user : Option User)
    (req : PasteRequest) :
    Triple mayFail w (pasteColumns env limits allowNever user req) (fun row _ => ∀ core,
      (row core).ownerId = user.map User.id ∧ ((row core).visibility = .published →
        user.isSome = true → limits.canPublishPublic = true)) fun _ _ => True := by
  refine triple_skip .check (fun input => ?_) fun _ => trivial
  refine triple_skip .reject (fun _ => ?_) fun _ => trivial
  refine triple_skip .reject (fun _ => ?_) fun _ => trivial
  refine triple_skip .check (fun title => ?_) fun _ => trivial
  refine triple_skip .check (fun format => ?_) fun _ => trivial
  refine (obeys_bind _ _).2 (obeys_check.2 ⟨fun _ _ => trivial, fun visibility hvisibility => ?_⟩)
  refine triple_skip .reject (fun _ => ?_) fun _ => trivial
  refine triple_skip .check (fun hash => ?_) fun _ => trivial
  refine triple_skip (only_newExpiry env _ _ _) (fun expiresAt core => ?_) fun _ => trivial
  exact ⟨rfl, fun hpublic => parseVisibility_published (hvisibility.trans (congrArg Except.ok hpublic))⟩

theorem createPaste_gated (hw : MayNotPublish w id) (req : PasteRequest) :
    Gated id mayFail w (createPaste env caller req) := by
  refine .read (.always (only_currentIdentity env caller))
    (obeys_always.2 (triple_currentIdentity_found.mono fun _ _ h => h.2)) fun identity hidentity => ?_
  refine .skip (only_requireScopeIfBearer caller _ _) fun _ => .skip (.read rfl) fun cfg =>
    .reject fun _ => ?_
  refine .read (only_effectiveLimits cfg _) (triple_effectiveLimits hw cfg _) fun limits hlimits => ?_
  refine .read (only_pasteColumns env limits _ _ req) (triple_pasteColumns limits _ _ req)
    fun row hrow => ?_
  refine .bind (.of_only (S := [.files]) (only_claimNewCore _ List.mem_cons_self) rfl) fun core w' => ?_
  refine .ask_write ?_ fun _ w'' => ?_
  · exact not_published (fun i hi => (hidentity i hi).1) hlimits (hrow core).1 (hrow core).2
  · exact .of_only (S := []) (.ite .pure .pure) rfl

/-- The owner and the visibility of a new file. -/
theorem triple_uploadPlan (cfg : InstanceConfig) (limits : EffectiveLimits) (user : Option User)
    (req : UploadRequest) (form : UploadForm) :
    Triple mayFail w (uploadPlan env cfg limits user req form) (fun plan _ => ∀ name,
      (plan.columns name).ownerId = user.map User.id ∧ ((plan.columns name).visibility = .published →
        user.isSome = true → limits.canPublishPublic = true)) fun _ _ => True := by
  refine triple_skip .orThrow (fun bytes => ?_) fun _ => trivial
  refine triple_skip .reject (fun _ => ?_) fun _ => trivial
  refine triple_skip .check (fun strip => ?_) fun _ => trivial
  refine triple_skip .check (fun stripped => ?_) fun _ => trivial
  refine triple_skip .check (fun _ => ?_) fun _ => trivial
  refine (obeys_bind _ _).2 (obeys_check.2 ⟨fun _ _ => trivial, fun visibility hvisibility => ?_⟩)
  refine triple_skip .check (fun burn => ?_) fun _ => trivial
  refine triple_skip .reject (fun _ => ?_) fun _ => trivial
  refine triple_skip .check (fun hash => ?_) fun _ => trivial
  refine triple_skip .check (fun requested => ?_) fun _ => trivial
  refine triple_skip (only_newExpiry env _ _ _) (fun expiresAt => ?_) fun _ => trivial
  refine triple_skip .check (fun scanStatus name => ?_) fun _ => trivial
  exact ⟨rfl, fun hpublic => parseVisibility_published (hvisibility.trans (congrArg Except.ok hpublic))⟩

/-- Storing a file whose columns the policy allows. -/
theorem storeUpload_gated {plan : UploadPlan}
    (hplan : ∀ name, (plan.columns name).ownerId = some id → (plan.columns name).visibility ≠ .published)
    (req : UploadRequest) : Gated id mayFail w (storeUpload env plan req) := by
  have hop : ∀ op w, Gated id mayFail w (storeOp plan.filename plan.columns op) := by
    intro op w
    cases op with
    | insertFile row => exact .orThrow fun name _ => ⟨hplan name, fun _ _ _ => trivial⟩
    | claimCore | insertObject | bumpObject | dropObject | deleteObject | deleteFile | put | delete =>
      exact ⟨rfl, fun _ _ _ => trivial⟩
  have hinterp : ∀ {α : Type} (p : Dedupe.Handler α) w,
      Gated id mayFail w (p.interp (storeOp plan.filename plan.columns)) := by
    intro α p
    induction p with
    | ret a => exact fun w => .pure
    | call op k ih => exact fun w => .bind (hop op w) fun r w' => ih r w'
  unfold storeUpload
  split
  · exact .bind (hinterp _ w) fun stored w' => .of_only (S := []) .check rfl
  · exact .of_only (S := [.files]) (.bind (only_claimNewCore _ List.mem_cons_self) fun _ => .throw) rfl

theorem upload_gated (hw : MayNotPublish w id) (req : UploadRequest) :
    Gated id mayFail w (upload env caller req) := by
  refine .read (.always (only_currentIdentity env caller))
    (obeys_always.2 (triple_currentIdentity_found.mono fun _ _ h => h.2)) fun identity hidentity => ?_
  refine .skip (only_requireScopeIfBearer caller _ _) fun _ => .skip (.read rfl) fun cfg =>
    .reject fun _ => .reject fun _ => ?_
  refine .read (only_effectiveLimits cfg _) (triple_effectiveLimits hw cfg _) fun limits hlimits => ?_
  refine .skip (only_quotaRemaining _ limits) fun remaining => .check fun form _ => ?_
  refine .read (only_uploadPlan env cfg limits _ req form) (triple_uploadPlan cfg limits _ req form)
    fun plan hplan => ?_
  refine .bind (storeUpload_gated (fun name => ?_) req) fun core w' => ?_
  · exact not_published (fun i hi => (hidentity i hi).1) hlimits (hplan name).1 (hplan name).2
  · exact .of_only (S := []) (.ite .pure .pure) rfl

theorem requireScope_ok {found : Option Identity} {scope : Scope} {identity : Identity}
    (h : requireScope found scope = .ok identity) : found = some identity := by
  unfold requireScope at h
  split at h
  · cases h
  · split at h
    · cases h
      rfl
    · cases h

/-- A row that has the core is the row that is found. -/
theorem eq_of_paste? {core : Text} {row other : PasteRow} (h : w.paste? core = some row)
    (hother : other ∈ w.pastes) (hcore : other.idCore.val = core) : other = row := by
  have hmem : row ∈ w.pastes := List.mem_of_find?_eq_some h
  have hrow : row.idCore.val = core := by simpa using List.find?_some h
  exact Keyed.eq_of_col hother hmem (Subtype.ext (hcore.trans hrow.symm))

theorem eq_of_file? {core : Text} {file : File} {row : FileRow} (h : w.file? core = some file)
    (hrow : row ∈ w.dedupe.files.rows) (hcore : row.idCore.val = core) : file = w.fileOf row := by
  obtain ⟨found, hfound, rfl⟩ := Option.map_eq_some_iff.1 h
  have hmem : found ∈ w.dedupe.files.rows := List.mem_of_find?_eq_some hfound
  have hcore' : found.idCore.val = core := by simpa using List.find?_some hfound
  rw [w.dedupe.files.uniqueCore.eq hmem hrow (Subtype.ext (hcore'.trans hcore.symm))]

/-- Who writes is a user that is there. -/
theorem triple_writeIdentity : Triple mayFail w (writeIdentity env caller)
    (fun identity _ => identity.user ∈ w.users) fun _ _ => True := by
  refine (obeys_bind _ _).2 (obeys_always.2 (triple_currentIdentity_found.mono ?_))
  rintro found w' ⟨rfl, hfound⟩
  refine obeys_check.2 ⟨fun _ _ => trivial, fun identity hidentity => ?_⟩
  exact (hfound identity (requireScope_ok hidentity)).1

theorem createCollection_gated (hw : MayNotPublish w id) (fields : Except String CollectionFields)
    (collection : Uuid) : Gated id mayFail w (createCollection env caller fields collection) := by
  refine .read (only_writeIdentity env caller) triple_writeIdentity fun identity hidentity => ?_
  refine .skip (.read rfl) fun cfg => ?_
  refine .read (only_effectiveLimits cfg _) (triple_effectiveLimits hw cfg _) fun limits hlimits => ?_
  refine .reject fun _ => .check fun fields _ => .check fun title _ => .check fun description _ =>
    .check fun visibility _ => .reject fun hreject => ?_
  refine .ask_write (fun howner hpublic => hreject ?_) fun _ w' => .of_only (S := []) (.ite .pure .pure) rfl
  have hvisibility : visibility = .published := hpublic
  simp [hvisibility, hlimits identity.user rfl hidentity howner]

/-- `update` asks for the role only where it is to publish. -/
theorem triple_checkPublish (hw : MayNotPublish w id) {user : User} (huser : user ∈ w.users)
    (visibility : Option Visibility) : Triple mayFail w (checkPublish user visibility)
      (fun _ _ => user.id = id → visibility ≠ some .published) fun _ _ => True := by
  unfold checkPublish
  split
  · refine triple_skip (.read rfl) (fun cfg => ?_) fun _ => trivial
    refine (obeys_bind _ _).2 ((triple_effectiveLimits hw cfg (some user)).mono ?_ fun _ _ _ => trivial)
    intro limits _ hlimits
    refine obeys_reject.2 ⟨fun _ => trivial, fun hcan hid => absurd ?_ hcan⟩
    simp [hlimits user rfl huser hid]
  · rename_i hnot
    exact fun _ => hnot

/-- The collection that is there, which is the caller's. -/
theorem triple_ownedCollection (collection ownerId : Uuid) :
    Triple mayFail w (ownedCollection collection ownerId)
      (fun row _ => row ∈ w.collections ∧ row.id = collection ∧ row.ownerId = ownerId)
      fun _ _ => True := by
  refine (obeys_bind _ _).2 (triple_read rfl rfl (fun found hfound => ?_) fun _ => trivial)
  refine (obeys_bind _ _).2 (obeys_orThrow.2 ⟨fun _ => trivial, fun row hrow => ?_⟩)
  refine (obeys_bind _ _).2 (obeys_reject.2 ⟨fun _ => trivial, fun howner => ?_⟩)
  subst hrow
  obtain ⟨hmem, hid⟩ := Keyed.mem_of_find? (Except.ok.inj hfound)
  exact ⟨hmem, hid, not_not.1 howner⟩

theorem updateCollection_gated (hw : MayNotPublish w id) (hnothing : NothingPublic w id)
    (collection : Uuid) (fields : CollectionFields) :
    Gated id mayFail w (updateCollection env caller collection fields) := by
  refine .read (only_writeIdentity env caller) triple_writeIdentity fun identity hidentity => ?_
  refine .read (only_ownedCollection collection _) (triple_ownedCollection collection _)
    fun row hrow => ?_
  obtain ⟨hmem, -, howner⟩ := hrow
  refine .reject fun _ => .check fun title _ => .check fun description _ =>
    .check fun visibility _ => ?_
  refine .read (only_checkPublish _ visibility) (triple_checkPublish hw hidentity visibility)
    fun _ hpublish => ?_
  refine .ask_write (fun hpublic other hother hsame hid => ?_) fun _ w' => .pure
  -- the row that is updated is the caller's, and was not public before
  obtain rfl := Keyed.eq_of_col hother hmem hsame
  cases visibility with
  | some v => exact hpublish (howner.symm.trans hid) (congrArg some hpublic)
  | none => exact hnothing.collections _ hmem hid hpublic

theorem togglePaste_gated (hw : MayNotPublish w id) (segment visibility : Text) :
    Gated id mayFail w (togglePaste env caller segment visibility) := by
  refine .read (.always (only_currentIdentity env caller))
    (obeys_always.2 (triple_currentIdentity_found.mono fun _ _ h => h.2)) fun found hfound => ?_
  refine .check fun identity hidentity => .orThrow fun v _ => .skip (.read rfl) fun cfg => ?_
  have hmem := (hfound identity (requireScope_ok hidentity)).1
  refine .read (only_effectiveLimits cfg _) (triple_effectiveLimits hw cfg _) fun limits hlimits => ?_
  refine .reject fun hcan => .ask_read rfl rfl fun row? hrow? => .orThrow fun row hrow =>
    .reject fun howner => ?_
  subst hrow
  have hfind : w.paste? (stripToCore segment) = some row := Except.ok.inj hrow?
  refine .ask_write (fun hpublic other hother hsame hid => hcan ?_) fun _ w' => .pure
  obtain rfl := eq_of_paste? hfind hother hsame
  have hown : identity.user.id = id := Option.some.inj ((not_not.1 howner).symm.trans hid)
  simp [hpublic, hlimits identity.user rfl hmem hown]

end Checked

/-! ## The endpoints that do not -/

/-- The request asks to publish an item of the user, by an endpoint that does not check the role:
the toggle of a file, and the two toggles of the dashboard. -/
def Request.Publishes (env : Env) (w : World) (id : Uuid) : Request → Prop
  | .toggleFile caller segment visibility | .dashboardFileVisibility caller segment visibility =>
    MadeBy env w caller id ∧ Visibility.parse (trim visibility) = some .published ∧
      ∃ file, w.file? (stripToCore segment) = some file ∧ file.ownerId = some id
  | .dashboardPasteVisibility caller segment visibility =>
    MadeBy env w caller id ∧ Visibility.parse (trim visibility) = some .published ∧
      ∃ paste, w.paste? (trim segment) = some paste ∧ paste.ownerId = some id
  | _ => False

section Unchecked

variable {id : Uuid} {mayFail : Op → Prop} {w : World} {env : Env} {caller : Caller}

theorem setFileVisibility_gated {core visibility : Text} {userId : Uuid}
    (hnot : ¬ (userId = id ∧ Visibility.parse visibility = some .published ∧
      ∃ file, w.file? core = some file ∧ file.ownerId = some id)) :
    Gated id mayFail w (setFileVisibility core userId visibility) := by
  refine .orThrow fun v hv => .ask_read rfl rfl fun row? hrow? => .orThrow fun file hfile =>
    .reject fun howner => ?_
  subst hfile
  have hfind : w.file? core = some file := Except.ok.inj hrow?
  refine obeys_ask.2 ⟨fun hpublic row hrow hcore hid => ?_, fun _ _ _ =>
    ⟨fun _ _ => trivial, fun _ _ => trivial⟩⟩
  have hown : file.ownerId = some id := by
    rw [← hid]
    exact congrArg (fun file : File => file.ownerId) (eq_of_file? hfind hrow hcore)
  exact hnot ⟨Option.some.inj ((not_not.1 howner).symm.trans hown), hpublic ▸ hv, file, hfind, hown⟩

theorem toggleFile_gated {segment visibility : Text}
    (hnot : ¬ (Request.toggleFile caller segment visibility).Publishes env w id) :
    Gated id mayFail w (toggleFile env caller segment visibility) := by
  refine .read (.always (only_currentUser env caller))
    (obeys_always.2 (triple_currentUser_found.mono fun _ _ h => h.2)) fun found hfound => ?_
  refine .orThrow fun u hu => .bind (setFileVisibility_gated ?_) fun _ w' => .pure
  rintro ⟨rfl, hparse, hfile⟩
  exact hnot ⟨(hfound u hu).2, hparse, hfile⟩

/-- The user of a dashboard request. -/
theorem triple_requireUser : Triple mayFail w (requireUser env caller)
    (fun user _ => MadeBy env w caller user.id) fun _ _ => True := by
  refine (obeys_bind _ _).2 (obeys_always.2 (triple_currentUser_found.mono ?_))
  rintro found w' ⟨rfl, hfound⟩
  exact obeys_orThrow.2 ⟨fun _ => trivial, fun user huser => (hfound user huser).2⟩

theorem dashboardFileVisibility_gated {segment visibility : Text}
    (hnot : ¬ (Request.dashboardFileVisibility caller segment visibility).Publishes env w id) :
    Gated id mayFail w (dashboardFileVisibility env caller segment visibility) := by
  refine .read (only_requireUser env caller) triple_requireUser fun user huser => ?_
  refine .bind (setFileVisibility_gated ?_) fun _ w' => .pure
  rintro ⟨rfl, hparse, hfile⟩
  exact hnot ⟨huser, hparse, hfile⟩

theorem dashboardPasteVisibility_gated {segment visibility : Text}
    (hnot : ¬ (Request.dashboardPasteVisibility caller segment visibility).Publishes env w id) :
    Gated id mayFail w (dashboardPasteVisibility env caller segment visibility) := by
  refine .read (only_requireUser env caller) triple_requireUser fun user huser => ?_
  refine .orThrow fun v hv => .ask_read rfl rfl fun row? hrow? => .orThrow fun row hrow =>
    .reject fun howner => ?_
  subst hrow
  have hfind : w.paste? (trim segment) = some row := Except.ok.inj hrow?
  refine .ask_write (fun hpublic other hother hsame hid => hnot ?_) fun _ w' => .pure
  obtain rfl := eq_of_paste? hfind hother hsame
  have hown : user.id = id := Option.some.inj ((not_not.1 howner).symm.trans hid)
  exact ⟨hown ▸ huser, hpublic ▸ hv, other, hfind, hid⟩

end Unchecked

/-! ## Sequences of requests -/

/-- A request that does not ask an unchecked endpoint to publish performs only what the policy
allows. -/
theorem serve_gated {id : Uuid} {mayFail : Op → Prop} {w : World} {env : Env} (hw : MayNotPublish w id)
    (hnothing : NothingPublic w id) {req : Request} (hreq : ¬ req.Publishes env w id) :
    (serve env req).Obeys ⟨Op.Keeps id, exec mayFail⟩ (fun _ _ => True) w := by
  have hrun : ∀ {p : Handler Response}, Gated id mayFail w p →
      p.run.Obeys ⟨Op.Keeps id, exec mayFail⟩ (fun _ _ => True) w :=
    fun h => Prog.Obeys.mono h fun _ _ _ => trivial
  by_cases hareas : req.areas.all Area.harmless = true
  · exact (serve_only env req).obeys (keeps_of_within hareas) w
  · cases req with
    | upload caller req => exact hrun (upload_gated hw req)
    | createPaste caller req => exact hrun (createPaste_gated hw req)
    | createCollection caller fields collection =>
      exact hrun (createCollection_gated hw fields collection)
    | updateCollection caller collection fields =>
      exact hrun (updateCollection_gated hw hnothing collection fields)
    | togglePaste caller segment visibility => exact hrun (togglePaste_gated hw segment visibility)
    | toggleFile caller segment visibility => exact hrun (toggleFile_gated hreq)
    | dashboardFileVisibility caller segment visibility =>
      exact hrun (dashboardFileVisibility_gated hreq)
    | dashboardPasteVisibility caller segment visibility =>
      exact hrun (dashboardPasteVisibility_gated hreq)
    | _ => exact absurd rfl hareas

/-- One request, run to its end or to any point before. -/
def Serves (env : Env) (mayFail : Op → Prop) (allowed : World → Request → Prop) (w w' : World) : Prop :=
  ∃ req, allowed w req ∧ (serve env req).Reaches (exec mayFail) w w'

/-- **The publish gate.**  A user whose role forbids to publish, and who has no public item, has none
in any state of any sequence of requests, of this user and of others, in which none asks an
unchecked endpoint to publish an item of the user. -/
theorem nothingPublic_of_not_publishes (env : Env) (mayFail : Op → Prop) {id : Uuid} {w₀ w : World}
    (hrole : MayNotPublish w₀ id) (h₀ : NothingPublic w₀ id)
    (hrun : ReflTransGen (Serves env mayFail fun w req => ¬ req.Publishes env w id) w₀ w) :
    NothingPublic w id := by
  have hboth : MayNotPublish w id ∧ NothingPublic w id := by
    induction hrun with
    | refl => exact ⟨hrole, h₀⟩
    | tail _ hstep ih =>
      obtain ⟨req, hreq, hreach⟩ := hstep
      have hstep : ∀ (w : World) op r w', op.Keeps id w → MayNotPublish w id ∧ NothingPublic w id →
          exec mayFail w op r w' → MayNotPublish w' id ∧ NothingPublic w' id :=
        fun w op r w' hop hw hexec => ⟨mayNotPublish_exec hw.1 hexec, nothingPublic_exec hw.2 hop hexec⟩
      exact (serve_gated ih.1 ih.2 hreq).keeps hstep ih hreach
  exact hboth.2

/-! ### A file and its toggle -/

/-- A user with a file, whose role forbids to publish. -/
def noPublishWorld : World where
  __ := ownFileWorld
  users := ⟨[{ newUser 1 ['k', 'a', 'z'] none none false with roleId := some 1 }], List.nodup_singleton _⟩
  roles := ⟨[{ maxOnlyRole 2592000 with canPublishPublic := false }], List.nodup_singleton _⟩
  sessions := fun _ => { Session.fresh with uid := some 1 }

theorem mayNotPublish_noPublishWorld : MayNotPublish noPublishWorld 1 :=
  ⟨_, List.mem_singleton_self _, rfl, _, List.mem_singleton_self _, rfl, rfl⟩

theorem nothingPublic_noPublishWorld : NothingPublic noPublishWorld 1 where
  files _ _ _ := nofun
  pastes _ h := absurd h List.not_mem_nil
  collections _ h := absurd h List.not_mem_nil

/-- The toggle of the file. -/
def togglesTo (visibility : Text) : Request := .toggleFile ⟨0, .none⟩ coreA.val visibility

/-- The state after it. -/
def toggledWorld (visibility : Text) : World :=
  ((serve .plain (togglesTo visibility)).eval answer noPublishWorld).2

theorem serves_togglesTo {visibility : Text} {allowed : World → Request → Prop}
    (h : allowed noPublishWorld (togglesTo visibility)) :
    Serves .plain (fun _ => False) allowed noPublishWorld (toggledWorld visibility) :=
  ⟨togglesTo visibility, h, (Prog.runs_eval (exec_answer _) _ noPublishWorld).reaches⟩

theorem nothingPublic_of_not_publishes_unlisted : NothingPublic (toggledWorld unlistedWord) 1 :=
  nothingPublic_of_not_publishes .plain (fun _ => False) mayNotPublish_noPublishWorld
    nothingPublic_noPublishWorld (.single (serves_togglesTo fun h => by
      have hparse : Visibility.parse (trim unlistedWord) = some .unlisted := rfl
      rw [togglesTo, Request.Publishes, hparse] at h
      cases h.2.1))

/-- The toggle makes the file public. -/
theorem publishes_toggleFile : MayNotPublish noPublishWorld 1 ∧ NothingPublic noPublishWorld 1 ∧
    ∃ w, Serves .plain (fun _ => False) (fun _ _ => True) noPublishWorld w ∧ ¬ NothingPublic w 1 := by
  refine ⟨mayNotPublish_noPublishWorld, nothingPublic_noPublishWorld, toggledWorld publicWord,
    serves_togglesTo trivial, fun h => ?_⟩
  have hcolumns : (toggledWorld publicWord).fileColumns coreA =
    { ownFileColumns with visibility := .published } := rfl
  have hrow : uploadRow sampleSha256 (sampleUpload coreA) coreA (fileKey coreA ⟨[], rfl⟩) none ∈
    (toggledWorld publicWord).dedupe.files.rows := List.mem_singleton_self _
  exact h.files _ hrow (congrArg FileColumns.ownerId hcolumns)
    (congrArg FileColumns.visibility hcolumns)

end Server
end Uwuubox
