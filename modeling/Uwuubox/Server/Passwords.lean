import Uwuubox.Prog.Sequence
import Uwuubox.Server.CoreOnce

/-!
# Contents behind a password

A password is checked in two places: the unlock endpoints set a flag in the session, under the core
of the item, and the raw endpoints take a password of their own.

* `World.Protects` — there is a row of the item, with this hash.
* `Request.Posts` — a request to the unlock endpoint of the item whose password the hash verifies.
* `guarded_serve` — who answers with content has seen the flag, or a password of its own.
* `serve_grants` — a request sets flags only for the password that it posts.
* `Accounted` — **the invariant**: every flag goes back to a request that has been posted for the one
  item that ever had the core.
* `protected_content` — **content behind a password goes to who has given it.**
-/

namespace Uwuubox
namespace Server

open Dedupe Storage Table Fallible

/-! ## Hashes -/

/-- The row of the item, if there is one, has this hash of a password. -/
def World.Hashed (w : World) (hash : Option Text) : Item → Prop
  | .file core => ∀ row ∈ w.dedupe.files.rows, row.idCore = core →
    (w.fileColumns row.idCore).accessPasswordHash = hash
  | .paste core => ∀ row ∈ w.pastes, row.idCore = core → row.accessPasswordHash = hash

/-- There is a row of the item, and its password has this hash. -/
def World.Protects (w : World) (hash : Text) (item : Item) : Prop := w.Has item ∧ w.Hashed (some hash) item

section Row

variable {mayFail : Op → Prop} {w w' : World} {op : Op} {r : op.Res} {item : Item}

/-- A row has one hash. -/
theorem World.Hashed.unique {hash hash' : Option Text} (h : w.Hashed hash item) (h' : w.Hashed hash' item)
    (hitem : w.Has item) : hash = hash' := by
  cases item with
  | file core | paste core =>
    obtain ⟨row, hrow, hcore⟩ := hitem
    exact (h row hrow hcore).symm.trans (h' row hrow hcore)

/-- A row from before keeps its hash. -/
theorem exec_hashed {hash : Option Text} (h : exec mayFail w op r w') (hnew : op.newItem r ≠ some item)
    (hw : w.Hashed hash item) : w'.Hashed hash item := by
  by_cases hop : op.InsertsNone
  · cases item with
    | file core =>
      rintro row hrow rfl
      obtain ⟨old, hold, hsame⟩ := exec_fileCores h hop.1 hrow
      obtain ⟨_, hcolumns⟩ := exec_fileColumns h hop.1 row.idCore
      rw [hcolumns, ← hsame]
      exact hw old hold hsame
    | paste core =>
      rintro row hrow rfl
      obtain ⟨old, hold, _, rfl⟩ := exec_pasteRow h hop.2 hrow
      exact hw old hold rfl
  · cases op with
    | insertFile row columns =>
      rcases exec_insertFile h with ⟨hcore, rfl, rfl⟩ | ⟨-, rfl⟩
      · cases item with
        | file core =>
          have hother : row.idCore ≠ core := fun heq => hnew (heq ▸ rfl)
          rintro other hmem rfl
          rcases List.mem_cons.1 hmem with rfl | hmem
          · exact absurd rfl hother
          · simpa [hother.symm] using hw other hmem rfl
        | paste core => exact hw
      · exact hw
    | insertPaste row =>
      rcases exec_insertPaste h with ⟨pastes, hinsert, rfl, rfl⟩ | ⟨-, rfl⟩
      · cases item with
        | file core => exact hw
        | paste core =>
          rintro other hmem rfl
          rcases (Keyed.mem_insert? hinsert).1 hmem with rfl | hmem
          · exact absurd rfl hnew
          · exact hw other hmem rfl
      · exact hw
    | storage op =>
      cases op with
      | insertFile row =>
        obtain ⟨dedupe, rfl, hdedupe⟩ := exec_storage h
        rcases Dedupe.exec_insertFile hdedupe with ⟨hcore, rfl, rfl⟩ | ⟨e, rfl, rfl⟩
        · cases item with
          | file core =>
            rintro other hmem rfl
            rcases List.mem_cons.1 hmem with rfl | hmem
            · exact absurd rfl hnew
            · exact hw other hmem rfl
          | paste core => exact hw
        · exact hw
      | _ => exact absurd ⟨nofun, nofun⟩ hop
    | _ => exact absurd ⟨nofun, nofun⟩ hop

/-- Only what writes to sessions sets a flag. -/
theorem exec_sessions (h : exec mayFail w op r w') (hop : op.area ≠ some .sessions) :
    w'.sessions = w.sessions := by
  have hframe := exec_frame h
  generalize op.area = area at *
  rcases area with _ | area
  · exact congrArg World.sessions hframe
  · cases area <;> first
      | exact absurd rfl hop
      | (obtain ⟨_, rfl⟩ := hframe; rfl) | (obtain ⟨_, _, rfl⟩ := hframe; rfl)

end Row

/-! ## Who is answered with content -/

/-- The session of a request. -/
def Request.session : Request → Option SessionId
  | upload caller _ | raw caller _ _ | preview caller _ | deleteFile caller _ _ | toggleFile caller _ _
  | createPaste caller _ | rawPaste caller _ _ | viewPaste caller _ | deletePaste caller _ _
  | togglePaste caller _ _ | zip caller _ _ | createCollection caller _ _ | updateCollection caller _ _
  | deleteCollection caller _ | createToken caller _ _ _ | revokeToken caller _
  | dashboardDeleteFile caller _ | dashboardFileVisibility caller _ _ | dashboardDeletePaste caller _
  | dashboardPasteVisibility caller _ _ | grant caller _ _ => some caller.session
  | unlock sid _ _ | unlockPaste sid _ _ | register sid _ _ _ | oidcCallback sid _ _ _ => some sid
  | thumb _ | oembed _ | backfill _ _ | sweep | clock _ => none

/-- The `password` parameter of a request. -/
def Request.password : Request → Option Text
  | raw _ password _ | rawPaste _ password _ => password
  | _ => none

/-- The request posts a password that the hash verifies to the unlock endpoint of the item, in this
session. -/
def Request.Posts (env : Env) (hash : Text) (sid : SessionId) : Item → Request → Prop
  | .file core, .unlock sid' segment password | .paste core, .unlockPaste sid' segment password =>
    sid' = sid ∧ stripToCore segment = core.val ∧ env.verifyPassword hash password = true
  | _, _ => False

/-- If the answer shows a session with the flag of the core, the session is one of these. -/
def ShowsFlag (core : Core) (unlocked : SessionId → Prop) : (op : Op) → op.Res → Prop
  | .session sid, .ok session => core ∈ session.unlocked → unlocked sid
  | _, _ => True

/-- The session has the flag, or the request brings a password that the hash verifies. -/
def Opens (env : Env) (hash : Text) (unlocked : SessionId → Prop) (session : Option SessionId)
    (password : Option Text) : Prop :=
  (∃ sid, session = some sid ∧ unlocked sid) ∨ ∃ pw, password = some pw ∧ env.verifyPassword hash pw = true

section Guarded

variable {Γ : Type} {next : Γ → (op : Op) → op.Res → Γ → Prop} {item : Item} {hash : Text}
  {unlocked : SessionId → Prop}
  (hshows : ∀ γ op r γ', next γ op r γ' → ShowsGuards item (fun _ found => found = some hash) op r)
  (hflags : ∀ γ op r γ', next γ op r γ' → ShowsFlag item.core unlocked op r)
  (env : Env) (caller : Caller)

include hflags in
theorem obeys_isUnlocked (hash : Text) {sid : SessionId} {found : Option Text} {core : Core} (γ : Γ) :
    (isUnlocked sid found core).Obeys ⟨fun _ _ => True, next⟩
      (fun result _ => found = some hash → core = item.core → result = true → unlocked sid) γ := by
  unfold isUnlocked
  split
  · rename_i hnone
    rintro rfl
    cases hnone
  · refine ⟨trivial, fun r γ' hnext => ?_⟩
    match r with
    | .ok session =>
      rintro - rfl hmem
      exact hflags _ _ _ _ hnext (of_decide_eq_true hmem)
    | .error e => exact fun _ _ h => by cases h

include hflags in
/-- The check of the raw endpoints lets pass who may. -/
theorem ends_checkPassword (hash : Text) {found : Option Text} {core : Core} {password : Option Text} :
    Ends next (fun _ _ => found = some hash → core = item.core →
      Opens env hash unlocked (some caller.session) password)
      (checkPassword env caller.session found core password) := by
  unfold checkPassword
  cases found with
  | none => exact .pure fun _ h => by cases h
  | some found =>
    refine .always (obeys_isUnlocked hflags hash) fun result hresult γ => ?_
    refine obeys_reject.2 ⟨fun _ => trivial, fun hopen heq hcore => ?_⟩
    cases heq
    cases result with
    | true => exact .inl ⟨_, rfl, hresult rfl hcore rfl⟩
    | false =>
      have hany : (password.any fun password => env.verifyPassword hash password) = true := by
        simpa using hopen
      exact .inr ((Option.any_eq_true _ _).1 hany)

include hshows hflags

theorem ends_raw (password : Option Text) (segment : Text) :
    Ends next (fun response _ => response.Carries item →
      Opens env hash unlocked (some caller.session) password) (raw env caller password segment) := by
  refine .step (ends_loadLiveFile hshows segment) fun file hfile =>
    .step (ends_checkPassword hflags env caller hash) fun _ hopens => ?_
  have hof : ∀ response : Response, (response.Carries item → item = .file file.idCore) →
      response.Carries item → Opens env hash unlocked (some caller.session) password := by
    intro response hcarries h
    have hitem := hcarries h
    exact hopens (hfile hitem) (by rw [hitem]; rfl)
  refine .skip fun header => .skip fun _ => .ite (fun _ γ => ?_) fun _ => .ite (fun _ => ?_) fun _ => ?_
  · refine obeys_check.2 ⟨fun _ _ => trivial, fun response h => hof response fun hcarries => ?_⟩
    exact carries_response (carries_rawResponse h hcarries)
  · exact (ends_burnRead file _).mono fun response _ => hof response
  · exact (ends_streamRead file _).mono fun response _ => hof response

theorem ends_rawPaste (password : Option Text) (segment : Text) :
    Ends next (fun response _ => response.Carries item →
      Opens env hash unlocked (some caller.session) password) (rawPaste env caller password segment) := by
  refine .step (ends_loadLivePaste hshows segment) fun paste hpaste =>
    .step (ends_checkPassword hflags env caller hash) fun _ hopens => ?_
  have hof : ∀ outcome full bytes, (rawPasteResponse paste outcome full bytes).Carries item →
      Opens env hash unlocked (some caller.session) password := by
    intro outcome full bytes hcarries
    have hitem : item = .paste paste.idCore := carries_response hcarries
    exact hopens (hpaste hitem) (by rw [hitem]; rfl)
  refine .skip fun header => .skip fun _ => .ite (fun _ => ?_) fun _ => .ite (fun _ => ?_) fun _ => ?_
  · exact .pure fun _ => hof _ _ _
  · exact .skip fun deleted => .skip fun _ => .pure fun _ => hof _ _ _
  · exact .pure fun _ => hof _ _ _

theorem ends_preview (segment : Text) :
    Ends next (fun response _ => response.Carries item → unlocked caller.session)
      (preview env caller segment) := by
  by_cases hopen : unlocked caller.session
  · exact Ends.trivially.mono fun _ _ _ _ => hopen
  · refine .skip fun _ => .step (ends_loadLiveFile hshows segment) fun file hfile => .skip fun _ =>
      .skip fun _ => .always (obeys_isUnlocked hflags hash) fun result hresult => .always (P := fun snippet =>
        ∀ bytes, .content item bytes ∉ snippet) (obeys_textSnippet env fun hitem => .inr ?_)
          fun snippet hsnippet => .skip fun _ => .pure fun _ hcarries => ?_
    · -- the file is protected, and its flag is not set
      have hlocked : result ≠ true := fun h => hopen (hresult (hfile hitem) (by rw [hitem]; rfl) h)
      simp [hfile hitem, hlocked]
    · obtain ⟨bytes, hbytes⟩ := hcarries
      exact absurd (by simpa [Response.html] using hbytes) (hsnippet bytes)

theorem ends_viewPaste (segment : Text) :
    Ends next (fun response _ => response.Carries item → unlocked caller.session)
      (viewPaste env caller segment) := by
  refine .skip fun _ => .step (ends_loadLivePaste hshows segment) fun paste hpaste => .skip fun _ =>
    .always (obeys_isUnlocked hflags hash) fun result hresult => .check fun content hcontent => .skip fun _ =>
      .skip fun _ => .pure fun _ => ?_
  rintro ⟨bytes, hbytes⟩
  have hbytes : .content item bytes ∈ content := by simpa [Response.html] using hbytes
  obtain ⟨hitem, hshown⟩ := mem_pasteContent env hcontent hbytes
  refine hresult (hpaste hitem) (by rw [hitem]; rfl) ?_
  simp only [hpaste hitem, Bool.or_eq_false_iff] at hshown
  simpa using hshown.1

/-- **Who is answered with content has the flag, or brings the password.** -/
theorem guarded_serve (req : Request) (γ : Γ) :
    (serve env req).Obeys ⟨fun _ _ => True, next⟩ (fun outcome _ => ∀ response, outcome = .ok response →
      response.Carries item → Opens env hash unlocked req.session req.password) γ := by
  have hguarded : ∀ (burn : Bool) (found : Option Text), found = some hash → burn = true ∨ found.isSome = true :=
    fun _ _ h => .inr (by rw [h]; rfl)
  have hrun : ∀ {p : Handler Response} {Q : Prop}, Ends next (fun response _ => response.Carries item → Q) p →
      p.run.Obeys ⟨fun _ _ => True, next⟩
        (fun outcome _ => ∀ response, outcome = .ok response → response.Carries item → Q) γ := by
    intro p Q hp
    refine Prog.Obeys.mono (hp γ) ?_
    rintro _ _ hfin response rfl
    exact hfin
  by_cases hreq : req.shows = true
  · cases req with
    | raw caller password segment => exact hrun (ends_raw hshows hflags env caller password segment)
    | rawPaste caller password segment => exact hrun (ends_rawPaste hshows hflags env caller password segment)
    | preview caller segment =>
      exact hrun ((ends_preview hshows hflags env caller segment).mono fun _ _ h hcarries =>
        .inl ⟨_, rfl, h hcarries⟩)
    | viewPaste caller segment =>
      exact hrun ((ends_viewPaste hshows hflags env caller segment).mono fun _ _ h hcarries =>
        .inl ⟨_, rfl, h hcarries⟩)
    | thumb segment =>
      exact hrun ((ends_thumb hshows hguarded segment).mono fun _ _ h hcarries => absurd hcarries h)
    | zip caller files pastes =>
      exact hrun ((ends_zip hshows hguarded env caller files pastes).mono fun _ _ h hcarries =>
        absurd hcarries h)
    | _ => cases hreq
  · refine (blank_serve env item req (by simpa using hreq) γ).mono ?_
    intro outcome _ hblank response hresponse hcarries
    exact absurd hcarries (hblank response hresponse)

end Guarded

/-! ## Who sets flags -/

/-- The operation sets no flag. -/
def Op.KeepsFlags (op : Op) : Prop :=
  ∀ sid set, op = .setSession sid set → ∀ session, (set session).unlocked = session.unlocked

theorem exec_keepsFlags {mayFail : Op → Prop} {w w' : World} {op : Op} {r : op.Res}
    (h : exec mayFail w op r w') (hop : op.KeepsFlags) (sid : SessionId) :
    (w'.sessions sid).unlocked = (w.sessions sid).unlocked := by
  cases op with
  | setSession sid' set =>
    rcases exec_statement h rfl with heq | ⟨-, -, rfl⟩
    · cases heq
      by_cases hsid : sid = sid'
      · subst hsid
        simpa using hop sid set rfl (w.sessions sid)
      · simp [hsid]
    · rfl
  | storage op =>
    obtain ⟨dedupe, rfl, -⟩ := exec_storage h
    rfl
  | _ => rw [exec_sessions h fun harea => by cases harea]

theorem keepsFlags_of_within {S : List Area} (hS : .sessions ∉ S) {op : Op} (hop : Within S op) :
    op.KeepsFlags := by
  rintro sid set rfl
  exact absurd (hop _ rfl) hS

/-- The handler sets no flag. -/
def KeepsFlags {α : Type} (p : Handler α) : Prop :=
  p.Obeys (.flat Op.KeepsFlags fun _ _ => True) (fun _ _ => True) (fun _ _ => True) ()

namespace KeepsFlags

variable {α β : Type}

theorem of_only {S : List Area} {p : Handler α} (h : Only S p) (hS : .sessions ∉ S) : KeepsFlags p :=
  h.obeys (fun _ _ hop => keepsFlags_of_within hS hop) ()

theorem read {p : Handler α} (h : Only [] p) : KeepsFlags p := of_only h List.not_mem_nil

theorem bind {p : Handler α} {f : α → Handler β} (hp : KeepsFlags p) (hf : ∀ a, KeepsFlags (f a)) :
    KeepsFlags (p >>= f) :=
  (obeys_bind _ _).2 (Fallible.Obeys.mono hp (fun a _ _ => hf a) fun _ _ _ => trivial)

theorem ite {c : Prop} [Decidable c] {p q : Handler α} (hp : KeepsFlags p) (hq : KeepsFlags q) :
    KeepsFlags (if c then p else q) := by
  by_cases hc : c
  · rw [if_pos hc]
    exact hp
  · rw [if_neg hc]
    exact hq

/-- Another key of a session is written. -/
theorem setSession {sid : SessionId} {set : Session → Session}
    (hset : ∀ session, (set session).unlocked = session.unlocked) : KeepsFlags (ask (.setSession sid set)) := by
  refine obeys_ask.2 ⟨?_, fun _ _ _ => ⟨fun _ _ => trivial, fun _ _ => trivial⟩⟩
  rintro _ _ ⟨⟩
  exact hset

end KeepsFlags

section Flags

variable (env : Env)

theorem keepsFlags_logIn (sid : SessionId) (id : Uuid) : KeepsFlags (logIn sid id) := .setSession fun _ => rfl

theorem keepsFlags_finishRegistration (sid : SessionId) (result : Except InviteRegistrationError User) :
    KeepsFlags (finishRegistration env sid result) := by
  match result with
  | .ok user => exact .bind (keepsFlags_logIn sid user.id) fun _ => .read .pure
  | .error .invalid => exact .read (only_registerErrorPage env)
  | .error (.database e) => exact .ite (.read (only_registerErrorPage env)) (.read .throw)

theorem keepsFlags_register (sid : SessionId) (cfg : InstanceConfig) (form : RegisterForm) (hash : Text)
    (id : Uuid) : KeepsFlags (register env sid cfg form hash id) := by
  have husers : ∀ {α : Type} {p : Handler α}, Only [.users] p → KeepsFlags p := fun h => .of_only h (by simp)
  refine .bind (.read (.read rfl)) fun count => .ite ?_ (.ite (.ite ?_ ?_) (.read .throw))
  · exact .bind (husers (.always (only_insertOpen _ List.mem_cons_self))) fun result =>
      keepsFlags_finishRegistration env sid result
  · exact .read (only_registerErrorPage env)
  · exact .bind (husers (.always (only_createInvited _ _ List.mem_cons_self))) fun result =>
      keepsFlags_finishRegistration env sid result

theorem keepsFlags_registerPost (sid : SessionId) (form : RegisterForm) (salt : Text) (id : Uuid) :
    KeepsFlags (registerPost env sid form salt id) := by
  refine .bind (.read (.read rfl)) fun cfg => .bind (.read .reject) fun _ => .bind (.read .reject) fun _ =>
    .ite (.read (only_registerErrorPage env)) ?_
  split
  · exact keepsFlags_register env sid cfg form _ id
  · exact .read (only_registerErrorPage env)

theorem keepsFlags_applyGroupRole (user : User) (issuer : Text) (groups : List Text) :
    KeepsFlags (applyGroupRole user issuer groups) :=
  .of_only (only_applyGroupRole user issuer groups List.mem_cons_self) (S := [.roleOfUser]) (by simp)

theorem keepsFlags_linkOidc (issuer sub : Text) (id : Uuid) : KeepsFlags (ask (.linkOidc issuer sub id)) :=
  .of_only (.ask (within_of_some rfl List.mem_cons_self)) (S := [.identities]) (by simp)

theorem keepsFlags_oidcFirstLogin (sid : SessionId) (cfg : InstanceConfig) (claims : Claims) (id : Uuid) :
    KeepsFlags (oidcFirstLogin env sid cfg claims id) := by
  refine .bind (.read .reject) fun _ => .bind (.read (.read rfl)) fun session =>
    .bind (.read .reject) fun _ => .bind (.read (only_freeUsername _ _ _)) fun username =>
      .bind (.read (.read rfl)) fun count => .bind ?_ fun user =>
        .bind (keepsFlags_linkOidc _ _ _) fun _ => .bind (keepsFlags_applyGroupRole user _ _) fun _ =>
          .bind (.setSession fun _ => rfl) fun _ => .bind (keepsFlags_logIn sid user.id) fun _ => .read .pure
  exact .of_only (only_provision cfg _ _ List.mem_cons_self) (S := [.users]) (by simp)

theorem keepsFlags_oidcCallback (sid : SessionId) (state : Text) (claims : Except AppError Claims)
    (id : Uuid) : KeepsFlags (oidcCallback env sid state claims id) := by
  refine .bind (.read (.read rfl)) fun cfg => .bind (.read .reject) fun _ => .bind (.read .reject) fun _ =>
    .bind (.read (.read rfl)) fun session => .bind (.read .check) fun _ => .bind (.read .check) fun claims => ?_
  split
  · exact .bind (.read (.read rfl)) fun _ => .bind (.read .orThrow) fun user =>
      .bind (keepsFlags_linkOidc _ _ _) fun _ => .bind (keepsFlags_applyGroupRole user _ _) fun _ =>
        .bind (.setSession fun _ => rfl) fun _ => .bind (keepsFlags_logIn sid user.id) fun _ => .read .pure
  · refine .bind (.read (.read rfl)) fun user => ?_
    match user with
    | some user =>
      exact .bind (keepsFlags_applyGroupRole user _ _) fun _ =>
        .bind (keepsFlags_logIn sid user.id) fun _ => .read .pure
    | none => exact keepsFlags_oidcFirstLogin env sid cfg claims id

/-- The requests to the unlock endpoints. -/
def Request.unlocks : Request → Bool
  | unlock _ _ _ | unlockPaste _ _ _ => true
  | _ => false

/-- **The other requests set no flag.** -/
theorem serve_keepsFlags (req : Request) (hreq : req.unlocks = false) :
    (serve env req).Obeys (.flat Op.KeepsFlags fun _ _ => True) (fun _ _ => True) () := by
  have hrun : ∀ {p : Handler Response}, KeepsFlags p →
      p.run.Obeys (.flat Op.KeepsFlags fun _ _ => True) (fun _ _ => True) () :=
    fun hp => Prog.Obeys.mono hp fun _ _ _ => trivial
  by_cases hareas : .sessions ∈ req.areas
  · cases req with
    | register sid form salt id => exact hrun (keepsFlags_registerPost env sid form salt id)
    | oidcCallback sid state claims id => exact hrun (keepsFlags_oidcCallback env sid state claims id)
    | unlock | unlockPaste => cases hreq
    | _ => simp [Request.areas] at hareas
  · exact (serve_only env req).obeys (fun _ _ hop => keepsFlags_of_within hareas hop) ()

end Flags

/-! ### The unlock endpoints -/

/-- Every flag that is set in `w'` has been set in `w`, except for what `granted` accepts. -/
def Grants (w : World) (granted : SessionId → Core → Prop) (w' : World) : Prop :=
  ∀ sid core, core ∈ (w'.sessions sid).unlocked → core ∈ (w.sessions sid).unlocked ∨ granted sid core

theorem Grants.refl (w : World) (granted : SessionId → Core → Prop) : Grants w granted w :=
  fun _ _ hcore => .inl hcore

section Unlock

variable {mayFail : Op → Prop} {w : World} (env : Env)

/-- A file that is loaded has its row. -/
theorem triple_loadLiveFile_row (segment : Text) :
    Triple mayFail w (loadLiveFile segment) (fun file w' => w' = w ∧ stripToCore segment = file.idCore.val ∧
      file.toFileRow ∈ w.dedupe.files.rows ∧ w.fileColumns file.idCore = file.toFileColumns)
      fun _ w' => w' = w := by
  refine (obeys_bind _ _).2 (obeys_reject.2 ⟨fun _ => rfl, fun _ => ?_⟩)
  refine (obeys_bind _ _).2 (triple_read rfl rfl (fun found hfound => ?_) fun _ => rfl)
  have hfound : w.file? (stripToCore segment) = found := Except.ok.inj hfound
  refine (obeys_bind _ _).2 (obeys_orThrow.2 ⟨fun _ => rfl, fun file hsome => ?_⟩)
  obtain ⟨row, hrow, -, hcore, rfl⟩ := file?_eq_some (hfound.trans hsome)
  refine (obeys_bind _ _).2 (triple_read rfl rfl (fun now _ => ?_) fun _ => rfl)
  refine (obeys_bind _ _).2 (obeys_reject.2 ⟨fun _ => rfl, fun _ => ?_⟩)
  exact ⟨rfl, hcore.symm, hrow, rfl⟩

theorem triple_loadLivePaste_row (segment : Text) :
    Triple mayFail w (loadLivePaste segment) (fun paste w' => w' = w ∧
      stripToCore segment = paste.idCore.val ∧ paste ∈ w.pastes) fun _ w' => w' = w := by
  refine (obeys_bind _ _).2 (obeys_reject.2 ⟨fun _ => rfl, fun _ => ?_⟩)
  refine (obeys_bind _ _).2 (triple_read rfl rfl (fun found hfound => ?_) fun _ => rfl)
  have hfound : w.paste? (stripToCore segment) = found := Except.ok.inj hfound
  refine (obeys_bind _ _).2 (obeys_orThrow.2 ⟨fun _ => rfl, fun paste hsome => ?_⟩)
  have hpaste : w.paste? (stripToCore segment) = some paste := hfound.trans hsome
  refine (obeys_bind _ _).2 (triple_read rfl rfl (fun now _ => ?_) fun _ => rfl)
  refine (obeys_bind _ _).2 (obeys_reject.2 ⟨fun _ => rfl, fun _ => ?_⟩)
  exact ⟨rfl, Eq.symm (by simpa using List.find?_some hpaste), List.mem_of_find?_eq_some hpaste⟩

/-- The flag that is set is that of the core, and only with a password that the hash verifies. -/
theorem triple_unlockItem (sid : SessionId) (found : Option Text) (core : Core) (password : Text)
    {granted : SessionId → Core → Prop}
    (hgranted : ∀ hash, found = some hash → env.verifyPassword hash password = true → granted sid core) :
    Triple mayFail w (unlockItem env sid found core password) (fun _ => Grants w granted)
      fun _ => Grants w granted := by
  unfold unlockItem
  cases found with
  | none => exact Grants.refl w _
  | some hash =>
    refine (obeys_bind _ _).2 (obeys_reject.2 ⟨fun _ => Grants.refl w _, fun hverified => ?_⟩)
    refine triple_ask rfl (fun _ _ => ?_) (fun e he => by cases he) fun _ _ => Grants.refl w _
    intro sid' core' hcore'
    simp only [answer] at hcore'
    by_cases hsid : sid' = sid
    · subst hsid
      rw [Function.update_self] at hcore'
      rcases List.mem_cons.1 hcore' with rfl | hold
      · exact .inr (hgranted hash rfl (by simpa using hverified))
      · exact .inl hold
    · rw [Function.update_of_ne hsid] at hcore'
      exact .inl hcore'

/-- The flags that a request sets: of items whose password it posts. -/
def Granted (req : Request) (w : World) (sid : SessionId) (core : Core) : Prop :=
  ∃ item hash, item.core = core ∧ w.Protects hash item ∧ req.Posts env hash sid item

/-- **A request sets flags only for the password that it posts.** -/
theorem serve_grants (req : Request) {outcome : Outcome} {w' : World}
    (hrun : (serve env req).Runs (exec mayFail) w outcome w') : Grants w (Granted env req w) w' := by
  by_cases hreq : req.unlocks = true
  · have htriple : ∀ {p : Handler Response}, Triple mayFail w p (fun _ => Grants w (Granted env req w))
        (fun _ => Grants w (Granted env req w)) → p.run.Runs (exec mayFail) w outcome w' →
        Grants w (Granted env req w) w' := by
      intro p hp hrun
      have hend := triple_iff_runs.1 hp _ _ hrun
      cases outcome with
      | ok response => exact hend
      | error e => exact hend
    have herr : ∀ (_ : Abort) (w'' : World), w'' = w → Grants w (Granted env req w) w'' := by
      rintro _ _ rfl
      exact Grants.refl _ _
    cases req with
    | unlock sid segment password =>
      refine htriple ?_ hrun
      refine (obeys_bind _ _).2 ((triple_loadLiveFile_row segment).mono ?_ herr)
      rintro file _ ⟨rfl, hcore, hrow, hcolumns⟩
      refine (obeys_bind _ _).2 ((triple_unlockItem env sid _ _ password fun hash hhash hverified => ?_).mono
        (fun _ _ h => h) fun _ _ h => h)
      refine ⟨.file file.idCore, hash, rfl, ⟨⟨_, hrow, rfl⟩, ?_⟩, rfl, hcore, hverified⟩
      rintro other - hother
      rw [hother, hcolumns]
      exact hhash
    | unlockPaste sid segment password =>
      refine htriple ?_ hrun
      refine (obeys_bind _ _).2 ((triple_loadLivePaste_row segment).mono ?_ herr)
      rintro paste _ ⟨rfl, hcore, hrow⟩
      refine (obeys_bind _ _).2 ((triple_unlockItem env sid _ _ password fun hash hhash hverified => ?_).mono
        (fun _ _ h => h) fun _ _ h => h)
      refine ⟨.paste paste.idCore, hash, rfl, ⟨⟨_, hrow, rfl⟩, ?_⟩, rfl, hcore, hverified⟩
      rintro other hmem hother
      rw [Keyed.eq_of_col hmem hrow hother]
      exact hhash
    | _ => cases hreq
  · have hkeeps := Prog.Obeys.runs (fun (_ : Unit) w'' => Grants w (Granted env req w) w'')
      (fun hgrants hop hexec => ⟨(), trivial, fun sid core hcore => hgrants sid core ?_⟩)
      (serve_keepsFlags env req (by simpa using hreq)) (Grants.refl w _) hrun
    · exact hkeeps.choose_spec.1
    · rw [exec_keepsFlags hexec hop] at hcore
      exact hcore

end Unlock

/-! ## Every sequence of requests -/

/-- **The invariant.**  A flag goes back to a request that has posted a password of the one item that
ever had the core; the hash of that item has not changed. -/
def Accounted (env : Env) (past : List (Request × Outcome)) (w : World) : Prop :=
  ∃ inserted, Once (w, inserted) 0 ∧ ∀ sid core, core ∈ (w.sessions sid).unlocked →
    ∃ item ∈ inserted, ∃ hash, item.core = core ∧ w.Hashed (some hash) item ∧
      ∃ earlier ∈ past, earlier.1.Posts env hash sid item

section Sequences

variable (env : Env) {mayFail : Op → Prop} {w w' : World}

/-- What a request does to the history: it adds items that were not in it, and the hashes of those
that were stay. -/
theorem serve_inserted {inserted : Inserted} (hw : Once (w, inserted) 0) (req : Request) {outcome : Outcome}
    (hrun : (serve env req).Runs (exec mayFail) w outcome w') :
    ∃ inserted', Once (w', inserted') 0 ∧ inserted ⊆ inserted' ∧
      ∀ item ∈ inserted, ∀ hash, w.Hashed hash item → w'.Hashed hash item := by
  let inv : World × Inserted → Multiset Core → Prop := fun h claims => Once h claims ∧ inserted ⊆ h.2 ∧
    ∀ item ∈ inserted, ∀ hash, w.Hashed hash item → h.1.Hashed hash item
  have howns : (serve env req).Owns inv (logged recordItem (exec mayFail))
      (fun _ claims => ∃ claim, claims = claimed claim ∧ True) (claimed none) := by
    refine (serve_claims env req).owns ?_
    rintro claim op h r h' others hmay ⟨honce, hsub, hhashed⟩ hexec
    obtain ⟨claim', hnext, honce'⟩ := once_exec hmay honce hexec
    obtain ⟨hexec, hlog⟩ := hexec
    refine ⟨claim', hnext, honce', fun item hitem => ?_, fun item hitem hash hold => ?_⟩
    · rw [hlog]
      exact List.mem_append_right _ (hsub hitem)
    · refine exec_hashed hexec (fun hnew => ?_) (hhashed item hitem hash hold)
      -- the item would be in the history twice
      have hnodup := Multiset.coe_nodup.1 (Multiset.nodup_of_le (Multiset.le_add_right _ _) honce'.nodup)
      rw [hlog, recordItem, hnew] at hnodup
      exact (List.nodup_cons.1 hnodup).1 (List.mem_map_of_mem (hsub hitem))
  obtain ⟨inserted', hlogged⟩ : ∃ inserted', (serve env req).Runs (logged recordItem (exec mayFail))
    (w, inserted) outcome (w', inserted') := hrun.exists_log inserted
  obtain ⟨claims, ⟨honce, hsub, hhashed⟩, -⟩ := howns.runs (f := 0)
    ⟨by simpa [claimed] using hw, List.Subset.refl _, fun _ _ _ h => h⟩ hlogged
  exact ⟨inserted', honce.drop, hsub, hhashed⟩

/-- **One request keeps the invariant.** -/
theorem accounted_request {past : List (Request × Outcome)} (hw : Accounted env past w) {req : Request}
    {outcome : Outcome} (hrun : (serve env req).Runs (exec mayFail) w outcome w') :
    Accounted env ((req, outcome) :: past) w' := by
  obtain ⟨inserted, honce, hflags⟩ := hw
  obtain ⟨inserted', honce', hsub, hhashed⟩ := serve_inserted env honce req hrun
  refine ⟨inserted', honce', fun sid core hcore => ?_⟩
  rcases serve_grants env req hrun sid core hcore with hold | ⟨item, hash, hitem, hprotects, hposts⟩
  · obtain ⟨item, hmem, hash, hitem, hhash, earlier, hearlier, hposts⟩ := hflags sid core hold
    exact ⟨item, hsub hmem, hash, hitem, hhashed item hmem _ hhash, earlier,
      List.mem_cons_of_mem _ hearlier, hposts⟩
  · have hmem := honce.logged item hprotects.1
    exact ⟨item, hsub hmem, hash, hitem, hhashed item hmem _ hprotects.2, _, List.mem_cons_self, hposts⟩

theorem exec_showsHash {op : Op} {r : op.Res} {item : Item} {hash : Text} (h : exec mayFail w op r w')
    (hw : w.Hashed (some hash) item) : ShowsGuards item (fun _ found => found = some hash) op r := by
  unfold ShowsGuards
  split
  · rename_i core file
    rintro rfl
    rcases exec_statement h rfl with heq | ⟨-, ⟨e, herr⟩, -⟩
    · obtain ⟨row, hrow, -, -, rfl⟩ := file?_eq_some (Except.ok.inj (congrArg Prod.fst heq)).symm
      exact hw row hrow rfl
    · cases herr
  · rename_i core paste
    rintro rfl
    rcases exec_statement h rfl with heq | ⟨-, ⟨e, herr⟩, -⟩
    · have hfind : w.paste? core = some paste := (Except.ok.inj (congrArg Prod.fst heq)).symm
      exact hw paste (List.mem_of_find?_eq_some hfind) rfl
    · cases herr
  · trivial

theorem exec_showsFlag {op : Op} {r : op.Res} {core : Core} {unlocked : SessionId → Prop}
    (h : exec mayFail w op r w') (hw : ∀ sid, core ∈ (w.sessions sid).unlocked → unlocked sid) :
    ShowsFlag core unlocked op r := by
  unfold ShowsFlag
  split
  · rename_i sid session
    rcases exec_statement h rfl with heq | ⟨-, ⟨e, herr⟩, -⟩
    · cases heq
      exact hw sid
    · cases herr
  · trivial

/-- A request that is answered with content has seen the flag, or has a password of its own. -/
theorem serve_opens {unlocked : SessionId → Prop} {item : Item} {hash : Text}
    (hhash : w.Hashed (some hash) item)
    (hflags : ∀ sid, item.core ∈ (w.sessions sid).unlocked → unlocked sid) {req : Request}
    {response : Response} (hrun : (serve env req).Runs (exec mayFail) w (.ok response) w')
    (hcarries : response.Carries item) : Opens env hash unlocked req.session req.password := by
  by_cases hreq : req.shows = true
  · have hareas : .newFiles ∉ req.areas ∧ .newPastes ∉ req.areas ∧ .sessions ∉ req.areas := by
      cases req with
      | raw | preview | thumb | rawPaste | viewPaste | zip => simp [Request.areas]
      | _ => cases hreq
    let next : Unit → (op : Op) → op.Res → Unit → Prop := fun _ op r _ =>
      ShowsGuards item (fun _ found => found = some hash) op r ∧ ShowsFlag item.core unlocked op r
    have hshows : ∀ γ op r γ', next γ op r γ' → ShowsGuards item (fun _ found => found = some hash) op r :=
      fun _ _ _ _ h => h.1
    have hobeys := guarded_serve hshows (fun _ _ _ _ h => h.2) env req ()
    have hstep : ∀ {w₁ : World} {op : Op} {r : op.Res} {w₂ : World},
        (w₁.Hashed (some hash) item ∧ ∀ sid, item.core ∈ (w₁.sessions sid).unlocked → unlocked sid) →
        Within req.areas op → exec mayFail w₁ op r w₂ → ∃ γ', next () op r γ' ∧ w₂.Hashed (some hash) item ∧
          ∀ sid, item.core ∈ (w₂.sessions sid).unlocked → unlocked sid := by
      rintro w₁ op r w₂ ⟨hhash, hflags⟩ hop hexec
      refine ⟨(), ⟨exec_showsHash hexec hhash, exec_showsFlag hexec hflags⟩, ?_, ?_⟩
      · refine exec_hashed hexec ?_ hhash
        rw [newItem_of_insertsNone ⟨fun h => hareas.1 (hop _ h), fun h => hareas.2.1 (hop _ h)⟩]
        nofun
      · rw [exec_sessions hexec fun h => hareas.2.2 (hop _ h)]
        exact hflags
    obtain ⟨_, -, hopens⟩ := Prog.Obeys.runs (fun (_ : Unit) w₁ => w₁.Hashed (some hash) item ∧
      ∀ sid, item.core ∈ (w₁.sessions sid).unlocked → unlocked sid) hstep
      ((serve_only env req).restrict hobeys) ⟨hhash, hflags⟩ hrun
    exact hopens response rfl hcarries
  · have hblank := Prog.obeys_ofExec_iff.1 (blank_serve env item req (by simpa using hreq) w) _ _ hrun
    exact absurd hcarries (hblank response rfl)

/-- **Content behind a password goes to who has given it.**  In every sequence of requests from an
empty instance, whatever operations fail, a request that is answered with content of an item whose
row has the hash of a password comes in a session in which a request before has posted a password that
this hash verifies to the unlock endpoint of the item, or brings such a password itself. -/
theorem protected_content {past : List (Request × Outcome)}
    (hpast : Prog.Sequence (serve env) (exec mayFail) World.empty past w) {req : Request}
    {response : Response} (hrun : (serve env req).Runs (exec mayFail) w (.ok response) w') {item : Item}
    {hash : Text} (hprotects : w.Protects hash item) (hcarries : response.Carries item) :
    Opens env hash (fun sid => ∃ earlier ∈ past, earlier.1.Posts env hash sid item) req.session
      req.password := by
  have hw : Accounted env past w := by
    refine hpast.invariant ⟨[], once_empty, fun sid core hcore => absurd hcore List.not_mem_nil⟩ ?_
    intro past w req outcome w' hw hrun
    exact accounted_request env hw hrun
  obtain ⟨inserted, honce, hflags⟩ := hw
  refine serve_opens env hprotects.2 (fun sid hflag => ?_) hrun hcarries
  obtain ⟨item', hmem', hash', hcore, hhash', earlier, hearlier, hposts⟩ := hflags sid item.core hflag
  -- the core has named one item only
  have hnodup := Multiset.coe_nodup.1 (Multiset.nodup_of_le (Multiset.le_add_right _ _) honce.nodup)
  obtain rfl : item' = item :=
    List.inj_on_of_nodup_map hnodup hmem' (honce.logged item hprotects.1) hcore
  obtain rfl : hash' = hash := Option.some.inj (hhash'.unique hprotects.2 hprotects.1)
  exact ⟨earlier, hearlier, hposts⟩

end Sequences

/-! ### Somebody has the password -/

/-- The password, of the shortest length. -/
def secret : Text := List.replicate 8 's'

/-- A new paste behind the password, and a session that posts it. -/
def unlockRequests : List Request :=
  [.createPaste anonymous ⟨.form ⟨none, some ['h', 'i'], none, none, none, some secret⟩ none none,
      fun _ => coreA, [], []⟩,
    .unlockPaste 1 coreA.val secret]

/-- The requests with their answers, and the instance after them. -/
def unlockRun : List (Request × Outcome) × World :=
  Prog.answerAll (serve .plain) answer World.empty unlockRequests

/-- The paste is read in this session. -/
def readPaste (sid : SessionId) : Request := .rawPaste ⟨sid, .none⟩ none coreA.val

/-- The two letters of the paste. -/
def shownPaste : Response where
  status := 200
  headers := [("accept-ranges", "bytes"), ("content-length", toString 2),
    ("content-type", "text/plain; charset=utf-8"), ("x-content-type-options", "nosniff"),
    ("cache-control", "private, no-store")]
  body := [.content (.paste coreA) (utf8 ['h', 'i'])]
  brokenOff := none

theorem protected_content_unlockRun : Opens .plain secret
    (fun sid => ∃ earlier ∈ unlockRun.1, earlier.1.Posts .plain secret sid (.paste coreA))
    (readPaste 1).session (readPaste 1).password := by
  have hpast : Prog.Sequence (serve .plain) (exec fun _ => False) World.empty unlockRun.1 unlockRun.2 :=
    Prog.sequence_answerAll (exec_answer _) unlockRequests
  have hrun : (serve .plain (readPaste 1)).Runs (exec fun _ => False) unlockRun.2 (.ok shownPaste)
      unlockRun.2 := Prog.runs_eval (exec_answer _) (serve .plain (readPaste 1)) unlockRun.2
  refine protected_content .plain hpast hrun ⟨?_, ?_⟩ ⟨_, List.mem_singleton_self _⟩
  · exact ⟨_, List.mem_singleton_self _, rfl⟩
  · rintro row hrow -
    obtain rfl := List.mem_singleton.1 hrow
    rfl

/-- Another session is refused. -/
example : ((serve .plain (readPaste 0)).eval answer unlockRun.2).1 = .error AppError.unauthorized := rfl

end Server
end Uwuubox
