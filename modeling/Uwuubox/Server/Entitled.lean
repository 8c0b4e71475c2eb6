import Uwuubox.Server.Grounds
import Uwuubox.Server.Publishing

/-!
# Only who may removes an item

Each handler that removes an item or sets its visibility checks whether it may against a row that it has read before,
and the operation that follows names the core only.

* `lawful_deleteFile`, `lawful_raw` .. — each handler performs only what is permitted, knowing what it has been told.
* `justified_serveAuth` — **so does every request.**
* `entitled` — **when an item is removed or its visibility set, whoever does so has grounds against the row
  that is there now**, in every interleaving of all requests, whatever fails.
-/

namespace Uwuubox
namespace Server

open Dedupe Storage Table Fallible

/-! ## The handlers that remove items or set their visibility -/

section Handlers

variable {env : Env} {req : AuthRequest} {known : Fact → Prop} {caller : Caller}

theorem permitted_deleteFile {core : Core} (h : Removable env req known (.file core)) :
    Permitted env req known (.storage (.deleteFile core)) where
  removes item hitem := by
    cases item with
    | file core' =>
      obtain rfl : core' = core := hitem
      exact h
    | paste core' => exact hitem.elim
  sets _ hitem := hitem.elim

theorem permitted_deletePaste {paste : Core} {core : Text} (hcore : paste.val = core)
    (h : Removable env req known (.paste paste)) : Permitted env req known (.deletePaste core) where
  removes item hitem := by
    cases item with
    | file core' => exact hitem.elim
    | paste core' =>
      obtain rfl : core' = paste := Subtype.ext (Eq.trans hitem hcore.symm)
      exact h
  sets _ hitem := hitem.elim

theorem permitted_setFileVisibility {file : Core} {core : Text} {visibility : Visibility} (hcore : file.val = core)
    (h : Settable env req known (.file file)) : Permitted env req known (.setFileVisibility core visibility) where
  removes _ hitem := hitem.elim
  sets item hitem := by
    cases item with
    | file core' =>
      obtain rfl : core' = file := Subtype.ext (Eq.trans hitem hcore.symm)
      exact h
    | paste core' => exact hitem.elim

theorem permitted_setPasteVisibility {paste : Core} {core : Text} {visibility : Visibility}
    (hcore : paste.val = core) (h : Settable env req known (.paste paste)) :
    Permitted env req known (.setPasteVisibility core visibility) where
  removes _ hitem := hitem.elim
  sets item hitem := by
    cases item with
    | file core' => exact hitem.elim
    | paste core' =>
      obtain rfl : core' = paste := Subtype.ext (Eq.trans hitem hcore.symm)
      exact h

/-- The removal of a file that may be removed. -/
theorem justified_removeFile {core : Core} (h : Removable env req known (.file core)) :
    (storage (Dedupe.removeFile core)).Obeys (Prog.justice Tells Op.facts (Permitted env req) known)
      (fun _ _ => True) () := by
  refine obeys_storage (Prog.Obeys.simulate (fun _ _ => True) ?_ (fun _ _ _ => ⟨(), trivial, trivial⟩)
    (removeFile_deletes core) trivial |>.mono fun _ _ _ => trivial)
  rintro _ _ op - (rfl | hop)
  · exact permitted_deleteFile h
  · exact (mild_storage hop).permitted

theorem lawful_removeFile {core : Core} (h : Removable env req known (.file core)) :
    Lawful env req known (fun _ => True) (removeFile core) :=
  .bind (P := fun _ => True) (obeys_always.2 (justified_removeFile h)) fun _ _ => Lawful.read .check .trivially

/-- Who is let through by `check_delete_access` is the owner, or has the delete token. -/
theorem checkDeleteAccess_spec {user : Option User} {ownerId : Option Uuid} {stored provided : Option Text}
    (h : checkDeleteAccess env user ownerId stored provided = true) :
    (∃ u, user = some u ∧ ownerId = some u.id) ∨
      ∃ token, provided = some token ∧ stored = some (env.deleteTokenHash token) := by
  unfold checkDeleteAccess at h
  rcases Bool.or_eq_true_iff.1 h with h | h
  · left
    cases user with
    | none => cases h
    | some u =>
      cases ownerId with
      | none => cases h
      | some owner => exact ⟨u, rfl, congrArg some (of_decide_eq_true h).symm⟩
  · right
    cases stored with
    | none => cases h
    | some stored =>
      cases provided with
      | none => cases h
      | some token => exact ⟨token, rfl, congrArg some (of_decide_eq_true h).symm⟩

/-- What `check_delete_access` lets pass may be removed. -/
theorem removable_of_access {item : Item} {guards : Guards} {user : Option User} {token : Option Text}
    (hcaller : req.caller? = some caller) (htoken : req.deleteToken = token)
    (hshown : known (.shown item guards)) (huser : ∀ u, user = some u → ActsAs env known caller u.id)
    (h : checkDeleteAccess env user guards.ownerId guards.deleteTokenHash token = true) :
    Removable env req known item := by
  refine .inl ⟨guards, hshown, ?_⟩
  rcases checkDeleteAccess_spec h with ⟨u, hu, howner⟩ | ⟨token, rfl, hstored⟩
  · exact .owner ⟨caller, u.id, hcaller, howner, huser u hu⟩
  · exact .deleteToken htoken hstored

theorem lawful_currentUser : Lawful env req known
    (fun found => ∀ user, found = some user → ActsAs env known caller user.id) (always (currentUser env caller)) :=
  Lawful.read (.always (only_currentUser env caller)) fun _ => obeys_always.2 told_currentUser

theorem lawful_currentIdentity : Lawful env req known
    (fun found => ∀ identity, found = some identity → ActsAs env known caller identity.user.id)
    (always (currentIdentity env caller)) :=
  Lawful.read (.always (only_currentIdentity env caller)) fun _ => obeys_always.2 told_currentIdentity

theorem lawful_findFile (core : Text) : Lawful env req known (fun found => ∀ file, found = some file →
    known (.shown (.file file.idCore) file.guards) ∧ file.idCore.val = core) (ask (.findFile core)) :=
  Lawful.read (.read rfl) (told_findFile core)

theorem lawful_findPaste (core : Text) : Lawful env req known (fun found => ∀ paste, found = some paste →
    known (.shown (.paste paste.idCore) paste.guards) ∧ paste.idCore.val = core) (ask (.findPaste core)) :=
  Lawful.read (.read rfl) (told_findPaste core)

theorem lawful_deleteFile (segment : Text) (token : Option Text) :
    Lawful env (.served (.deleteFile caller segment token)) known (fun _ => True)
      (deleteFile env caller segment token) := by
  refine .bind lawful_currentUser fun user huser => .bind (lawful_findFile _) fun found hfound =>
    .orThrow fun row hrow => .reject fun haccess => .bind (lawful_removeFile ?_) fun _ _ => .pure trivial
  have haccess : checkDeleteAccess env user row.ownerId row.deleteTokenHash token = true := by
    simpa using haccess
  exact removable_of_access rfl rfl (hfound row hrow).1 huser haccess

theorem lawful_deletePaste (segment : Text) (token : Option Text) :
    Lawful env (.served (.deletePaste caller segment token)) known (fun _ => True)
      (deletePaste env caller segment token) := by
  refine .bind lawful_currentIdentity fun identity hidentity =>
    Lawful.skip (only_requireScopeIfBearer caller _ _) fun _ => .bind (lawful_findPaste _) fun found hfound =>
      .orThrow fun row hrow => .reject fun haccess =>
        .bind (Lawful.ask (permitted_deletePaste (hfound row hrow).2 ?_)) fun _ _ => .reject fun _ => .pure trivial
  have haccess : checkDeleteAccess env (identity.map Identity.user) row.ownerId row.deleteTokenHash token = true := by
    simpa using haccess
  refine removable_of_access rfl rfl (hfound row hrow).1 (fun u hu => ?_) haccess
  obtain ⟨identity, rfl, rfl⟩ := Option.map_eq_some_iff.1 hu
  exact hidentity identity rfl

theorem removable_of_owner {item : Item} {guards : Guards} {user : User} (hcaller : req.caller? = some caller)
    (hshown : known (.shown item guards)) (huser : ActsAs env known caller user.id)
    (howner : ¬ guards.ownerId ≠ some user.id) : Removable env req known item :=
  .inl ⟨guards, hshown, .owner ⟨caller, user.id, hcaller, not_not.1 howner, huser⟩⟩

theorem settable_of_owner {item : Item} {guards : Guards} {user : User} (hcaller : req.caller? = some caller)
    (hshown : known (.shown item guards)) (huser : ActsAs env known caller user.id)
    (howner : ¬ guards.ownerId ≠ some user.id) : Settable env req known item :=
  ⟨guards, hshown, caller, user.id, hcaller, not_not.1 howner, huser⟩

theorem lawful_requireUser : Lawful env req known (fun user => ActsAs env known caller user.id)
    (requireUser env caller) := Lawful.read (only_requireUser env caller) told_requireUser

theorem lawful_dashboardDeleteFile (segment : Text) :
    Lawful env (.served (.dashboardDeleteFile caller segment)) known (fun _ => True)
      (dashboardDeleteFile env caller segment) :=
  .bind lawful_requireUser fun _ huser => .bind (lawful_findFile _) fun _ hfound => .orThrow fun row hrow =>
    .reject fun howner => .bind (lawful_removeFile (removable_of_owner rfl (hfound row hrow).1 huser howner))
      fun _ _ => .pure trivial

theorem lawful_dashboardDeletePaste (segment : Text) :
    Lawful env (.served (.dashboardDeletePaste caller segment)) known (fun _ => True)
      (dashboardDeletePaste env caller segment) :=
  .bind lawful_requireUser fun _ huser => .bind (lawful_findPaste _) fun _ hfound => .orThrow fun row hrow =>
    .reject fun howner => .bind (Lawful.ask (permitted_deletePaste (hfound row hrow).2
      (removable_of_owner rfl (hfound row hrow).1 huser howner))) fun _ _ => .pure trivial

/-- The owner sets the visibility of a file. -/
theorem lawful_setFileVisibility {user : User} (hcaller : req.caller? = some caller)
    (huser : ActsAs env known caller user.id) (core visibility : Text) :
    Lawful env req known (fun _ => True) (setFileVisibility core user.id visibility) :=
  .orThrow fun _ _ => .bind (lawful_findFile _) fun _ hfound => .orThrow fun row hrow => .reject fun howner =>
    Lawful.ask (permitted_setFileVisibility (hfound row hrow).2
      (settable_of_owner hcaller (hfound row hrow).1 huser howner))

theorem lawful_toggleFile (segment visibility : Text) :
    Lawful env (.served (.toggleFile caller segment visibility)) known (fun _ => True)
      (toggleFile env caller segment visibility) :=
  .bind lawful_currentUser fun _ hfound => .orThrow fun user huser =>
    .bind (lawful_setFileVisibility rfl (hfound user huser) _ _) fun _ _ => .pure trivial

theorem lawful_dashboardFileVisibility (segment visibility : Text) :
    Lawful env (.served (.dashboardFileVisibility caller segment visibility)) known (fun _ => True)
      (dashboardFileVisibility env caller segment visibility) :=
  .bind lawful_requireUser fun _ huser => .bind (lawful_setFileVisibility rfl huser _ _) fun _ _ => .pure trivial

theorem lawful_dashboardPasteVisibility (segment visibility : Text) :
    Lawful env (.served (.dashboardPasteVisibility caller segment visibility)) known (fun _ => True)
      (dashboardPasteVisibility env caller segment visibility) :=
  .bind lawful_requireUser fun _ huser => .orThrow fun _ _ => .bind (lawful_findPaste _) fun _ hfound =>
    .orThrow fun row hrow => .reject fun howner => .bind (Lawful.ask (permitted_setPasteVisibility (hfound row hrow).2
      (settable_of_owner rfl (hfound row hrow).1 huser howner))) fun _ _ => .pure trivial

theorem lawful_togglePaste (segment visibility : Text) :
    Lawful env (.served (.togglePaste caller segment visibility)) known (fun _ => True)
      (togglePaste env caller segment visibility) := by
  refine .bind lawful_currentIdentity fun found hfound => .bind (P := fun identity => found = some identity)
    (Lawful.read .check fun _ => ?_) fun identity hidentity => .orThrow fun _ _ => Lawful.skip (.read rfl) fun cfg =>
      Lawful.skip (only_effectiveLimits cfg _) fun _ => .reject fun _ => .bind (lawful_findPaste _) fun _ hpaste =>
        .orThrow fun row hrow => .reject fun howner => .bind (Lawful.ask (permitted_setPasteVisibility
          (hpaste row hrow).2 (settable_of_owner rfl (hpaste row hrow).1 (hfound identity hidentity) howner)))
            fun _ _ => .pure trivial
  refine obeys_check.2 ⟨fun _ _ => trivial, fun identity hcheck => ?_⟩
  exact requireScope_ok hcheck

/-- The read of a file that is read once removes it. -/
theorem lawful_burnRead {file : File} (outcome : RangeOutcome) (h : Removable env req known (.file file.idCore)) :
    Lawful env req known (fun _ => True) (burnRead file outcome) :=
  Lawful.skip (.read rfl) fun _ => Lawful.skip .check fun _ => .reject fun _ => .bind (lawful_removeFile h) fun _ _ =>
    .reject fun _ => Lawful.read .check .trivially

theorem lawful_raw (password : Option Text) (segment : Text) :
    Lawful env (.served (.raw caller password segment)) known (fun _ => True) (raw env caller password segment) := by
  refine .bind (Lawful.read (only_loadLiveFile segment) (told_loadLiveFile segment)) fun file hshown =>
    .bind (Lawful.read (only_checkPassword env caller.session _ _ password)
      (@told_checkPassword env known caller (.served (.raw caller password segment)) rfl (.file file.idCore) _ rfl
        password rfl file.accessPasswordHash)) fun _ hpassword =>
        Lawful.skip .check fun header => .reject fun _ => .ite (fun _ => Lawful.read .check .trivially) fun _ =>
          .ite (fun hburn => ?_) fun _ => Lawful.read (only_streamRead file _) .trivially
  exact lawful_burnRead _ (.inl ⟨file.guards, hshown, .burn rfl hburn hpassword⟩)

theorem lawful_rawPaste (password : Option Text) (segment : Text) :
    Lawful env (.served (.rawPaste caller password segment)) known (fun _ => True)
      (rawPaste env caller password segment) := by
  refine .bind (Lawful.read (only_loadLivePaste segment) (told_loadLivePaste segment)) fun paste hshown =>
    .bind (Lawful.read (only_checkPassword env caller.session _ _ password)
      (@told_checkPassword env known caller (.served (.rawPaste caller password segment)) rfl (.paste paste.idCore) _
        rfl password rfl paste.accessPasswordHash)) fun _ hpassword =>
        Lawful.skip .check fun header => .reject fun _ => .ite (fun _ => .pure trivial) fun _ =>
          .ite (fun hburn => ?_) fun _ => .pure trivial
  exact .bind (Lawful.ask (permitted_deletePaste rfl (.inl ⟨paste.guards, hshown, .burn rfl hburn hpassword⟩)))
    fun _ _ => .reject fun _ => .pure trivial

/-! ## The sweeper -/

theorem justified_sweepFiles {files : List File}
    (hfiles : ∀ file ∈ files, known (.expired (.file file.idCore) file.guards)) :
    (sweepFiles files).Obeys (Prog.justice Tells Op.facts (Permitted env (.served .sweep)) known)
      (fun _ _ => True) () := by
  induction files with
  | nil => trivial
  | cons file files ih =>
    refine (Prog.obeys_bind _ _ _).2 ((justified_removeFile ?_).mono fun _ _ _ => ?_)
    · exact .inr ⟨file.guards, rfl, hfiles file List.mem_cons_self⟩
    · exact ih fun file hfile => hfiles file (List.mem_cons_of_mem _ hfile)

theorem justified_sweepPastes {pastes : List PasteRow}
    (hpastes : ∀ paste ∈ pastes, known (.expired (.paste paste.idCore) paste.guards)) :
    (sweepPastes pastes).Obeys (Prog.justice Tells Op.facts (Permitted env (.served .sweep)) known)
      (fun _ _ => True) () := by
  induction pastes with
  | nil => trivial
  | cons paste pastes ih =>
    refine (Prog.obeys_bind _ _ _).2 ⟨permitted_deletePaste rfl ?_, fun _ _ _ => ?_⟩
    · exact .inr ⟨paste.guards, rfl, hpastes paste List.mem_cons_self⟩
    · exact ih fun paste hpaste => hpastes paste (List.mem_cons_of_mem _ hpaste)

theorem justified_sweep : sweep.Obeys (Prog.justice Tells Op.facts (Permitted env (.served .sweep)) known)
    (fun _ _ => True) () := by
  have hread : ∀ {op : Op}, op.area = none → Permitted env (.served .sweep) known op := fun h =>
    (mild_of_within (S := []) (fun _ ha => absurd ha List.not_mem_nil) (within_of_none h)).permitted
  refine (Prog.obeys_bind _ _ _).2 ⟨hread rfl, fun files _ hfiles => ?_⟩
  refine (Prog.obeys_bind _ _ _).2 ((justified_sweepFiles ?_).mono fun _ _ _ => ?_)
  · match files with
    | .error _ => exact fun file hfile => absurd hfile List.not_mem_nil
    | .ok files => exact fun file hfile => hfiles.2 _ (List.mem_map_of_mem hfile)
  · refine (Prog.obeys_bind _ _ _).2 ⟨hread rfl, fun pastes _ hpastes => justified_sweepPastes ?_⟩
    match pastes with
    | .error _ => exact fun paste hpaste => absurd hpaste List.not_mem_nil
    | .ok pastes => exact fun paste hpaste => hpastes.2 _ (List.mem_map_of_mem hpaste)

/-! ## The requests that add items -/

theorem mild_perform {op : Op} (h : op.Mild) :
    (Prog.perform op).Obeys (Prog.justice Tells Op.facts (Permitted env req) known) (fun _ _ => True) () :=
  ⟨h.permitted, fun _ _ _ => trivial⟩

theorem mild_of_none {op : Op} (h : op.area = none) : op.Mild :=
  mild_of_within (S := []) (fun _ ha => absurd ha List.not_mem_nil) (within_of_none h)

theorem mild_insertFile (row : FileRow) (columns : FileColumns) : (Op.insertFile row columns).Mild :=
  ⟨fun _ => id, fun _ => id⟩

theorem mild_insertPaste (row : PasteRow) : (Op.insertPaste row).Mild := ⟨fun _ => id, fun _ => id⟩

theorem mild_linkThumb (core : Core) (key : SafeKey) : (Op.linkThumb core key).Mild := ⟨fun _ => id, fun _ => id⟩

theorem lawful_claimNewCore (draws : Fin 5 → Core) : Lawful env req known (fun _ => True) (claimNewCore draws) :=
  .bind (P := fun _ => True) (obeys_always.2 (justified_storage (.claimCore _))) fun _ _ => Lawful.skip .check fun _ =>
    Lawful.read .orThrow .trivially

theorem lawful_storeUpload (plan : UploadPlan) (upload : UploadRequest) :
    Lawful env req known (fun _ => True) (storeUpload env plan upload) := by
  unfold storeUpload
  split
  · rename_i hlen
    refine .bind (P := fun _ => True) (Prog.Obeys.interp_fallible ?_
      (DeletesNoFile.uploadInner env.sha256 (plan.upload env ⟨plan.bytes, hlen⟩ upload))) fun _ _ =>
        Lawful.read .check .trivially
    intro _ op hop
    cases op with
    | insertFile row =>
      exact (obeys_bind _ _).2 (obeys_orThrow.2 ⟨fun _ => trivial, fun name _ =>
        ⟨(mild_insertFile row _).permitted, fun _ _ _ => trivial⟩⟩)
    | _ => exact ⟨(mild_storage hop).permitted, fun _ _ _ => trivial⟩
  · exact .bind (lawful_claimNewCore _) fun _ _ => Lawful.read .throw .throw

theorem lawful_upload (upload : UploadRequest) :
    Lawful env req known (fun _ => True) (Server.upload env caller upload) :=
  Lawful.skip (.always (only_currentIdentity env caller)) fun _ =>
    Lawful.skip (only_requireScopeIfBearer caller _ _) fun _ => Lawful.skip (.read rfl) fun cfg =>
      .reject fun _ => .reject fun _ => Lawful.skip (only_effectiveLimits cfg _) fun limits =>
        Lawful.skip (only_quotaRemaining _ limits) fun _ => Lawful.skip .check fun form =>
          Lawful.skip (only_uploadPlan env cfg limits _ upload form) fun plan =>
            .bind (lawful_storeUpload plan upload) fun _ _ => .ite (fun _ => .pure trivial) fun _ => .pure trivial

theorem lawful_createPaste (paste : PasteRequest) :
    Lawful env req known (fun _ => True) (createPaste env caller paste) :=
  Lawful.skip (.always (only_currentIdentity env caller)) fun _ =>
    Lawful.skip (only_requireScopeIfBearer caller _ _) fun _ => Lawful.skip (.read rfl) fun cfg => .reject fun _ =>
      Lawful.skip (only_effectiveLimits cfg _) fun limits =>
        Lawful.skip (only_pasteColumns env limits _ _ paste) fun _ => .bind (lawful_claimNewCore _) fun _ _ =>
          .bind (Lawful.ask (mild_insertPaste _).permitted) fun _ _ =>
            .ite (fun _ => .pure trivial) fun _ => .pure trivial

theorem justified_ensureThumbnail (file : File) (frame : Option Content) :
    (ensureThumbnail env file frame).Obeys (Prog.justice Tells Op.facts (Permitted env req) known)
      (fun _ _ => True) () := by
  have hbind : ∀ {α β : Type} {p : Query α} {f : α → Query β},
      p.Obeys (Prog.justice Tells Op.facts (Permitted env req) known) (fun _ _ => True) () →
      (∀ a, (f a).Obeys (Prog.justice Tells Op.facts (Permitted env req) known) (fun _ _ => True) ()) →
      (p >>= f).Obeys (Prog.justice Tells Op.facts (Permitted env req) known) (fun _ _ => True) () :=
    fun hp hf => (Prog.obeys_bind _ _ _).2 (hp.mono fun a _ _ => hf a)
  unfold ensureThumbnail
  split
  · trivial
  · split
    · trivial
    · refine hbind (mild_perform (mild_of_none rfl)) fun r => ?_
      match r with
      | .error _ => trivial
      | .ok delivery =>
        simp only
        split
        · refine hbind (justified_storage (.of_objects (.storeThumbnail _ _ _))) fun key => ?_
          match key with
          | none => trivial
          | some key =>
            refine hbind (mild_perform (mild_linkThumb _ key)) fun r => ?_
            match r with
            | .error _ => trivial
            | .ok linked =>
              simp only
              split
              · refine hbind (justified_storage (.of_objects (.rollbackObject key))) fun _ =>
                  hbind (mild_perform (mild_of_none rfl)) fun r => ?_
                match r with
                | .ok row => trivial
                | .error _ => trivial
              · trivial
        · trivial

/-! ## The requests -/

end Handlers

/-- **No request performs more than it is permitted**, knowing what it has been told. -/
theorem justified_serveAuth (env : Env) (req : AuthRequest) :
    (serveAuth env req).Justified Tells Op.facts (Permitted env req) := by
  intro known
  by_cases hareas : ∀ a ∈ req.areas, a ∉ Area.delicate
  · exact (obeys_mild (mild_only hareas (serveAuth_only env req)) (Prog.Obeys.trivially _)).mono fun _ _ _ => trivial
  · cases req with
    | served req =>
      cases req with
      | upload caller upload => exact (lawful_upload upload).run
      | raw caller password segment => exact (lawful_raw password segment).run
      | deleteFile caller segment token => exact (lawful_deleteFile segment token).run
      | toggleFile caller segment visibility => exact (lawful_toggleFile segment visibility).run
      | createPaste caller paste => exact (lawful_createPaste paste).run
      | rawPaste caller password segment => exact (lawful_rawPaste password segment).run
      | deletePaste caller segment token => exact (lawful_deletePaste segment token).run
      | togglePaste caller segment visibility => exact (lawful_togglePaste segment visibility).run
      | dashboardDeleteFile caller segment => exact (lawful_dashboardDeleteFile segment).run
      | dashboardFileVisibility caller segment visibility =>
        exact (lawful_dashboardFileVisibility segment visibility).run
      | dashboardDeletePaste caller segment => exact (lawful_dashboardDeletePaste segment).run
      | dashboardPasteVisibility caller segment visibility =>
        exact (lawful_dashboardPasteVisibility segment visibility).run
      | backfill file frame =>
        exact (Prog.obeys_bind _ _ _).2 ((justified_ensureThumbnail file frame).mono fun _ _ _ => trivial)
      | sweep => exact (Prog.obeys_bind _ _ _).2 (justified_sweep.mono fun _ _ _ => trivial)
      | _ => exact absurd (by simp [AuthRequest.areas, Request.areas, Area.delicate]) hareas
    | _ => exact absurd (by simp [AuthRequest.areas, Area.delicate]) hareas

/-! ## Items that stay -/

/-- The row of the item, if there is one, has this visibility. -/
def World.Visible (w : World) (visibility : Visibility) : Item → Prop
  | .file core => ∀ row ∈ w.dedupe.files.rows, row.idCore = core → (w.fileColumns row.idCore).visibility = visibility
  | .paste core => ∀ row ∈ w.pastes, row.idCore = core → row.visibility = visibility

/-- The row of the item is there, with these guards and this visibility. -/
structure World.Stands (w : World) (guards : Guards) (visibility : Visibility) (item : Item) : Prop where
  has : w.Has item
  guarded : w.Guarded guards item
  visible : w.Visible visibility item

section Stands

variable {mayFail : Op → Prop} {w w' : World} {op : Op} {r : op.Res} {item : Item} {guards : Guards}
  {visibility : Visibility}

/-- A row stays unless it is removed. -/
theorem exec_has_kept (h : exec mayFail w op r w') (hop : ¬ op.Removes item) (hw : w.Has item) : w'.Has item := by
  cases op with
  | storage op =>
    obtain ⟨dedupe, rfl, hdedupe⟩ := exec_storage h
    cases item with
    | file core =>
      obtain ⟨row, hrow, rfl⟩ := hw
      refine ⟨row, exec_files_kept hdedupe ?_ hrow, rfl⟩
      rintro rfl
      exact hop rfl
    | paste core => exact hw
  | insertFile new columns =>
    rcases exec_insertFile h with ⟨-, -, rfl⟩ | ⟨-, rfl⟩
    · cases item with
      | file core =>
        obtain ⟨row, hrow, hcore⟩ := hw
        exact ⟨row, List.mem_cons_of_mem _ hrow, hcore⟩
      | paste core => exact hw
    · exact hw
  | linkThumb core key =>
    rcases exec_statement h rfl with heq | ⟨-, -, rfl⟩
    · simp only [answer] at heq
      split at heq
      · cases heq
        cases item with
        | file core' =>
          obtain ⟨row, hrow, rfl⟩ := hw
          cases hlinked : (row.idCore = core && row.thumbKey.isNone : Bool) with
          | false => exact ⟨row, mem_updateWhere.2 (.inl ⟨hrow, hlinked⟩), rfl⟩
          | true => exact ⟨_, mem_updateWhere.2 (.inr ⟨row, hrow, hlinked, rfl⟩), rfl⟩
        | paste core' => exact hw
      · cases heq
        exact hw
    · exact hw
  | insertPaste new =>
    rcases exec_insertPaste h with ⟨pastes, hinsert, -, rfl⟩ | ⟨-, rfl⟩
    · cases item with
      | file core => exact hw
      | paste core =>
        obtain ⟨row, hrow, hcore⟩ := hw
        exact ⟨row, (Keyed.mem_insert? hinsert).2 (.inr hrow), hcore⟩
    · exact hw
  | setPasteVisibility core visibility =>
    rcases exec_statement h rfl with heq | ⟨-, -, rfl⟩
    · cases heq
      cases item with
      | file core' => exact hw
      | paste core' =>
        obtain ⟨row, hrow, rfl⟩ := hw
        cases hset : (decide (row.idCore.val = core)) with
        | false => exact ⟨row, mem_updateWhere.2 (.inl ⟨hrow, hset⟩), rfl⟩
        | true => exact ⟨_, mem_updateWhere.2 (.inr ⟨row, hrow, hset, rfl⟩), rfl⟩
    · exact hw
  | deletePaste core =>
    rcases exec_statement h rfl with heq | ⟨-, -, rfl⟩
    · cases heq
      cases item with
      | file core' => exact hw
      | paste core' =>
        obtain ⟨row, hrow, rfl⟩ := hw
        have hother : row.idCore.val ≠ core := hop
        exact ⟨row, Keyed.mem_delete.2 ⟨hrow, decide_eq_false hother⟩, rfl⟩
    · exact hw
  | _ =>
    obtain ⟨_, _, rfl⟩ := exec_frame h
    cases item <;> exact hw

/-- A row keeps its visibility unless that is set. -/
theorem exec_visible (h : exec mayFail w op r w') (hop : ¬ op.SetsVisibility item) (hnew : op.newItem r ≠ some item)
    (hw : w.Visible visibility item) : w'.Visible visibility item := by
  cases op with
  | storage op =>
    obtain ⟨dedupe, rfl, hdedupe⟩ := exec_storage h
    cases item with
    | file core =>
      rintro row hrow rfl
      by_cases hinsert : op.isInsertFile = false
      · exact hw row (exec_files hdedupe hinsert hrow) rfl
      · cases op with
        | insertFile new =>
          rcases Dedupe.exec_insertFile hdedupe with ⟨_, rfl, rfl⟩ | ⟨_, -, rfl⟩
          · rcases List.mem_cons.1 hrow with rfl | hrow
            · exact absurd rfl hnew
            · exact hw row hrow rfl
          · exact hw row hrow rfl
        | _ => exact absurd rfl hinsert
    | paste core => exact hw
  | insertFile new columns =>
    rcases exec_insertFile h with ⟨-, rfl, rfl⟩ | ⟨-, rfl⟩
    · cases item with
      | file core =>
        have hother : new.idCore ≠ core := fun heq => hnew (heq ▸ rfl)
        rintro row hrow rfl
        rcases List.mem_cons.1 hrow with rfl | hrow
        · exact absurd rfl hother
        · simpa [hother.symm] using hw row hrow rfl
      | paste core => exact hw
    · exact hw
  | setFileVisibility core visibility =>
    rcases exec_setFileVisibility h with ⟨changed, -, hchanged, rfl⟩ | rfl
    · cases item with
      | file core' =>
        rintro row hrow rfl
        have hother : row.idCore ≠ changed.idCore := fun heq => hop ((congrArg Subtype.val heq).trans hchanged)
        simpa [hother] using hw row hrow rfl
      | paste core' => exact hw
    · exact hw
  | linkThumb core key =>
    rcases exec_statement h rfl with heq | ⟨-, -, rfl⟩
    · simp only [answer] at heq
      split at heq
      · cases heq
        cases item with
        | file core' =>
          rintro row hrow rfl
          rcases mem_updateWhere.1 hrow with ⟨hold, -⟩ | ⟨old, hold, -, rfl⟩
          · exact hw row hold rfl
          · exact hw old hold rfl
        | paste core' => exact hw
      · cases heq
        exact hw
    · exact hw
  | insertPaste new =>
    rcases exec_insertPaste h with ⟨pastes, hinsert, rfl, rfl⟩ | ⟨-, rfl⟩
    · cases item with
      | file core => exact hw
      | paste core =>
        rintro row hrow rfl
        rcases (Keyed.mem_insert? hinsert).1 hrow with rfl | hrow
        · exact absurd rfl hnew
        · exact hw row hrow rfl
    · exact hw
  | setPasteVisibility core visibility =>
    rcases exec_statement h rfl with heq | ⟨-, -, rfl⟩
    · cases heq
      cases item with
      | file core' => exact hw
      | paste core' =>
        rintro row hrow rfl
        rcases mem_updateWhere.1 (Keyed.mem_def.1 hrow) with ⟨hold, -⟩ | ⟨old, hold, hset, rfl⟩
        · exact hw row hold rfl
        · exact absurd (of_decide_eq_true hset) hop
    · exact hw
  | deletePaste core =>
    rcases exec_statement h rfl with heq | ⟨-, -, rfl⟩
    · cases heq
      cases item with
      | file core' => exact hw
      | paste core' => exact fun row hrow hcore => hw row (Keyed.mem_delete.1 hrow).1 hcore
    · exact hw
  | _ =>
    obtain ⟨_, _, rfl⟩ := exec_frame h
    cases item <;> exact hw

/-- **An operation that neither removes the item nor sets its visibility** leaves it as it is. -/
theorem exec_stands (h : exec mayFail w op r w') (hremoves : ¬ op.Removes item) (hsets : ¬ op.SetsVisibility item)
    (hnew : op.newItem r ≠ some item) (hw : w.Stands guards visibility item) :
    w'.Stands guards visibility item :=
  ⟨exec_has_kept h hremoves hw.has, exec_guarded h hnew hw.guarded, exec_visible h hsets hnew hw.visible⟩

end Stands

/-! ## Every run -/

/-- Why a request may remove an item that has these guards now. -/
def Entitled (env : Env) (req : AuthRequest) (known : Fact → Prop) (now : ℤ) (guards : Guards) (item : Item) : Prop :=
  MayRemove env known req guards item ∨ req = .served .sweep ∧ expired guards.expiresAt now = true

section Runs

variable {env : Env} {mayFail : Op → Prop} {h₀ : World × Inserted}
  {p q : Pool (World × Inserted) (AuthRequest × Multiset Fact) Op Op.Res Outcome} {req : AuthRequest}
  {g : Multiset Fact} {op : Op} {k : op.Res → Query Outcome} {item : Item} {guards : Guards}

/-- Who is about to remove an item has grounds against the row that is there now. -/
theorem entitled_removes (h₀once : Once h₀ 0) (hp : Told env mayFail h₀ p) (ht : ((req, g), .call op k) ∈ p.threads)
    (hitem : p.shared.1.Has item) (hguards : p.shared.1.Guarded guards item) (hop : op.Removes item) :
    Entitled env req (· ∈ g) p.shared.1.now guards item := by
  have hpermitted := hp.justified (fun _ _ _ _ hexec => exec_told hexec.1) (justified_serveAuth env) ht
  rcases hpermitted.removes item hop with ⟨shown, hshown, hgrounds⟩ | ⟨shown, hsweep, hshown⟩
  · obtain ⟨-, hguarded⟩ := told_holds h₀once hp _ ht _ hshown
    obtain rfl := hguarded.unique hguards hitem
    exact .inl hgrounds
  · obtain ⟨-, hguarded, hexpired⟩ := told_holds h₀once hp _ ht _ hshown
    obtain rfl := hguarded.unique hguards hitem
    exact .inr ⟨hsweep, hexpired⟩

/-- Who is about to set the visibility of an item acts for its owner. -/
theorem entitled_sets (h₀once : Once h₀ 0) (hp : Told env mayFail h₀ p) (ht : ((req, g), .call op k) ∈ p.threads)
    (hitem : p.shared.1.Has item) (hguards : p.shared.1.Guarded guards item) (hop : op.SetsVisibility item) :
    ForOwner env (· ∈ g) req guards := by
  have hpermitted := hp.justified (fun _ _ _ _ hexec => exec_told hexec.1) (justified_serveAuth env) ht
  obtain ⟨shown, hshown, howner⟩ := hpermitted.sets item hop
  obtain ⟨-, hguarded⟩ := told_holds h₀once hp _ ht _ hshown
  obtain rfl := hguarded.unique hguards hitem
  exact howner

/-- One step of a run in which requests carry what they have been told. -/
abbrev ToldStep (env : Env) (mayFail : Op → Prop) :
    Pool (World × Inserted) (AuthRequest × Multiset Fact) Op Op.Res Outcome →
    Pool (World × Inserted) (AuthRequest × Multiset Fact) Op Op.Res Outcome → Prop :=
  Tracked.Step (Tracked.learn Op.facts) (fun _ _ _ _ => True) (fun _ _ => True) (serveAuth env)
    (logged recordItem (exec mayFail))

theorem not_sets_of_removes (h : op.Removes item) : ¬ op.SetsVisibility item := by
  cases op with
  | storage op => exact id
  | deletePaste core => exact id
  | _ => exact h.elim

/-- An item that a step changes is changed by a request with grounds. -/
theorem entitled_step (h₀once : Once h₀ 0) (hp : Told env mayFail h₀ p) (hstep : ToldStep env mayFail p q)
    {visibility : Visibility} (hstands : p.shared.1.Stands guards visibility item) :
    q.shared.1.Stands guards visibility item ∨
      ∃ req g, (∃ prog, ((req, g), prog) ∈ p.threads) ∧
        ((¬ q.shared.1.Has item ∧ Entitled env req (· ∈ g) p.shared.1.now guards item) ∨
          q.shared.1.Has item ∧ q.shared.1.Guarded guards item ∧ ForOwner env (· ∈ g) req guards) := by
  have hq : Told env mayFail h₀ q := hp.tail hstep
  have honce := told_once h₀once hq
  have hlogged := (told_once h₀once hp).logged item hstands.has
  cases hstep with
  | spawn s ts i => exact .inl hstands
  | leave h => exact .inl hstands
  | @act s s' pre post i g op k r _ hexec =>
    have ht : ((i, g), Prog.call op k) ∈ pre ++ ((i, g), Prog.call op k) :: post := List.mem_append_cons_self
    have hnew := newItem_ne honce hexec hlogged
    by_cases hremoves : op.Removes item
    · by_cases hhas : s'.1.Has item
      · -- the removal has failed
        exact .inl ⟨hhas, exec_guarded hexec.1 hnew hstands.guarded,
          exec_visible hexec.1 (not_sets_of_removes hremoves) hnew hstands.visible⟩
      · exact .inr ⟨i, g, ⟨_, ht⟩, .inl ⟨hhas, entitled_removes h₀once hp ht hstands.has hstands.guarded hremoves⟩⟩
    · by_cases hsets : op.SetsVisibility item
      · exact .inr ⟨i, g, ⟨_, ht⟩, .inr ⟨exec_has_kept hexec.1 hremoves hstands.has,
          exec_guarded hexec.1 hnew hstands.guarded,
          entitled_sets h₀once hp ht hstands.has hstands.guarded hsets⟩⟩
      · exact .inl (exec_stands hexec.1 hremoves hsets hnew hstands)

/-- **Only who may removes an item or sets its visibility.**  In every run from an empty instance, whatever requests
interleave, fail or stop: a file or a paste that is there stays, with its owner, its expiry, its passwords and its
visibility, unless a request takes a step that removes it or sets its visibility; and then the request has grounds
for that against the row as it is now, however long ago it has read it.  To remove it is for who acts for its owner,
for who brings its delete token, for the read of an item that is read once, if it has given the password, and for the
sweeper, if it has expired; to set its visibility is for who acts for its owner. -/
theorem entitled (env : Env) (mayFail : Op → Prop) (hp : Told env mayFail (World.empty, []) p)
    (hstep : ToldStep env mayFail p q) {visibility : Visibility}
    (hstands : p.shared.1.Stands guards visibility item) :
    q.shared.1.Stands guards visibility item ∨
      ∃ req g, (∃ prog, ((req, g), prog) ∈ p.threads) ∧
        ((¬ q.shared.1.Has item ∧ Entitled env req (· ∈ g) p.shared.1.now guards item) ∨
          q.shared.1.Has item ∧ q.shared.1.Guarded guards item ∧ ForOwner env (· ∈ g) req guards) :=
  entitled_step once_empty hp hstep hstands

end Runs

/-- Somebody makes a paste, and somebody else is about to delete it with its token. -/
def tokenTurns : List (Tracked.Turn AuthRequest Unit) :=
  .spawn (.served (pasteRequest fun _ => coreA)) :: List.replicate 5 (.act 0 ()) ++
    .spawn (.served (.deletePaste anonymous coreA.val (some []))) :: List.replicate 2 (.act 0 ())

def tokenPool : Pool (World × Inserted) (AuthRequest × Multiset Fact) Op Op.Res Outcome :=
  Tracked.play (Tracked.learn Op.facts) (serveAuth .plain) (fun _ => answerLogged) (World.empty, []) tokenTurns

/-- The paste is gone. -/
def tokenUsedPool : Pool (World × Inserted) (AuthRequest × Multiset Fact) Op Op.Res Outcome :=
  Tracked.turn (Tracked.learn Op.facts) (serveAuth .plain) (fun _ => answerLogged) tokenPool (.act 0 ())

/-- The guards of the paste. -/
def tokenGuards : Guards := ⟨none, false, none, some 86400, some []⟩

theorem told_tokenPool : Told .plain (fun _ => False) (World.empty, []) tokenPool :=
  @Tracked.reachable_play _ _ _ _ _ _ _ _ _ _ _ _ Unit _ (fun _ _ _ _ _ => true) (fun _ _ => true)
    (fun _ h _ _ op _ => ⟨trivial, exec_answer _ h.1 op, rfl⟩) (fun _ _ _ => trivial) (World.empty, []) tokenTurns
    (by rfl)

theorem stands_tokenPool : tokenPool.shared.1.Stands tokenGuards .unlisted (.paste coreA) where
  has := ⟨_, List.mem_cons_self, rfl⟩
  guarded := fun row hrow _ => by
    cases List.mem_singleton.1 hrow
    rfl
  visible := fun row hrow _ => by
    cases List.mem_singleton.1 hrow
    rfl

theorem entitled_tokenPool : ¬ tokenUsedPool.shared.1.Has (.paste coreA) ∧
    (tokenUsedPool.shared.1.Stands tokenGuards .unlisted (.paste coreA) ∨
      ∃ req g, (∃ prog, ((req, g), prog) ∈ tokenPool.threads) ∧
        ((¬ tokenUsedPool.shared.1.Has (.paste coreA) ∧
            Entitled .plain req (· ∈ g) tokenPool.shared.1.now tokenGuards (.paste coreA)) ∨
          tokenUsedPool.shared.1.Has (.paste coreA) ∧ tokenUsedPool.shared.1.Guarded tokenGuards (.paste coreA) ∧
            ForOwner .plain (· ∈ g) req tokenGuards)) := by
  refine ⟨?_, entitled .plain (fun _ => False) told_tokenPool ?_ stands_tokenPool⟩
  · rintro ⟨row, hrow, -⟩
    exact absurd hrow List.not_mem_nil
  · refine @Tracked.act_step _ _ _ _ _ _ _ _ _ _ _ _ _ _ tokenPool 0 () _ _ _ _ (by rfl) trivial ?_
    exact ⟨exec_answer _ _ _, rfl⟩

end Server
end Uwuubox
