import Uwuubox.Dedupe.Balance
import Uwuubox.Server.FileNames
import Uwuubox.Server.Links
import Uwuubox.Server.SpoolFiles

/-!
# Reference accounting on the server

Requests one after another, from an instance without files.  Everything may fail but what gives references back
and the link of a thumbnail to its row.

* `InBalance`, `Settles` — the accounts between two requests, and the programs that keep them, with one rule for
  each way to build one.
* `Plans`, `Request.Stores`, `Request.Nameable` — what an upload that passes its checks is going to store, and
  whether its name can be cut.
* `inBalance_serve` — **one request keeps the accounts**, if its name can be cut.
* `accounts_sound` — so they are right after every sequence of such requests; removals leave what the other files
  read alone.
* `accounts_broken` — one upload of a name that cannot be cut.
-/

namespace Uwuubox
namespace Server

open Dedupe Storage Fallible

/-- Everything may fail but what gives references back, and the link of a thumbnail. -/
def Op.MayFail : Op → Prop
  | storage op => op.isRelease = false
  | linkThumb _ _ => False
  | _ => True

/-- Nothing is held, and nothing is missing. -/
def InBalance (env : Env) (known : Bytes → Prop) (w : World) : Prop :=
  Dedupe.Balanced env.sha256 known noPins 0 none w.dedupe

section

variable {env : Env} {known : Bytes → Prop} {α β : Type} {w w' : World} {S : List Area}

/-! ## What keeps the accounts -/

theorem inBalance_of_eq (h : InBalance env known w) (heq : w'.dedupe = w.dedupe) : InBalance env known w' := by
  unfold InBalance
  rwa [heq]

/-- A query that keeps the accounts. -/
def Query.Settles (env : Env) (known : Bytes → Prop) (p : Query α) : Prop :=
  ∀ w, InBalance env known w → Query.Triple Op.MayFail w p fun _ => InBalance env known

/-- A handler that keeps the accounts, however it ends. -/
def Settles (env : Env) (known : Bytes → Prop) (p : Handler α) : Prop :=
  ∀ w, InBalance env known w → Triple Op.MayFail w p (fun _ => InBalance env known) fun _ => InBalance env known

/-- What works on the storage part does on the server what it does alone. -/
theorem obeys_dedupe {π : Protocol World DbOp DbOp.Res} (hmay : ∀ w op, π.may w op)
    (hnext : ∀ w op r w', π.next w op r w' → execSome w.dedupe op r w'.dedupe) {p : Dedupe.Handler α}
    {fin : α → Dedupe.World → Prop} (h : p.Obeys (.ofExec execSome) fin w.dedupe) :
    p.Obeys π (fun a w' => fin a w'.dedupe) w := by
  refine (Prog.Obeys.simulate (fun dedupe w => dedupe = w.dedupe) (fun _ _ => hmay _ _) ?_ h rfl).mono ?_
  · rintro _ w op r w' rfl - hstep
    exact ⟨w'.dedupe, hnext w op r w' hstep, rfl⟩
  · rintro a w' ⟨_, rfl, hfin⟩
    exact hfin

theorem triple_storage {p : Dedupe.Handler α} {fin : α → Dedupe.World → Prop}
    (h : p.Obeys (.ofExec execSome) fin w.dedupe) :
    Query.Triple Op.MayFail w (storage p) fun a w' => fin a w'.dedupe := by
  refine obeys_storage (obeys_dedupe (fun _ _ => trivial) (fun w op r w' hexec => ?_) h)
  obtain ⟨dedupe, rfl, hdedupe⟩ := exec_storage hexec
  exact hdedupe

namespace Query.Settles

theorem pure {a : α} : Query.Settles env known (pure a) := fun _ hw => hw

theorem bind {p : Query α} {f : α → Query β} (hp : Query.Settles env known p)
    (hf : ∀ a, Query.Settles env known (f a)) : Query.Settles env known (p >>= f) := fun w hw =>
  (Prog.obeys_bind _ _ _).2 ((hp w hw).mono fun a w' hw' => hf a w' hw')

/-- What writes to other areas. -/
theorem of_only {p : Query α} (h : Query.Only S p) (hS : Area.files ∉ S ∧ Area.newFiles ∉ S) :
    Query.Settles env known p := by
  intro w hw
  refine (Prog.Obeys.simulate (fun _ => InBalance env known) (fun _ _ => trivial) ?_ h hw).mono ?_
  · intro _ w op r w' hw hop hexec
    refine ⟨(), trivial, inBalance_of_eq hw (exec_dedupe hexec ?_ ?_)⟩
    · exact fun harea => hS.1 (hop _ harea)
    · exact fun harea => hS.2 (hop _ harea)
  · rintro a w' ⟨_, hw', -⟩
    exact hw'

theorem storage {p : Dedupe.Handler α} (h : ∀ w, Dedupe.Balanced env.sha256 known noPins 0 none w →
    p.Obeys (.ofExec execSome) (fun _ => Dedupe.Balanced env.sha256 known noPins 0 none) w) :
    Query.Settles env known (storage p) := fun w hw => triple_storage (h w.dedupe hw)

end Query.Settles

namespace Settles

theorem pure {a : α} : Settles env known (pure a : Handler α) := fun _ hw => hw

theorem bind {p : Handler α} {f : α → Handler β} (hp : Settles env known p) (hf : ∀ a, Settles env known (f a)) :
    Settles env known (p >>= f) := fun w hw =>
  (obeys_bind _ _).2 ((hp w hw).mono (fun a w' hw' => hf a w' hw') fun _ _ hw' => hw')

theorem always {p : Query α} (hp : Query.Settles env known p) : Settles env known (always p) := fun w hw =>
  obeys_always.2 (hp w hw)

/-- What writes to other areas. -/
theorem of_only {p : Handler α} (h : Only S p) (hS : Area.files ∉ S ∧ Area.newFiles ∉ S) :
    Settles env known p := by
  intro w hw
  refine Prog.Obeys.mono (Query.Settles.of_only h.run hS w hw) fun r w' hw' => ?_
  cases r <;> exact hw'

/-- What writes nothing. -/
theorem reads {p : Handler α} (h : Only [] p) : Settles env known p := of_only h (by decide)

theorem skip {p : Handler α} {f : α → Handler β} (hp : Only [] p) (hf : ∀ a, Settles env known (f a)) :
    Settles env known (p >>= f) := bind (reads hp) hf

theorem ite {c : Prop} [Decidable c] {p q : Handler α} (hp : Settles env known p) (hq : Settles env known q) :
    Settles env known (if c then p else q) := by
  split
  · exact hp
  · exact hq

theorem run {p : Handler α} (h : Settles env known p) : Query.Settles env known p.run := fun w hw =>
  Prog.Obeys.mono (h w hw) fun r w' hw' => by
    cases r <;> exact hw'

end Settles

/-! ## The handlers -/

/-- A removal leaves the other rows of files alone. -/
theorem triple_removeFile (hw : InBalance env known w) (core : Core) :
    Triple Op.MayFail w (removeFile core)
      (fun _ w' => InBalance env known w' ∧
        ∀ file ∈ w.dedupe.files.rows, file.idCore ≠ core → file ∈ w'.dedupe.files.rows)
      fun _ w' => InBalance env known w' ∧
        ∀ file ∈ w.dedupe.files.rows, file.idCore ≠ core → file ∈ w'.dedupe.files.rows :=
  (obeys_bind _ _).2 (obeys_always.2 ((triple_storage (balanced_removeFile hw core)).mono fun _ _ h =>
    obeys_check.2 ⟨fun _ _ => h, fun _ _ => h⟩))

theorem settles_removeFile (core : Core) : Settles env known (removeFile core) := fun _ hw =>
  (triple_removeFile hw core).mono (fun _ _ h => h.1) fun _ _ h => h.1

theorem settles_claimNewCore (draws : Fin 5 → Core) : Settles env known (claimNewCore draws) :=
  .bind (.always (.storage fun _ hw => balanced_claimCore hw _))
    fun _ => .reads (.bind .check fun _ => .orThrow)

theorem settles_burnRead (file : File) (outcome : RangeOutcome) : Settles env known (burnRead file outcome) :=
  .skip (.read rfl) fun _ => .skip .check fun _ => .skip .reject fun _ =>
    .bind (settles_removeFile file.idCore) fun _ => .reads (.bind .reject fun _ => .check)

theorem settles_raw (caller : Caller) (password : Option Text) (segment : Text) :
    Settles env known (raw env caller password segment) := by
  refine .skip (only_loadLiveFile segment) fun file => .skip (only_checkPassword env _ _ _ _) fun _ =>
    .skip .check fun header => .skip .reject fun _ => .ite ?_ (.ite (settles_burnRead file _) ?_)
  · exact .reads .check
  · exact .reads (only_streamRead file _)

theorem settles_deleteFile (caller : Caller) (segment : Text) (deleteToken : Option Text) :
    Settles env known (deleteFile env caller segment deleteToken) :=
  .skip (.always (only_currentUser env caller)) fun _ => .skip (.read rfl) fun _ => .skip .orThrow fun row =>
    .skip .reject fun _ => .bind (settles_removeFile row.idCore) fun _ => .pure

theorem settles_dashboardDeleteFile (caller : Caller) (segment : Text) :
    Settles env known (dashboardDeleteFile env caller segment) :=
  .skip (only_requireUser env caller) fun _ => .skip (.read rfl) fun _ => .skip .orThrow fun row =>
    .skip .reject fun _ => .bind (settles_removeFile row.idCore) fun _ => .pure

theorem settles_createPaste (caller : Caller) (req : PasteRequest) :
    Settles env known (createPaste env caller req) := by
  refine .skip (.always (only_currentIdentity env caller)) fun _ =>
    .skip (only_requireScopeIfBearer caller _ _) fun _ => .skip (.read rfl) fun cfg => .skip .reject fun _ =>
    .skip (only_effectiveLimits cfg _) fun limits => .skip (only_pasteColumns env limits _ _ req) fun _ =>
    .bind (settles_claimNewCore _) fun _ => ?_
  exact .of_only (S := [.newPastes]) (.bind (.ask (within_of_some rfl List.mem_cons_self)) fun _ => .ite .pure .pure)
    (by decide)

theorem settles_sweepFiles (files : List File) : Query.Settles env known (sweepFiles files) := by
  induction files with
  | nil => exact .pure
  | cons file rest ih =>
    exact .bind (.storage fun _ hw => (balanced_removeFile hw _).mono fun _ _ h => h.1) fun _ => ih

theorem settles_sweep : Query.Settles env known sweep := by
  refine .bind (.of_only (S := []) (.perform (within_of_none rfl)) (by decide)) fun files =>
    .bind (settles_sweepFiles _) fun _ => ?_
  exact .of_only (S := [.pastes]) (.bind (.perform (within_of_none rfl)) fun _ => only_sweepPastes _ List.mem_cons_self)
    (by decide)

/-- The link of a thumbnail succeeds: the row gets it, or there is none that needs it. -/
theorem exec_linkThumb {core : Core} {key : SafeKey} {r : (Op.linkThumb core key).Res}
    (h : exec Op.MayFail w (.linkThumb core key) r w') :
    (∃ row ∈ w.dedupe.files.rows, row.idCore = core ∧ row.thumbKey = none ∧ r = .ok 1 ∧
      w' = { w with dedupe := { w.dedupe with files := w.dedupe.files.linkThumb core key } }) ∨
    r = .ok 0 ∧ w' = w := by
  have heq := h.resolve_right fun hfails => hfails.1
  simp only [answer] at heq
  split at heq
  · rename_i hany
    obtain ⟨row, hrow, hthumb⟩ := List.any_eq_true.1 hany
    simp only [Bool.and_eq_true, decide_eq_true_eq, Option.isNone_iff_eq_none] at hthumb
    cases heq
    exact .inl ⟨row, hrow, hthumb.1, hthumb.2, rfl, rfl⟩
  · cases heq
    exact .inr ⟨rfl, rfl⟩

/-- **A backfill** links its thumbnail, or gives it back. -/
theorem settles_ensureThumbnail (file : File) {frame : Option Content}
    (hframe : ∀ jpeg, frame = some jpeg → known jpeg.bytes) :
    Query.Settles env known (ensureThumbnail env file frame) := by
  unfold ensureThumbnail
  split
  · exact .pure
  · split
    · exact .pure
    · intro w hw
      refine ⟨trivial, fun r w₁ hexec => ?_⟩
      obtain rfl := exec_read hexec rfl
      cases r with
      | error _ => exact hw
      | ok delivery =>
        simp only [Prog.bind]
        split
        · rename_i _ _ jpeg _
          refine (Prog.obeys_bind _ _ _).2 ((triple_storage (balanced_storeThumbnail hw _ (hframe jpeg rfl))).mono ?_)
          intro key w₂ hkey
          cases key with
          | none => exact hkey
          | some key =>
            refine ⟨trivial, fun r w₃ hexec => ?_⟩
            rcases exec_linkThumb hexec with ⟨row, hrow, hcore, hnone, rfl, rfl⟩ | ⟨rfl, rfl⟩
            · have hlinked := Dedupe.Balanced.linkThumb hkey hrow hnone
              rw [hcore] at hlinked
              exact hlinked
            · show Query.Triple Op.MayFail w₃ (storage (rollbackThumbnail key) >>= _) _
              refine (Prog.obeys_bind _ _ _).2
                ((triple_storage (balanced_rollbackObject hkey (fun _ heq => by cases heq) fun _ _ hpin => hpin.elim)).mono fun _ w₄ hback => ?_)
              refine ⟨trivial, fun r w₅ hexec => ?_⟩
              obtain rfl := exec_read hexec rfl
              cases r with
              | ok row => exact hback
              | error _ => exact hback
        · exact hw

/-! ## Uploads -/

/-- What the upload is going to store, if its checks pass. -/
def plannedUpload (env : Env) (caller : Caller) (req : UploadRequest) : Handler UploadPlan := do
  let admission ← admitUpload env caller req.limiterAllows
  let form ← check (readFields admission.cap req.fields)
  uploadPlan env admission.cfg admission.limits admission.user req form

/-- The upload passes its checks with this plan. -/
def Plans (env : Env) (w : World) (caller : Caller) (req : UploadRequest) (plan : UploadPlan) : Prop :=
  ∃ w', (plannedUpload env caller req).run.Runs (exec Op.MayFail) w (.ok plan) w'

theorem only_plannedUpload (caller : Caller) (req : UploadRequest) : Only S (plannedUpload env caller req) := by
  unfold plannedUpload admitUpload
  refine .bind (.bind (.always (only_currentIdentity env caller)) fun _ =>
    .bind (only_requireScopeIfBearer caller _ _) fun _ => .bind (.read rfl) fun cfg => .bind .reject fun _ =>
      .bind .reject fun _ => .bind (only_effectiveLimits cfg _) fun limits =>
        .bind (only_quotaRemaining _ limits) fun _ => .pure) fun admission => .bind .check fun form =>
          only_uploadPlan env admission.cfg admission.limits _ req form

theorem triple_plannedUpload (w : World) (caller : Caller) (req : UploadRequest) :
    Triple Op.MayFail w (plannedUpload env caller req) (fun plan w' => w' = w ∧ Plans env w caller req plan)
      fun _ w' => w' = w := by
  refine triple_iff_runs.2 fun r w' hrun => ?_
  have hw' := triple_iff_runs.1 (triple_of_only (only_plannedUpload caller req)) r w' hrun
  cases r with
  | ok plan => exact ⟨hw', w', hrun⟩
  | error e => exact hw'

/-- How an operation of an upload is carried out, if the name can be cut. -/
theorem storeOp_next {filename : Text} {columns : Text → FileColumns} (hname : CutsCleanly (visiblePart filename))
    (op : DbOp) : Triple Op.MayFail w (storeOp filename columns op)
      (fun r w' => execSome w.dedupe op r w'.dedupe) fun _ _ => False := by
  have hstorage : ∀ op : DbOp, Triple Op.MayFail w (perform (Op.storage op))
      (fun r w' => execSome w.dedupe op r w'.dedupe) fun _ _ => False := by
    refine fun op => ⟨trivial, fun r w' hexec => ?_⟩
    obtain ⟨dedupe, rfl, hdedupe⟩ := exec_storage hexec
    exact hdedupe
  cases op with
  | insertFile row =>
    refine (obeys_bind _ _).2 (obeys_orThrow.2 ⟨fun hnone => ?_, fun name _ => ⟨trivial, fun r w' hexec => ?_⟩⟩)
    · obtain ⟨out, hout, -⟩ := (sanitize_safe_iff filename).2 hname
      rw [hnone] at hout
      cases hout
    · rcases exec_insertFile hexec with ⟨hcore, rfl, rfl⟩ | ⟨⟨e, rfl⟩, rfl⟩
      · exact .inl (by simp only [Dedupe.answer, dif_pos hcore])
      · exact .inr ⟨rfl, ⟨e, rfl⟩, rfl, rfl, rfl, fun _ _ => rfl⟩
  | claimCore | insertObject | bumpObject | dropObject | deleteObject | deleteFile | put | delete => exact hstorage _

/-- **What an upload stores is accounted for**, if its name can be cut. -/
theorem triple_storeUpload {plan : UploadPlan} {req : UploadRequest} (hw : InBalance env known w)
    (hinj : Set.InjOn env.sha256 {bytes | known bytes}) (hknown : known plan.bytes)
    (hframe : ∀ jpeg, req.frame = some jpeg → known jpeg.bytes) (hname : CutsCleanly (visiblePart plan.filename)) :
    Triple Op.MayFail w (storeUpload env plan req) (fun _ => InBalance env known) fun _ => InBalance env known := by
  unfold storeUpload
  split
  · rename_i hlength
    have hcontents : ∀ bytes ∈ (plan.upload env ⟨plan.bytes, hlength⟩ req).contents, known bytes := by
      intro bytes hbytes
      rcases List.mem_cons.1 hbytes with rfl | hbytes
      · exact hknown
      · obtain ⟨jpeg, hjpeg, rfl⟩ := Option.map_eq_some_iff.1 (Option.mem_toList.1 hbytes)
        exact hframe jpeg hjpeg
    have hinner : (uploadInner env.sha256 (plan.upload env ⟨plan.bytes, hlength⟩ req)).Obeys
        ⟨fun _ _ => True, fun w op r w' => execSome w.dedupe op r w'.dedupe⟩
        (fun _ w' => Dedupe.Balanced env.sha256 known noPins 0 none w'.dedupe) w :=
      obeys_dedupe (fun _ _ => trivial) (fun _ _ _ _ h => h) (balanced_uploadInner hw hcontents hinj)
    refine (obeys_bind _ _).2 (Fallible.Obeys.mono
      (Prog.Obeys.interp_fallible (fun w op _ => storeOp_next hname op) hinner) ?_ fun _ _ h => h.elim)
    exact fun stored w' hw' => obeys_check.2 ⟨fun _ _ => hw', fun _ _ => hw'⟩
  · exact (settles_claimNewCore req.draws |>.bind fun _ => .reads .throw) w hw

/-- The contents that a request may store. -/
def Request.Stores (env : Env) (w : World) : Request → Bytes → Prop
  | upload caller req, bytes => (∃ plan, Plans env w caller req plan ∧ bytes = plan.bytes) ∨
    ∃ jpeg, req.frame = some jpeg ∧ bytes = jpeg.bytes
  | backfill _ frame, bytes => ∃ jpeg, frame = some jpeg ∧ bytes = jpeg.bytes
  | _, _ => False

/-- If it is an upload that passes its checks, its name can be cut. -/
def Request.Nameable (env : Env) (w : World) : Request → Prop
  | upload caller req => ∀ plan, Plans env w caller req plan → CutsCleanly (visiblePart plan.filename)
  | _ => True

theorem triple_upload {caller : Caller} {req : UploadRequest} (hw : InBalance env known w)
    (hinj : Set.InjOn env.sha256 {bytes | known bytes})
    (hknown : ∀ bytes, (Request.upload caller req).Stores env w bytes → known bytes)
    (hname : (Request.upload caller req).Nameable env w) :
    Triple Op.MayFail w (upload env caller req) (fun _ => InBalance env known) fun _ => InBalance env known := by
  have hplanned : upload env caller req = (do
      let plan ← plannedUpload env caller req
      let core ← storeUpload env plan req
      let path := core.val ++ (normalizeExt env plan.filename).val
      let previewUrl := env.baseUrl ++ ['/', 'f', '/'] ++ path
      if wantsHtml caller.headers then pure (.seeOther previewUrl)
      else pure (.json [("id_core", .text core.val), ("preview_url", .text previewUrl),
        ("raw_url", .text (env.baseUrl ++ ['/'] ++ path)), ("expires_at", .time (plan.columns []).expiresAt),
        ("delete_token", .text req.deleteToken), ("exif_stripped", .flag plan.exifStripped)])) := by
    rw [upload_eq]
    unfold plannedUpload
    simp only [bind_assoc]
  rw [hplanned]
  refine (obeys_bind _ _).2 ((triple_plannedUpload w caller req).mono ?_ fun _ w' heq => heq ▸ hw)
  rintro plan w' ⟨rfl, hplan⟩
  refine (obeys_bind _ _).2 ((triple_storeUpload hw hinj (hknown _ (.inl ⟨plan, hplan, rfl⟩))
    (fun jpeg hjpeg => hknown _ (.inr ⟨jpeg, hjpeg, rfl⟩)) (hname plan hplan)).mono ?_ fun _ _ h => h)
  exact fun core w'' hw'' => (Settles.ite .pure .pure : Settles env known _) w'' hw''

/-! ## Requests -/

/-- **One request keeps the accounts**, if its name can be cut. -/
theorem inBalance_serve {req : Request} (hw : InBalance env known w) (hinj : Set.InjOn env.sha256 {bytes | known bytes})
    (hknown : ∀ bytes, req.Stores env w bytes → known bytes) (hname : req.Nameable env w) :
    Query.Triple Op.MayFail w (serve env req) fun _ => InBalance env known := by
  by_cases hareas : decide (Area.files ∉ req.areas ∧ Area.newFiles ∉ req.areas) = true
  · exact Query.Settles.of_only (serve_only env req) (of_decide_eq_true hareas) w hw
  · cases req with
    | upload caller req =>
      refine Prog.Obeys.mono (triple_upload hw hinj hknown hname) fun r w' hw' => ?_
      cases r <;> exact hw'
    | raw caller password segment => exact (settles_raw caller password segment).run w hw
    | deleteFile caller segment deleteToken => exact (settles_deleteFile caller segment deleteToken).run w hw
    | dashboardDeleteFile caller segment => exact (settles_dashboardDeleteFile caller segment).run w hw
    | createPaste caller req => exact (settles_createPaste caller req).run w hw
    | backfill file frame =>
      exact (settles_ensureThumbnail file fun jpeg hjpeg => hknown _ ⟨jpeg, hjpeg, rfl⟩).bind (fun _ => .pure) w hw
    | sweep => exact settles_sweep.bind (fun _ => .pure) w hw
    | _ => exact absurd rfl hareas

/-- One request, from its start to its end. -/
def Handles (env : Env) (allowed : World → Request → Prop) (w w' : World) : Prop :=
  ∃ req outcome, allowed w req ∧ (serve env req).Runs (exec Op.MayFail) w outcome w'

/-- **Reference accounting.**  After every sequence of requests whose names can be cut, from an instance without
files, the refcounts are the numbers of references, the store has the objects, and the files have their contents;
and a removal leaves the other files and what they read alone. -/
theorem accounts_sound (env : Env) {known : Bytes → Prop} (hinj : Set.InjOn env.sha256 {bytes | known bytes})
    {w₀ w : World} (h₀ : w₀.dedupe = .empty)
    (hrun : Relation.ReflTransGen (Handles env fun w req =>
      (∀ bytes, req.Stores env w bytes → known bytes) ∧ req.Nameable env w) w₀ w) :
    Sound env.sha256 w.dedupe ∧ ∀ core removed w', (removeFile core).run.Runs (exec Op.MayFail) w removed w' →
      ∀ file ∈ w.dedupe.files.rows, file.idCore ≠ core →
        file ∈ w'.dedupe.files.rows ∧ w'.dedupe.store file.storageKey = w.dedupe.store file.storageKey := by
  have hw : InBalance env known w := by
    induction hrun with
    | refl =>
      unfold InBalance
      rw [h₀]
      exact balanced_empty
    | tail _ hstep ih =>
      obtain ⟨req, outcome, ⟨hknown, hname⟩, hrun⟩ := hstep
      exact Prog.obeys_ofExec_iff.1 (inBalance_serve ih hinj hknown hname) outcome _ hrun
  refine ⟨hw.sound, fun core removed w' hrun file hfile hne => ?_⟩
  have hremoved := triple_iff_runs.1 (triple_removeFile hw core) removed w' hrun
  have hboth : InBalance env known w' ∧
      ∀ file ∈ w.dedupe.files.rows, file.idCore ≠ core → file ∈ w'.dedupe.files.rows := by
    cases removed <;> exact hremoved
  obtain ⟨hw', hothers⟩ := hboth
  exact ⟨hothers file hfile hne, hw.store_eq hw' hinj hfile (hothers file hfile hne)⟩

end

/-! ### One upload -/

/-- An upload of one byte, with a name. -/
def namedUpload (name : Text) : UploadRequest :=
  ⟨[.file (some name) [7]], true, fun _ => generateCore zeroBytes, none, [], []⟩

/-- It is stored as it is. -/
theorem plans_namedUpload {w : World} {caller : Caller} {name : Text} {plan : UploadPlan}
    (h : Plans .plain w caller (namedUpload name) plan) : plan.filename = name ∧ plan.bytes = [7] := by
  obtain ⟨w', hrun⟩ := h
  have hends : Ends (exec Op.MayFail) (fun plan _ => plan.filename = name ∧ plan.bytes = [7])
      (plannedUpload .plain caller (namedUpload name)) := by
    refine .skip fun admission => .check fun form hform => ?_
    have hread : form = ⟨some name, some [7], fun _ => none⟩ := by
      unfold namedUpload readFields at hform
      rw [List.foldlM_cons, readField] at hform
      split at hform
      · cases hform
      · exact (Except.ok.inj hform).symm
    subst hread
    refine .orThrow fun bytes hbytes => .reject fun _ => .check fun strip _ => .check fun stripped hstripped =>
      .check fun _ _ => .check fun _ _ => .check fun _ _ => .reject fun _ => .check fun _ _ => .check fun _ _ =>
      .skip fun _ => .check fun _ _ => .pure fun _ => ⟨rfl, ?_⟩
    obtain rfl := Option.some.inj hbytes
    -- the environment strips nothing
    unfold stripMetadata at hstripped
    split at hstripped
    · split at hstripped
      · cases hstripped
      · exact (congrArg Prod.fst (Except.ok.inj hstripped)).symm
    · exact (congrArg Prod.fst (Except.ok.inj hstripped)).symm
  exact ends_runs hends hrun

theorem stores_namedUpload {w : World} {caller : Caller} {name : Text} {bytes : Bytes}
    (h : (Request.upload caller (namedUpload name)).Stores .plain w bytes) : bytes = [7] := by
  rcases h with ⟨plan, hplan, rfl⟩ | ⟨jpeg, hjpeg, -⟩
  · exact (plans_namedUpload hplan).2
  · cases hjpeg

/-- The instance after it. -/
def afterNamed (name : Text) : World :=
  ((serve .plain (.upload anonymous (namedUpload name))).eval answer World.empty).2

theorem handles_namedUpload {name : Text} {allowed : World → Request → Prop}
    (h : allowed World.empty (.upload anonymous (namedUpload name))) :
    Handles .plain allowed World.empty (afterNamed name) :=
  ⟨_, _, h, Prog.runs_eval (exec_answer _) _ _⟩

/-- One content has one digest. -/
theorem injOn_seven : Set.InjOn Env.plain.sha256 {bytes | bytes = [7]} := fun _ ha _ hb _ => ha.trans hb.symm

theorem accounts_sound_named : Sound Env.plain.sha256 (afterNamed ['a']).dedupe :=
  (accounts_sound .plain injOn_seven rfl (.single (handles_namedUpload
    ⟨fun _ => stores_namedUpload, fun _ hplan => (plans_namedUpload hplan).1 ▸ .inl (by decide)⟩))).1

/-- A name of 129 bytes, with a character across the cut. -/
def uncutName : Text := 'a' :: List.replicate 64 'é'

/-- **The upload panics** when its content has been stored: the object has a reference that no file has. -/
theorem accounts_broken : ∃ w, Handles .plain (fun w req => ∀ bytes, req.Stores .plain w bytes → bytes = [7])
    World.empty w ∧ ¬ Sound Env.plain.sha256 w.dedupe := by
  refine ⟨afterNamed uncutName, handles_namedUpload fun _ => stores_namedUpload, fun hsound => ?_⟩
  have hobjects : (afterNamed uncutName).dedupe.objects.rows =
      [⟨Env.plain.sha256 [7], fileKey (generateCore zeroBytes) ⟨[], rfl⟩, 1, textPlain, 1⟩] := rfl
  have hcounted := (hsound.counted _ (hobjects ▸ List.mem_singleton_self _)).2
  have hfiles : (afterNamed uncutName).dedupe.files.rows = [] := rfl
  rw [hfiles] at hcounted
  cases hcounted

end Server
end Uwuubox
