import Uwuubox.Server.Sequential
import Uwuubox.Server.TokenScopes
import Uwuubox.Dedupe.Consistency

/-!
# The scope map

`src/identity.rs` says which scope of a token each operation needs.  Six of the handlers here ask
for it in their own way; the two of files that `DELETE` and `PATCH` do not ask.

* `Request.scope` — the documented map, of the content endpoints.
* `ScopeMapHolds` — a request that takes effect has its scope.
* `scopeMapHolds_iff` — **it holds exactly of the requests that do not bypass it.**
* `bypass_deleteFile` — a token for uploads deletes a file.
-/

namespace Uwuubox
namespace Server

open Dedupe Storage Table Fallible

/-- Where a request comes from, if it says so. -/
def Request.caller? : Request → Option Caller
  | upload caller _ | raw caller _ _ | preview caller _ | deleteFile caller _ _ | toggleFile caller _ _
  | createPaste caller _ | rawPaste caller _ _ | viewPaste caller _ | deletePaste caller _ _
  | togglePaste caller _ _ | zip caller _ _ | createCollection caller _ _
  | updateCollection caller _ _ | deleteCollection caller _ | createToken caller _ _ _
  | revokeToken caller _ | dashboardDeleteFile caller _ | dashboardFileVisibility caller _ _
  | dashboardDeletePaste caller _ | dashboardPasteVisibility caller _ _ | grant caller _ _ => some caller
  | thumb _ | unlock _ _ _ | unlockPaste _ _ _ | oembed _ | register _ _ _ _ | oidcCallback _ _ _ _
  | backfill _ _ | sweep | clock _ => none

/-- The scope that the documented map asks for, of the endpoints for content.  A delete token
needs no scope. -/
def Request.scope : Request → Option Scope
  | upload _ _ => some .upload
  | createPaste _ _ => some .paste
  | zip _ _ _ => some .read
  | deleteFile _ _ none | deletePaste _ _ none | toggleFile _ _ _ | togglePaste _ _ _ => some .delete
  | _ => none

/-- What a request without its scope must not bring about: a `DELETE` or a `PATCH` no change,
any other request no success. -/
def Request.TakesEffect (req : Request) (w : World) (outcome : Outcome) (w' : World) : Prop :=
  match req.scope with
  | some .delete => w' ≠ w
  | _ => ∃ response, outcome = .ok response

/-- A request that takes effect has the scope it needs. -/
def ScopeMapHolds (env : Env) (mayFail : Op → Prop) (w : World) (req : Request) (scopes : List Scope) :
    Prop :=
  ∀ scope, req.scope = some scope → ∀ outcome w', (serve env req).Runs (exec mayFail) w outcome w' →
    req.TakesEffect w outcome w' → scope ∈ scopes

/-- The user's own file. -/
def World.OwnFile (w : World) (user : User) (segment : Text) (file : File) : Prop :=
  w.file? (stripToCore segment) = some file ∧ file.ownerId = some user.id

/-- A `DELETE` of an own file without a delete token, or a `PATCH` that changes the visibility
of one. -/
def Request.Bypasses (req : Request) (w : World) (user : User) : Prop :=
  match req with
  | .deleteFile _ segment none => ∃ file, w.OwnFile user segment file
  | .toggleFile _ segment visibility => ∃ file v, w.OwnFile user segment file ∧
      Visibility.parse (trim visibility) = some v ∧ v ≠ file.visibility
  | _ => False

section Refused

variable {α : Type} {mayFail : Op → Prop} {env : Env} {w : World} {caller : Caller} {user : User}
  {scopes : List Scope} {scope : Scope}

theorem requireScope_missing (hmissing : scope ∉ scopes) {identity : Option Identity}
    (h : identity = some ⟨user, scopes⟩ ∨ identity = none) :
    ∃ e, requireScope identity scope = .error e := by
  rcases h with rfl | rfl
  · exact ⟨_, if_neg hmissing⟩
  · exact ⟨_, rfl⟩

theorem requireScopeIfBearer_missing (hauth : caller.headers.authorization.isSome = true)
    (hmissing : scope ∉ scopes) {identity : Option Identity}
    (h : identity = some ⟨user, scopes⟩ ∨ identity = none) :
    ∃ e, requireScopeIfBearer caller identity scope = throw e := by
  obtain ⟨e, he⟩ := requireScope_missing hmissing h
  refine ⟨e, ?_⟩
  unfold requireScopeIfBearer
  rw [if_pos hauth, he]
  rfl

/-- Without its scope a request stops where the scope is asked for. -/
theorem triple_missing (htoken : TokenOnly env w caller user scopes) (hmissing : scope ∉ scopes)
    {rest : Option Identity → Handler α} :
    Triple mayFail w (always (currentIdentity env caller) >>= fun identity =>
      requireScopeIfBearer caller identity scope >>= fun _ => rest identity)
      (fun _ _ => False) fun _ w' => w' = w := by
  refine (obeys_bind _ _).2 (obeys_always.2 ((triple_currentIdentity htoken).mono ?_))
  rintro identity _ ⟨rfl, hidentity⟩
  obtain ⟨e, he⟩ := requireScopeIfBearer_missing htoken.authorization hmissing
    (hidentity.imp_right And.left)
  rw [he]
  exact (obeys_bind _ _).2 (obeys_throw.2 rfl)

theorem triple_upload_missing (htoken : TokenOnly env w caller user scopes) (hmissing : .upload ∉ scopes)
    (req : UploadRequest) :
    Triple mayFail w (upload env caller req) (fun _ _ => False) fun _ w' => w' = w :=
  triple_missing htoken hmissing

theorem triple_createPaste_missing (htoken : TokenOnly env w caller user scopes)
    (hmissing : .paste ∉ scopes) (req : PasteRequest) :
    Triple mayFail w (createPaste env caller req) (fun _ _ => False) fun _ w' => w' = w :=
  triple_missing htoken hmissing

theorem triple_zip_missing (htoken : TokenOnly env w caller user scopes) (hmissing : .read ∉ scopes)
    (files pastes : List Text) :
    Triple mayFail w (zip env caller files pastes) (fun _ _ => False) fun _ w' => w' = w := by
  refine (obeys_bind _ _).2 (obeys_reject.2 ⟨fun _ => rfl, fun _ => ?_⟩)
  refine (obeys_bind _ _).2 (obeys_reject.2 ⟨fun _ => rfl, fun _ => ?_⟩)
  exact triple_missing htoken hmissing

theorem triple_deletePaste_missing (htoken : TokenOnly env w caller user scopes)
    (hmissing : .delete ∉ scopes) (segment : Text) (deleteToken : Option Text) :
    Triple mayFail w (deletePaste env caller segment deleteToken) (fun _ _ => False)
      fun _ w' => w' = w :=
  triple_missing htoken hmissing

theorem triple_togglePaste_missing (htoken : TokenOnly env w caller user scopes)
    (hmissing : .delete ∉ scopes) (segment visibility : Text) :
    Triple mayFail w (togglePaste env caller segment visibility) (fun _ _ => False)
      fun _ w' => w' = w := by
  refine (obeys_bind _ _).2 (obeys_always.2 ((triple_currentIdentity htoken).mono ?_))
  rintro identity _ ⟨rfl, hidentity⟩
  obtain ⟨e, he⟩ := requireScope_missing hmissing (hidentity.imp_right And.left)
  rw [obeys_bind, obeys_check, he]
  exact ⟨fun _ _ => rfl, fun _ h => nomatch h⟩

end Refused

/-! ## The files -/

section Files

variable {mayFail : Op → Prop} {env : Env} {w : World} {caller : Caller} {user : User}
  {scopes : List Scope} {segment : Text}

/-- Without a delete token only the owner has access. -/
theorem checkDeleteAccess_none (found : Option User) (ownerId : Option Uuid) (hash : Option Text) :
    checkDeleteAccess env found ownerId hash none = true ↔ ∃ u, found = some u ∧ ownerId = some u.id := by
  cases hash <;> cases found <;> cases ownerId <;> simp [checkDeleteAccess, eq_comm]

/-- What is not the user's own file is not deleted without a token. -/
theorem triple_deleteFile_foreign (htoken : TokenOnly env w caller user scopes)
    (hforeign : ∀ file, ¬ w.OwnFile user segment file) :
    Triple mayFail w (deleteFile env caller segment none) (fun _ w' => w' = w) fun _ w' => w' = w := by
  refine (obeys_bind _ _).2 (obeys_always.2 ((triple_currentUser htoken).mono ?_))
  rintro found _ ⟨rfl, hfound⟩
  refine (obeys_bind _ _).2 (triple_read rfl rfl (fun row? hrow => ?_) fun _ => rfl)
  refine (obeys_bind _ _).2 (obeys_orThrow.2 ⟨fun _ => rfl, fun row hsome => ?_⟩)
  refine (obeys_bind _ _).2 (obeys_reject.2 ⟨fun _ => rfl, fun haccess => ?_⟩)
  subst hsome
  simp only [Bool.not_eq_true', Bool.not_eq_false, checkDeleteAccess_none] at haccess
  obtain ⟨u, rfl, howner⟩ := haccess
  rcases hfound with hfound | ⟨hfound, -⟩
  · cases hfound
    exact absurd ⟨Except.ok.inj hrow, howner⟩ (hforeign row)
  · cases hfound

/-- The row is gone, and stays so while its objects are released. -/
theorem triple_removeFile_gone (core : Core) :
    Triple (fun _ => False) w (removeFile core)
      (fun _ w' => ∀ row ∈ w'.dedupe.files.rows, row.idCore ≠ core)
      fun _ w' => ∀ row ∈ w'.dedupe.files.rows, row.idCore ≠ core := by
  have hrelease : ∀ (key : SafeKey) (w : World), (∀ row ∈ w.dedupe.files.rows, row.idCore ≠ core) →
      (releaseAndDelete key).Obeys ⟨fun _ _ => True, fun w op r w' =>
        exec (fun _ => False) w (.storage op) r w'⟩
        (fun _ w' => ∀ row ∈ w'.dedupe.files.rows, row.idCore ≠ core) w := by
    intro key w hw
    apply Prog.Obeys.mono (Prog.Obeys.simulate
      (fun _ w => ∀ row ∈ w.dedupe.files.rows, row.idCore ≠ core) (fun _ _ => trivial) ?_
      (releaseAndDelete_isRelease key) hw)
    · rintro _ w' ⟨_, hgone, -⟩
      exact hgone
    · intro _ w op r w' hgone hop hexec
      obtain ⟨dedupe, rfl, hdedupe⟩ := exec_storage (show exec (fun _ => False) w (.storage op) r w' from hexec)
      refine ⟨(), trivial, ?_⟩
      simp only [(exec_isRelease hdedupe hop).1]
      exact hgone
  have hremoved : Query.Triple (fun _ => False) w (storage (Dedupe.removeFile core))
      fun _ w' => ∀ row ∈ w'.dedupe.files.rows, row.idCore ≠ core := by
    refine obeys_storage ⟨trivial, fun r w' hexec => ?_⟩
    obtain ⟨dedupe, rfl, hdedupe⟩ :=
      exec_storage (show exec (fun _ => False) w (.storage (.deleteFile core)) r w' from hexec)
    rcases hdedupe with hdedupe | ⟨hfalse, -⟩
    · simp only [Dedupe.answer] at hdedupe
      split at hdedupe
      · rename_i hnone
        cases hdedupe
        exact find?_col_none hnone
      · rename_i row hfind
        cases hdedupe
        simp only [Prog.bind]
        refine (Prog.obeys_bind _ _ _).2 (Prog.Obeys.mono (hrelease row.storageKey _ ?_) ?_)
        · intro other hother
          simpa using (mem_deleteWhere.1 hother).2
        · intro result w' hgone
          cases result with
          | error e => exact hgone
          | ok u =>
            cases hthumb : row.thumbKey with
            | none => exact hgone
            | some thumbKey =>
              refine (Prog.obeys_bind _ _ _).2 (Prog.Obeys.mono (hrelease thumbKey w' hgone) ?_)
              intro result w' hgone
              cases result with
              | error e => exact hgone
              | ok u => exact hgone
    · exact absurd hfalse id
  refine (obeys_bind _ _).2 (obeys_always.2 (Prog.Obeys.mono hremoved ?_))
  intro removed w' hgone
  exact obeys_check.2 ⟨fun _ _ => hgone, fun _ _ => hgone⟩

theorem file?_eq_some {w : World} {core : Text} {file : File} (h : w.file? core = some file) :
    ∃ row ∈ w.dedupe.files.rows, w.fileRow? core = some row ∧ row.idCore.val = core ∧
      file = w.fileOf row := by
  unfold World.file? at h
  cases hrow : w.fileRow? core with
  | none => simp [hrow] at h
  | some row =>
    simp only [hrow, Option.map_some, Option.some.injEq] at h
    have hmem := List.mem_of_find?_eq_some hrow
    have hcore := List.find?_some hrow
    exact ⟨row, hmem, rfl, by simpa using hcore, h.symm⟩

/-- The user's own file is deleted, whatever scopes the token has. -/
theorem triple_deleteFile_own (htoken : TokenOnly env w caller user scopes) {file : File}
    (hown : w.OwnFile user segment file) :
    Triple (fun _ => False) w (deleteFile env caller segment none) (fun _ w' => w' ≠ w)
      fun _ w' => w' ≠ w := by
  obtain ⟨hfile, howner⟩ := hown
  obtain ⟨row, hrow, -, -, rfl⟩ := file?_eq_some hfile
  refine (obeys_bind _ _).2 (obeys_always.2 ((triple_currentUser htoken).mono ?_))
  rintro found w ⟨rfl, rfl | ⟨-, -, hfail⟩⟩
  · refine (obeys_bind _ _).2 (triple_ask rfl (fun row? hrow? => ?_) (fun e he => nomatch he) nofun)
    obtain rfl : some (w.fileOf row) = row? := hfile.symm.trans (Except.ok.inj hrow?)
    refine (obeys_bind _ _).2 (obeys_orThrow.2 ⟨nofun, fun file hsome => ?_⟩)
    cases hsome
    have haccess : checkDeleteAccess env (some user) (w.fileOf row).ownerId
        (w.fileOf row).deleteTokenHash none = true :=
      (checkDeleteAccess_none _ _ _).2 ⟨user, rfl, howner⟩
    refine (obeys_bind _ _).2 (obeys_reject.2 ⟨fun h => ?_, fun _ => ?_⟩)
    · simp [haccess] at h
    · have hne : ∀ w' : World, (∀ other ∈ w'.dedupe.files.rows, other.idCore ≠ row.idCore) → w' ≠ w := by
        rintro w' hgone rfl
        exact hgone row hrow rfl
      refine (obeys_bind _ _).2 ((triple_removeFile_gone row.idCore).mono ?_ ?_)
      · exact fun _ w' hgone => hne w' hgone
      · exact fun _ w' hgone => hne w' hgone
  · exact absurd hfail id

/-- The `UPDATE` of a visibility that is the one there. -/
theorem setFileVisibility_same {w : World} {core : Text} {file : File} (h : w.file? core = some file) :
    (answer w (.setFileVisibility core file.visibility)).2 = w := by
  obtain ⟨row, -, hrow, -, rfl⟩ := file?_eq_some h
  simp only [answer, hrow, World.fileOf]
  rw [Function.update_eq_self]

/-- The `UPDATE` of another one. -/
theorem setFileVisibility_other {w : World} {core : Text} {file : File} (h : w.file? core = some file)
    {v : Visibility} (hv : v ≠ file.visibility) : (answer w (.setFileVisibility core v)).2 ≠ w := by
  obtain ⟨row, -, hrow, -, rfl⟩ := file?_eq_some h
  intro heq
  have hcolumns := congrArg (fun w => (World.fileColumns w row.idCore).visibility) heq
  simp only [answer, hrow, Function.update_self] at hcolumns
  exact hv hcolumns

/-- A toggle that changes nothing. -/
theorem triple_toggleFile_same (htoken : TokenOnly env w caller user scopes) {visibility : Text}
    (hsame : ∀ file v, w.OwnFile user segment file → Visibility.parse (trim visibility) = some v →
      v = file.visibility) :
    Triple mayFail w (toggleFile env caller segment visibility) (fun _ w' => w' = w)
      fun _ w' => w' = w := by
  refine (obeys_bind _ _).2 (obeys_always.2 ((triple_currentUser htoken).mono ?_))
  rintro found w ⟨rfl, hfound⟩
  refine (obeys_bind _ _).2 (obeys_orThrow.2 ⟨fun _ => rfl, fun u hu => ?_⟩)
  subst hu
  obtain rfl : u = user := by
    rcases hfound with h | ⟨h, -⟩
    · exact Option.some.inj h
    · cases h
  refine (obeys_bind _ _).2 ((obeys_bind _ _).2 (obeys_orThrow.2 ⟨fun _ => rfl, fun v hv => ?_⟩))
  refine (obeys_bind _ _).2 (triple_read rfl rfl (fun row? hrow => ?_) fun _ => rfl)
  refine (obeys_bind _ _).2 (obeys_orThrow.2 ⟨fun _ => rfl, fun file hsome => ?_⟩)
  refine (obeys_bind _ _).2 (obeys_reject.2 ⟨fun _ => rfl, fun howner => ?_⟩)
  subst hsome
  have hfile : w.file? (stripToCore segment) = some file := Except.ok.inj hrow
  obtain rfl := hsame file v ⟨hfile, not_not.1 howner⟩ hv
  have hkeep := setFileVisibility_same hfile
  refine triple_ask rfl (fun _ _ => hkeep) (fun _ _ => hkeep) fun _ _ => rfl

/-- A toggle of an own file, whatever scopes the token has. -/
theorem triple_toggleFile_own (htoken : TokenOnly env w caller user scopes) {file : File} {v : Visibility}
    {visibility : Text} (hown : w.OwnFile user segment file)
    (hparse : Visibility.parse (trim visibility) = some v) (hv : v ≠ file.visibility) :
    Triple (fun _ => False) w (toggleFile env caller segment visibility) (fun _ w' => w' ≠ w)
      fun _ w' => w' ≠ w := by
  obtain ⟨hfile, howner⟩ := hown
  refine (obeys_bind _ _).2 (obeys_always.2 ((triple_currentUser htoken).mono ?_))
  rintro found w ⟨rfl, rfl | ⟨-, -, hfail⟩⟩
  · refine (obeys_bind _ _).2 (obeys_orThrow.2 ⟨nofun, fun u hu => ?_⟩)
    cases hu
    refine (obeys_bind _ _).2 ((obeys_bind _ _).2 (obeys_orThrow.2 ⟨fun h => ?_, fun v' hv' => ?_⟩))
    · rw [hparse] at h
      cases h
    · obtain rfl : v = v' := Option.some.inj (hparse.symm.trans hv')
      refine (obeys_bind _ _).2 (triple_ask rfl (fun row? hrow? => ?_) (fun e he => nomatch he) nofun)
      obtain rfl : some file = row? := hfile.symm.trans (Except.ok.inj hrow?)
      refine (obeys_bind _ _).2 (obeys_orThrow.2 ⟨nofun, fun _ hsome => ?_⟩)
      cases hsome
      refine (obeys_bind _ _).2 (obeys_reject.2 ⟨fun h => absurd howner h, fun _ => ?_⟩)
      have hchange := setFileVisibility_other hfile hv
      exact triple_ask rfl (fun _ _ => hchange) (fun _ _ => hchange) nofun
  · exact absurd hfail id

end Files

/-! ## The map -/

/-- What every run without failures brings about, some run does. -/
theorem exists_run_of_triple {mayFail : Op → Prop} {w : World} {p : Handler Response}
    {P : World → Prop} (h : Triple (fun _ => False) w p (fun _ => P) fun _ => P) :
    ∃ outcome w', p.run.Runs (exec mayFail) w outcome w' ∧ P w' := by
  refine ⟨_, _, Prog.runs_eval (exec_answer mayFail) p.run w, ?_⟩
  have hend := triple_iff_runs.1 h _ _ (Prog.runs_eval (exec_answer _) p.run w)
  revert hend
  generalize (Prog.eval answer p.run w).1 = r
  cases r <;> exact id

variable {env : Env} {w : World} {caller : Caller} {user : User} {scopes : List Scope}

/-- A request that bypasses the map changes the state without its scope. -/
theorem exists_bypass (htoken : TokenOnly env w caller user scopes) {req : Request}
    (hcaller : req.caller? = some caller) (hbypass : req.Bypasses w user) (mayFail : Op → Prop) :
    req.scope = some .delete ∧
      ∃ outcome w', (serve env req).Runs (exec mayFail) w outcome w' ∧ w' ≠ w := by
  cases req with
  | deleteFile caller' segment deleteToken =>
    cases hcaller
    cases deleteToken with
    | some _ => exact absurd hbypass id
    | none =>
      obtain ⟨file, hown⟩ := hbypass
      exact ⟨rfl, exists_run_of_triple (triple_deleteFile_own htoken hown)⟩
  | toggleFile caller' segment visibility =>
    cases hcaller
    obtain ⟨file, v, hown, hparse, hv⟩ := hbypass
    exact ⟨rfl, exists_run_of_triple (triple_toggleFile_own htoken hown hparse hv)⟩
  | _ => exact absurd hbypass id

/-- A request of a file that does not bypass the map changes nothing. -/
theorem not_changed {mayFail : Op → Prop} {p : Handler Response}
    (h : Triple mayFail w p (fun _ w' => w' = w) fun _ w' => w' = w) {outcome : Outcome} {w' : World}
    (hrun : p.run.Runs (exec mayFail) w outcome w') : w' = w := by
  have hend := triple_iff_runs.1 h _ _ hrun
  cases outcome <;> exact hend

/-- A refused request has no success and no effect. -/
theorem not_takesEffect {mayFail : Op → Prop} {p : Handler Response} {req : Request}
    (hreq : serve env req = p.run) (h : Triple mayFail w p (fun _ _ => False) fun _ w' => w' = w)
    {outcome : Outcome} {w' : World} (hrun : (serve env req).Runs (exec mayFail) w outcome w') :
    ¬ req.TakesEffect w outcome w' := by
  rw [hreq] at hrun
  have hend := triple_iff_runs.1 h _ _ hrun
  unfold Request.TakesEffect
  cases outcome with
  | ok response => exact absurd hend id
  | error e =>
    split
    · exact fun hne => hne hend
    · rintro ⟨response, h⟩
      cases h

/-- **Which requests keep to the scope map.**  In every state, a request that carries only a valid
token takes effect only with the scope that the map asks for, if and only if the token
has the scope for deletions, or the request is not a `DELETE` of an own file without a delete
token nor a `PATCH` that changes the visibility of one. -/
theorem scopeMapHolds_iff (mayFail : Op → Prop) (htoken : TokenOnly env w caller user scopes)
    {req : Request} (hcaller : req.caller? = some caller) :
    ScopeMapHolds env mayFail w req scopes ↔ (.delete ∈ scopes ∨ ¬ req.Bypasses w user) := by
  constructor
  · intro h
    by_contra hnot
    rw [not_or, not_not] at hnot
    obtain ⟨hscope, outcome, w', hrun, hne⟩ := exists_bypass htoken hcaller hnot.2 mayFail
    refine hnot.1 (h .delete hscope outcome w' hrun ?_)
    unfold Request.TakesEffect
    rw [hscope]
    exact hne
  · intro h scope hscope outcome w' hrun heffect
    by_contra hmissing
    cases req with
    | upload caller' r =>
      cases hcaller; cases hscope
      exact not_takesEffect rfl (triple_upload_missing htoken hmissing r) hrun heffect
    | createPaste caller' r =>
      cases hcaller; cases hscope
      exact not_takesEffect rfl (triple_createPaste_missing htoken hmissing r) hrun heffect
    | zip caller' files pastes =>
      cases hcaller; cases hscope
      exact not_takesEffect rfl (triple_zip_missing htoken hmissing files pastes) hrun heffect
    | deletePaste caller' segment deleteToken =>
      cases hcaller
      cases deleteToken with
      | some _ => cases hscope
      | none =>
        cases hscope
        exact not_takesEffect rfl (triple_deletePaste_missing htoken hmissing segment none) hrun heffect
    | togglePaste caller' segment visibility =>
      cases hcaller; cases hscope
      exact not_takesEffect rfl (triple_togglePaste_missing htoken hmissing segment visibility) hrun
        heffect
    | deleteFile caller' segment deleteToken =>
      cases hcaller
      cases deleteToken with
      | some _ => cases hscope
      | none =>
        cases hscope
        have hforeign := (h.resolve_left hmissing)
        exact heffect (not_changed (triple_deleteFile_foreign htoken fun file hown =>
          hforeign ⟨file, hown⟩) hrun)
    | toggleFile caller' segment visibility =>
      cases hcaller; cases hscope
      have hsame := h.resolve_left hmissing
      exact heffect (not_changed (triple_toggleFile_same htoken fun file v hown hparse => by
        by_contra hv
        exact hsame ⟨file, v, hown, hparse, hv⟩) hrun)
    | _ => cases hscope

/-! ### A token for uploads -/

/-- The object of a one-byte file. -/
def oneByteObject : ObjectRow := ⟨sampleSha256 [7], fileKey coreA ⟨[], isExt_nil⟩, 1, textPlain, 1⟩

/-- A file of user 1. -/
def ownFileColumns : FileColumns := ⟨some 1, [], .unlisted, false, none, [], none, none⟩

theorem uniqueCore_ownFile : UniqueOn FileRow.idCore
    [uploadRow sampleSha256 (sampleUpload coreA) coreA (fileKey coreA ⟨[], isExt_nil⟩) none] := List.nodup_singleton _

/-- A user with a token that may upload, and with a file. -/
def ownFileWorld : World where
  __ := uploadTokenWorld
  dedupe := {
    usedIdCores := [coreA]
    objects := ⟨[oneByteObject], List.nodup_singleton _, List.nodup_singleton _⟩
    files := ⟨[uploadRow sampleSha256 (sampleUpload coreA) coreA (fileKey coreA ⟨[], isExt_nil⟩) none],
      uniqueCore_ownFile⟩
    store := Function.update (fun _ => none) (fileKey coreA ⟨[], isExt_nil⟩) (some [7]) }
  fileColumns := fun _ => ownFileColumns

theorem tokenOnly_ownFileWorld : TokenOnly .plain ownFileWorld tokenCaller
    (newUser 1 ['k', 'a', 'z'] none none false) [.upload] where
  session := rfl
  token := ⟨tokenText, rfl, rfl, rfl⟩

theorem scopeMapHolds_iff_togglePaste : ScopeMapHolds .plain (fun _ => True) ownFileWorld
    (.togglePaste tokenCaller coreA.val publicWord) [.upload] :=
  (scopeMapHolds_iff _ tokenOnly_ownFileWorld rfl).2 (.inr id)

/-- The token deletes the file. -/
theorem bypass_deleteFile : TokenOnly .plain ownFileWorld tokenCaller
      (newUser 1 ['k', 'a', 'z'] none none false) [.upload] ∧
    ¬ ScopeMapHolds .plain (fun _ => False) ownFileWorld (.deleteFile tokenCaller coreA.val none)
      [.upload] := by
  refine ⟨tokenOnly_ownFileWorld, fun h => ?_⟩
  have hreq : (Request.deleteFile tokenCaller coreA.val none).caller? = some tokenCaller := rfl
  obtain ⟨hscope, outcome, w', hrun, hne⟩ := exists_bypass tokenOnly_ownFileWorld hreq
    ⟨_, rfl, rfl⟩ (fun _ => False)
  have hmem := h .delete hscope outcome w' hrun hne
  simp at hmem

end Server
end Uwuubox
