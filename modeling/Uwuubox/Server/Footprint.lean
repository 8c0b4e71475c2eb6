import Uwuubox.Server.Requests

/-!
# What each request writes

`Request.areas` is the table of what a request may write, and `serve_only` says that no request
writes anything else.  The lemmas follow the text of the handlers; the ones about shared steps
hold for any set of areas that has what the step writes.
-/

namespace Uwuubox
namespace Server

open Dedupe Storage Fallible

variable {S : List Area} (env : Env) (caller : Caller)

/-! ## Shared steps -/

/-- The user of a session is only looked up. -/
theorem only_sessionUser (sid : SessionId) : Query.Only S (sessionUser sid) := by
  refine .bind (.perform (within_of_none rfl)) fun r => ?_
  match r with
  | .error _ => exact .pure
  | .ok session =>
    cases huid : session.uid with
    | none => simp only [huid]; exact .pure
    | some id =>
      simp only [huid]
      refine .bind (.perform (within_of_none rfl)) fun r => ?_
      match r with
      | .ok user => exact .pure
      | .error _ => exact .pure

/-- A token is looked up, and the time of its last use is no area. -/
theorem only_bearerIdentity (headers : Headers) : Query.Only S (bearerIdentity env headers) := by
  unfold bearerIdentity
  split
  · exact .pure
  · split
    · exact .pure
    · refine .bind (.perform (within_of_none rfl)) fun r => ?_
      match r with
      | .ok (some (user, scopes)) => exact .bind (.perform (within_of_none rfl)) fun _ => .pure
      | .ok none => exact .pure
      | .error _ => exact .pure

/-- Who is asking is found out by reading, with the scopes .. -/
theorem only_currentIdentity : Query.Only S (currentIdentity env caller) := by
  refine .bind (only_sessionUser caller.session) fun user => ?_
  match user with
  | some user => exact .pure
  | none => exact only_bearerIdentity env caller.headers

/-- .. and without them. -/
theorem only_currentUser : Query.Only S (currentUser env caller) := by
  refine .bind (only_sessionUser caller.session) fun user => ?_
  match user with
  | some user => exact .pure
  | none => exact .bind (only_bearerIdentity env caller.headers) fun _ => .pure

theorem only_requireScopeIfBearer (identity : Option Identity) (scope : Scope) :
    Only S (requireScopeIfBearer caller identity scope) :=
  .ite (.bind .check fun _ => .pure) .pure

/-- Limits come from the configuration and the role. -/
theorem only_effectiveLimits (cfg : InstanceConfig) (user : Option User) :
    Only S (effectiveLimits cfg user) := by
  refine .bind ?_ fun _ => .pure
  unfold roleOf
  split
  · exact .read rfl
  · exact .pure

theorem only_ownerOf (ownerId : Option Uuid) : Only S (ownerOf ownerId) := by
  cases ownerId with
  | none => exact .pure
  | some id => exact .read rfl

theorem only_lifetime (limits : EffectiveLimits) (requested : ExpiryRequest) (allowNever : Bool) :
    Only S (lifetime limits requested allowNever) := .bind .orThrow fun _ => .check

theorem only_expiresAt (secs : Option ℤ) : Only S (expiresAt env secs) := by
  cases secs with
  | none => exact .pure
  | some secs => exact .bind (.read rfl) fun _ => .bind .orThrow fun _ => .pure

/-- The clock is read, at most. -/
theorem only_newExpiry (limits : EffectiveLimits) (requested : ExpiryRequest) (allowNever : Bool) :
    Only S (newExpiry env limits requested allowNever) :=
  .bind (only_lifetime _ _ _) fun _ => only_expiresAt env _

theorem only_requireUser : Only S (requireUser env caller) :=
  .bind (.always (only_currentUser env caller)) fun _ => .orThrow

/-- What is unlocked is in the session. -/
theorem only_isUnlocked (sid : SessionId) (hash : Option Text) (core : Core) :
    Query.Only S (isUnlocked sid hash core) := by
  unfold isUnlocked
  split
  · exact .pure
  · refine .bind (.perform (within_of_none rfl)) fun r => ?_
    match r with
    | .ok session => exact .pure
    | .error _ => exact .pure

/-- Nothing is written for a password that is given with the request. -/
theorem only_checkPassword (sid : SessionId) (hash : Option Text) (core : Core)
    (password : Option Text) : Only S (checkPassword env sid hash core password) := by
  cases hash with
  | none => exact .pure
  | some hash => exact .bind (.always (only_isUnlocked sid _ core)) fun _ => .reject

/-- The other way to give it writes the session. -/
theorem only_unlockItem (sid : SessionId) (hash : Option Text) (core : Core) (password : Text)
    (hS : Area.sessions ∈ S) : Only S (unlockItem env sid hash core password) := by
  cases hash with
  | none => exact .pure
  | some hash => exact .bind .reject fun _ => .ask (within_of_some rfl hS)

/-- Rows, references and objects go together. -/
theorem only_removeFile (core : Core) (hS : Area.files ∈ S) : Only S (removeFile core) :=
  .bind (.always (only_storage (.removeFile core) hS)) fun _ => .check

/-- The names that are taken are in the area of the files. -/
theorem only_claimNewCore (draws : Fin 5 → Core) (hS : Area.files ∈ S) :
    Only S (claimNewCore draws) :=
  .bind (.always (only_storage (.claimCore _) hS)) fun _ => .bind .check fun _ => .orThrow

/-! ## Files -/

theorem only_loadLiveFile (segment : Text) : Only S (loadLiveFile segment) :=
  .bind .reject fun _ => .bind (.read rfl) fun _ => .bind .orThrow fun _ => .bind (.read rfl) fun _ =>
    .bind .reject fun _ => .pure

/-- A read writes where it removes the row. -/
theorem only_burnRead (file : File) (outcome : RangeOutcome) (hS : Area.files ∈ S) :
    Only S (burnRead file outcome) :=
  .bind (.read rfl) fun _ => .bind .check fun _ => .bind .reject fun _ =>
    .bind (only_removeFile file.idCore hS) fun _ => .bind .reject fun _ => .check

/-- No other read writes. -/
theorem only_streamRead (file : File) (outcome : RangeOutcome) : Only S (streamRead file outcome) := by
  refine .bind ?_ fun _ => .check
  unfold openStream
  cases outcome with
  | full => exact .bind (.read rfl) fun _ => .pure
  | satisfiable start stop => exact .bind (.read rfl) fun _ => .pure
  | invalid => exact .throw
  | unsatisfiable => exact .throw

/-- So a raw read may remove the file, and do nothing else. -/
theorem only_raw (password : Option Text) (segment : Text) (hS : Area.files ∈ S) :
    Only S (raw env caller password segment) :=
  .bind (only_loadLiveFile segment) fun file =>
    .bind (only_checkPassword env caller.session _ _ password) fun _ => .bind .check fun _ =>
      .bind .reject fun _ => .ite .check (.ite (only_burnRead file _ hS) (only_streamRead file _))

theorem only_thumb (segment : Text) : Only S (thumb segment) :=
  .bind .reject fun _ => .bind (.read rfl) fun _ => .bind .orThrow fun _ => .bind (.read rfl) fun _ =>
    .bind .reject fun _ => .bind .orThrow fun _ => .bind (.read rfl) fun _ => .pure

/-- The text of a preview comes from the store. -/
theorem only_textSnippet (file : File) (locked : Bool) : Query.Only S (textSnippet env file locked) := by
  unfold textSnippet
  split
  · refine .bind (.perform (within_of_none rfl)) fun r => ?_
    match r with
    | .ok bytes => exact .pure
    | .error _ => exact .pure
  · exact .pure

/-- A preview only reads. -/
theorem only_preview (segment : Text) : Only S (preview env caller segment) :=
  .bind (.always (only_currentUser env caller)) fun _ => .bind (only_loadLiveFile segment)
    fun file => .bind (.read rfl) fun _ => .bind (only_ownerOf _) fun _ =>
      .bind (.always (only_isUnlocked _ _ _)) fun _ => .bind (.always (only_textSnippet env file _))
        fun _ => .bind .reject fun _ => .pure

theorem only_unlock (sid : SessionId) (segment password : Text) (hS : Area.sessions ∈ S) :
    Only S (unlock env sid segment password) :=
  .bind (only_loadLiveFile segment) fun _ => .bind (only_unlockItem env sid _ _ password hS) fun _ => .pure

/-- The background work stores a thumbnail and links it, or gives the reference back. -/
theorem only_ensureThumbnail (file : File) (frame : Option Content) (hS : Area.files ∈ S) :
    Query.Only S (ensureThumbnail env file frame) := by
  unfold ensureThumbnail
  split
  · exact .pure
  · split
    · exact .pure
    · refine .bind (.perform (within_of_none rfl)) fun r => ?_
      match r with
      | .error _ => exact .pure
      | .ok delivery =>
        simp only
        split
        · refine .bind (only_storage (.of_objects (.storeThumbnail _ _ _)) hS) fun key => ?_
          match key with
          | none => exact .pure
          | some key =>
            refine .bind (.perform (within_of_some rfl hS)) fun r => ?_
            match r with
            | .error _ => exact .pure
            | .ok linked =>
              simp only
              split
              · refine .bind (only_storage (.of_objects (.rollbackObject key)) hS) fun _ =>
                  .bind (.perform (within_of_none rfl)) fun r => ?_
                match r with
                | .ok row => exact .pure
                | .error _ => exact .pure
              · exact .pure
        · exact .pure

/-- Whoever may delete a file removes it, and nothing more. -/
theorem only_deleteFile (segment : Text) (deleteToken : Option Text) (hS : Area.files ∈ S) :
    Only S (deleteFile env caller segment deleteToken) :=
  .bind (.always (only_currentUser env caller)) fun _ => .bind (.read rfl) fun _ =>
    .bind .orThrow fun row => .bind .reject fun _ => .bind (only_removeFile row.idCore hS) fun _ => .pure

/-- A change of the visibility has an area of its own. -/
theorem only_setFileVisibility (core : Text) (userId : Uuid) (visibility : Text)
    (hS : Area.fileVisibility ∈ S) : Only S (setFileVisibility core userId visibility) :=
  .bind .orThrow fun _ => .bind (.read rfl) fun _ => .bind .orThrow fun _ => .bind .reject fun _ =>
    .ask (within_of_some rfl hS)

theorem only_toggleFile (segment visibility : Text) (hS : Area.fileVisibility ∈ S) :
    Only S (toggleFile env caller segment visibility) :=
  .bind (.always (only_currentUser env caller)) fun _ => .bind .orThrow fun user =>
    .bind (only_setFileVisibility _ user.id _ hS) fun _ => .pure

/-! ## Uploads -/

/-- Of the operations of an upload, the `INSERT` of the row is the one that makes a new file. -/
theorem only_storeOp (filename : Text) (columns : Text → FileColumns) (op : DbOp)
    (hnew : Area.newFiles ∈ S) (hS : Area.files ∈ S) : Only S (storeOp filename columns op) := by
  cases op with
  | insertFile row => exact .bind .orThrow fun _ => .perform (within_of_some rfl hnew)
  | claimCore | insertObject | bumpObject | dropObject | deleteObject | deleteFile | put | delete =>
    exact .perform (within_of_some rfl hS)

/-- Operations carried out by programs that write only there. -/
theorem only_interp {α : Type} {φ : (op : DbOp) → Handler op.Res} (hφ : ∀ op, Only S (φ op))
    (p : Dedupe.Handler α) : Only S (p.interp φ) := by
  induction p with
  | ret a => exact .pure
  | call op k ih => exact .bind (hφ op) ih

/-- A file that is too large for its column still claims a name. -/
theorem only_storeUpload (plan : UploadPlan) (req : UploadRequest) (hnew : Area.newFiles ∈ S)
    (hS : Area.files ∈ S) : Only S (storeUpload env plan req) := by
  unfold storeUpload
  split
  · exact .bind (only_interp (fun op => only_storeOp _ _ op hnew hS) _) fun _ => .check
  · exact .bind (only_claimNewCore req.draws hS) fun _ => .throw

/-- **All checks come before the first write.** -/
theorem only_uploadPlan (cfg : InstanceConfig) (limits : EffectiveLimits) (user : Option User)
    (req : UploadRequest) (form : UploadForm) : Only S (uploadPlan env cfg limits user req form) :=
  .bind .orThrow fun _ => .bind .reject fun _ => .bind .check fun _ => .bind .check fun _ =>
    .bind .check fun _ => .bind .check fun _ => .bind .check fun _ => .bind .reject fun _ =>
      .bind .check fun _ => .bind .check fun _ => .bind (only_newExpiry env _ _ _) fun _ =>
        .bind .check fun _ => .pure

/-- What is used is only summed up. -/
theorem only_quotaRemaining (user : Option User) (limits : EffectiveLimits) :
    Only S (quotaRemaining user limits) := by
  unfold quotaRemaining
  split
  · exact .bind (.read rfl) fun _ => .bind .reject fun _ => .pure
  · exact .pure

/-- An upload writes a new file. -/
theorem only_upload (req : UploadRequest) (hnew : Area.newFiles ∈ S) (hS : Area.files ∈ S) :
    Only S (upload env caller req) := by
  refine .bind (.always (only_currentIdentity env caller)) fun _ =>
    .bind (only_requireScopeIfBearer caller _ _) fun _ => .bind (.read rfl) fun cfg =>
      .bind .reject fun _ => .bind .reject fun _ => .bind (only_effectiveLimits cfg _) fun limits =>
        .bind (only_quotaRemaining _ limits) fun _ => .bind .check fun form =>
          .bind (only_uploadPlan env cfg limits _ req form) fun plan =>
            .bind (only_storeUpload env plan req hnew hS) fun _ => ?_
  exact .ite .pure .pure

/-! ## Pastes -/

/-- Pastes, too, are checked before the first write. -/
theorem only_pasteColumns (limits : EffectiveLimits) (allowNever : Bool) (user : Option User)
    (req : PasteRequest) : Only S (pasteColumns env limits allowNever user req) :=
  .bind .check fun _ => .bind .reject fun _ => .bind .reject fun _ => .bind .check fun _ =>
    .bind .check fun _ => .bind .check fun _ => .bind .reject fun _ => .bind .check fun _ =>
      .bind (only_newExpiry env _ _ _) fun _ => .pure

/-- The name of a paste is claimed as that of a file is. -/
theorem only_createPaste (req : PasteRequest) (hfiles : Area.files ∈ S) (hpastes : Area.newPastes ∈ S) :
    Only S (createPaste env caller req) := by
  refine .bind (.always (only_currentIdentity env caller)) fun _ =>
    .bind (only_requireScopeIfBearer caller _ _) fun _ => .bind (.read rfl) fun cfg =>
      .bind .reject fun _ => .bind (only_effectiveLimits cfg _) fun limits =>
        .bind (only_pasteColumns env limits _ _ req) fun _ => .bind (only_claimNewCore _ hfiles)
          fun _ => .bind (.ask (within_of_some rfl hpastes)) fun _ => ?_
  exact .ite .pure .pure

theorem only_loadLivePaste (segment : Text) : Only S (loadLivePaste segment) :=
  .bind .reject fun _ => .bind (.read rfl) fun _ => .bind .orThrow fun _ => .bind (.read rfl) fun _ =>
    .bind .reject fun _ => .pure

/-- A raw read of a paste may remove it. -/
theorem only_rawPaste (password : Option Text) (segment : Text) (hS : Area.pastes ∈ S) :
    Only S (rawPaste env caller password segment) :=
  .bind (only_loadLivePaste segment) fun _ =>
    .bind (only_checkPassword env caller.session _ _ password) fun _ => .bind .check fun _ =>
      .bind .reject fun _ => .ite .pure (.ite (.bind (.ask (within_of_some rfl hS)) fun _ =>
        .bind .reject fun _ => .pure) .pure)

/-- The page of a paste does not, though it burns. -/
theorem only_viewPaste (segment : Text) : Only S (viewPaste env caller segment) :=
  .bind (.always (only_currentUser env caller)) fun _ => .bind (only_loadLivePaste segment)
    fun _ => .bind (.read rfl) fun _ => .bind (.always (only_isUnlocked _ _ _)) fun _ =>
      .bind .check fun _ => .bind (only_ownerOf _) fun _ => .bind .reject fun _ => .pure

theorem only_unlockPaste (sid : SessionId) (segment password : Text) (hS : Area.sessions ∈ S) :
    Only S (unlockPaste env sid segment password) :=
  .bind (only_loadLivePaste segment) fun _ => .bind (only_unlockItem env sid _ _ password hS) fun _ => .pure

/-- A deletion removes the paste. -/
theorem only_deletePaste (segment : Text) (deleteToken : Option Text) (hS : Area.pastes ∈ S) :
    Only S (deletePaste env caller segment deleteToken) :=
  .bind (.always (only_currentIdentity env caller)) fun _ =>
    .bind (only_requireScopeIfBearer caller _ _) fun _ => .bind (.read rfl) fun _ =>
      .bind .orThrow fun _ => .bind .reject fun _ => .bind (.ask (within_of_some rfl hS)) fun _ =>
        .bind .reject fun _ => .pure

/-- The role is read before the visibility is written. -/
theorem only_togglePaste (segment visibility : Text) (hS : Area.pasteVisibility ∈ S) :
    Only S (togglePaste env caller segment visibility) :=
  .bind (.always (only_currentIdentity env caller)) fun _ => .bind .check fun _ =>
    .bind .orThrow fun _ => .bind (.read rfl) fun cfg => .bind (only_effectiveLimits cfg _) fun _ =>
      .bind .reject fun _ => .bind (.read rfl) fun _ => .bind .orThrow fun _ => .bind .reject fun _ =>
        .bind (.ask (within_of_some rfl hS)) fun _ => .pure

/-! ## Bundles and collections -/

theorem only_requestedCore (segment : Text) : Only S (requestedCore segment) :=
  .bind .reject fun _ => .pure

/-- The rows of an archive are read one after the other, with a running total. -/
theorem only_zipFiles (limits : EffectiveLimits) (files : List Text) (total : ℤ) :
    Only S (zipFiles limits files total) := by
  induction files generalizing total with
  | nil => exact .pure
  | cons segment rest ih =>
    exact .bind (only_requestedCore segment) fun _ => .bind (.read rfl) fun _ => .bind (.read rfl)
      fun _ => .bind .orThrow fun _ => .bind .reject fun _ => .bind .reject fun _ => .bind (ih _)
        fun _ => .pure

theorem only_zipPastes (limits : EffectiveLimits) (pastes : List Text) (total : ℤ) :
    Only S (zipPastes limits pastes total) := by
  induction pastes generalizing total with
  | nil => exact .pure
  | cons segment rest ih =>
    exact .bind (only_requestedCore segment) fun _ => .bind (.read rfl) fun _ => .bind (.read rfl)
      fun _ => .bind .orThrow fun _ => .bind .reject fun _ => .bind .reject fun _ => .bind (ih _)
        fun _ => .pure

/-- The contents come after all rows. -/
theorem only_fileEntries (files : List File) (seen : List Text) : Only S (fileEntries files seen) := by
  induction files generalizing seen with
  | nil => exact .pure
  | cons file rest ih => exact .bind .orThrow fun _ => .bind (.read rfl) fun _ => .bind (ih _) fun _ => .pure

theorem only_pasteEntries (pastes : List PasteRow) (seen : List Text) :
    Only S (pasteEntries pastes seen) := by
  induction pastes generalizing seen with
  | nil => exact .pure
  | cons paste rest ih => exact .bind .orThrow fun _ => .bind .orThrow fun _ => .bind (ih _) fun _ => .pure

/-- An archive only reads. -/
theorem only_zip (files pastes : List Text) : Only S (zip env caller files pastes) :=
  .bind .reject fun _ => .bind .reject fun _ => .bind (.always (only_currentIdentity env caller))
    fun _ => .bind (only_requireScopeIfBearer caller _ _) fun _ => .bind (.read rfl) fun cfg =>
      .bind (only_effectiveLimits cfg _) fun limits => .bind (only_zipFiles limits files 0) fun _ =>
        .bind (only_zipPastes limits pastes _) fun _ => .bind (only_fileEntries _ _) fun _ =>
          .bind (only_pasteEntries _ _) fun _ => .bind .reject fun _ => .pure

theorem only_authorName (ownerId : Option Uuid) (fallback : Text) :
    Only S (authorName ownerId fallback) := .bind (only_ownerOf ownerId) fun _ => .pure

/-- So does an embedded view, whatever its target. -/
theorem only_oembed (target : Option OembedTarget) : Only S (oembed target) := by
  refine .bind .orThrow fun target => .bind (.read rfl) fun _ => ?_
  cases target with
  | file | paste =>
    exact .bind (.read rfl) fun _ => .bind .orThrow fun _ => .bind (.read rfl) fun _ =>
      .bind .reject fun _ => .bind (only_authorName _ _) fun _ => .pure
  | collection =>
    exact .bind (.read rfl) fun _ => .bind .orThrow fun _ => .bind (only_authorName _ _) fun _ => .pure
  | other => exact .throw

/-- The sweep removes the files that have expired, each as a request would. -/
theorem only_sweepFiles (files : List File) (hS : Area.files ∈ S) : Query.Only S (sweepFiles files) := by
  induction files with
  | nil => exact .pure
  | cons file rest ih => exact .bind (only_storage (.removeFile _) hS) fun _ => ih

theorem only_sweepPastes (pastes : List PasteRow) (hS : Area.pastes ∈ S) :
    Query.Only S (sweepPastes pastes) := by
  induction pastes with
  | nil => exact .pure
  | cons paste rest ih => exact .bind (.perform (within_of_some rfl hS)) fun _ => ih

/-- Files and pastes are all that expires. -/
theorem only_sweep (hfiles : Area.files ∈ S) (hpastes : Area.pastes ∈ S) : Query.Only S sweep :=
  .bind (.perform (within_of_none rfl)) fun _ => .bind (only_sweepFiles _ hfiles) fun _ =>
    .bind (.perform (within_of_none rfl)) fun _ => only_sweepPastes _ hpastes

theorem only_writeIdentity : Only S (writeIdentity env caller) :=
  .bind (.always (only_currentIdentity env caller)) fun _ => .check

theorem only_ownedCollection (id ownerId : Uuid) : Only S (ownedCollection id ownerId) :=
  .bind (.read rfl) fun _ => .bind .orThrow fun _ => .bind .reject fun _ => .pure

/-- A collection is written last. -/
theorem only_createCollection (fields : Except String CollectionFields) (id : Uuid)
    (hS : Area.collections ∈ S) : Only S (createCollection env caller fields id) :=
  .bind (only_writeIdentity env caller) fun _ => .bind (.read rfl) fun cfg =>
    .bind (only_effectiveLimits cfg _) fun _ => .bind .reject fun _ => .bind .check fun _ =>
      .bind .check fun _ => .bind .check fun _ => .bind .check fun _ => .bind .reject fun _ =>
        .bind (.ask (within_of_some rfl hS)) fun _ => .ite .pure .pure

/-- The role is read where something is to be published. -/
theorem only_checkPublish (user : User) (visibility : Option Visibility) :
    Only S (checkPublish user visibility) :=
  .ite (.bind (.read rfl) fun cfg => .bind (only_effectiveLimits cfg _) fun _ => .reject) .pure

/-- A change of a collection writes its row. -/
theorem only_updateCollection (id : Uuid) (fields : CollectionFields) (hS : Area.collections ∈ S) :
    Only S (updateCollection env caller id fields) :=
  .bind (only_writeIdentity env caller) fun _ => .bind (only_ownedCollection id _) fun _ =>
    .bind .reject fun _ => .bind .check fun _ => .bind .check fun _ => .bind .check fun _ =>
      .bind (only_checkPublish _ _) fun _ => .bind (.ask (within_of_some rfl hS)) fun _ => .pure

/-- The removal of a collection is an area apart from its changes. -/
theorem only_deleteCollection (id : Uuid) (hS : Area.collectionRemovals ∈ S) :
    Only S (deleteCollection env caller id) :=
  .bind (only_writeIdentity env caller) fun _ => .bind (only_ownedCollection id _) fun _ =>
    .bind (.ask (within_of_some rfl hS)) fun _ => .bind .reject fun _ => .pure

/-! ## Accounts -/

/-- The dashboard only reads. -/
theorem only_dashboardResponse (user : User) : Only S (dashboardResponse env user) :=
  .bind (.read rfl) fun _ => .bind (.read rfl) fun cfg => .bind (.read rfl) fun _ =>
    .bind (only_effectiveLimits cfg _) fun _ => .bind .reject fun _ => .pure

/-- A token is inserted before the dashboard is read again. -/
theorem only_createToken (form : TokenForm) (id : Uuid) (token : Text) (hS : Area.tokens ∈ S) :
    Only S (createToken env caller form id token) :=
  .bind (only_requireUser env caller) fun user => .bind .check fun _ => .bind (.read rfl) fun _ =>
    .bind (.ask (within_of_some rfl hS)) fun _ => .ite (only_dashboardResponse env user) .pure

/-- Revoking removes tokens and makes none. -/
theorem only_revokeToken (id : Option Uuid) (hS : Area.revocations ∈ S) : Only S (revokeToken env caller id) :=
  .bind (only_requireUser env caller) fun _ => .bind .orThrow fun _ =>
    .bind (.ask (within_of_some rfl hS)) fun _ => .pure

/-- The dashboard removes a file as `delete_file` does. -/
theorem only_dashboardDeleteFile (segment : Text) (hS : Area.files ∈ S) :
    Only S (dashboardDeleteFile env caller segment) :=
  .bind (only_requireUser env caller) fun _ => .bind (.read rfl) fun _ => .bind .orThrow fun row =>
    .bind .reject fun _ => .bind (only_removeFile row.idCore hS) fun _ => .pure

theorem only_dashboardFileVisibility (segment visibility : Text) (hS : Area.fileVisibility ∈ S) :
    Only S (dashboardFileVisibility env caller segment visibility) :=
  .bind (only_requireUser env caller) fun user =>
    .bind (only_setFileVisibility _ user.id _ hS) fun _ => .pure

theorem only_dashboardDeletePaste (segment : Text) (hS : Area.pastes ∈ S) :
    Only S (dashboardDeletePaste env caller segment) :=
  .bind (only_requireUser env caller) fun _ => .bind (.read rfl) fun _ => .bind .orThrow fun _ =>
    .bind .reject fun _ => .bind (.ask (within_of_some rfl hS)) fun _ => .pure

/-- It changes the visibility of a paste without a look at the role. -/
theorem only_dashboardPasteVisibility (segment visibility : Text) (hS : Area.pasteVisibility ∈ S) :
    Only S (dashboardPasteVisibility env caller segment visibility) :=
  .bind (only_requireUser env caller) fun _ => .bind .orThrow fun _ => .bind (.read rfl) fun _ =>
    .bind .orThrow fun _ => .bind .reject fun _ => .bind (.ask (within_of_some rfl hS)) fun _ => .pure

theorem only_registerErrorPage : Only S (registerErrorPage env) := .bind .reject fun _ => .pure

theorem only_insertOpen (row : User) (hS : Area.users ∈ S) : Query.Only S (insertOpen row) := by
  refine .bind (.perform (within_of_some rfl hS)) fun r => ?_
  match r with
  | .ok user => exact .pure
  | .error e => exact .pure

/-- The transaction of a registration with a code writes users. -/
theorem only_createInvited (row : User) (code : Text) (hS : Area.users ∈ S) :
    Query.Only S (createInvited row code) := by
  refine .bind (.perform (within_of_some rfl hS)) fun r => ?_
  match r with
  | .ok (some user) => exact .pure
  | .ok none => exact .pure
  | .error e => exact .pure

/-- A login writes the session. -/
theorem only_logIn (sid : SessionId) (id : Uuid) (hS : Area.sessions ∈ S) : Only S (logIn sid id) :=
  .ask (within_of_some rfl hS)

/-- A registration that has succeeded logs in. -/
theorem only_finishRegistration (sid : SessionId) (result : Except InviteRegistrationError User)
    (hS : Area.sessions ∈ S) : Only S (finishRegistration env sid result) := by
  match result with
  | .ok user => exact .bind (only_logIn sid user.id hS) fun _ => .pure
  | .error .invalid => exact only_registerErrorPage env
  | .error (.database e) => exact .ite (only_registerErrorPage env) .throw

/-- Users and sessions are all that a registration writes, however it ends. -/
theorem only_register (sid : SessionId) (cfg : InstanceConfig) (form : RegisterForm) (hash : Text)
    (id : Uuid) (husers : Area.users ∈ S) (hsessions : Area.sessions ∈ S) :
    Only S (register env sid cfg form hash id) :=
  .bind (.read rfl) fun _ => .ite
    (.bind (.always (only_insertOpen _ husers)) fun r => only_finishRegistration env sid r hsessions)
    (.ite (.ite (only_registerErrorPage env) (.bind (.always (only_createInvited _ _ husers))
      fun r => only_finishRegistration env sid r hsessions)) .throw)

theorem only_registerPost (sid : SessionId) (form : RegisterForm) (salt : Text) (id : Uuid)
    (husers : Area.users ∈ S) (hsessions : Area.sessions ∈ S) :
    Only S (registerPost env sid form salt id) := by
  refine .bind (.read rfl) fun cfg => .bind .reject fun _ => .bind .reject fun _ =>
    .ite (only_registerErrorPage env) ?_
  split
  · exact only_register env sid cfg form _ id husers hsessions
  · exact only_registerErrorPage env

/-- The role of a user is written where there is none and a group has one. -/
theorem only_applyGroupRole (user : User) (issuer : Text) (groups : List Text)
    (hS : Area.roleOfUser ∈ S) : Only S (applyGroupRole user issuer groups) := by
  refine .ite .pure (.bind (.read rfl) fun roleId => ?_)
  match roleId with
  | none => exact .pure
  | some roleId =>
    refine .bind (.ask (within_of_some rfl hS)) fun assigned => ?_
    match assigned with
    | none => exact .pure
    | some _ => exact .read rfl

/-- Names are tried by looking them up. -/
theorem only_freeUsername (base : Text) (suffixes : List ℕ) (username : Text) :
    Only S (freeUsername base suffixes username) := by
  induction suffixes generalizing username with
  | nil => exact .pure
  | cons suffix rest ih => exact .bind (.read rfl) fun _ => .ite .pure (ih _)

/-- The account of a first login is inserted in one of two ways. -/
theorem only_provision (cfg : InstanceConfig) (row : User) (invite : Option Text)
    (hS : Area.users ∈ S) : Only S (provision cfg row invite) := by
  refine .ite (.bind (.always (only_createInvited row _ hS)) fun result => ?_)
    (.ask (within_of_some rfl hS))
  match result with
  | .ok user => exact .pure
  | .error .invalid => exact .throw
  | .error (.database e) => exact .throw

/-- What a login through a provider may write. -/
structure OidcAreas (S : List Area) : Prop where
  users : .users ∈ S
  roleOfUser : .roleOfUser ∈ S
  identities : .identities ∈ S
  sessions : .sessions ∈ S

/-- A first login writes in each of its areas, in this order. -/
theorem only_oidcFirstLogin (sid : SessionId) (cfg : InstanceConfig) (claims : Claims) (id : Uuid)
    (hS : OidcAreas S) : Only S (oidcFirstLogin env sid cfg claims id) :=
  .bind .reject fun _ => .bind (.read rfl) fun _ => .bind .reject fun _ =>
    .bind (only_freeUsername _ _ _) fun _ => .bind (.read rfl) fun _ =>
      .bind (only_provision cfg _ _ hS.users) fun user =>
        .bind (.ask (within_of_some rfl hS.identities)) fun _ =>
          .bind (only_applyGroupRole user _ _ hS.roleOfUser) fun _ =>
            .bind (.ask (within_of_some rfl hS.sessions)) fun _ =>
              .bind (only_logIn sid user.id hS.sessions) fun _ => .pure

/-- A later one writes less; it may still get a role. -/
theorem only_oidcCallback (sid : SessionId) (state : Text) (claims : Except AppError Claims) (id : Uuid)
    (hS : OidcAreas S) : Only S (oidcCallback env sid state claims id) := by
  refine .bind (.read rfl) fun cfg => .bind .reject fun _ => .bind .reject fun _ =>
    .bind (.read rfl) fun session => .bind .check fun _ => .bind .check fun claims => ?_
  split
  · exact .bind (.read rfl) fun _ => .bind .orThrow fun user =>
      .bind (.ask (within_of_some rfl hS.identities)) fun _ =>
        .bind (only_applyGroupRole user _ _ hS.roleOfUser) fun _ =>
          .bind (.ask (within_of_some rfl hS.sessions)) fun _ =>
            .bind (only_logIn sid user.id hS.sessions) fun _ => .pure
  · refine .bind (.read rfl) fun user => ?_
    match user with
    | some user =>
      exact .bind (only_applyGroupRole user _ _ hS.roleOfUser) fun _ =>
        .bind (only_logIn sid user.id hS.sessions) fun _ => .pure
    | none => exact only_oidcFirstLogin env sid cfg claims id hS

theorem only_requireAdmin : Only S (requireAdmin env caller) :=
  .bind (.always (only_currentUser env caller)) fun _ => .orThrow

/-- Only `grant` writes who is an administrator. -/
theorem only_grant (id : Option Uuid) (action : Text) (hS : Area.admins ∈ S) :
    Only S (grant env caller id action) :=
  .bind (only_requireAdmin env caller) fun _ => .bind .orThrow fun _ => .bind .check fun _ =>
    .bind .reject fun _ => .bind (.read rfl) fun _ => .bind .orThrow fun _ =>
      .bind (.ask (within_of_some rfl hS)) fun _ => .bind (.read rfl) fun _ => .pure

/-! ## The table -/

/-- What a request may write. -/
def Request.areas : Request → List Area
  | upload _ _ => [.newFiles, .files]
  | raw _ _ _ | deleteFile _ _ _ | dashboardDeleteFile _ _ | backfill _ _ => [.files]
  | toggleFile _ _ _ | dashboardFileVisibility _ _ _ => [.fileVisibility]
  | createPaste _ _ => [.files, .newPastes]
  | rawPaste _ _ _ | deletePaste _ _ _ | dashboardDeletePaste _ _ => [.pastes]
  | togglePaste _ _ _ | dashboardPasteVisibility _ _ _ => [.pasteVisibility]
  | createCollection _ _ _ | updateCollection _ _ _ => [.collections]
  | deleteCollection _ _ => [.collectionRemovals]
  | createToken _ _ _ _ => [.tokens]
  | revokeToken _ _ => [.revocations]
  | register _ _ _ _ => [.users, .sessions]
  | oidcCallback _ _ _ _ => [.users, .roleOfUser, .identities, .sessions]
  | grant _ _ _ => [.admins]
  | sweep => [.files, .pastes]
  | unlock _ _ _ | unlockPaste _ _ _ => [.sessions]
  | clock _ => [.clock]
  | preview _ _ | thumb _ | viewPaste _ _ | zip _ _ _ | oembed _ => []

theorem only_background {α : Type} {p : Query α} (hp : Query.Only S p) : Query.Only S (background p) :=
  .bind hp fun _ => .pure

/-- A handler that writes only to some areas is a query that does. -/
theorem Only.run {α : Type} {p : Handler α} (h : Only S p) : Query.Only S p.run := by
  apply Prog.Obeys.mono h
  intro r _ _
  trivial

/-- **No request writes more than its areas.** -/
theorem serve_only (req : Request) : Query.Only req.areas (serve env req) := by
  have first {a : Area} {S : List Area} : a ∈ a :: S := List.mem_cons_self
  have second {a b : Area} {S : List Area} : b ∈ a :: b :: S := List.mem_cons_of_mem _ first
  cases req with
  | upload caller req => exact (only_upload env caller req first second).run
  | raw caller password segment => exact (only_raw env caller password segment first).run
  | preview caller segment => exact (only_preview env caller segment).run
  | thumb segment => exact (only_thumb segment).run
  | unlock sid segment password => exact (only_unlock env sid segment password first).run
  | deleteFile caller segment token => exact (only_deleteFile env caller segment token first).run
  | toggleFile caller segment visibility =>
    exact (only_toggleFile env caller segment visibility first).run
  | createPaste caller req => exact (only_createPaste env caller req first second).run
  | rawPaste caller password segment =>
    exact (only_rawPaste env caller password segment first).run
  | viewPaste caller segment => exact (only_viewPaste env caller segment).run
  | unlockPaste sid segment password => exact (only_unlockPaste env sid segment password first).run
  | deletePaste caller segment token =>
    exact (only_deletePaste env caller segment token first).run
  | togglePaste caller segment visibility =>
    exact (only_togglePaste env caller segment visibility first).run
  | zip caller files pastes => exact (only_zip env caller files pastes).run
  | oembed target => exact (only_oembed target).run
  | createCollection caller fields id =>
    exact (only_createCollection env caller fields id first).run
  | updateCollection caller id fields =>
    exact (only_updateCollection env caller id fields first).run
  | deleteCollection caller id => exact (only_deleteCollection env caller id first).run
  | createToken caller form id token => exact (only_createToken env caller form id token first).run
  | revokeToken caller id => exact (only_revokeToken env caller id first).run
  | dashboardDeleteFile caller segment =>
    exact (only_dashboardDeleteFile env caller segment first).run
  | dashboardFileVisibility caller segment visibility =>
    exact (only_dashboardFileVisibility env caller segment visibility first).run
  | dashboardDeletePaste caller segment =>
    exact (only_dashboardDeletePaste env caller segment first).run
  | dashboardPasteVisibility caller segment visibility =>
    exact (only_dashboardPasteVisibility env caller segment visibility first).run
  | register sid form salt id =>
    exact (only_registerPost env sid form salt id first second).run
  | oidcCallback sid state claims id =>
    exact (only_oidcCallback env sid state claims id
      ⟨first, second, .tail _ second, .tail _ (.tail _ second)⟩).run
  | grant caller id action => exact (only_grant env caller id action first).run
  | backfill file frame => exact only_background (only_ensureThumbnail env file frame first)
  | sweep => exact only_background (only_sweep first second)
  | clock dt => exact only_background (.perform (within_of_some rfl first))

end Server
end Uwuubox
