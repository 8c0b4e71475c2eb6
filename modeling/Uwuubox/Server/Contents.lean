import Uwuubox.Server.Sequential

/-!
# Which responses have contents

A piece of a body is labelled with the item it is content of.  Six endpoints answer with such pieces;
what they check of the row before is in two columns, `burn_after_read` and `access_password_hash`.

* `ShowsGuards` — an answer that shows the row of an item shows columns with a property.
* `ends_thumb`, `ends_zip` — endpoints that refuse what burns or is locked, whatever else they are
  answered.
* `Request.shows`, `blank_serve` — **the other requests are answered without contents.**
-/

namespace Uwuubox
namespace Server

open Dedupe Storage Table Fallible

variable {item : Item}

/-! ## Responses -/

theorem not_carries_json (fields : List (String × JsonValue)) :
    ¬ (Response.json fields).Carries item := by
  simp [Response.Carries, Response.json]

theorem not_carries_seeOther (location : Text) : ¬ (Response.seeOther location).Carries item := by
  simp [Response.Carries, Response.seeOther]

theorem not_carries_html (status : ℕ) (page : String) : ¬ (Response.html status page []).Carries item := by
  simp [Response.Carries, Response.html]

/-- A download has content of what it is a download of. -/
theorem carries_responseStream {outcome : RangeOutcome} {full len : ℕ} {body : List Piece}
    {brokenOff : Option StorageError}
    (h : (Range.responseStream outcome full len body brokenOff).Carries item) :
    ∃ bytes, .content item bytes ∈ body := by
  cases outcome with
  | full | satisfiable => exact h
  | invalid | unsatisfiable => simp [Response.Carries, Range.responseStream] at h

theorem carries_response {outcome : RangeOutcome} {full : ℕ} {of : Item} {bytes : Bytes}
    (h : (Range.response outcome full of bytes).Carries item) : item = of := by
  obtain ⟨piece, hpiece⟩ := carries_responseStream h
  cases List.mem_singleton.1 hpiece
  rfl

/-- A range that cannot be satisfied is answered without content. -/
theorem not_carries_unsatisfiable {full : ℕ} {of : Item} {bytes : Bytes} :
    ¬ (Range.response .unsatisfiable full of bytes).Carries item := by
  simp [Response.Carries, Range.response, Range.responseStream]

theorem carries_rawResponse {file : File} {response response' : Response}
    (h : rawResponse file response = .ok response') (hcarries : response'.Carries item) :
    response.Carries item := by
  unfold rawResponse at h
  split at h
  · cases h
    exact hcarries
  · cases h

/-- A page shows the paste it is about, unless it is redacted. -/
theorem mem_pasteContent (env : Env) {paste : PasteRow} {redacted : Bool} {content : List Piece}
    {bytes : Bytes} (h : pasteContent env paste redacted = .ok content)
    (hbytes : .content item bytes ∈ content) : item = .paste paste.idCore ∧ redacted = false := by
  have hpieces : ∀ shown : Bytes, .content item bytes ∈ [Piece.content (.paste paste.idCore) shown,
      .content (.paste paste.idCore) (utf8 (paste.body.take 160))] → item = .paste paste.idCore := by
    intro shown hmem
    rcases List.mem_pair.1 hmem with heq | heq
    · exact (Piece.content.inj heq).1
    · exact (Piece.content.inj heq).1
  unfold pasteContent at h
  split at h
  · cases h
    cases hbytes
  · rename_i hredacted
    refine ⟨?_, by simpa using hredacted⟩
    split at h
    · cases h
      exact hpieces _ hbytes
    · split at h
      · cases h
        exact hpieces _ hbytes
      · cases h

/-! ## Rows -/

/-- If the answer shows the row of the item, its columns `burn_after_read` and
`access_password_hash` have the property. -/
def ShowsGuards (item : Item) (P : Bool → Option Text → Prop) : (op : Op) → op.Res → Prop
  | .findFile _, .ok (some file) =>
    item = .file file.idCore → P file.burnAfterRead file.accessPasswordHash
  | .findPaste _, .ok (some paste) =>
    item = .paste paste.idCore → P paste.burnAfterRead paste.accessPasswordHash
  | _, _ => True

section Guarded

variable {Γ : Type} {next : Γ → (op : Op) → op.Res → Γ → Prop} {P : Bool → Option Text → Prop}
  (hshows : ∀ γ op r γ', next γ op r γ' → ShowsGuards item P op r)

include hshows

theorem ends_loadLiveFile (segment : Text) :
    Ends next (fun file _ => item = .file file.idCore → P file.burnAfterRead file.accessPasswordHash)
      (loadLiveFile segment) :=
  .reject fun _ => Ends.ask (fun _ _ _ h => hshows _ _ _ _ h) fun _ hfile => .orThrow fun file hsome =>
    .skip fun _ => .skip fun _ => .pure fun _ => by
      subst hsome
      exact hfile

theorem ends_loadLivePaste (segment : Text) :
    Ends next (fun paste _ => item = .paste paste.idCore → P paste.burnAfterRead paste.accessPasswordHash)
      (loadLivePaste segment) :=
  .reject fun _ => Ends.ask (fun _ _ _ h => hshows _ _ _ _ h) fun _ hpaste => .orThrow fun paste hsome =>
    .skip fun _ => .skip fun _ => .pure fun _ => by
      subst hsome
      exact hpaste

omit hshows in
/-- A raw read has content of its file, and of no other. -/
theorem ends_burnRead (file : File) (outcome : RangeOutcome) :
    Ends next (fun response _ => response.Carries item → item = .file file.idCore) (burnRead file outcome) := by
  refine .skip fun delivery => .skip fun all => .skip fun _ => .skip fun removed => .skip fun _ => ?_
  intro γ
  refine obeys_check.2 ⟨fun _ _ => trivial, fun response hresponse hcarries => ?_⟩
  exact carries_response (carries_rawResponse hresponse hcarries)

omit hshows in
theorem ends_streamRead (file : File) (outcome : RangeOutcome) :
    Ends next (fun response _ => response.Carries item → item = .file file.idCore)
      (streamRead file outcome) := by
  refine .skip fun ⟨len, delivery⟩ γ => obeys_check.2 ⟨fun _ _ => trivial, fun response hresponse hcarries => ?_⟩
  obtain ⟨bytes, hbytes⟩ := carries_responseStream (carries_rawResponse hresponse hcarries)
  cases List.mem_singleton.1 hbytes
  rfl

/-! ### Endpoints that refuse what is guarded -/

variable (hguarded : ∀ burn hash, P burn hash → burn = true ∨ hash.isSome = true)

include hguarded

theorem ends_thumb (segment : Text) :
    Ends next (fun response _ => ¬ response.Carries item) (thumb segment) := by
  refine .skip fun _ => Ends.ask (fun _ _ _ h => hshows _ _ _ _ h) fun found hfile =>
    .orThrow fun file hsome => .skip fun now => .reject fun hopen => .skip fun key => .skip fun bytes =>
      .pure fun _ hcarries => hopen ?_
  subst hsome
  rcases hguarded _ _ (hfile (carries_response hcarries)) with hburn | hhash
  · simp [hburn]
  · simp [hhash]

/-- Every file of an archive has been checked. -/
theorem ends_zipFiles (limits : EffectiveLimits) (segments : List Text) (total : ℤ) :
    Ends next (fun (found : List File × ℤ) _ => ∀ file ∈ found.1, item ≠ .file file.idCore)
      (zipFiles limits segments total) := by
  induction segments generalizing total with
  | nil => exact .pure fun _ _ hfile => absurd hfile List.not_mem_nil
  | cons segment rest ih =>
    refine .skip fun core => Ends.ask (fun _ _ _ h => hshows _ _ _ _ h) fun found hfile => .skip fun now =>
      .orThrow fun file hsome => .reject fun hopen => .skip fun _ =>
        .step (ih _) fun ⟨files, total⟩ hfiles => .pure fun _ => ?_
    intro other hother
    rcases List.mem_cons.1 hother with rfl | hother
    · obtain ⟨rfl, -⟩ := Option.filter_eq_some_iff.1 hsome
      intro heq
      rcases hguarded _ _ (hfile heq) with hburn | hhash
      · simp [hburn] at hopen
      · simp [hhash] at hopen
    · exact hfiles other hother

theorem ends_zipPastes (limits : EffectiveLimits) (segments : List Text) (total : ℤ) :
    Ends next (fun pastes _ => ∀ paste ∈ pastes, item ≠ .paste paste.idCore)
      (zipPastes limits segments total) := by
  induction segments generalizing total with
  | nil => exact .pure fun _ _ hpaste => absurd hpaste List.not_mem_nil
  | cons segment rest ih =>
    refine .skip fun core => Ends.ask (fun _ _ _ h => hshows _ _ _ _ h) fun found hpaste => .skip fun now =>
      .orThrow fun paste hsome => .reject fun hopen => .skip fun _ =>
        .step (ih _) fun pastes hpastes => .pure fun _ => ?_
    intro other hother
    rcases List.mem_cons.1 hother with rfl | hother
    · obtain ⟨rfl, -⟩ := Option.filter_eq_some_iff.1 hsome
      intro heq
      rcases hguarded _ _ (hpaste heq) with hburn | hhash
      · simp [hburn] at hopen
      · simp [hhash] at hopen
    · exact hpastes other hother

omit hshows hguarded in
/-- The entries have the contents of these files, and no other. -/
theorem ends_fileEntries {files : List File} (hfiles : ∀ file ∈ files, item ≠ .file file.idCore)
    (seen : List Text) :
    Ends next (fun (entries : List Text × List Piece) _ => ∀ bytes, .content item bytes ∉ entries.2)
      (fileEntries files seen) := by
  induction files generalizing seen with
  | nil => exact .pure fun _ _ => List.not_mem_nil
  | cons file files ih =>
    obtain ⟨hfile, hrest⟩ := List.forall_mem_cons.1 hfiles
    refine .skip fun name => .skip fun bytes => .step (ih hrest _) fun ⟨names, pieces⟩ hpieces =>
      .pure fun _ bytes' hbytes => ?_
    rcases List.mem_cons.1 hbytes with heq | hbytes
    · exact hfile (Piece.content.inj heq).1
    · exact hpieces bytes' hbytes

omit hshows hguarded in
theorem ends_pasteEntries {pastes : List PasteRow}
    (hpastes : ∀ paste ∈ pastes, item ≠ .paste paste.idCore) (seen : List Text) :
    Ends next (fun (entries : List Text × List Piece) _ => ∀ bytes, .content item bytes ∉ entries.2)
      (pasteEntries pastes seen) := by
  induction pastes generalizing seen with
  | nil => exact .pure fun _ _ => List.not_mem_nil
  | cons paste pastes ih =>
    obtain ⟨hpaste, hrest⟩ := List.forall_mem_cons.1 hpastes
    refine .skip fun stem => .skip fun name => .step (ih hrest _) fun ⟨names, pieces⟩ hpieces =>
      .pure fun _ bytes' hbytes => ?_
    rcases List.mem_cons.1 hbytes with heq | hbytes
    · exact hpaste (Piece.content.inj heq).1
    · exact hpieces bytes' hbytes

theorem ends_zip (env : Env) (caller : Caller) (files pastes : List Text) :
    Ends next (fun response _ => ¬ response.Carries item) (zip env caller files pastes) := by
  refine .skip fun _ => .skip fun _ => .skip fun _ => .skip fun _ => .skip fun cfg => .skip fun limits =>
    .step (ends_zipFiles hshows hguarded limits files 0) fun ⟨rows, total⟩ hrows =>
      .step (ends_zipPastes hshows hguarded limits pastes total) fun rows' hrows' =>
        .step (ends_fileEntries hrows []) fun ⟨seen, pieces⟩ hpieces =>
          .step (ends_pasteEntries hrows' seen) fun ⟨seen, pieces'⟩ hpieces' => .skip fun _ =>
            .pure ?_
  rintro _ ⟨bytes, hbytes⟩
  rcases List.mem_append.1 hbytes with hbytes | hbytes
  · exact hpieces bytes hbytes
  · exact hpieces' bytes hbytes

end Guarded

/-- The text of a preview page is of its file, and only where it neither burns nor is locked. -/
theorem obeys_textSnippet {Γ : Type} {next : Γ → (op : Op) → op.Res → Γ → Prop} (env : Env) {file : File}
    {locked : Bool} (hfile : item = .file file.idCore → file.burnAfterRead = true ∨ locked = true) (γ : Γ) :
    (textSnippet env file locked).Obeys ⟨fun _ _ => True, next⟩
      (fun pieces _ => ∀ bytes, .content item bytes ∉ pieces) γ := by
  unfold textSnippet
  split
  · rename_i hshown
    have hother : item ≠ .file file.idCore := by
      intro heq
      rcases hfile heq with hburn | hlocked
      · simp [hburn] at hshown
      · simp [hlocked] at hshown
    refine ⟨trivial, fun r _ _ => ?_⟩
    match r with
    | .error _ => exact fun bytes => List.not_mem_nil
    | .ok text =>
      intro bytes hbytes
      cases List.mem_singleton.1 hbytes
      exact hother rfl
  · exact fun bytes => List.not_mem_nil

/-! ## Handlers without contents -/

section Blank

variable {Γ : Type} {next : Γ → (op : Op) → op.Res → Γ → Prop} (env : Env) (caller : Caller)

theorem blank_seeOther (location : Text) : Ends next (fun response _ => ¬ response.Carries item)
    (pure (Response.seeOther location) : Handler Response) :=
  .pure fun _ => not_carries_seeOther location

theorem blank_json (fields : List (String × JsonValue)) :
    Ends next (fun response _ => ¬ response.Carries item) (pure (Response.json fields) : Handler Response) :=
  .pure fun _ => not_carries_json fields

theorem blank_upload (req : UploadRequest) :
    Ends next (fun response _ => ¬ response.Carries item) (upload env caller req) := by
  refine .skip fun _ => .skip fun _ => .skip fun _ => .skip fun _ => .skip fun _ => .skip fun _ =>
    .skip fun _ => .skip fun _ => .skip fun _ => .skip fun _ => .ite (fun _ => ?_) fun _ => ?_
  · exact blank_seeOther _
  · exact blank_json _

theorem blank_createPaste (req : PasteRequest) :
    Ends next (fun response _ => ¬ response.Carries item) (createPaste env caller req) := by
  refine .skip fun _ => .skip fun _ => .skip fun _ => .skip fun _ => .skip fun _ => .skip fun _ =>
    .skip fun _ => .skip fun _ => .ite (fun _ => ?_) fun _ => ?_
  · exact blank_seeOther _
  · exact blank_json _

theorem blank_deleteFile (segment : Text) (deleteToken : Option Text) :
    Ends next (fun response _ => ¬ response.Carries item) (deleteFile env caller segment deleteToken) :=
  .skip fun _ => .skip fun _ => .skip fun _ => .skip fun _ => .skip fun _ => blank_json _

theorem blank_deletePaste (segment : Text) (deleteToken : Option Text) :
    Ends next (fun response _ => ¬ response.Carries item) (deletePaste env caller segment deleteToken) :=
  .skip fun _ => .skip fun _ => .skip fun _ => .skip fun _ => .skip fun _ => .skip fun _ =>
    .skip fun _ => blank_json _

theorem blank_togglePaste (segment visibility : Text) :
    Ends next (fun response _ => ¬ response.Carries item) (togglePaste env caller segment visibility) :=
  .skip fun _ => .skip fun _ => .skip fun _ => .skip fun _ => .skip fun _ => .skip fun _ =>
    .skip fun _ => .skip fun _ => .skip fun _ => .skip fun _ => blank_json _

theorem blank_oembed (target : Option OembedTarget) :
    Ends next (fun response _ => ¬ response.Carries item) (oembed target) := by
  refine .skip fun target => .skip fun cfg => ?_
  cases target with
  | file segment | paste segment =>
    exact .skip fun _ => .skip fun _ => .skip fun _ => .skip fun _ => .skip fun _ => blank_json _
  | collection id => exact .skip fun _ => .skip fun _ => .skip fun _ => blank_json _
  | other => exact .throw

theorem blank_createCollection (fields : Except String CollectionFields) (id : Uuid) :
    Ends next (fun response _ => ¬ response.Carries item) (createCollection env caller fields id) := by
  refine .skip fun _ => .skip fun _ => .skip fun _ => .skip fun _ => .skip fun _ => .skip fun _ =>
    .skip fun _ => .skip fun _ => .skip fun _ => .skip fun _ => .ite (fun _ => ?_) fun _ => ?_
  · exact .pure fun _ => by simp [Response.Carries]
  · exact .pure fun _ => not_carries_json _

theorem blank_updateCollection (id : Uuid) (fields : CollectionFields) :
    Ends next (fun response _ => ¬ response.Carries item) (updateCollection env caller id fields) :=
  .skip fun _ => .skip fun _ => .skip fun _ => .skip fun _ => .skip fun _ => .skip fun _ =>
    .skip fun _ => .skip fun _ => blank_json _

theorem blank_createToken (form : TokenForm) (id : Uuid) (token : Text) :
    Ends next (fun response _ => ¬ response.Carries item) (createToken env caller form id token) := by
  refine .skip fun _ => .skip fun _ => .skip fun _ => .skip fun _ => .ite (fun _ => ?_) fun _ =>
    blank_json _
  exact .skip fun _ => .skip fun _ => .skip fun _ => .skip fun _ => .skip fun _ =>
    .pure fun _ => not_carries_html _ _

theorem blank_registerErrorPage :
    Ends next (fun response _ => ¬ response.Carries item) (registerErrorPage env) :=
  .skip fun _ => .pure fun _ => not_carries_html _ _

theorem blank_finishRegistration (sid : SessionId) (result : Except InviteRegistrationError User) :
    Ends next (fun response _ => ¬ response.Carries item) (finishRegistration env sid result) := by
  match result with
  | .ok user => exact .skip fun _ => blank_seeOther _
  | .error .invalid => exact blank_registerErrorPage env
  | .error (.database e) => exact .ite (fun _ => blank_registerErrorPage env) fun _ => .throw

theorem blank_registerPost (sid : SessionId) (form : RegisterForm) (salt : Text) (id : Uuid) :
    Ends next (fun response _ => ¬ response.Carries item) (registerPost env sid form salt id) := by
  refine .skip fun cfg => .skip fun _ => .skip fun _ => .ite (fun _ => blank_registerErrorPage env)
    fun _ => ?_
  split
  · refine .skip fun count => .ite (fun _ => .skip fun _ => blank_finishRegistration env sid _)
      fun _ => .ite (fun _ => ?_) fun _ => .throw
    exact .ite (fun _ => blank_registerErrorPage env) fun _ =>
      .skip fun _ => blank_finishRegistration env sid _
  · exact blank_registerErrorPage env

theorem blank_oidcCallback (sid : SessionId) (state : Text) (claims : Except AppError Claims) (id : Uuid) :
    Ends next (fun response _ => ¬ response.Carries item) (oidcCallback env sid state claims id) := by
  refine .skip fun cfg => .skip fun _ => .skip fun _ => .skip fun session => .skip fun _ =>
    .skip fun claims => ?_
  split
  · exact .skip fun _ => .skip fun _ => .skip fun _ => .skip fun _ => .skip fun _ => .skip fun _ =>
      blank_seeOther _
  · refine .skip fun user => ?_
    match user with
    | some user => exact .skip fun _ => .skip fun _ => blank_seeOther _
    | none =>
      exact .skip fun _ => .skip fun _ => .skip fun _ => .skip fun _ => .skip fun _ => .skip fun _ =>
        .skip fun _ => .skip fun _ => .skip fun _ => .skip fun _ => blank_seeOther _

/-- The requests that answer with contents. -/
def Request.shows : Request → Bool
  | raw _ _ _ | preview _ _ | thumb _ | rawPaste _ _ _ | viewPaste _ _ | zip _ _ _ => true
  | _ => false

/-- **The other requests are answered without contents.** -/
theorem blank_serve (item : Item) (req : Request) (hreq : req.shows = false) (γ : Γ) :
    (serve env req).Obeys ⟨fun _ _ => True, next⟩
      (fun outcome _ => ∀ response, outcome = .ok response → ¬ response.Carries item) γ := by
  have hrun : ∀ {p : Handler Response}, Ends next (fun response _ => ¬ response.Carries item) p →
      p.run.Obeys ⟨fun _ _ => True, next⟩
        (fun outcome _ => ∀ response, outcome = .ok response → ¬ response.Carries item) γ := by
    intro p hp
    refine Prog.Obeys.mono (hp γ) ?_
    rintro _ _ hfin response rfl
    exact hfin
  have hbackground : ∀ {α : Type} (p : Query α), (background p).Obeys ⟨fun _ _ => True, next⟩
      (fun outcome _ => ∀ response, outcome = .ok response → ¬ response.Carries item) γ := by
    intro α p
    refine (Prog.obeys_bind _ _ _).2 ((Prog.Obeys.trivially p).mono ?_)
    rintro _ _ _ response ⟨⟩
    simp [Response.Carries, Response.nothing]
  cases req with
  | raw | preview | thumb | rawPaste | viewPaste | zip => cases hreq
  | upload caller req => exact hrun (blank_upload env caller req)
  | createPaste caller req => exact hrun (blank_createPaste env caller req)
  | unlock sid segment password | unlockPaste sid segment password =>
    exact hrun (.skip fun _ => .skip fun _ => blank_seeOther _)
  | deleteFile caller segment token => exact hrun (blank_deleteFile env caller segment token)
  | deletePaste caller segment token => exact hrun (blank_deletePaste env caller segment token)
  | toggleFile caller segment visibility =>
    exact hrun (.skip fun _ => .skip fun _ => .skip fun _ => blank_json _)
  | togglePaste caller segment visibility => exact hrun (blank_togglePaste env caller segment visibility)
  | oembed target => exact hrun (blank_oembed target)
  | createCollection caller fields id => exact hrun (blank_createCollection env caller fields id)
  | updateCollection caller id fields => exact hrun (blank_updateCollection env caller id fields)
  | deleteCollection caller id =>
    exact hrun (.skip fun _ => .skip fun _ => .skip fun _ => .skip fun _ => blank_json _)
  | createToken caller form id token => exact hrun (blank_createToken env caller form id token)
  | revokeToken caller id => exact hrun (.skip fun _ => .skip fun _ => .skip fun _ => blank_seeOther _)
  | dashboardDeleteFile caller segment | dashboardDeletePaste caller segment =>
    exact hrun (.skip fun _ => .skip fun _ => .skip fun _ => .skip fun _ => .skip fun _ => blank_seeOther _)
  | dashboardFileVisibility caller segment visibility =>
    exact hrun (.skip fun _ => .skip fun _ => blank_seeOther _)
  | dashboardPasteVisibility caller segment visibility =>
    exact hrun (.skip fun _ => .skip fun _ => .skip fun _ => .skip fun _ => .skip fun _ => .skip fun _ =>
      blank_seeOther _)
  | register sid form salt id => exact hrun (blank_registerPost env sid form salt id)
  | oidcCallback sid state claims id => exact hrun (blank_oidcCallback env sid state claims id)
  | grant caller id action =>
    exact hrun (.skip fun _ => .skip fun _ => .skip fun _ => .skip fun _ => .skip fun _ => .skip fun _ =>
      .skip fun _ => .skip fun _ => blank_seeOther _)
  | backfill file frame => exact hbackground _
  | sweep => exact hbackground _
  | clock dt => exact hbackground _

end Blank

end Server
end Uwuubox
