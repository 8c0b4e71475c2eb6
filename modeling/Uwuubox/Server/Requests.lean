import Uwuubox.Server.Accounts

/-!
# The requests of the server

* `Request`, `serve` — the endpoints and the background tasks, and what they run.
* `Env.plain` — an environment to run them in.
* `Area`, `Op.area` — what an operation writes.
* `Only` — a program that writes only to some areas, with one rule for each way to build a
  program.
-/

namespace Uwuubox
namespace Server

open Dedupe Storage Fallible

/-- What the server may be asked, and the tasks it starts itself.  What a request draws at random
or learns from outside the instance is part of it. -/
inductive Request where
  | upload (caller : Caller) (req : UploadRequest)
  | raw (caller : Caller) (password : Option Text) (segment : Text)
  | preview (caller : Caller) (segment : Text)
  | thumb (segment : Text)
  | unlock (sid : SessionId) (segment password : Text)
  | deleteFile (caller : Caller) (segment : Text) (deleteToken : Option Text)
  | toggleFile (caller : Caller) (segment visibility : Text)
  | createPaste (caller : Caller) (req : PasteRequest)
  | rawPaste (caller : Caller) (password : Option Text) (segment : Text)
  | viewPaste (caller : Caller) (segment : Text)
  | unlockPaste (sid : SessionId) (segment password : Text)
  | deletePaste (caller : Caller) (segment : Text) (deleteToken : Option Text)
  | togglePaste (caller : Caller) (segment visibility : Text)
  | zip (caller : Caller) (files pastes : List Text)
  | oembed (target : Option OembedTarget)
  | createCollection (caller : Caller) (fields : Except String CollectionFields) (id : Uuid)
  | updateCollection (caller : Caller) (id : Uuid) (fields : CollectionFields)
  | deleteCollection (caller : Caller) (id : Uuid)
  | createToken (caller : Caller) (form : TokenForm) (id : Uuid) (token : Text)
  | revokeToken (caller : Caller) (id : Option Uuid)
  | dashboardDeleteFile (caller : Caller) (segment : Text)
  | dashboardFileVisibility (caller : Caller) (segment visibility : Text)
  | dashboardDeletePaste (caller : Caller) (segment : Text)
  | dashboardPasteVisibility (caller : Caller) (segment visibility : Text)
  | register (sid : SessionId) (form : RegisterForm) (salt : Text) (id : Uuid)
  | oidcCallback (sid : SessionId) (state : Text) (claims : Except AppError Claims) (id : Uuid)
  | grant (caller : Caller) (id : Option Uuid) (action : Text)
  /-- The worker that a preview page starts for a row it has read. -/
  | backfill (file : File) (frame : Option Content)
  | sweep
  /-- Time passes. -/
  | clock (dt : ℕ)

/-- How a request ends. -/
abbrev Outcome := Except Abort Response

/-- What a task in the background answers. -/
def Response.nothing : Response := ⟨0, [], [], none⟩

/-- A task that answers nobody. -/
def background {α : Type} (p : Query α) : Query Outcome := do
  let _ ← p
  pure (.ok .nothing)

/-- The program of a request. -/
def serve (env : Env) : Request → Query Outcome
  | .upload caller req => (upload env caller req).run
  | .raw caller password segment => (raw env caller password segment).run
  | .preview caller segment => (preview env caller segment).run
  | .thumb segment => (thumb segment).run
  | .unlock sid segment password => (unlock env sid segment password).run
  | .deleteFile caller segment deleteToken => (deleteFile env caller segment deleteToken).run
  | .toggleFile caller segment visibility => (toggleFile env caller segment visibility).run
  | .createPaste caller req => (createPaste env caller req).run
  | .rawPaste caller password segment => (rawPaste env caller password segment).run
  | .viewPaste caller segment => (viewPaste env caller segment).run
  | .unlockPaste sid segment password => (unlockPaste env sid segment password).run
  | .deletePaste caller segment deleteToken => (deletePaste env caller segment deleteToken).run
  | .togglePaste caller segment visibility => (togglePaste env caller segment visibility).run
  | .zip caller files pastes => (zip env caller files pastes).run
  | .oembed target => (oembed target).run
  | .createCollection caller fields id => (createCollection env caller fields id).run
  | .updateCollection caller id fields => (updateCollection env caller id fields).run
  | .deleteCollection caller id => (deleteCollection env caller id).run
  | .createToken caller form id token => (createToken env caller form id token).run
  | .revokeToken caller id => (revokeToken env caller id).run
  | .dashboardDeleteFile caller segment => (dashboardDeleteFile env caller segment).run
  | .dashboardFileVisibility caller segment visibility =>
    (dashboardFileVisibility env caller segment visibility).run
  | .dashboardDeletePaste caller segment => (dashboardDeletePaste env caller segment).run
  | .dashboardPasteVisibility caller segment visibility =>
    (dashboardPasteVisibility env caller segment visibility).run
  | .register sid form salt id => (registerPost env sid form salt id).run
  | .oidcCallback sid state claims id => (oidcCallback env sid state claims id).run
  | .grant caller id action => (grant env caller id action).run
  | .backfill file frame => background (ensureThumbnail env file frame)
  | .sweep => background sweep
  | .clock dt => background (Prog.perform (Op.tick dt))

theorem length_zeros : (List.replicate 32 0 : Bytes).length = 32 := rfl

/-- An environment to run requests in: everything passes, nothing is hashed. -/
def Env.plain : Env where
  sha256 := fun _ => ⟨List.replicate 32 0, length_zeros⟩
  sniffMime := fun _ => textPlain
  stripImageMetadata := fun bytes => .ok (bytes, false)
  zipHasEncryptedEntry := fun _ => .ok false
  scan := fun _ _ _ => .clean
  archives := fun names => names.Nodup
  apiTokenHash := id
  deleteTokenHash := id
  argon2 := fun _ pw => .ok pw
  verifyPassword := fun hash pw => hash = pw
  validateEmail := fun _ => true
  toLowercase := fun t => t.map Char.toLower
  utf8Lossy := fun bytes => bytes.map fun b => Char.ofNat b.toNat
  renderMarkdown := id
  renderHighlight := fun _ t => .ok t
  detectLanguage := fun language _ => language
  renders := fun _ => true
  later := fun now secs => some (now + secs)
  oidcConfigured := true
  baseUrl := InstanceConfig.httpsScheme

/-! ## What operations write -/

/-- The parts of the state. -/
inductive Area where
  | files
  | newFiles
  | fileVisibility
  | pastes
  | newPastes
  | pasteVisibility
  | collections
  | collectionRemovals
  | users
  | admins
  | roleOfUser
  | identities
  | tokens
  | revocations
  | sessions
  | clock
deriving DecidableEq

/-- What an operation writes, if anything. -/
def Op.area : Op → Option Area
  | storage (.insertFile _) | insertFile _ _ => some .newFiles
  | storage _ | linkThumb _ _ => some .files
  | setFileVisibility _ _ => some .fileVisibility
  | insertPaste _ => some .newPastes
  | deletePaste _ => some .pastes
  | setPasteVisibility _ _ => some .pasteVisibility
  | insertCollection _ | updateCollection _ _ _ _ => some .collections
  | deleteCollection _ => some .collectionRemovals
  | insertUser _ | createUser _ _ => some .users
  | setAdmin _ _ _ => some .admins
  | assignRole _ _ => some .roleOfUser
  | linkOidc _ _ _ => some .identities
  | insertToken _ => some .tokens
  | revokeToken _ _ => some .revocations
  | setSession _ _ => some .sessions
  | tick _ => some .clock
  | findFile _ | expiredFiles _ | expiredPastes _ | storageUsed _ | get _ | getStream _ _
  | getRangeStream _ _ _ | findPaste _ | findCollection _ | instanceConfig | findRole _ | userCount
  | findUserById _ | findUserByName _ | findOidcUser _ _ | groupRole _ _ | tokenIdentity _
  | touchToken _ | dashboard _ | session _ | audit _ _ | now => none

/-- The operations that write to none but the areas `S`. -/
def Within (S : List Area) (op : Op) : Prop := ∀ a, op.area = some a → a ∈ S

/-- A handler that writes only to the areas `S`. -/
def Only {α : Type} (S : List Area) (p : Handler α) : Prop :=
  p.Obeys (.flat (Within S) fun _ _ => True) (fun _ _ => True) (fun _ _ => True) ()

/-- A query that writes only to the areas `S`. -/
def Query.Only {α : Type} (S : List Area) (p : Query α) : Prop :=
  p.Obeys (.flat (Within S) fun _ _ => True) (fun _ _ => True) ()

section Rules

variable {α β : Type} {S : List Area}

theorem within_of_none {op : Op} (h : op.area = none) : Within S op := by
  intro a ha
  rw [h] at ha
  cases ha

theorem within_of_some {op : Op} {a : Area} (h : op.area = some a) (ha : a ∈ S) : Within S op := by
  intro b hb
  rw [h] at hb
  cases hb
  exact ha

namespace Query.Only

theorem pure {a : α} : Query.Only S (pure a) := trivial

theorem perform {op : Op} (h : Within S op) : Query.Only S (Prog.perform op) :=
  ⟨h, fun _ _ _ => trivial⟩

theorem bind {p : Query α} {f : α → Query β} (hp : Query.Only S p) (hf : ∀ a, Query.Only S (f a)) :
    Query.Only S (p >>= f) := by
  unfold Query.Only at hp ⊢
  rw [Prog.obeys_bind]
  exact hp.mono fun a _ _ => hf a

end Query.Only

/-- What uploads and removals do beside the insertion of the row. -/
theorem area_storage {op : DbOp} (h : op.isInsertFile = false) : (Op.storage op).area = some .files := by
  cases op <;> first | rfl | cases h

theorem only_storage {p : Dedupe.Handler α} (hp : InsertsNoFile p) (hS : Area.files ∈ S) :
    Query.Only S (storage p) :=
  obeys_storage (Prog.Obeys.simulate (fun _ _ => True)
    (fun _ hop => within_of_some (area_storage hop) hS) (fun _ _ _ => ⟨(), trivial, trivial⟩) hp trivial
    |>.mono fun _ _ _ => trivial)

namespace Only

theorem pure {a : α} : Only S (pure a) := trivial

theorem throw {e : Abort} : Only S (throw e : Handler α) := trivial

theorem bind {p : Handler α} {f : α → Handler β} (hp : Only S p) (hf : ∀ a, Only S (f a)) :
    Only S (p >>= f) := by
  unfold Only at hp ⊢
  rw [obeys_bind]
  exact hp.mono (fun a _ _ => hf a) fun _ _ _ => trivial

theorem reject {c : Prop} [Decidable c] {e : Abort} : Only S (reject c e) :=
  obeys_reject.2 ⟨fun _ => trivial, fun _ => trivial⟩

theorem orThrow {o : Option α} {e : Abort} : Only S (orThrow o e) :=
  obeys_orThrow.2 ⟨fun _ => trivial, fun _ _ => trivial⟩

theorem check {x : Except Abort α} : Only S (check x) :=
  obeys_check.2 ⟨fun _ _ => trivial, fun _ _ => trivial⟩

theorem ask {op : Op} (h : Within S op) : Only S (ask op) :=
  obeys_ask.2 ⟨h, fun _ _ _ => ⟨fun _ _ => trivial, fun _ _ => trivial⟩⟩

/-- An operation that writes nothing. -/
theorem read {op : Op} (h : op.area = none) : Only S (Server.ask op) := .ask (within_of_none h)

theorem perform {op : Op} (h : Within S op) : Only S (Fallible.perform op) :=
  ⟨h, fun _ _ _ => trivial⟩

theorem always {p : Query α} (h : Query.Only S p) : Only S (always p) := obeys_always.2 h

theorem ite {c : Prop} [Decidable c] {p q : Handler α} (hp : Only S p) (hq : Only S q) :
    Only S (if c then p else q) := by
  split
  · exact hp
  · exact hq

end Only

end Rules

end Server
end Uwuubox
