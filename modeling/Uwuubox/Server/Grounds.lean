import Uwuubox.Dedupe.Removal
import Uwuubox.Server.Facts

/-!
# Grounds to remove an item

An item is removed by its owner, by who has its delete token, by the one read of an item that is read once, and by the
sweeper when it has expired; only its owner sets its visibility.

* `ActsAs`, `ForOwner`, `HasPassword`, `MayRemove` — the grounds, as what a request brings and has been told.
* `Permitted` — what a request may perform, knowing what it has been told; `Op.Mild` — what anybody may.
* `Lawful` — a handler that performs no more, with one rule for each way to build one.
* `told_currentUser`, `told_findFile`, `told_checkPassword` .. — what handlers know when they have asked.
-/

namespace Uwuubox
namespace Server

open Dedupe Storage Table Fallible

/-! ## Grounds -/

/-- The delete token of a request. -/
def Request.deleteToken : Request → Option Text
  | deleteFile _ _ token | deletePaste _ _ token => token
  | _ => none

namespace AuthRequest

/-- Where a request comes from, if it says so. -/
def caller? : AuthRequest → Option Caller
  | served req => req.caller?
  | linkStart caller _ => some caller
  | loginPost _ _ _ | logout _ | oidcLogin _ _ _ => none

/-- The delete token of a request. -/
def deleteToken : AuthRequest → Option Text
  | served req => req.deleteToken
  | _ => none

/-- The `password` parameter of a request. -/
def password : AuthRequest → Option Text
  | served req => req.password
  | _ => none

/-- The raw endpoints. -/
def isRaw : AuthRequest → Bool
  | served (.raw _ _ _) | served (.rawPaste _ _ _) => true
  | _ => false

end AuthRequest

section Grounds

variable (env : Env) (known : Fact → Prop)

/-- The caller acts for the user: its session is logged in so, or it bears a token of the user. -/
def ActsAs (caller : Caller) (uid : Uuid) : Prop :=
  known (.session caller.session uid) ∨
    ∃ token, bearer caller.headers.authorization = some token ∧ known (.token (env.apiTokenHash token) uid)

variable (req : AuthRequest) (guards : Guards)

/-- The request acts for the owner of the item. -/
def ForOwner : Prop := ∃ caller uid, req.caller? = some caller ∧ guards.ownerId = some uid ∧ ActsAs env known caller uid

/-- The request has given the password of the item: in its session, or with it. -/
def HasPassword (item : Item) (hash : Text) : Prop :=
  (∃ caller, req.caller? = some caller ∧ known (.unlocked caller.session item.core)) ∨
    ∃ pw, req.password = some pw ∧ env.verifyPassword hash pw = true

/-- Why a request may remove an item. -/
inductive MayRemove (item : Item) : Prop
  | owner : ForOwner env known req guards → MayRemove item
  | deleteToken {token : Text} : req.deleteToken = some token →
      guards.deleteTokenHash = some (env.deleteTokenHash token) → MayRemove item
  /-- It is read once, and this is the read. -/
  | burn : req.isRaw = true → guards.burnAfterRead = true →
      (∀ hash, guards.accessPasswordHash = some hash → HasPassword env known req item hash) → MayRemove item

end Grounds

/-- The operation removes the item. -/
def Op.Removes : Op → Item → Prop
  | .storage (.deleteFile core), .file core' => core' = core
  | .deletePaste core, .paste core' => core'.val = core
  | _, _ => False

/-- The operation sets the visibility of the item. -/
def Op.SetsVisibility : Op → Item → Prop
  | .setFileVisibility core _, .file core' | .setPasteVisibility core _, .paste core' => core'.val = core
  | _, _ => False

/-- The item has been shown, with guards that give the request grounds to remove it, or as expired. -/
def Removable (env : Env) (req : AuthRequest) (known : Fact → Prop) (item : Item) : Prop :=
  (∃ guards, known (.shown item guards) ∧ MayRemove env known req guards item) ∨
    ∃ guards, req = .served .sweep ∧ known (.expired item guards)

/-- The item has been shown as one of the user whom the request acts for. -/
def Settable (env : Env) (req : AuthRequest) (known : Fact → Prop) (item : Item) : Prop :=
  ∃ guards, known (.shown item guards) ∧ ForOwner env known req guards

/-- What a request may perform, knowing what it has been told. -/
structure Permitted (env : Env) (req : AuthRequest) (known : Fact → Prop) (op : Op) : Prop where
  removes : ∀ item, op.Removes item → Removable env req known item
  sets : ∀ item, op.SetsVisibility item → Settable env req known item

/-- The operation does nothing to items that are there. -/
def Op.Mild (op : Op) : Prop := (∀ item, ¬ op.Removes item) ∧ ∀ item, ¬ op.SetsVisibility item

theorem Op.Mild.permitted {env : Env} {req : AuthRequest} {known : Fact → Prop} {op : Op} (h : op.Mild) :
    Permitted env req known op :=
  ⟨fun item hremoves => absurd hremoves (h.1 item), fun item hsets => absurd hsets (h.2 item)⟩

theorem mild_storage {op : DbOp} (hop : op.isDeleteFile = false) : (Op.storage op).Mild := by
  cases op with
  | deleteFile => cases hop
  | _ => exact ⟨fun _ => id, fun _ => id⟩

/-- The areas whose writes remove items or set their visibility. -/
def Area.delicate : List Area := [.files, .pastes, .fileVisibility, .pasteVisibility]

theorem mild_of_within {S : List Area} (hS : ∀ a ∈ S, a ∉ Area.delicate) {op : Op} (hop : Within S op) :
    op.Mild := by
  have hnot : ∀ a, op.area = some a → a ∉ Area.delicate := fun a ha => hS a (hop a ha)
  cases op with
  | storage op =>
    cases op with
    | deleteFile core => exact absurd (by simp [Area.delicate]) (hnot .files rfl)
    | _ => exact ⟨fun _ => id, fun _ => id⟩
  | setFileVisibility core visibility => exact absurd (by simp [Area.delicate]) (hnot .fileVisibility rfl)
  | deletePaste core => exact absurd (by simp [Area.delicate]) (hnot .pastes rfl)
  | setPasteVisibility core visibility => exact absurd (by simp [Area.delicate]) (hnot .pasteVisibility rfl)
  | _ => exact ⟨fun _ => id, fun _ => id⟩

/-! ## Lawful handlers -/

/-- The answers that only show what is known. -/
def told (known : Fact → Prop) : Unit → (op : Op) → op.Res → Unit → Prop :=
  fun _ op r _ => Tells op r ∧ Prog.Known Op.facts known op r

/-- Knowing what it is told, the handler performs only what is permitted, and returns what `P` accepts. -/
abbrev Lawful {α : Type} (env : Env) (req : AuthRequest) (known : Fact → Prop) (P : α → Prop) (p : Handler α) : Prop :=
  p.Conforms (Permitted env req known) (fun op r => Tells op r ∧ Prog.Known Op.facts known op r) P

section Rules

variable {env : Env} {req : AuthRequest} {known : Fact → Prop} {α β : Type} {P : α → Prop} {Q : β → Prop}
  {S : List Area}

/-- A query that performs nothing delicate, and what it returns. -/
theorem obeys_mild {p : Query α} {fin : α → Unit → Prop}
    (hp : p.Obeys (.flat Op.Mild fun _ _ => True) (fun _ _ => True) ())
    (hfin : p.Obeys ⟨fun _ _ => True, told known⟩ fin ()) :
    p.Obeys (Prog.justice Tells Op.facts (Permitted env req) known) fin () :=
  (Prog.Obeys.restrict hp hfin).weaken fun _ hop => hop.permitted

theorem mild_only (hS : ∀ a ∈ S, a ∉ Area.delicate) {p : Query α} (hp : Query.Only S p) :
    p.Obeys (.flat Op.Mild fun _ _ => True) (fun _ _ => True) () :=
  Prog.Obeys.weaken hp fun _ hop => mild_of_within hS hop

namespace Lawful

/-- A handler that reads. -/
theorem of_ends {p : Handler α} (hp : Only S p) (hS : ∀ a ∈ S, a ∉ Area.delicate)
    (hP : Ends (told known) (fun a _ => P a) p) : Lawful env req known P p :=
  obeys_mild (mild_only hS hp.run) (hP ())

theorem read {p : Handler α} (hp : Only [] p) (hP : Ends (told known) (fun a _ => P a) p) :
    Lawful env req known P p := of_ends hp (fun _ ha => absurd ha List.not_mem_nil) hP

/-- A step that reads, and whose value does not matter. -/
theorem skip {p : Handler α} {f : α → Handler β} (hp : Only [] p) (hf : ∀ a, Lawful env req known Q (f a)) :
    Lawful env req known Q (p >>= f) := Conforms.bind (read hp .trivially) fun a _ => hf a

/-- An operation that is permitted. -/
theorem ask {op : Op} (h : Permitted env req known op) : Lawful env req known (fun _ => True) (Server.ask op) :=
  obeys_ask.2 ⟨h, fun _ _ _ => ⟨fun _ _ => trivial, fun _ _ => trivial⟩⟩

end Lawful

/-- What uploads and removals do with the storage, where no row of a file is deleted. -/
theorem justified_storage {p : Dedupe.Handler α} (hp : DeletesNoFile p) :
    (storage p).Obeys (Prog.justice Tells Op.facts (Permitted env req) known) (fun _ _ => True) () :=
  obeys_storage (Prog.Obeys.simulate (fun _ _ => True) (fun _ hop => (mild_storage hop).permitted)
    (fun _ _ _ => ⟨(), trivial, trivial⟩) hp trivial |>.mono fun _ _ _ => trivial)

end Rules

/-! ## What requests are told -/

section Told

variable {env : Env} {known : Fact → Prop} {caller : Caller}

/-- The user of a session has been shown as the one who is logged in. -/
theorem told_sessionUser (sid : SessionId) : (sessionUser sid).Obeys ⟨fun _ _ => True, told known⟩
    (fun found _ => ∀ user, found = some user → known (.session sid user.id)) () := by
  refine ⟨trivial, fun r _ hr => ?_⟩
  cases r with
  | error _ => exact fun _ h => by cases h
  | ok session =>
    obtain ⟨uid, _, _, _, _, _, _⟩ := session
    cases uid with
    | none => exact fun _ h => by cases h
    | some id =>
      have hknown : known (.session sid id) := hr.2 _ (by simp [Op.facts, Session.facts])
      refine ⟨trivial, fun r' _ hr' => ?_⟩
      cases r' with
      | error _ => exact fun _ h => by cases h
      | ok found =>
        rintro user rfl
        have hid : user.id = id := hr'.1
        rw [hid]
        exact hknown

theorem told_bearerIdentity : (bearerIdentity env caller.headers).Obeys ⟨fun _ _ => True, told known⟩
    (fun found _ => ∀ identity, found = some identity → ActsAs env known caller identity.user.id) () := by
  unfold bearerIdentity
  split
  · exact fun _ h => by cases h
  · rename_i token hbearer
    split
    · exact fun _ h => by cases h
    · refine ⟨trivial, fun r _ hr => ?_⟩
      match r with
      | .error _ => exact fun _ h => by cases h
      | .ok none => exact fun _ h => by cases h
      | .ok (some (user, scopes)) =>
        refine ⟨trivial, fun _ _ _ => ?_⟩
        rintro _ ⟨⟩
        exact .inr ⟨token, hbearer, hr.2 _ (by simp [Op.facts])⟩

/-- **Who is found acts for the user.** -/
theorem told_currentIdentity : (currentIdentity env caller).Obeys ⟨fun _ _ => True, told known⟩
    (fun found _ => ∀ identity, found = some identity → ActsAs env known caller identity.user.id) () := by
  refine (Prog.obeys_bind _ _ _).2 ((told_sessionUser caller.session).mono fun found _ hfound => ?_)
  cases found with
  | some user =>
    rintro _ ⟨⟩
    exact .inl (hfound user rfl)
  | none => exact told_bearerIdentity

theorem told_currentUser : (currentUser env caller).Obeys ⟨fun _ _ => True, told known⟩
    (fun found _ => ∀ user, found = some user → ActsAs env known caller user.id) () := by
  refine (Prog.obeys_bind _ _ _).2 ((told_sessionUser caller.session).mono fun found _ hfound => ?_)
  cases found with
  | some user =>
    rintro _ ⟨⟩
    exact .inl (hfound user rfl)
  | none =>
    refine (Prog.obeys_bind _ _ _).2 (told_bearerIdentity.mono fun identity _ hidentity => ?_)
    intro user huser
    obtain ⟨identity, rfl, rfl⟩ := Option.map_eq_some_iff.1 huser
    exact hidentity identity rfl

theorem told_requireUser : Ends (told known) (fun user _ => ActsAs env known caller user.id)
    (requireUser env caller) :=
  .always (fun _ => told_currentUser) fun _ hfound _ =>
    obeys_orThrow.2 ⟨fun _ => trivial, fun user huser => hfound user huser⟩

/-- A row that has been read has been shown. -/
theorem told_findFile (core : Text) : Ends (told known) (fun found _ => ∀ file, found = some file →
    known (.shown (.file file.idCore) file.guards) ∧ file.idCore.val = core) (ask (.findFile core)) := by
  intro _
  refine obeys_ask.2 ⟨trivial, fun r _ hr => ⟨?_, fun _ _ => trivial⟩⟩
  rintro _ rfl file rfl
  exact ⟨hr.2 _ (by simp [Op.facts]), hr.1⟩

theorem told_findPaste (core : Text) : Ends (told known) (fun found _ => ∀ paste, found = some paste →
    known (.shown (.paste paste.idCore) paste.guards) ∧ paste.idCore.val = core) (ask (.findPaste core)) := by
  intro _
  refine obeys_ask.2 ⟨trivial, fun r _ hr => ⟨?_, fun _ _ => trivial⟩⟩
  rintro _ rfl paste rfl
  exact ⟨hr.2 _ (by simp [Op.facts]), hr.1⟩

theorem told_loadLiveFile (segment : Text) : Ends (told known)
    (fun file _ => known (.shown (.file file.idCore) file.guards)) (loadLiveFile segment) :=
  .reject fun _ => .step (told_findFile _) fun _ hfound => .orThrow fun file hsome => .skip fun _ => .skip fun _ =>
    .pure fun _ => (hfound file hsome).1

theorem told_loadLivePaste (segment : Text) : Ends (told known)
    (fun paste _ => known (.shown (.paste paste.idCore) paste.guards)) (loadLivePaste segment) :=
  .reject fun _ => .step (told_findPaste _) fun _ hfound => .orThrow fun paste hsome => .skip fun _ => .skip fun _ =>
    .pure fun _ => (hfound paste hsome).1

theorem told_isUnlocked {sid : SessionId} {hash : Option Text} {core : Core} :
    (isUnlocked sid hash core).Obeys ⟨fun _ _ => True, told known⟩
      (fun result _ => hash.isSome → result = true → known (.unlocked sid core)) () := by
  unfold isUnlocked
  split
  · rename_i hnone
    intro hsome
    rw [Option.isNone_iff_eq_none.1 hnone] at hsome
    cases hsome
  · refine ⟨trivial, fun r _ hr => ?_⟩
    match r with
    | .error _ => exact fun _ h => by cases h
    | .ok session =>
      intro _ hmem
      exact hr.2 _ (by simp [Op.facts, Session.facts, of_decide_eq_true hmem])

/-- The check of the raw endpoints lets pass who has given the password. -/
theorem told_checkPassword {req : AuthRequest} (hcaller : req.caller? = some caller) {item : Item} {core : Core}
    (hcore : item.core = core) {password : Option Text} (hpassword : req.password = password)
    {found : Option Text} : Ends (told known)
      (fun _ _ => ∀ hash, found = some hash → HasPassword env known req item hash)
      (checkPassword env caller.session found core password) := by
  subst hcore hpassword
  unfold checkPassword
  cases found with
  | none => exact .pure fun _ _ h => by cases h
  | some found =>
    refine .always (fun _ => told_isUnlocked) fun result hresult _ => ?_
    refine obeys_reject.2 ⟨fun _ => trivial, fun hopen hash heq => ?_⟩
    cases heq
    cases result with
    | true => exact .inl ⟨caller, hcaller, hresult rfl rfl⟩
    | false =>
      have hany : (req.password.any fun password => env.verifyPassword found password) = true := by
        simpa using hopen
      exact .inr ((Option.any_eq_true _ _).1 hany)

end Told

end Server
end Uwuubox
