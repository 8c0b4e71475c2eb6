import Uwuubox.Server.BurnOnce
import Uwuubox.Server.Links

/-!
# A core never names two contents

`used_id_cores` outlives the rows: a core is claimed by an `INSERT .. ON CONFLICT DO NOTHING` before a
file or a paste gets it, and nothing removes the claim.

* `Op.newItem` — the item whose row an operation has inserted; the log of them is the history.
* `claimProtocol` — a request inserts a row only with a core that it has claimed, and once.
* `Once` — **the invariant**: the cores of the history and those claimed for rows to come are
  distinct and claimed, and every row is in the history.
* `core_names_once` — **at most one row is ever inserted for a core**, whatever requests interleave,
  fail or stop; and every row there is has a claimed core.
-/

namespace Uwuubox
namespace Server

open Dedupe Storage Table Fallible

/-! ## The history -/

/-- The core of an item. -/
def Item.core : Item → Core
  | .file core | .paste core => core

/-- The item whose row the operation has inserted. -/
def Op.newItem : (op : Op) → op.Res → Option Item
  | .insertFile row _, .ok () | .storage (.insertFile row), .ok () => some (.file row.idCore)
  | .insertPaste row, .ok () => some (.paste row.idCore)
  | _, _ => none

/-- All items that rows have been inserted for, the last first. -/
abbrev Inserted := List Item

/-- Log the rows that are inserted. -/
def recordItem (inserted : Inserted) (op : Op) (r : op.Res) : Inserted :=
  (op.newItem r).toList ++ inserted

/-! ## InsertsClaimed -/

/-- The core that an insertion needs. -/
def Op.needs : Op → Option Core
  | .insertFile row _ | .storage (.insertFile row) => some row.idCore
  | .insertPaste row => some row.idCore
  | _ => none

/-- The claim after an answer: a claimed core is there for one insertion. -/
def Op.claimAfter (claim : Option Core) : (op : Op) → op.Res → Option Core
  | .storage (.claimCore core), .ok true => some core
  | .insertFile _ _, .ok () | .storage (.insertFile _), .ok () | .insertPaste _, .ok () => none
  | _, _ => claim

/-- A request inserts a row only with the core it has claimed. -/
def claimProtocol : Protocol (Option Core) Op Op.Res where
  may claim op := ∀ core, op.needs = some core → claim = some core
  next claim op r claim' := claim' = op.claimAfter claim r

/-- The cores of a claim. -/
def claimed (claim : Option Core) : Multiset Core := ↑claim.toList

/-- **The invariant.** -/
structure Once (h : World × Inserted) (claims : Multiset Core) : Prop where
  nodup : ((↑(h.2.map Item.core) : Multiset Core) + claims).Nodup
  used : ∀ core ∈ (↑(h.2.map Item.core) : Multiset Core) + claims, core ∈ h.1.dedupe.usedIdCores
  logged : ∀ item, h.1.Has item → item ∈ h.2

theorem once_empty : Once (World.empty, []) 0 where
  nodup := by simp
  used core hcore := absurd hcore (by simp)
  logged item hitem := by
    cases item <;> obtain ⟨row, hrow, -⟩ := hitem <;> cases hrow

section Step

variable {mayFail : Op → Prop} {h : World × Inserted} {w' : World} {others : Multiset Core}

/-- A claim may be given up. -/
theorem Once.drop {claims : Multiset Core} (hw : Once h (claims + others)) : Once h others where
  nodup := Multiset.nodup_of_le (add_le_add_right (Multiset.le_add_left _ _) _) hw.nodup
  used core hcore := hw.used core (Multiset.mem_of_le (add_le_add_right (Multiset.le_add_left _ _) _) hcore)
  logged := hw.logged

/-- A core that nobody has claimed. -/
theorem Once.claim {claims : Multiset Core} (hw : Once h claims) {core : Core}
    (hnew : core ∉ h.1.dedupe.usedIdCores) :
    Once ({ h.1 with dedupe := { h.1.dedupe with usedIdCores := core :: h.1.dedupe.usedIdCores } }, h.2)
      (claimed (some core) + claims) where
  nodup := by
    rw [add_left_comm]
    exact Multiset.nodup_cons.2 ⟨fun hmem => hnew (hw.used core hmem), hw.nodup⟩
  used core' hcore' := by
    rw [add_left_comm] at hcore'
    rcases Multiset.mem_cons.1 hcore' with rfl | hcore'
    · exact List.mem_cons_self
    · exact List.mem_cons_of_mem _ (hw.used core' hcore')
  logged := hw.logged

/-- The row of a claimed core is inserted. -/
theorem Once.insert {item : Item} (hw : Once h (claimed (some item.core) + others))
    (hused : w'.dedupe.usedIdCores = h.1.dedupe.usedIdCores)
    (hhas : ∀ other, w'.Has other → other = item ∨ h.1.Has other) :
    Once (w', item :: h.2) (claimed none + others) := by
  have hcores : (↑((item :: h.2).map Item.core) : Multiset Core) + (claimed none + others) =
      ↑(h.2.map Item.core) + (claimed (some item.core) + others) := by
    have hcons : (↑((item :: h.2).map Item.core) : Multiset Core) =
        claimed (some item.core) + ↑(h.2.map Item.core) := rfl
    rw [hcons, show claimed none = 0 from rfl, zero_add, add_assoc, add_left_comm]
  refine ⟨?_, ?_, fun other hother => ?_⟩
  · rw [hcores]
    exact hw.nodup
  · rw [hcores, hused]
    exact hw.used
  · rcases hhas other hother with rfl | hother
    · exact List.mem_cons_self
    · exact List.mem_cons_of_mem _ (hw.logged other hother)

/-- No row is inserted and no core claimed. -/
theorem Once.same {claims : Multiset Core} (hw : Once h claims)
    (hused : w'.dedupe.usedIdCores = h.1.dedupe.usedIdCores)
    (hhas : ∀ item, w'.Has item → h.1.Has item) : Once (w', h.2) claims where
  nodup := hw.nodup
  used core hcore := by
    rw [hused]
    exact hw.used core hcore
  logged item hitem := hw.logged item (hhas item hitem)

/-- Nothing but a claim changes the claimed cores. -/
theorem exec_usedIdCores {op : Op} {r : op.Res} {w w' : World} (h : exec mayFail w op r w')
    (hop : ∀ core, op ≠ .storage (.claimCore core)) :
    w'.dedupe.usedIdCores = w.dedupe.usedIdCores := by
  cases op with
  | storage op =>
    obtain ⟨dedupe, rfl, hdedupe⟩ := exec_storage h
    exact Dedupe.exec_usedIdCores hdedupe fun core heq => hop core (congrArg Op.storage heq)
  | insertFile row columns => rcases exec_insertFile h with ⟨_, -, rfl⟩ | ⟨-, rfl⟩ <;> rfl
  | linkThumb core key =>
    rcases exec_statement h rfl with heq | ⟨-, -, rfl⟩
    · simp only [answer] at heq
      split at heq <;> cases heq <;> rfl
    · rfl
  | _ =>
    obtain ⟨_, _, rfl⟩ := exec_frame h
    rfl

/-- What an operation that neither claims nor inserts answers. -/
theorem newItem_of_insertsNone {op : Op} (hop : op.InsertsNone) (r : op.Res) : op.newItem r = none := by
  unfold Op.newItem
  split
  · exact absurd rfl hop.1
  · exact absurd rfl hop.1
  · exact absurd rfl hop.2
  · rfl

theorem insertsNone_of_needs {op : Op} (hop : op.needs = none) : op.InsertsNone := by
  cases op with
  | storage op =>
    cases op with
    | insertFile => cases hop
    | _ => simp [Op.InsertsNone, Op.area]
  | insertFile | insertPaste => cases hop
  | _ => simp [Op.InsertsNone, Op.area]

theorem has_insertFile {w : World} {files : FileTable} {row : FileRow} {columns : Core → FileColumns}
    (hfiles : files.rows = row :: w.dedupe.files.rows) {item : Item}
    (hitem : { w with dedupe := { w.dedupe with files := files }, fileColumns := columns }.Has item) :
    item = .file row.idCore ∨ w.Has item := by
  cases item with
  | file core =>
    obtain ⟨other, hother, rfl⟩ := hitem
    rw [hfiles] at hother
    rcases List.mem_cons.1 hother with rfl | hother
    · exact .inl rfl
    · exact .inr ⟨other, hother, rfl⟩
  | paste core => exact .inr hitem

theorem has_insertPaste {w : World} {pastes : Keyed PasteRow.idCore} {row : PasteRow}
    (hinsert : w.pastes.insert? row = some pastes) {item : Item}
    (hitem : { w with pastes := pastes }.Has item) : item = .paste row.idCore ∨ w.Has item := by
  cases item with
  | file core => exact .inr hitem
  | paste core =>
    obtain ⟨other, hother, rfl⟩ := hitem
    rcases (Keyed.mem_insert? hinsert).1 hother with rfl | hother
    · exact .inl rfl
    · exact .inr ⟨other, hother, rfl⟩

/-- An insertion takes the claim. -/
theorem once_insertion {op : Op} {r : op.Res} {core : Core} {w : World} {inserted : Inserted}
    (hneeds : op.needs = some core) (hw : Once (w, inserted) (claimed (some core) + others))
    (hexec : exec mayFail w op r w') :
    Once (w', recordItem inserted op r) (claimed (op.claimAfter (some core) r) + others) := by
  cases op with
  | insertFile row columns =>
    cases hneeds
    rcases exec_insertFile hexec with ⟨hcore, rfl, rfl⟩ | ⟨⟨e, rfl⟩, rfl⟩
    · exact @Once.insert (w, inserted) _ _ (.file row.idCore) hw rfl fun other => has_insertFile rfl
    · exact hw
  | insertPaste row =>
    cases hneeds
    rcases exec_insertPaste hexec with ⟨pastes, hinsert, rfl, rfl⟩ | ⟨⟨e, rfl⟩, rfl⟩
    · exact @Once.insert (w, inserted) _ _ (.paste row.idCore) hw rfl fun other => has_insertPaste hinsert
    · exact hw
  | storage op =>
    cases op with
    | insertFile row =>
      cases hneeds
      obtain ⟨dedupe, rfl, hdedupe⟩ := exec_storage hexec
      rcases Dedupe.exec_insertFile hdedupe with ⟨hcore, rfl, rfl⟩ | ⟨e, rfl, rfl⟩
      · exact @Once.insert (w, inserted) _ _ (.file row.idCore) hw rfl fun other => has_insertFile rfl
      · exact hw
    | _ => cases hneeds
  | _ => cases hneeds

/-- **One operation keeps the invariant**, whatever the others have claimed. -/
theorem once_exec {op : Op} {r : op.Res} {claim : Option Core} {h' : World × Inserted}
    (hmay : claimProtocol.may claim op) (hw : Once h (claimed claim + others))
    (hexec : logged recordItem (exec mayFail) h op r h') :
    ∃ claim', claimProtocol.next claim op r claim' ∧ Once h' (claimed claim' + others) := by
  obtain ⟨w, inserted⟩ := h
  obtain ⟨w', inserted'⟩ := h'
  obtain ⟨hexec, hlog⟩ := hexec
  simp only at hexec hlog
  subst hlog
  refine ⟨_, rfl, ?_⟩
  cases hneeds : op.needs with
  | some core =>
    obtain rfl : claim = some core := hmay core hneeds
    exact once_insertion hneeds hw hexec
  | none =>
    have hnone := insertsNone_of_needs hneeds
    rw [recordItem, newItem_of_insertsNone hnone]
    by_cases hclaim : ∃ core, op = .storage (.claimCore core)
    · obtain ⟨core, rfl⟩ := hclaim
      obtain ⟨dedupe, rfl, hdedupe⟩ := exec_storage hexec
      rcases exec_claimCore hdedupe with ⟨rfl, hnew, rfl⟩ | ⟨hr, rfl⟩
      · exact hw.drop.claim hnew
      · match r, hr with
        | .error e, _ => exact hw
        | .ok false, _ => exact hw
    · have hsame : op.claimAfter claim r = claim := by
        unfold Op.claimAfter
        split
        · exact absurd ⟨_, rfl⟩ hclaim
        · cases hneeds
        · cases hneeds
        · cases hneeds
        · rfl
      rw [hsame]
      exact hw.same (exec_usedIdCores hexec fun core heq => hclaim ⟨core, heq⟩)
        fun item => exec_has hexec hnone

end Step

/-! ## Requests insert what they have claimed -/

/-- The protocol of what uploads and removals execute. -/
abbrev storageClaims : Protocol (Option Core) DbOp DbOp.Res :=
  ⟨fun claim op => claimProtocol.may claim (.storage op),
    fun claim op r claim' => claimProtocol.next claim (.storage op) r claim'⟩

/-- What only works on objects keeps the claim. -/
theorem keeps_claim {α : Type} {p : Dedupe.Handler α} (h : ObjectsOnly p) (claim : Option Core) :
    p.Obeys storageClaims (fun _ claim' => claim' = claim) claim := by
  have hsim : p.Obeys storageClaims (fun _ claim' => ∃ _ : Unit, claim' = claim ∧ True) claim := by
    refine Prog.Obeys.simulate (fun _ claim' => claim' = claim) ?_ ?_ h rfl
    · intro _ _ op _ hop core hcore
      cases op with
      | insertFile => cases hop
      | _ => cases hcore
    · rintro _ _ op r claim' rfl hop hnext
      refine ⟨(), trivial, ?_⟩
      cases op with
      | claimCore | insertFile | deleteFile => cases hop
      | _ => exact hnext
  exact hsim.mono fun _ _ ⟨_, h, _⟩ => h

/-- The core that the loop returns is claimed. -/
theorem claimCore_claims (draws : List Core) (claim : Option Core) :
    (claimCore draws).Obeys storageClaims
      (fun r claim' => ∀ core, r = .ok (some core) → claim' = some core) claim := by
  induction draws generalizing claim with
  | nil => exact nofun
  | cons candidate rest ih =>
    refine ⟨nofun, fun r claim' hnext => ?_⟩
    match r with
    | .error e => exact nofun
    | .ok true =>
      rintro core ⟨⟩
      exact hnext
    | .ok false => exact ih claim'

theorem publish_claims (sha256 : Bytes → Digest) (u : Upload) (core : Core) (key : SafeKey) :
    (publish sha256 u core key).Obeys storageClaims (fun _ _ => True) (some core) := by
  refine (Prog.obeys_bind _ _ _).2 ((keeps_claim (.uploadThumbnail sha256 u core) _).mono ?_)
  rintro thumbKey _ rfl
  refine ⟨fun core' hcore => hcore, fun r claim hnext => ?_⟩
  match r with
  | .ok () => trivial
  | .error e =>
    simp only [Prog.bind]
    refine (Prog.obeys_bind _ _ _).2 ((keeps_claim (.rollbackObject key) _).mono fun _ claim _ => ?_)
    cases thumbKey with
    | none => exact trivial
    | some thumbKey =>
      exact (Prog.obeys_bind _ _ _).2 ((keeps_claim (.rollbackObject thumbKey) _).mono fun _ _ _ => trivial)

/-- **An upload inserts its row with the core it has claimed.** -/
theorem uploadInner_claims (sha256 : Bytes → Digest) (u : Upload) (claim : Option Core) :
    (uploadInner sha256 u).Obeys storageClaims (fun _ _ => True) claim := by
  refine (Prog.obeys_bind _ _ _).2 ((claimCore_claims _ claim).mono fun result claim hclaim => ?_)
  match result with
  | .error e => trivial
  | .ok none => trivial
  | .ok (some core) =>
    obtain rfl := hclaim core rfl
    refine (Prog.obeys_bind _ _ _).2 ((keeps_claim (.acquireObject _ _ _ _) _).mono ?_)
    rintro acquired _ rfl
    match acquired with
    | .error e => trivial
    | .ok (key, false) => exact publish_claims sha256 u core key
    | .ok (key, true) =>
      refine ⟨nofun, fun r claim hnext => ?_⟩
      obtain rfl : claim = some core := hnext
      match r with
      | .ok () => exact publish_claims sha256 u core key
      | .error e =>
        simp only [Prog.bind]
        exact (Prog.obeys_bind _ _ _).2 ((keeps_claim (.rollbackObject key) _).mono fun _ _ _ => trivial)

/-- The handler inserts a row only with a core that it has claimed. -/
def InsertsClaimed {α : Type} (p : Handler α) : Prop :=
  ∀ claim, p.Obeys claimProtocol (fun _ _ => True) (fun _ _ => True) claim

theorem may_of_within {S : List Area} (hS : .newFiles ∉ S ∧ .newPastes ∉ S) (claim : Option Core) {op : Op}
    (hop : Within S op) : claimProtocol.may claim op := by
  intro core hneeds
  cases op with
  | insertFile row columns => exact absurd (hop _ rfl) hS.1
  | insertPaste row => exact absurd (hop _ rfl) hS.2
  | storage op =>
    cases op with
    | insertFile row => exact absurd (hop _ rfl) hS.1
    | _ => cases hneeds
  | _ => cases hneeds

section Rules

variable {α β : Type} {p : Handler α}

/-- What a handler that only reads ends with. -/
theorem reads_obey {fin : α → Option Core → Prop} (hp : Only [] p) (hfin : Ends claimProtocol.next fin p)
    (claim : Option Core) : p.Obeys claimProtocol fin (fun _ _ => True) claim := by
  have hsim := Prog.Obeys.simulate (fun claim claim' => claim = claim')
    (fun _ hop => may_of_within ⟨List.not_mem_nil, List.not_mem_nil⟩ _ hop)
    (by
      rintro claim _ op r claim' rfl - hnext
      exact ⟨claim', hnext, rfl⟩)
    (Prog.Obeys.restrict (Only.run hp) (hfin claim)) rfl
  exact Prog.Obeys.mono hsim fun r claim' ⟨_, heq, h⟩ => heq ▸ h

namespace InsertsClaimed

theorem step {P : α → Prop} {f : α → Handler β} (hp : Only [] p)
    (hP : Ends claimProtocol.next (fun a _ => P a) p) (hf : ∀ a, P a → InsertsClaimed (f a)) :
    InsertsClaimed (p >>= f) := fun claim =>
  (obeys_bind _ _).2 ((reads_obey hp hP claim).mono (fun a claim ha => hf a ha claim) fun _ _ h => h)

theorem skip {f : α → Handler β} (hp : Only [] p) (hf : ∀ a, InsertsClaimed (f a)) :
    InsertsClaimed (p >>= f) := step hp .trivially fun a _ => hf a

theorem pure {a : α} : InsertsClaimed (pure a) := fun _ => trivial

end InsertsClaimed

end Rules

section Handlers

variable (env : Env)

theorem claimNewCore_claims (draws : Fin 5 → Core) (claim : Option Core) :
    (claimNewCore draws).Obeys claimProtocol (fun core claim' => claim' = some core) (fun _ _ => True)
      claim := by
  refine (obeys_bind _ _).2 (obeys_always.2 ((obeys_storage (claimCore_claims _ claim)).mono ?_))
  intro result claim hclaim
  refine (obeys_bind _ _).2 (obeys_check.2 ⟨fun _ _ => trivial, fun claimed hclaimed => ?_⟩)
  refine obeys_orThrow.2 ⟨fun _ => trivial, fun core hcore => ?_⟩
  subst hcore
  cases result with
  | error e => cases hclaimed
  | ok claimed =>
    cases hclaimed
    exact hclaim core rfl

theorem storeUpload_claims (plan : UploadPlan) (req : UploadRequest) :
    InsertsClaimed (storeUpload env plan req) := by
  intro claim
  unfold storeUpload
  split
  · rename_i hlen
    refine (obeys_bind _ _).2 (Fallible.Obeys.mono (Prog.Obeys.interp_fallible ?_
      (uploadInner_claims env.sha256 (plan.upload env ⟨plan.bytes, hlen⟩ req) claim)) ?_ fun _ _ h => h)
    · intro claim op hmay
      cases op with
      | insertFile row =>
        refine (obeys_bind _ _).2 (obeys_orThrow.2 ⟨fun _ => trivial, fun name _ => ?_⟩)
        refine ⟨hmay, fun r claim' hnext => ?_⟩
        cases r <;> exact hnext
      | _ => exact ⟨hmay, fun r claim' hnext => hnext⟩
    · exact fun stored claim _ => obeys_check.2 ⟨fun _ _ => trivial, fun _ _ => trivial⟩
  · exact (obeys_bind _ _).2 ((claimNewCore_claims _ claim).mono (fun _ _ _ => trivial) fun _ _ h => h)

theorem upload_claims (caller : Caller) (req : UploadRequest) : InsertsClaimed (upload env caller req) := by
  refine .skip (.always (only_currentIdentity env caller)) fun identity =>
    .skip (only_requireScopeIfBearer caller _ _) fun _ => .skip (.read rfl) fun cfg =>
    .skip .reject fun _ => .skip .reject fun _ => .skip (only_effectiveLimits cfg _) fun limits =>
    .skip (only_quotaRemaining _ limits) fun remaining => .skip .check fun form =>
    .skip (only_uploadPlan env cfg limits _ req form) fun plan => ?_
  intro claim
  refine (obeys_bind _ _).2 ((storeUpload_claims env plan req claim).mono ?_ fun _ _ h => h)
  intro core claim _
  by_cases hhtml : wantsHtml caller.headers = true
  · simp only [hhtml]
    exact trivial
  · simp only [hhtml]
    exact trivial

theorem createPaste_claims (caller : Caller) (req : PasteRequest) :
    InsertsClaimed (createPaste env caller req) := by
  refine .skip (.always (only_currentIdentity env caller)) fun identity =>
    .skip (only_requireScopeIfBearer caller _ _) fun _ => .skip (.read rfl) fun cfg =>
    .skip .reject fun _ => .skip (only_effectiveLimits cfg _) fun limits =>
    .step (only_pasteColumns env limits _ _ req) (ends_pasteColumns env limits _ _ req) fun row hrow => ?_
  intro claim
  refine (obeys_bind _ _).2 ((claimNewCore_claims req.draws claim).mono ?_ fun _ _ h => h)
  rintro core _ rfl
  refine (obeys_bind _ _).2 (obeys_ask.2 ⟨?_, fun r claim _ => ⟨fun _ _ => ?_, fun _ _ => trivial⟩⟩)
  · exact fun core' hneeds => (congrArg some (hrow core).symm).trans hneeds
  · by_cases hhtml : wantsHtml caller.headers = true
    · simp only [hhtml]
      exact trivial
    · simp only [hhtml]
      exact trivial

/-- **Every request inserts rows with claimed cores only.** -/
theorem serve_claims (req : Request) :
    (serve env req).Obeys claimProtocol (fun _ _ => True) none := by
  have hrun : ∀ {p : Handler Response}, InsertsClaimed p → p.run.Obeys claimProtocol (fun _ _ => True) none :=
    fun hp => Prog.Obeys.mono (hp none) fun _ _ _ => trivial
  by_cases hreq : req.insertsNone = true
  · refine (serve_only env req).obeys (fun claim op hop => may_of_within ?_ claim hop) none
    cases req with
    | upload | createPaste => cases hreq
    | _ => simp [Request.areas]
  · cases req with
    | upload caller req => exact hrun (upload_claims env caller req)
    | createPaste caller req => exact hrun (createPaste_claims env caller req)
    | _ => exact absurd rfl hreq

end Handlers

/-! ## Every run -/

/-- **A core never names two contents.**  In every run from an empty instance, whatever requests
interleave, fail or stop, and whatever cores they draw, the rows that have ever been inserted for
files and pastes have distinct cores, those of removed rows included; and the core of every row there
is has been claimed. -/
theorem core_names_once (env : Env) (mayFail : Op → Prop) (stop : Prop)
    {p : Pool (World × Inserted) Request Op Op.Res Outcome}
    (hp : Pool.Reachable (serve env) (logged recordItem (exec mayFail)) stop (World.empty, []) p) :
    (p.shared.2.map Item.core).Nodup ∧
      ∀ item, p.shared.1.Has item → item ∈ p.shared.2 ∧ item.core ∈ p.shared.1.dedupe.usedIdCores := by
  have hcode : ∀ req, (serve env req).Owns Once (logged recordItem (exec mayFail))
      (fun _ claims => ∃ claim, claims = claimed claim ∧ True) 0 := by
    intro req
    refine (serve_claims env req).owns ?_
    intro claim op h r h' others hmay hw hexec
    exact once_exec hmay hw hexec
  have hdrop : stop → ∀ h claims others, Once h (claims + others) → Once h others :=
    fun _ h claims others hw => hw.drop
  obtain ⟨gs, -, hw⟩ := Pool.ledger once_empty hcode hdrop hp
  refine ⟨?_, fun item hitem => ⟨hw.logged item hitem, hw.used _ ?_⟩⟩
  · exact Multiset.coe_nodup.1 (Multiset.nodup_of_le (Multiset.le_add_right _ _) hw.nodup)
  · exact Multiset.mem_add.2 (.inl (List.mem_map_of_mem (hw.logged item hitem)))

/-- An operation, with the log. -/
def answerLogged (h : World × Inserted) (op : Op) : op.Res × (World × Inserted) :=
  ((answer h.1 op).1, ((answer h.1 op).2, recordItem h.2 op (answer h.1 op).1))

/-- A new paste, by nobody, with these draws. -/
def pasteRequest (draws : Fin 5 → Core) : Request :=
  .createPaste anonymous ⟨.form ⟨none, some ['h', 'i'], none, none, none, none⟩ none none, draws, [], []⟩

/-- A paste and an upload draw the same core; the file is removed, and another paste draws it again. -/
def sameDraws : List (Pool.Turn Request Unit) :=
  .spawn (pasteRequest fun i => if i = 0 then coreA else coreB) :: List.replicate 3 (.act 0 ()) ++
    .spawn (.upload anonymous { oneByteUpload zeroBytes with draws := fun _ => coreA }) ::
      List.replicate 4 (.act 0 ()) ++
    List.replicate 3 (.act 1 ()) ++ List.replicate 3 (.act 0 ()) ++
    .spawn (.deleteFile anonymous coreA.val (some [])) :: List.replicate 6 (.act 0 ()) ++
    .spawn (pasteRequest fun _ => coreA) :: List.replicate 8 (.act 0 ())

def sameDrawsPool : Pool (World × Inserted) Request Op Op.Res Outcome :=
  Pool.play (serve .plain) (fun _ => answerLogged) (World.empty, []) sameDraws

theorem core_names_once_sameDraws : (sameDrawsPool.shared.2.map Item.core).Nodup ∧
    ∀ item, sameDrawsPool.shared.1.Has item →
      item ∈ sameDrawsPool.shared.2 ∧ item.core ∈ sameDrawsPool.shared.1.dedupe.usedIdCores :=
  core_names_once .plain (fun _ => False) False
    (@Pool.reachable_play _ _ _ _ _ (serve .plain) _ False Unit (fun _ => answerLogged) (fun _ _ => true)
      (fun _ h op _ => ⟨exec_answer _ h.1 op, rfl⟩) (World.empty, []) sameDraws (by rfl))

/-- The file and the first paste have been inserted; the second paste finds no core. -/
example : sameDrawsPool.shared.2 = [.file coreA, .paste coreB] ∧
    sameDrawsPool.threads.head?.map Prod.snd = some (.ret (.error AppError.somethingWentWrong)) :=
  ⟨rfl, rfl⟩

end Server
end Uwuubox
