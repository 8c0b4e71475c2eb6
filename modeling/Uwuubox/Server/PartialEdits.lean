import Uwuubox.Server.Footprint
import Uwuubox.Server.Sequential
import Uwuubox.Prog.Tracked

/-!
# Partial edits of a collection

`PATCH` reads the row, puts the fields of the request over it and writes all three columns back.

* `Edit`, `Collection.edited` — the fields that a request names, and the row after a list of edits.
* `execPatch` — the operations of the server, with a log of the edits that have been written.
* `Unchanged` — **the condition**: when a request writes, the fields that it does not name are still what
  it has read.
* `edited_of_unchanged` — then the row is always the first one with the edits put over it, the last
  of them first, and every request that has succeeded has its edit among them.
* `title_lost` — a run of two requests for different fields, after which one edit is gone.
-/

namespace Uwuubox
namespace Server

open Dedupe Storage Table Fallible

/-! ## Edits -/

/-- The fields that a request names, validated. -/
structure Edit where
  title : Option Text
  description : Option Text
  visibility : Option Visibility
deriving DecidableEq

/-- The validation of `collections::update`. -/
def CollectionFields.edit (fields : CollectionFields) : Except Abort Edit := do
  let title ← validateOption validateTitle fields.title
  let description ← validateOption validateDescription fields.description
  let visibility ← validateOption validateVisibility fields.visibility
  pure ⟨title, description, visibility⟩

/-- The row with edits put over it, of which the first is the last that was made. -/
def Collection.edited (row : Collection) (log : List Edit) : Collection :=
  { row with
    title := (log.findSome? Edit.title).getD row.title
    description := (log.findSome? Edit.description).getD row.description
    visibility := (log.findSome? Edit.visibility).getD row.visibility }

/-- Two edits name no field in common. -/
structure Edit.Disjoint (e f : Edit) : Prop where
  title : e.title = none ∨ f.title = none
  description : e.description = none ∨ f.description = none
  visibility : e.visibility = none ∨ f.visibility = none

/-- The row holds what the edit names. -/
structure Collection.Holds (row : Collection) (e : Edit) : Prop where
  title : ∀ t, e.title = some t → row.title = t
  description : ∀ t, e.description = some t → row.description = t
  visibility : ∀ v, e.visibility = some v → row.visibility = v

/-- Where no other element has a value, the first value is that of the element. -/
theorem findSome?_of_alone {α β : Type} {f : α → Option β} {l : List α} {a : α} (ha : a ∈ l) {b : β}
    (hb : f a = some b) (halone : ∀ c ∈ l, c ≠ a → f c = none) : l.findSome? f = some b := by
  induction l with
  | nil => exact absurd ha List.not_mem_nil
  | cons c l ih =>
    by_cases hc : c = a
    · rw [hc, List.findSome?_cons, hb]
    · rw [List.findSome?_cons, halone c List.mem_cons_self hc]
      exact ih (List.mem_of_ne_of_mem (Ne.symm hc) ha) fun d hd => halone d (List.mem_cons_of_mem c hd)

/-- Where different edits are disjoint, the row holds every one of them. -/
theorem Collection.edited_holds {row : Collection} {log : List Edit}
    (h : {e | e ∈ log}.Pairwise Edit.Disjoint) {e : Edit} (he : e ∈ log) : (row.edited log).Holds e where
  title t ht := by
    rw [Collection.edited, findSome?_of_alone he ht fun c hc hne =>
      (h hc he hne).title.resolve_right (by simp [ht])]
    rfl
  description t ht := by
    rw [Collection.edited, findSome?_of_alone he ht fun c hc hne =>
      (h hc he hne).description.resolve_right (by simp [ht])]
    rfl
  visibility v hv := by
    rw [Collection.edited, findSome?_of_alone he hv fun c hc hne =>
      (h hc he hne).visibility.resolve_right (by simp [hv])]
    rfl

/-! ## Requests and their log -/

/-- A `PATCH` of the collection. -/
structure Patch where
  caller : Caller
  fields : CollectionFields

/-- What an operation adds to the log: a request that has written its edit. -/
def written (id : Uuid) (patch : Patch) : (op : Op) → op.Res → List Edit
  | .updateCollection id' _ _ _, .ok _ =>
    if id' = id then
      match patch.fields.edit with
      | .ok edit => [edit]
      | .error _ => []
    else []
  | _, _ => []

/-- What an operation can do, with the log. -/
def execPatch (mayFail : Op → Prop) (id : Uuid) (s : World × List Edit) (op : Patch × Op) (r : op.2.Res)
    (s' : World × List Edit) : Prop :=
  exec mayFail s.1 op.2 r s'.1 ∧ s'.2 = written id op.1 op.2 r ++ s.2

/-- What a request accounts for: the rows that it has read, and the edits that it has written. -/
abbrev Account := Multiset Collection × Multiset Edit

/-- The rows that a request has read. -/
def reads (rows : Multiset Collection) : (op : Patch × Op) → op.2.Res → Multiset Collection
  | (_, .findCollection _), .ok (some row) => row ::ₘ rows
  | _, _ => rows

/-- The account of a request after an operation. -/
def accounts (id : Uuid) (account : Account) (op : Patch × Op) (r : op.2.Res) : Account :=
  (reads account.1 op r, (written id op.1 op.2 r : Multiset Edit) + account.2)

/-- The fields that the request does not name are the same in both rows. -/
structure CollectionFields.Agree (fields : CollectionFields) (row row' : Collection) : Prop where
  title : fields.title = none → row.title = row'.title
  description : fields.description = none → row.description = row'.description
  visibility : fields.visibility = none → row.visibility = row'.visibility

/-- **The condition**: when a request writes the collection, the fields that it does not name are what
it has read. -/
def Unchanged (id : Uuid) (s : World × List Edit) (account _others : Account) : Patch × Op → Prop
  | (patch, .updateCollection _ _ _ _) =>
    ∀ row ∈ account.1, ∀ current, s.1.collections.find? id = some current → patch.fields.Agree current row
  | _ => True

/-- The code of a request. -/
def patchCode (env : Env) (id : Uuid) (patch : Patch) : Prog (Patch × Op) (fun op => op.2.Res) Outcome :=
  (updateCollection env patch.caller id patch.fields).run.tagged patch

/-! ## What a request writes -/

/-- What a request may do, given the rows that it has read. -/
def MayPatch (id : Uuid) (rows : Multiset Collection) : Patch × Op → Prop
  | (patch, .updateCollection id' title description visibility) =>
    id' = id ∧ ∃ row ∈ rows, ∃ edit, patch.fields.edit = .ok edit ∧
      title = edit.title.getD row.title ∧ description = edit.description.getD row.description ∧
      visibility = edit.visibility.getD row.visibility
  | (_, op) => op.area = none

/-- The answers of the table: a row that is found has the id that was asked for. -/
def Finds (id : Uuid) : (op : Patch × Op) → op.2.Res → Prop
  | (_, .findCollection id'), .ok (some row) => id' = id → row.id = id
  | _, _ => True

theorem validateOption_none {α : Type} {validate : Text → Except Abort α} {value : Option Text}
    {a : Option α} (h : validateOption validate value = .ok a) : a = none ↔ value = none := by
  cases value with
  | none =>
    cases h
    simp
  | some value =>
    simp only [validateOption] at h
    cases hvalid : validate value with
    | error e =>
      simp only [hvalid, Except.map] at h
      cases h
    | ok v =>
      simp only [hvalid, Except.map] at h
      cases h
      simp

/-- An edit names what its request names. -/
theorem CollectionFields.edit_none {fields : CollectionFields} {edit : Edit} (h : fields.edit = .ok edit) :
    (edit.title = none ↔ fields.title = none) ∧ (edit.description = none ↔ fields.description = none) ∧
      (edit.visibility = none ↔ fields.visibility = none) := by
  unfold CollectionFields.edit at h
  cases ht : validateOption validateTitle fields.title with
  | error e =>
    rw [ht] at h
    cases h
  | ok title =>
    cases hd : validateOption validateDescription fields.description with
    | error e =>
      rw [ht, hd] at h
      cases h
    | ok description =>
      cases hv : validateOption validateVisibility fields.visibility with
      | error e =>
        rw [ht, hd, hv] at h
        cases h
      | ok visibility =>
        rw [ht, hd, hv] at h
        cases h
        exact ⟨validateOption_none ht, validateOption_none hd, validateOption_none hv⟩

section Code

variable {id : Uuid} {patch : Patch}

/-- A request that has succeeded has written its edit. -/
def Succeeds (patch : Patch) (outcome : Outcome) (account : Account) : Prop :=
  ∀ response, outcome = .ok response → ∃ edit ∈ account.2, patch.fields.edit = .ok edit

/-- The protocol of a request, without its label. -/
def patchProtocol (id : Uuid) (patch : Patch) : Protocol Account Op Op.Res :=
  ⟨fun account op => MayPatch id account.1 (patch, op), fun account op r account' =>
    Finds id (patch, op) r ∧ account' = accounts id account (patch, op) r⟩

theorem subset_reads (rows : Multiset Collection) (op : Patch × Op) (r : op.2.Res) :
    rows ⊆ reads rows op r := by
  unfold reads
  split
  · exact Multiset.subset_cons _ _
  · exact Multiset.Subset.refl rows

/-- A program that only reads may do so, and forgets no row. -/
theorem obeys_reading {α : Type} {p : Handler α} (hp : Only [] p) (account : Account) :
    p.Obeys (patchProtocol id patch) (fun _ account' => account.1 ⊆ account'.1) (fun _ _ => True)
      account := by
  have hflat : p.run.Obeys (.flat (Within []) fun _ _ => True) (fun _ _ => True) () :=
    Prog.Obeys.mono hp fun _ _ _ => trivial
  have hkeeps : p.run.Obeys ⟨fun _ => Within [], (patchProtocol id patch).next⟩
      (fun _ account' => account.1 ⊆ account'.1) account := by
    refine Prog.Obeys.restrict hflat (Prog.Obeys.stays (P := fun account' : Account => account.1 ⊆ account'.1)
      ?_ p.run (Multiset.Subset.refl account.1))
    rintro account' op r _ ⟨-, rfl⟩ hsub
    exact Multiset.Subset.trans hsub (subset_reads account'.1 (patch, op) r)
  refine (Prog.Obeys.simulate Eq ?_ (fun hR _ hnext => ⟨_, hR ▸ hnext, rfl⟩) hkeeps rfl).mono ?_
  · rintro account' _ op rfl hop
    have harea : op.area = none := by
      cases harea : op.area with
      | none => rfl
      | some a => exact absurd (hop a harea) List.not_mem_nil
    cases op with
    | updateCollection => cases harea
    | _ => exact harea
  · rintro result _ ⟨account', rfl, hsub⟩
    cases result with
    | ok a => exact hsub
    | error e => trivial

/-- **A request** reads the row and writes its edit over what it has read; when it succeeds, it has
written it. -/
theorem updateCollection_obeys (env : Env) (patch : Patch) (account : Account) :
    (updateCollection env patch.caller id patch.fields).Obeys (patchProtocol id patch)
      (fun _ account' => ∃ edit ∈ account'.2, patch.fields.edit = .ok edit) (fun _ _ => True) account := by
  unfold updateCollection
  refine (obeys_bind _ _).2 ((obeys_reading (only_writeIdentity env patch.caller) account).mono ?_
    fun _ _ h => h)
  intro identity account _
  -- the row
  unfold ownedCollection
  refine (obeys_bind _ _).2 ((obeys_bind _ _).2 (obeys_ask.2 ⟨rfl, ?_⟩))
  rintro r _ ⟨hfinds, rfl⟩
  refine ⟨?_, fun _ _ => trivial⟩
  rintro found rfl
  refine (obeys_bind _ _).2 (obeys_orThrow.2 ⟨fun _ => trivial, ?_⟩)
  rintro row rfl
  have hid : row.id = id := hfinds rfl
  refine (obeys_bind _ _).2 (obeys_reject.2 ⟨fun _ => trivial, fun _ => ?_⟩)
  -- the fields
  refine (obeys_bind _ _).2 (obeys_reject.2 ⟨fun _ => trivial, fun _ => ?_⟩)
  refine (obeys_bind _ _).2 (obeys_check.2 ⟨fun _ _ => trivial, fun title htitle => ?_⟩)
  refine (obeys_bind _ _).2 (obeys_check.2 ⟨fun _ _ => trivial, fun description hdescription => ?_⟩)
  refine (obeys_bind _ _).2 (obeys_check.2 ⟨fun _ _ => trivial, fun visibility hvisibility => ?_⟩)
  have hedit : patch.fields.edit = .ok ⟨title, description, visibility⟩ := by
    unfold CollectionFields.edit
    rw [htitle, hdescription, hvisibility]
    rfl
  refine (obeys_bind _ _).2 ((obeys_reading (only_checkPublish identity.user visibility) _).mono ?_
    fun _ _ h => h)
  intro _ account' hsub
  have hrow : row ∈ account'.1 := hsub (Multiset.mem_cons_self row account.1)
  -- the update
  refine (obeys_bind _ _).2 (obeys_ask.2 ⟨⟨hid, row, hrow, _, hedit, rfl, rfl, rfl⟩, ?_⟩)
  rintro r _ ⟨-, rfl⟩
  refine ⟨?_, fun _ _ => trivial⟩
  rintro updated rfl
  refine ⟨_, Multiset.mem_add.2 (.inl ?_), hedit⟩
  simp [written, hid, hedit]

theorem patchCode_obeys (env : Env) (id : Uuid) (patch : Patch) :
    (patchCode env id patch).Obeys (Tracked.protocol (accounts id) (fun account => MayPatch id account.1)
      (Finds id)) (Succeeds patch) 0 := by
  refine Prog.Obeys.tagged ?_
  refine Prog.Obeys.mono (updateCollection_obeys env patch 0) ?_
  rintro result account hresult response rfl
  exact hresult

end Code

/-! ## One operation -/

/-- **The invariant**: the row is the first one with the edits of the log put over it, and what the
requests have written is in the log. -/
structure IsEdited (id : Uuid) (row : Collection) (s : World × List Edit) (account : Account) : Prop where
  row : s.1.collections.find? id = some (row.edited s.2)
  log : account.2 ≤ (s.2 : Multiset Edit)

section Step

variable {mayFail : Op → Prop} {id : Uuid} {row : Collection}

theorem edited_cons {row read : Collection} {log : List Edit} {edit : Edit} {fields : CollectionFields}
    (hedit : fields.edit = .ok edit) (hagree : fields.Agree (row.edited log) read) :
    row.edited (edit :: log) = { row.edited log with
      title := edit.title.getD read.title
      description := edit.description.getD read.description
      visibility := edit.visibility.getD read.visibility } := by
  obtain ⟨ht, hd, hv⟩ := CollectionFields.edit_none hedit
  have hfield : ∀ {β : Type} (f : Edit → Option β) (first old : β),
      (f edit = none → (log.findSome? f).getD first = old) →
      ((edit :: log).findSome? f).getD first = (f edit).getD old := by
    intro β f first old hold
    rw [List.findSome?_cons]
    cases hf : f edit with
    | none => exact hold hf
    | some b => rfl
  unfold Collection.edited
  rw [hfield Edit.title row.title read.title fun h => hagree.title (ht.1 h),
    hfield Edit.description row.description read.description fun h => hagree.description (hd.1 h),
    hfield Edit.visibility row.visibility read.visibility fun h => hagree.visibility (hv.1 h)]

/-- The row after one operation of a request that may perform it, under the condition. -/
theorem edited_step {s s' : World × List Edit} {account others : Account} {op : Patch × Op}
    {r : op.2.Res} (hmay : MayPatch id account.1 op)
    (hs : s.1.collections.find? id = some (row.edited s.2)) (hcond : Unchanged id s account others op)
    (h : execPatch mayFail id s op r s') :
    Finds id op r ∧ s'.1.collections.find? id = some (row.edited s'.2) := by
  obtain ⟨w, log⟩ := s
  obtain ⟨w', log'⟩ := s'
  obtain ⟨patch, op⟩ := op
  obtain ⟨hexec, hlog⟩ := h
  change exec mayFail w op r w' at hexec
  change log' = written id patch op r ++ log at hlog
  subst hlog
  cases op with
  | updateCollection id' title description visibility =>
    obtain ⟨rfl, read, hread, edit, hedit, rfl, rfl, rfl⟩ := hmay
    refine ⟨trivial, ?_⟩
    have hagree : patch.fields.Agree (row.edited log) read := hcond read hread _ hs
    rcases exec_statement hexec rfl with heq | ⟨-, ⟨e, rfl⟩, rfl⟩
    · simp only [answer] at heq
      have hfind : w.collections.find? id' = some (row.edited log) := hs
      rw [hfind] at heq
      obtain ⟨rfl, rfl⟩ := Prod.mk.inj heq
      have hwritten : ∀ v, written id' patch (.updateCollection id' (edit.title.getD read.title)
          (edit.description.getD read.description) (edit.visibility.getD read.visibility)) (.ok v) =
          [edit] := fun v => by simp [written, hedit]
      rw [hwritten, List.singleton_append, edited_cons hedit hagree]
      refine Keyed.find?_update_self ?_ hfind
      exact fun _ => rfl
    · exact hs
  | findCollection id' =>
    obtain rfl := exec_read hexec rfl
    refine ⟨?_, hs⟩
    rcases exec_statement hexec rfl with heq | ⟨-, ⟨e, rfl⟩, -⟩
    · obtain rfl : r = .ok (w'.collections.find? id') := congrArg Prod.fst heq
      cases hfind : w'.collections.find? id' with
      | none => trivial
      | some found =>
        rintro rfl
        exact (Keyed.mem_of_find? hfind).2
    · trivial
  | _ =>
    obtain rfl := exec_read hexec hmay
    exact ⟨trivial, hs⟩

/-- **One operation** keeps the invariant. -/
theorem isEdited_step {s s' : World × List Edit} {account others : Account} {op : Patch × Op}
    {r : op.2.Res} (hmay : MayPatch id account.1 op) (hs : IsEdited id row s (account + others))
    (hcond : Unchanged id s account others op) (h : execPatch mayFail id s op r s') :
    Finds id op r ∧ IsEdited id row s' (accounts id account op r + others) := by
  obtain ⟨hfinds, hrow⟩ := edited_step hmay hs.row hcond h
  refine ⟨hfinds, hrow, ?_⟩
  have hlog : account.2 + others.2 ≤ (s.2 : Multiset Edit) := hs.log
  calc (written id op.1 op.2 r : Multiset Edit) + account.2 + others.2
      = (written id op.1 op.2 r : Multiset Edit) + (account.2 + others.2) := add_assoc _ _ _
    _ ≤ (written id op.1 op.2 r : Multiset Edit) + (s.2 : Multiset Edit) := by gcongr
    _ = (s'.2 : Multiset Edit) := by rw [h.2, Multiset.coe_add]

/-- A request that ends takes its account with it. -/
theorem IsEdited.leave {s : World × List Edit} {account others : Account}
    (h : IsEdited id row s (account + others)) : IsEdited id row s others :=
  ⟨h.row, (Multiset.le_add_left others.2 account.2).trans h.log⟩

end Step

/-! ## Edits are kept -/

/-- **Edits are kept** in every run in which no request overwrites a field that it does not name and that
has changed since it read the row: the row is the first one with the edits written so far over it, so
where different ones name no field in common, it holds every one of them; and a request that has
succeeded has its edit among them. -/
theorem edited_of_unchanged {env : Env} {mayFail : Op → Prop} {id : Uuid} {w₀ : World} {row₀ : Collection}
    (h₀ : w₀.collections.find? id = some row₀)
    {pool : Pool (World × List Edit) (Patch × Account) (Patch × Op) (fun op => op.2.Res) Outcome}
    (hpool : Tracked.Reachable (accounts id) (Unchanged id) (fun _ _ => True) (patchCode env id)
      (execPatch mayFail id) (w₀, []) pool) :
    pool.shared.1.collections.find? id = some (row₀.edited pool.shared.2) ∧
      ({e | e ∈ pool.shared.2}.Pairwise Edit.Disjoint →
        ∀ e ∈ pool.shared.2, (row₀.edited pool.shared.2).Holds e) ∧
      ∀ patch account response, ((patch, account), .ret (.ok response)) ∈ pool.threads →
        ∃ edit ∈ pool.shared.2, patch.fields.edit = .ok edit := by
  have hstart : IsEdited id row₀ (w₀, []) 0 := ⟨h₀, le_refl _⟩
  obtain ⟨hinv, hthreads⟩ := Tracked.Reachable.invariant hstart (patchCode_obeys env id)
    (fun _ _ _ _ _ _ _ hmay hinv hcond h => isEdited_step hmay hinv hcond h)
    (fun _ _ _ _ hinv => hinv.leave) hpool
  refine ⟨hinv.row, fun hdisjoint _ he => Collection.edited_holds hdisjoint he, ?_⟩
  intro patch account response hmem
  have hfin : Succeeds patch (.ok response) account := hthreads _ hmem
  obtain ⟨edit, hwritten, hedit⟩ := hfin response rfl
  have hle : account.2 ≤ (pool.shared.2 : Multiset Edit) :=
    (Tracked.le_total hmem).2.trans hinv.log
  exact ⟨edit, Multiset.mem_coe.1 (Multiset.mem_of_le hle hwritten), hedit⟩

/-! ### Runs of two requests -/

instance (fields : CollectionFields) (row row' : Collection) : Decidable (fields.Agree row row') :=
  decidable_of_iff ((fields.title = none → row.title = row'.title) ∧
    (fields.description = none → row.description = row'.description) ∧
    (fields.visibility = none → row.visibility = row'.visibility))
    ⟨fun ⟨ht, hd, hv⟩ => ⟨ht, hd, hv⟩, fun ⟨ht, hd, hv⟩ => ⟨ht, hd, hv⟩⟩

/-- The test of the condition. -/
def unchanged (id : Uuid) (s : World × List Edit) (account : Account) : Patch × Op → Bool
  | (patch, .updateCollection _ _ _ _) =>
    match s.1.collections.find? id with
    | some current => decide (∀ row ∈ account.1, patch.fields.Agree current row)
    | none => true
  | _ => true

theorem unchanged_sound {id : Uuid} {s : World × List Edit} {account others : Account}
    {op : Patch × Op} (h : unchanged id s account op = true) : Unchanged id s account others op := by
  obtain ⟨patch, op⟩ := op
  cases op with
  | updateCollection =>
    intro row hrow current hfind
    simp only [unchanged, hfind, decide_eq_true_eq] at h
    exact h row hrow
  | _ => trivial

/-- Carry out an operation that does not fail. -/
def answerPatch (id : Uuid) (_ : Unit) (s : World × List Edit) (op : Patch × Op) :
    op.2.Res × (World × List Edit) :=
  ((answer s.1 op.2).1, (answer s.1 op.2).2, written id op.1 op.2 (answer s.1 op.2).1 ++ s.2)

theorem execPatch_answer (id : Uuid) (s : World × List Edit) (op : Patch × Op) :
    execPatch (fun _ => False) id s op (answerPatch id () s op).1 (answerPatch id () s op).2 :=
  ⟨exec_answer _ s.1 op.2, rfl⟩

theorem uniqueId_owner : UniqueOn User.id [⟨1, ['u'], none, false, none, none, false, none⟩] := List.nodup_singleton _

theorem uniqueId_owned : UniqueOn Collection.id [⟨5, 1, ['a'], [], .unlisted⟩] := List.nodup_singleton _

/-- A collection `a` of a user who is signed in. -/
def ownedWorld : World :=
  { World.empty with
    users := ⟨[⟨1, ['u'], none, false, none, none, false, none⟩], uniqueId_owner⟩
    collections := ⟨[⟨5, 1, ['a'], [], .unlisted⟩], uniqueId_owned⟩
    sessions := fun _ => { Session.fresh with uid := some 1 } }

/-- Call it `b`. -/
def retitle : Patch := ⟨⟨0, .none⟩, ⟨some ['b'], none, none⟩⟩

/-- Describe it as `d`. -/
def describe : Patch := ⟨⟨0, .none⟩, ⟨none, some ['d'], none⟩⟩

/-- The four operations of the request at place `n`. -/
def fourTurns (n : ℕ) : List (Tracked.Turn Patch Unit) := List.replicate 4 (.act n ())

/-- Runs of requests for edits. -/
abbrev PatchPool := Pool (World × List Edit) (Patch × Account) (Patch × Op)
  (fun op => op.2.Res) Outcome

/-- One request after the other. -/
def patchedInTurn : PatchPool :=
  Tracked.play (accounts 5) (patchCode .plain 5) (answerPatch 5) (ownedWorld, [])
    (.spawn retitle :: fourTurns 0 ++ .spawn describe :: fourTurns 0)

theorem edited_of_unchanged_inTurn :
    patchedInTurn.shared.2 = [⟨none, some ['d'], none⟩, ⟨some ['b'], none, none⟩] ∧
      patchedInTurn.shared.1.collections.find? 5 =
        some ((⟨5, 1, ['a'], [], .unlisted⟩ : Collection).edited patchedInTurn.shared.2) ∧
      patchedInTurn.threads.map (·.1.1) = [describe, retitle] ∧
      ∀ patch ∈ [describe, retitle], ∃ edit ∈ patchedInTurn.shared.2, patch.fields.edit = .ok edit := by
  have hrun : Tracked.Reachable (accounts 5) (Unchanged 5) (fun _ _ => True) (patchCode .plain 5)
      (execPatch (fun _ => False) 5) (ownedWorld, []) patchedInTurn :=
    @Tracked.reachable_play _ _ _ _ _ _ _ (accounts 5) _ _ _ _ Unit (answerPatch 5)
      (fun _ s account _ op => unchanged 5 s account op) (fun _ _ => true)
      (fun _ s _ _ op hok => ⟨unchanged_sound hok, execPatch_answer 5 s op⟩) (fun _ _ _ => trivial)
      (ownedWorld, []) _ (by decide)
  obtain ⟨hrow, -, hsucceeded⟩ := edited_of_unchanged rfl hrun
  refine ⟨rfl, hrow, rfl, fun patch hpatch => ?_⟩
  -- both requests have succeeded
  rcases List.mem_pair.1 hpatch with rfl | rfl
  · exact hsucceeded _ _ _ (List.mem_cons_self ..)
  · exact hsucceeded _ _ _ (List.mem_cons_of_mem _ (List.mem_cons_self ..))

/-- Both requests read the row before either of them writes it. -/
def patchedAtOnce : PatchPool :=
  Tracked.play (accounts 5) (patchCode .plain 5) (answerPatch 5) (ownedWorld, [])
    (.spawn retitle :: .spawn describe ::
      (List.replicate 3 (.act 0 ()) ++ fourTurns 1 ++ [.act 0 ()]))

/-- **An edit is lost.** -/
theorem title_lost :
    Tracked.Reachable (accounts 5) (fun _ _ _ _ => True) (fun _ _ => True) (patchCode .plain 5)
      (execPatch (fun _ => False) 5) (ownedWorld, []) patchedAtOnce ∧
    patchedAtOnce.shared.2 = [⟨none, some ['d'], none⟩, ⟨some ['b'], none, none⟩] ∧
    patchedAtOnce.shared.1.collections.find? 5 = some ⟨5, 1, ['a'], ['d'], .unlisted⟩ := by
  refine ⟨?_, rfl, rfl⟩
  exact @Tracked.reachable_play _ _ _ _ _ _ _ (accounts 5) _ _ _ _ Unit (answerPatch 5) (fun _ _ _ _ _ => true)
    (fun _ _ => true) (fun _ s _ _ op _ => ⟨trivial, execPatch_answer 5 s op⟩) (fun _ _ _ => trivial)
    (ownedWorld, []) _ (by decide)

end Server
end Uwuubox
