import Uwuubox.Dedupe.Ledger
import Uwuubox.Dedupe.Requests

/-!
# The discipline of the handlers

What the handlers do with the tokens of the ledger, given a rule for each statement.  The
rules differ with the faults and schedules that are looked at; the handlers do not.

* `Discipline` — one rule for each statement of an upload.
* `Discipline.uploadInner` — an upload starts with nothing and ends with nothing, but for the
  token of the row it has inserted.
* `Discipline.removeFile` — a removal starts and ends with nothing.
-/

namespace Uwuubox
namespace Dedupe

open Storage

/-- The bytes of the object have been dealt with. -/
def Grip.NotFresh (grip : Grip) : Prop := ∀ sha256, grip ≠ .fresh sha256

/-- What is owned of a thumbnail. -/
def ThumbShare : Option SafeKey → Share → Prop
  | none, g => g = 0
  | some key, g => ∃ grip : Grip, grip.NotFresh ∧ g = {.held key grip}

/-- What each statement does with the tokens.  `settled` is what a request knows of an object
before it publishes a row that refers to it; `known` are the contents that are stored. -/
structure Discipline (inv : World → Share → Prop)
    (ex : World → (op : DbOp) → op.Res → World → Prop) (sha256 : Bytes → Digest)
    (known : Bytes → Prop) (settled : Digest → Grip → Prop) : Prop where
  notFresh : ∀ {sha grip}, settled sha grip → grip.NotFresh
  claimCore : ∀ core ext, (Prog.perform (DbOp.claimCore core)).Owns inv ex
    (fun r g => match r with
      | .ok true => g = {.cand (fileKey core ext)} + {.cand (thumbKey core)}
      | _ => g = 0) 0
  insertObject : ∀ sha key size mime, (Prog.perform (DbOp.insertObject sha key size mime)).Owns inv ex
    (fun r g => match r with
      | .ok (some key') => g = {.held key' (.fresh sha)}
      | _ => g = 0) {.cand key}
  bumpObject : ∀ sha, (Prog.perform (DbOp.bumpObject sha)).Owns inv ex
    (fun r g => match r with
      | .ok key => ∃ grip, settled sha grip ∧ g = {.held key grip}
      | .error _ => g = 0) 0
  dropObject : ∀ key (grip : Grip), grip.NotFresh → (Prog.perform (DbOp.dropObject key)).Owns inv ex
    (fun r g => match r with
      | .ok (some 0) => g = {.spent key}
      | _ => g = 0) {.held key grip}
  deleteObject : ∀ key, (Prog.perform (DbOp.deleteObject key)).Owns inv ex
    (fun r g => match r with
      | .ok () => g = {.dead key}
      | .error _ => g = 0) {.spent key}
  delete : ∀ key, (Prog.perform (DbOp.delete key)).Owns inv ex (fun _ g => g = 0) {.dead key}
  put : ∀ key bytes, known bytes → (Prog.perform (DbOp.put key bytes)).Owns inv ex
    (fun r g => match r with
      | .ok () => ∃ grip, settled (sha256 bytes) grip ∧ g = {.held key grip}
      | .error _ => g = {.held key .bare}) {.held key (.fresh (sha256 bytes))}
  insertFile : ∀ row grip thumb, settled row.sha256 grip → ThumbShare row.thumbKey thumb →
    (Prog.perform (DbOp.insertFile row)).Owns inv ex
      (fun r g => match r with
        | .ok () => g = {.done row.idCore row.sha256}
        | .error _ => g = {.held row.storageKey grip} + thumb) ({.held row.storageKey grip} + thumb)

/-- Nothing is left to be stored. -/
def Clean (g : Share) : Prop := ∀ key sha, .held key (.fresh sha) ∉ g

theorem clean_zero : Clean 0 := fun _ _ => Multiset.notMem_zero _

theorem clean_cand (key : SafeKey) : Clean {.cand key} := by
  intro key sha hmem
  cases Multiset.mem_singleton.1 hmem

theorem Clean.add {g f : Share} (hg : Clean g) (hf : Clean f) : Clean (g + f) := by
  intro key sha hmem
  rcases Multiset.mem_add.1 hmem with hmem | hmem
  · exact hg key sha hmem
  · exact hf key sha hmem

theorem ThumbShare.clean {thumbKey : Option SafeKey} {thumb : Share} (h : ThumbShare thumbKey thumb) :
    Clean thumb := by
  cases thumbKey with
  | none =>
    obtain rfl : thumb = 0 := h
    exact clean_zero
  | some key =>
    obtain ⟨grip, hgrip, rfl⟩ := h
    intro key' sha hmem
    cases Multiset.mem_singleton.1 hmem
    exact hgrip sha rfl

/-- The references of a row, as its request holds them. -/
theorem ThumbShare.heldCount {row : FileRow} {thumb : Share} (h : ThumbShare row.thumbKey thumb)
    (grip : Grip) (key : SafeKey) :
    heldCount ({.held row.storageKey grip} + thumb) key = row.keys.count key := by
  have hthumb : Dedupe.heldCount thumb key = row.thumbKey.toList.count key := by
    cases hkey : row.thumbKey with
    | none =>
      rw [hkey] at h
      obtain rfl : thumb = 0 := h
      rfl
    | some key' =>
      rw [hkey] at h
      obtain ⟨grip', -, rfl⟩ := h
      rw [heldCount_singleton, Option.toList_some, List.count_singleton]
      simp only [Token.isHeld, decide_eq_true_eq, beq_iff_eq]
  rw [heldCount_add, heldCount_singleton, hthumb, FileRow.keys, List.count_cons, add_comm]
  simp only [Token.isHeld, decide_eq_true_eq, beq_iff_eq]

/-- How an upload ends: with its row in the table, or without. -/
def Finished (sha : Digest) : Except AppError Core → Share → Prop
  | .ok core, g => .done core sha ∈ g ∧ Clean g
  | .error _, g => Clean g

namespace Discipline

variable {inv : World → Share → Prop} {ex : World → (op : DbOp) → op.Res → World → Prop}
  {sha256 : Bytes → Digest} {known : Bytes → Prop} {settled : Digest → Grip → Prop}
  (D : Discipline inv ex sha256 known settled)

/-! ## The reference count -/

include D

theorem acquireObject (sha : Digest) (key : SafeKey) (size : ℕ) (mime : Text) :
    (acquireObject sha key size mime).Owns inv ex
      (fun r g => match r with
        | .ok (key', true) => g = {.held key' (.fresh sha)}
        | .ok (key', false) => ∃ grip, settled sha grip ∧ g = {.held key' grip}
        | .error _ => g = 0) {.cand key} := by
  unfold Dedupe.acquireObject
  rw [Prog.owns_bind]
  apply (D.insertObject sha key size mime).mono
  intro r g hg
  match r, hg with
  | .error e, hg => exact hg
  | .ok (some key'), hg => exact hg
  | .ok none, hg =>
    cases hg
    show (Prog.perform (DbOp.bumpObject sha) >>= _).Owns inv ex _ 0
    rw [Prog.owns_bind]
    apply (D.bumpObject sha).mono
    intro r g hg
    match r, hg with
    | .error e, hg => exact hg
    | .ok key', hg => exact hg

theorem releaseObject (key : SafeKey) {grip : Grip} (hgrip : grip.NotFresh) :
    (releaseObject key).Owns inv ex
      (fun r g => match r with
        | .ok true => g = {.dead key}
        | _ => g = 0) {.held key grip} := by
  unfold Dedupe.releaseObject
  rw [Prog.owns_bind]
  apply (D.dropObject key grip hgrip).mono
  intro r g hg
  match r, hg with
  | .error e, hg => exact hg
  | .ok none, hg => exact hg
  | .ok (some (n + 1)), hg => exact hg
  | .ok (some 0), hg =>
    cases hg
    show (Prog.perform (DbOp.deleteObject key) >>= _).Owns inv ex _ {.spent key}
    rw [Prog.owns_bind]
    apply (D.deleteObject key).mono
    intro r g hg
    match r, hg with
    | .error e, hg => exact hg
    | .ok (), hg => exact hg

theorem rollbackObject (key : SafeKey) {grip : Grip} (hgrip : grip.NotFresh) :
    (rollbackObject key).Owns inv ex (fun _ g => g = 0) {.held key grip} := by
  unfold Dedupe.rollbackObject
  rw [Prog.owns_bind]
  apply (D.releaseObject key hgrip).mono
  intro r g hg
  match r, hg with
  | .error e, hg => exact hg
  | .ok false, hg => exact hg
  | .ok true, hg =>
    cases hg
    show (Prog.perform (DbOp.delete key) >>= _).Owns inv ex _ {.dead key}
    rw [Prog.owns_bind]
    exact D.delete key

/-! ## Uploads -/

/-- The loop ends with the keys of the core it claimed. -/
theorem claimCore_loop (ext : Ext) (draws : List Core) :
    (Dedupe.claimCore draws).Owns inv ex
      (fun r g => match r with
        | .ok (some core) => g = {.cand (fileKey core ext)} + {.cand (thumbKey core)}
        | _ => g = 0) 0 := by
  induction draws with
  | nil => exact rfl
  | cons candidate rest ih =>
    unfold Dedupe.claimCore
    rw [Prog.owns_bind]
    apply (D.claimCore candidate ext).mono
    intro r g hg
    match r, hg with
    | .error e, hg => exact hg
    | .ok true, hg => exact hg
    | .ok false, hg =>
      cases hg
      exact ih

theorem storeThumbnail (core : Core) {jpeg : Content} (hjpeg : known jpeg.bytes) :
    (storeThumbnail sha256 core jpeg).Owns inv ex ThumbShare {.cand (thumbKey core)} := by
  unfold Dedupe.storeThumbnail
  rw [Prog.owns_bind]
  apply (D.acquireObject _ _ _ _).mono
  intro r g hg
  match r, hg with
  | .error e, hg => exact hg
  | .ok (key, false), hg =>
    obtain ⟨grip, hgrip, rfl⟩ := hg
    exact ⟨grip, D.notFresh hgrip, rfl⟩
  | .ok (key, true), hg =>
    cases hg
    show (Prog.perform (DbOp.put key jpeg.bytes) >>= _).Owns inv ex _ _
    rw [Prog.owns_bind]
    apply (D.put key jpeg.bytes hjpeg).mono
    intro r g hg
    match r, hg with
    | .ok (), hg =>
      obtain ⟨grip, hgrip, rfl⟩ := hg
      exact ⟨grip, D.notFresh hgrip, rfl⟩
    | .error e, hg =>
      cases hg
      show (rollbackThumbnail key >>= _).Owns inv ex _ _
      rw [Prog.owns_bind]
      exact D.rollbackObject key fun sha h => by cases h

/-- With or without a thumbnail. -/
theorem uploadThumbnail (u : Upload) (hframe : ∀ jpeg ∈ u.frame, known jpeg.bytes) (core : Core) :
    (uploadThumbnail sha256 u core).Owns inv ex
      (fun r g => ∃ thumb rest, g = thumb + rest ∧ ThumbShare r thumb ∧ Clean rest)
      {.cand (thumbKey core)} := by
  have hnone : ∃ thumb rest, ({.cand (thumbKey core)} : Share) = thumb + rest ∧
      ThumbShare none thumb ∧ Clean rest :=
    ⟨0, _, (zero_add _).symm, rfl, clean_cand _⟩
  unfold Dedupe.uploadThumbnail
  split
  · cases hf : u.frame with
    | none => exact hnone
    | some jpeg =>
      apply (D.storeThumbnail core (hframe jpeg hf)).mono
      intro r g hg
      exact ⟨g, 0, (add_zero g).symm, hg, clean_zero⟩
  · exact hnone

/-- From stored bytes to the published row. -/
theorem publish (u : Upload) (hframe : ∀ jpeg ∈ u.frame, known jpeg.bytes) (core : Core)
    (key : SafeKey) {grip : Grip} (hgrip : settled (sha256 u.content.bytes) grip) :
    (publish sha256 u core key).Owns inv ex (Finished (sha256 u.content.bytes))
      ({.cand (thumbKey core)} + {.held key grip}) := by
  unfold Dedupe.publish
  rw [Prog.owns_bind]
  apply ((D.uploadThumbnail u hframe core).frame _).mono
  rintro thumbKey g ⟨-, rfl, thumb, rest, rfl, hthumb, hrest⟩
  have hshare : thumb + rest + {.held key grip} = {.held key grip} + thumb + rest := by
    rw [add_comm, add_assoc]
  rw [hshare, Prog.owns_bind]
  apply ((D.insertFile (uploadRow sha256 u core key thumbKey) grip thumb hgrip hthumb).frame rest).mono
  rintro r g ⟨g', rfl, hg⟩
  match r, hg with
  | .ok (), hg =>
    cases hg
    refine ⟨Multiset.mem_add.2 (.inl (Multiset.mem_singleton_self _)), Clean.add ?_ hrest⟩
    intro key sha hmem
    cases Multiset.mem_singleton.1 hmem
  | .error e, hg =>
    cases hg
    show (Dedupe.rollbackObject key >>= _).Owns inv ex _ _
    rw [Prog.owns_bind, add_assoc]
    apply ((D.rollbackObject key (D.notFresh hgrip)).frame _).mono
    rintro ⟨⟩ g ⟨-, rfl, rfl⟩
    rw [zero_add]
    cases thumbKey with
    | none =>
      obtain rfl : thumb = 0 := hthumb
      rw [zero_add]
      exact hrest
    | some key' =>
      obtain ⟨grip', hgrip', rfl⟩ := hthumb
      show (Dedupe.rollbackObject key' >>= _).Owns inv ex _ _
      rw [Prog.owns_bind]
      apply ((D.rollbackObject key' hgrip').frame _).mono
      rintro ⟨⟩ g ⟨-, rfl, rfl⟩
      rw [zero_add]
      exact hrest

/-- **An upload** keeps the invariant from the claim of its core to its last statement. -/
theorem uploadInner (u : Upload) (hu : ∀ bytes ∈ u.contents, known bytes) :
    (uploadInner sha256 u).Owns inv ex (Finished (sha256 u.content.bytes)) 0 := by
  have hcontent : known u.content.bytes := hu _ List.mem_cons_self
  have hframe : ∀ jpeg ∈ u.frame, known jpeg.bytes := by
    intro jpeg hjpeg
    refine hu _ (List.mem_cons_of_mem _ ?_)
    rw [Option.mem_def.1 hjpeg]
    exact List.mem_singleton_self _
  unfold Dedupe.uploadInner
  rw [Prog.owns_bind]
  apply (D.claimCore_loop u.ext _).mono
  intro r g hg
  match r, hg with
  | .error e, hg =>
    cases hg
    exact clean_zero
  | .ok none, hg =>
    cases hg
    exact clean_zero
  | .ok (some core), hg =>
    cases hg
    show (Dedupe.acquireObject _ _ _ _ >>= _).Owns inv ex _ _
    rw [Prog.owns_bind]
    apply ((D.acquireObject _ _ _ _).frame _).mono
    rintro r g ⟨g', rfl, hg⟩
    match r, hg with
    | .error e, hg =>
      cases hg
      exact clean_zero.add (clean_cand _)
    | .ok (key, false), hg =>
      obtain ⟨grip, hgrip, rfl⟩ := hg
      rw [add_comm]
      exact D.publish u hframe core key hgrip
    | .ok (key, true), hg =>
      cases hg
      show (Prog.perform (DbOp.put key u.content.bytes) >>= _).Owns inv ex _ _
      rw [Prog.owns_bind]
      apply ((D.put key _ hcontent).frame _).mono
      rintro r g ⟨g', rfl, hg⟩
      match r, hg with
      | .ok (), hg =>
        obtain ⟨grip, hgrip, rfl⟩ := hg
        rw [add_comm]
        exact D.publish u hframe core key hgrip
      | .error e, hg =>
        cases hg
        show (Dedupe.rollbackObject key >>= _).Owns inv ex _ _
        rw [Prog.owns_bind]
        apply ((D.rollbackObject key fun sha h => by cases h).frame _).mono
        rintro ⟨⟩ g ⟨-, rfl, rfl⟩
        exact clean_zero.add (clean_cand _)

/-! ## Removals -/

theorem releaseAndDelete (key : SafeKey) {grip : Grip} (hgrip : grip.NotFresh) :
    (releaseAndDelete key).Owns inv ex (fun _ g => g = 0) {.held key grip} := by
  unfold Dedupe.releaseAndDelete
  rw [Prog.owns_bind]
  apply (D.releaseObject key hgrip).mono
  intro r g hg
  match r, hg with
  | .error e, hg => exact hg
  | .ok false, hg => exact hg
  | .ok true, hg =>
    cases hg
    show (Prog.perform (DbOp.delete key) >>= _).Owns inv ex _ {.dead key}
    rw [Prog.owns_bind]
    apply (D.delete key).mono
    intro r g hg
    match r, hg with
    | .error e, hg => exact hg
    | .ok (), hg => exact hg

/-- **A removal**, given that it gets the references of the row it deletes. -/
theorem removeFile (core : Core)
    (hdelete : (Prog.perform (DbOp.deleteFile core)).Owns inv ex
      (fun r g => match r with
        | .ok (some (key, thumbKey)) => ∃ thumb, ThumbShare thumbKey thumb ∧
            g = {.held key .bare} + thumb
        | _ => g = 0) 0) :
    (removeFile core).Owns inv ex (fun _ g => Clean g) 0 := by
  unfold Dedupe.removeFile
  rw [Prog.owns_bind]
  apply hdelete.mono
  intro r g hg
  match r, hg with
  | .error e, hg =>
    cases hg
    exact clean_zero
  | .ok none, hg =>
    cases hg
    exact clean_zero
  | .ok (some (key, thumbKey)), hg =>
    obtain ⟨thumb, hthumb, rfl⟩ := hg
    show (Dedupe.releaseAndDelete key >>= _).Owns inv ex _ _
    rw [Prog.owns_bind]
    apply ((D.releaseAndDelete key fun sha h => by cases h).frame thumb).mono
    rintro r g ⟨-, rfl, rfl⟩
    rw [zero_add]
    cases r with
    | error e => exact hthumb.clean
    | ok _ =>
      cases thumbKey with
      | none => exact hthumb.clean
      | some key' =>
        obtain ⟨grip, hgrip, rfl⟩ := hthumb
        show (Dedupe.releaseAndDelete key' >>= _).Owns inv ex _ _
        rw [Prog.owns_bind]
        apply (D.releaseAndDelete key' hgrip).mono
        rintro r g rfl
        cases r with
        | error e => exact clean_zero
        | ok _ => exact clean_zero

end Discipline

end Dedupe
end Uwuubox
