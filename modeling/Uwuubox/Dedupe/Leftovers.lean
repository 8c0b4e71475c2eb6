import Uwuubox.Dedupe.Ledger
import Uwuubox.Dedupe.Work
import Uwuubox.Prog.Tracked

/-!
# What interrupted requests leave behind

A request that ends early leaves what it had begun: a reference that is counted but that no row
has, a row that should be deleted, bytes that nothing refers to.

* `Stake` — what a request has begun; `track` computes it from what the request has done.
* `Lands`, `Harmless` — the condition: a thumbnail is stored only while its object has a row, and
  no request ends with a counted reference, nor while a row or bytes of a thumbnail are to be deleted.
* `Accounted` — **the invariant**: what is counted has a reference or is somebody's stake.
* `Careful` — the requests delete only bytes whose row they have deleted.
* `accounted_of_harmless` — the invariant holds in every run that meets the condition.
-/

namespace Uwuubox
namespace Dedupe

open Storage Table

/-! ## Stakes -/

/-- What a request has begun. -/
inductive Stake where
  /-- A counted reference that no row has. -/
  | held (key : SafeKey)
  /-- The refcount went to zero, and the row is to be deleted. -/
  | spent (key : SafeKey)
  /-- The row has been deleted, and the bytes are to be deleted. -/
  | dead (key : SafeKey)
  /-- A temporary file, to be renamed. -/
  | temp (tmp : SafeKey)
deriving DecidableEq

abbrev Stakes := Multiset Stake

/-- The references of a row that has them. -/
def heldKeys (keys : List SafeKey) : Stakes := (keys.map Stake.held : List Stake)

/-- What a request has begun after a statement or an operation of the store. -/
def trackDb (g : Stakes) : (op : DbOp) → op.Res → Stakes
  | .insertObject _ _ _ _, .ok (some key) => .held key ::ₘ g
  | .bumpObject _, .ok key => .held key ::ₘ g
  | .dropObject key, .ok (some 0) => .spent key ::ₘ g.erase (.held key)
  | .dropObject key, .ok _ => g.erase (.held key)
  | .deleteObject key, .ok () => .dead key ::ₘ g.erase (.spent key)
  | .insertFile row, .ok () => g - heldKeys row.keys
  | .deleteFile _, .ok (some (storageKey, thumbKey)) => heldKeys (storageKey :: thumbKey.toList) + g
  | .delete key, .ok () => g.erase (.dead key)
  | _, _ => g

/-- What a request has begun after an operation. -/
def track (g : Stakes) : (op : FileOp) → op.Res → Stakes
  | .db op, r => trackDb g op r
  | .create _ _, r => .temp r.1 ::ₘ g
  | .rename tmp _, .ok () => g.erase (.temp tmp)
  | .linkThumb _ key, .ok (_ + 1) => g.erase (.held key)
  | _, _ => g

/-- The key of a thumbnail. -/
def Thumb (key : SafeKey) : Prop := thumbsPrefix <+: key.val

instance (key : SafeKey) : Decidable (Thumb key) := inferInstanceAs (Decidable (_ <+: _))

/-- The bytes of a thumbnail are stored only while its object has a row. -/
def Lands (w : World) : FileOp → Prop
  | .db (.put key _) => Thumb key → HasRow w key
  | .rename _ key => Thumb key → HasRow w key
  | _ => True

/-- What a stake must not stand for when the request ends: a counted reference, or a row or bytes
of a thumbnail that are to be deleted. -/
def Stake.Harmless (w : World) : Stake → Prop
  | held key => ¬ HasRow w key
  | spent key => Thumb key → ∀ row ∈ w.objects.rows, row.storageKey = key → row.refcount ≠ 0
  | dead key | temp key => Thumb key → w.store key = none

/-- What a request may leave behind. -/
def Harmless (w : World) (g : Stakes) : Prop := ∀ t ∈ g, t.Harmless w

/-- Only bytes whose row has been deleted are deleted. -/
def MayDelete (g : Stakes) : FileOp → Prop
  | .db (.delete key) => .dead key ∈ g
  | _ => True

/-! ## The invariant -/

/-- Everything that is counted has a reference, or is somebody's stake; `g` is what all requests
have begun. -/
structure Accounted (w : World) (g : Stakes) : Prop where
  counted : ∀ row ∈ w.objects.rows,
    row.refcount ≤ fileRefs w.files.rows row.storageKey + g.count (.held row.storageKey)
  zero : ∀ row ∈ w.objects.rows, Thumb row.storageKey → row.refcount = 0 → .spent row.storageKey ∈ g
  stored : ∀ key, Thumb key → w.store key ≠ none → HasRow w key ∨ .dead key ∈ g ∨ .temp key ∈ g

section

variable {w w' : World} {g f : Stakes} {key tmp : SafeKey}

theorem count_held_heldKeys (keys : List SafeKey) (key : SafeKey) :
    (heldKeys keys).count (.held key) = keys.count key := by
  unfold heldKeys
  rw [Multiset.coe_count, List.count_map_of_injective _ _ fun _ _ h => Stake.held.inj h]

theorem notMem_heldKeys {keys : List SafeKey} {t : Stake} (ht : ∀ key, t ≠ .held key) :
    t ∉ heldKeys keys := by
  unfold heldKeys
  rw [Multiset.mem_coe, List.mem_map]
  rintro ⟨key, -, heq⟩
  exact ht key heq.symm

/-- An erased stake that is not the one looked for. -/
theorem mem_erase_add {t u : Stake} (hne : t ≠ u) : t ∈ g.erase u + f ↔ t ∈ g + f := by
  rw [Multiset.mem_add, Multiset.mem_add, Multiset.mem_erase_of_ne hne]

/-- Nothing is given back where there is no row. -/
theorem not_hasRow_of_dropObject {faults : Prop}
    (h : exec faults w (.dropObject key) (.ok none) w') : ¬ HasRow w key := by
  rintro ⟨row, hrow, hkey⟩
  rcases h with h | ⟨-, h⟩
  · simp only [answer, w.objects.uniqueKey.find? hrow hkey] at h
    split at h <;> cases h
  · obtain ⟨e, he⟩ := h.error
    cases he

/-- The references, after a row has got a thumbnail. -/
theorem fileRefs_linkThumb {files : FileTable} {row : FileRow} (hrow : row ∈ files.rows)
    (hnone : row.thumbKey = none) (key' : SafeKey) :
    fileRefs (files.linkThumb row.idCore key).rows key' =
      fileRefs files.rows key' + if key' = key then 1 else 0 := by
  have hrows : (files.linkThumb row.idCore key).rows =
      updateWhere (fun s => s.idCore = row.idCore) (fun s => { s with thumbKey := some key }) files.rows := by
    refine List.map_congr_left fun s hs => ?_
    by_cases hcore : s.idCore = row.idCore
    · obtain rfl := files.uniqueCore.eq hs hrow hcore
      simp [hnone]
    · simp [hcore]
  have hperm := files.uniqueCore.perm_updateWhere hrow rfl fun s => { s with thumbKey := some key }
  have hkeys : FileRow.keys { row with thumbKey := some key } = row.keys ++ [key] := by
    simp [FileRow.keys, hnone]
  rw [fileRefs_delete hrow]
  unfold fileRefs
  rw [hrows, (hperm.flatMap_right FileRow.keys).count_eq, List.flatMap_cons, List.count_append, hkeys,
    List.count_append, List.count_singleton]
  have hif : (if key == key' then 1 else 0) = if key' = key then 1 else 0 :=
    if_congr (beq_iff_eq.trans eq_comm) rfl rfl
  show _ = _ + List.count key' ((deleteWhere _ files.rows).flatMap FileRow.keys) + _
  rw [hif]
  omega

namespace Accounted

/-- Where only the stakes change. -/
theorem trade {g' : Stakes} (h : Accounted w g)
    (hheld : ∀ key, HasRow w key → g.count (.held key) ≤ g'.count (.held key))
    (hspent : ∀ key, .spent key ∈ g → .spent key ∈ g')
    (hdead : ∀ key, w.store key ≠ none → .dead key ∈ g ∨ .temp key ∈ g →
      HasRow w key ∨ .dead key ∈ g' ∨ .temp key ∈ g') : Accounted w g' where
  counted row hrow :=
    (h.counted row hrow).trans (Nat.add_le_add_left (hheld _ ⟨row, hrow, rfl⟩) _)
  zero row hrow hthumb hzero := hspent _ (h.zero row hrow hthumb hzero)
  stored key hthumb hstored := by
    rcases h.stored key hthumb hstored with hrow | htoken
    · exact .inl hrow
    · exact hdead key hstored htoken

/-- Where the store changes at one key, which has a row or is somebody's to delete. -/
theorem sameBut (h : Accounted w g) (hsame : SameBut key w w')
    (hkey : Thumb key → w'.store key ≠ none → HasRow w key ∨ .dead key ∈ g ∨ .temp key ∈ g) :
    Accounted w' g := by
  obtain ⟨used, objects, files, store⟩ := w
  obtain ⟨used', objects', files', store'⟩ := w'
  obtain ⟨rfl, rfl, rfl, hstore⟩ := hsame
  refine ⟨h.counted, h.zero, fun key' hthumb hstored => ?_⟩
  by_cases heq : key' = key
  · subst heq
    exact hkey hthumb hstored
  · refine h.stored key' hthumb ?_
    rwa [← hstore key' heq]

/-- A row is inserted. -/
theorem insertObject (row : ObjectRow) (h : Accounted w (g + f))
    (hsha : ∀ s ∈ w.objects.rows, s.sha256 ≠ row.sha256)
    (hkey : ∀ s ∈ w.objects.rows, s.storageKey ≠ row.storageKey) (hone : row.refcount = 1) :
    Accounted { w with objects := w.objects.insert row hsha hkey } (.held row.storageKey ::ₘ g + f) := by
  rw [Multiset.cons_add]
  refine ⟨fun s hs => ?_, fun s hs hthumb hzero => ?_, fun key hthumb hstored => ?_⟩
  · rcases List.mem_cons.1 hs with rfl | hs
    · rw [hone, Multiset.count_cons_self]
      omega
    · exact (h.counted s hs).trans (Nat.add_le_add_left (Multiset.count_le_count_cons _ _ _) _)
  · rcases List.mem_cons.1 hs with rfl | hs
    · rw [hone] at hzero
      cases hzero
    · exact Multiset.mem_cons_of_mem (h.zero s hs hthumb hzero)
  · rcases h.stored key hthumb hstored with ⟨s, hs, rfl⟩ | hdead | htemp
    · exact .inl ⟨s, List.mem_cons_of_mem _ hs, rfl⟩
    · exact .inr (.inl (Multiset.mem_cons_of_mem hdead))
    · exact .inr (.inr (Multiset.mem_cons_of_mem htemp))

/-- A refcount changes. -/
theorem setRefcount {g' : Stakes} {p : ObjectRow → Bool} {set : ℕ → ℕ} (h : Accounted w g)
    (hset : ∀ row ∈ w.objects.rows, p row = true →
      set row.refcount ≤ fileRefs w.files.rows row.storageKey + g'.count (.held row.storageKey) ∧
        (Thumb row.storageKey → set row.refcount = 0 → .spent row.storageKey ∈ g'))
    (hheld : ∀ row ∈ w.objects.rows, p row = false →
      g.count (.held row.storageKey) ≤ g'.count (.held row.storageKey))
    (hmem : ∀ key, (.spent key ∈ g → .spent key ∈ g') ∧ (.dead key ∈ g → .dead key ∈ g') ∧
      (.temp key ∈ g → .temp key ∈ g')) :
    Accounted { w with objects := w.objects.setRefcount p set } g' := by
  refine ⟨fun row hrow => ?_, fun row hrow hthumb hzero => ?_, fun key hthumb hstored => ?_⟩
  · rcases mem_updateWhere.1 hrow with ⟨hrow, hp⟩ | ⟨s, hs, hp, rfl⟩
    · exact (h.counted row hrow).trans (Nat.add_le_add_left (hheld row hrow hp) _)
    · exact (hset s hs hp).1
  · rcases mem_updateWhere.1 hrow with ⟨hrow, hp⟩ | ⟨s, hs, hp, rfl⟩
    · exact (hmem _).1 (h.zero row hrow hthumb hzero)
    · exact (hset s hs hp).2 hthumb hzero
  · rw [hasRow_setRefcount]
    exact (h.stored key hthumb hstored).imp_right (.imp (hmem key).2.1 (hmem key).2.2)

/-- One more reference, counted. -/
theorem bumpObject {row : ObjectRow} (h : Accounted w (g + f)) (hrow : row ∈ w.objects.rows) :
    Accounted { w with objects := w.objects.setRefcount (fun s => s.sha256 = row.sha256) (· + 1) }
      (.held row.storageKey ::ₘ g + f) := by
  rw [Multiset.cons_add]
  refine h.setRefcount (fun s hs hp => ⟨?_, fun _ h0 => absurd h0 (Nat.succ_ne_zero _)⟩)
    (fun s _ _ => Multiset.count_le_count_cons _ _ _) fun key =>
      ⟨Multiset.mem_cons_of_mem, Multiset.mem_cons_of_mem, Multiset.mem_cons_of_mem⟩
  obtain rfl := w.objects.uniqueSha.eq hs hrow (of_decide_eq_true hp)
  have hle := h.counted s hs
  rw [Multiset.count_cons_self]
  omega

/-- A reference is given back. -/
theorem dropObject {row : ObjectRow} {g' : Stakes} (h : Accounted w (g + f))
    (hrow : row ∈ w.objects.rows)
    (hheld : ∀ key, (g.erase (.held row.storageKey)).count (.held key) ≤ g'.count (.held key))
    (hspent : row.refcount - 1 = 0 → .spent row.storageKey ∈ g')
    (hmem : ∀ t : Stake, (∀ key, t ≠ .held key) → t ∈ g → t ∈ g') :
    Accounted { w with objects := w.objects.setRefcount (fun s => s.storageKey = row.storageKey) (· - 1) }
      (g' + f) := by
  have hmem' : ∀ t : Stake, (∀ key, t ≠ .held key) → t ∈ g + f → t ∈ g' + f := fun t ht h =>
    Multiset.mem_add.2 ((Multiset.mem_add.1 h).imp_left (hmem t ht))
  refine h.setRefcount (fun s hs hp => ?_) (fun s hs hp => ?_) fun key =>
    ⟨hmem' _ fun _ => nofun, hmem' _ fun _ => nofun, hmem' _ fun _ => nofun⟩
  · obtain rfl := w.objects.uniqueKey.eq hs hrow (of_decide_eq_true hp)
    have hle := h.counted s hs
    have hc := hheld s.storageKey
    rw [Multiset.count_erase_self] at hc
    rw [Multiset.count_add] at hle ⊢
    exact ⟨by omega, fun _ hzero => Multiset.mem_add.2 (.inl (hspent hzero))⟩
  · have hne : (Stake.held s.storageKey) ≠ .held row.storageKey := fun heq =>
      of_decide_eq_false hp (Stake.held.inj heq)
    have hc := hheld s.storageKey
    rw [Multiset.count_erase_of_ne hne] at hc
    rw [Multiset.count_add, Multiset.count_add]
    omega

/-- A row is deleted. -/
theorem deleteObject (h : Accounted w (g + f)) :
    Accounted { w with objects := w.objects.delete fun row => row.storageKey = key }
      (.dead key ::ₘ g.erase (.spent key) + f) := by
  refine ⟨fun row hrow => ?_, fun row hrow hthumb hzero => ?_, fun key' hthumb hstored => ?_⟩
  · obtain ⟨hrow, -⟩ := mem_deleteWhere.1 hrow
    have hle := h.counted row hrow
    simpa [Multiset.count_erase_of_ne] using hle
  · obtain ⟨hrow, hp⟩ := mem_deleteWhere.1 hrow
    have hspent := h.zero row hrow hthumb hzero
    have hne : (Stake.spent row.storageKey) ≠ .spent key := fun heq =>
      of_decide_eq_false hp (Stake.spent.inj heq)
    simpa [Multiset.mem_erase_of_ne hne] using hspent
  · rw [hasRow_delete]
    by_cases heq : key' = key
    · exact .inr (.inl (by simp [heq]))
    · rcases h.stored key' hthumb hstored with hrow | hdead | htemp
      · exact .inl ⟨hrow, heq⟩
      · exact .inr (.inl (by simpa [Multiset.mem_erase_of_ne, heq] using hdead))
      · exact .inr (.inr (by simpa [Multiset.mem_erase_of_ne] using htemp))

/-- The rows of files change, and with them what is held. -/
theorem setFiles {files : FileTable} {g' : Stakes} (h : Accounted w g)
    (hrefs : ∀ key, fileRefs w.files.rows key + g.count (.held key) ≤
      fileRefs files.rows key + g'.count (.held key))
    (hmem : ∀ t : Stake, (∀ key, t ≠ .held key) → t ∈ g → t ∈ g') :
    Accounted { w with files := files } g' where
  counted row hrow := (h.counted row hrow).trans (hrefs _)
  zero row hrow hthumb hzero := hmem _ (fun _ => nofun) (h.zero row hrow hthumb hzero)
  stored key hthumb hstored :=
    (h.stored key hthumb hstored).imp_right (.imp (hmem _ fun _ => nofun) (hmem _ fun _ => nofun))

/-! ### Step by step -/

/-- A reference to nothing. -/
theorem dropObject_none (h : Accounted w (g + f)) (hrow : ¬ HasRow w key) :
    Accounted w (g.erase (.held key) + f) := by
  refine h.trade (fun key' hrow' => ?_) (fun key' => ?_) fun key' _ htoken => ?_
  · have hne : (Stake.held key') ≠ .held key := fun heq => hrow (Stake.held.inj heq ▸ hrow')
    rw [Multiset.count_add, Multiset.count_add, Multiset.count_erase_of_ne hne]
  · exact (mem_erase_add (by simp)).2
  · exact .inr (htoken.imp (mem_erase_add (by simp)).2 (mem_erase_add (by simp)).2)

/-- A row of files is inserted, and takes what is held of its keys. -/
theorem insertFile {row : FileRow} (h : Accounted w (g + f))
    (hcore : ∀ s ∈ w.files.rows, s.idCore ≠ row.idCore) :
    Accounted { w with files := w.files.insert row hcore } (g - heldKeys row.keys + f) := by
  refine h.setFiles (fun key => ?_) fun t ht hmem => ?_
  · have hrefs : fileRefs (w.files.insert row hcore).rows key =
        row.keys.count key + fileRefs w.files.rows key := List.count_append
    rw [hrefs, Multiset.count_add, Multiset.count_add, Multiset.count_sub, count_held_heldKeys]
    omega
  · refine Multiset.mem_add.2 ((Multiset.mem_add.1 hmem).imp_left fun hmem => ?_)
    rw [← Multiset.count_pos, Multiset.count_sub, Multiset.count_eq_zero.2 (notMem_heldKeys ht)]
    exact Multiset.count_pos.2 hmem

/-- A row of files is deleted, and its references are held. -/
theorem deleteFile {row : FileRow} (h : Accounted w (g + f)) (hrow : row ∈ w.files.rows) :
    Accounted { w with files := w.files.delete fun s => s.idCore = row.idCore }
      (heldKeys row.keys + g + f) := by
  refine h.setFiles (fun key => ?_) fun t _ hmem => ?_
  · rw [fileRefs_delete hrow, add_assoc (heldKeys row.keys), Multiset.count_add _ (heldKeys row.keys),
      count_held_heldKeys]
    omega
  · rw [add_assoc]
    exact Multiset.mem_add.2 (.inr hmem)

/-- A row of files gets a thumbnail, which was held. -/
theorem linkThumb {row : FileRow} (h : Accounted w (g + f)) (hrow : row ∈ w.files.rows)
    (hnone : row.thumbKey = none) :
    Accounted { w with files := w.files.linkThumb row.idCore key } (g.erase (.held key) + f) := by
  refine h.setFiles (fun key' => ?_) fun t ht hmem => (mem_erase_add (ht _)).2 hmem
  rw [fileRefs_linkThumb hrow hnone, Multiset.count_add, Multiset.count_add]
  by_cases heq : key' = key
  · rw [if_pos heq, heq, Multiset.count_erase_self]
    omega
  · rw [if_neg heq, Multiset.count_erase_of_ne fun h => heq (Stake.held.inj h)]
    omega

/-- Bytes are deleted, or not. -/
theorem delete {r : (DbOp.delete key).Res} (h : Accounted w (g + f)) (hmem : .dead key ∈ g)
    (hexec : exec True w (.delete key) r w') : Accounted w' (trackDb g (.delete key) r + f) := by
  have hsame := h.sameBut (exec_delete hexec) fun _ _ => .inr (.inl (Multiset.mem_add.2 (.inl hmem)))
  match r with
  | .error e => exact hsame
  | .ok () =>
    have hgone : w'.store key = none := by
      rcases hexec with h | ⟨-, h⟩
      · cases h
        exact Function.update_self _ _ _
      · obtain ⟨e, he⟩ := h.error
        cases he
    show Accounted w' (g.erase (.dead key) + f)
    refine hsame.trade (fun key' _ => ?_) (fun key' => (mem_erase_add (by simp)).2) fun key' hstored htoken => ?_
    · rw [Multiset.count_add, Multiset.count_add, Multiset.count_erase_of_ne (by simp)]
    · have hne : (Stake.dead key') ≠ .dead key := by
        intro heq
        cases heq
        exact hstored hgone
      exact .inr (htoken.imp (mem_erase_add hne).2 (mem_erase_add (by simp)).2)

theorem step_db {op : DbOp} {r : op.Res} (hmay : MayDelete g (.db op)) (h : Accounted w (g + f))
    (hland : Lands w (.db op)) (hexec : exec True w op r w') : Accounted w' (trackDb g op r + f) := by
  cases op with
  | claimCore core =>
    rcases exec_claimCore hexec with ⟨rfl, -, rfl⟩ | ⟨-, rfl⟩
    · exact ⟨h.counted, h.zero, h.stored⟩
    · exact h
  | insertObject sha key size mime =>
    rcases exec_insertObject hexec with ⟨hsha, hkey, rfl, rfl⟩ | ⟨rfl, rfl⟩ | ⟨e, rfl, rfl⟩
    · exact h.insertObject ⟨sha, key, size, mime, 1⟩ hsha hkey rfl
    · exact h
    · exact h
  | bumpObject sha =>
    rcases exec_bumpObject hexec with ⟨row, hrow, rfl, rfl, rfl⟩ | ⟨e, rfl, rfl⟩
    · exact h.bumpObject hrow
    · exact h
  | dropObject key =>
    rcases exec_dropObject hexec with ⟨row, hrow, rfl, -, rfl, rfl⟩ | ⟨hr, rfl⟩
    · cases hn : row.refcount - 1 with
      | zero =>
        refine h.dropObject hrow (fun _ => Multiset.count_le_count_cons _ _ _)
          (fun _ => Multiset.mem_cons_self _ _) fun t ht hmem => Multiset.mem_cons_of_mem ?_
        exact (Multiset.mem_erase_of_ne (ht _)).2 hmem
      | succ n =>
        refine h.dropObject hrow (fun _ => le_rfl) (fun hzero => ?_) fun t ht hmem => ?_
        · rw [hn] at hzero
          cases hzero
        · exact (Multiset.mem_erase_of_ne (ht _)).2 hmem
    · match r, hexec with
      | .error e, _ => exact h
      | .ok none, hexec => exact h.dropObject_none (not_hasRow_of_dropObject hexec)
      | .ok (some n), _ => exact absurd rfl (hr n)
  | deleteObject key =>
    rcases exec_deleteObject hexec with ⟨rfl, rfl⟩ | ⟨e, rfl, rfl⟩
    · exact h.deleteObject
    · exact h
  | insertFile row =>
    rcases exec_insertFile hexec with ⟨hcore, rfl, rfl⟩ | ⟨e, rfl, rfl⟩
    · exact h.insertFile hcore
    · exact h
  | deleteFile core =>
    rcases exec_deleteFile hexec with ⟨row, hrow, rfl, rfl, rfl⟩ | ⟨hr, rfl⟩
    · exact h.deleteFile hrow
    · match r with
      | .error e => exact h
      | .ok none => exact h
      | .ok (some keys) => exact absurd rfl (hr keys)
  | put key bytes =>
    obtain ⟨hsame, -⟩ := exec_put hexec
    exact h.sameBut hsame fun hthumb _ => .inl (hland hthumb)
  | delete key => exact h.delete hmay hexec

/-- A temporary file gets its name. -/
theorem rename {bytes : Bytes} (h : Accounted w (g + f)) (hland : Thumb key → HasRow w key) :
    Accounted { w with store := Function.update (Function.update w.store tmp none) key (some bytes) }
      (g.erase (.temp tmp) + f) := by
  refine ⟨fun row hrow => ?_, fun row hrow hthumb hzero => ?_, fun key' hthumb hstored => ?_⟩
  · have hle := h.counted row hrow
    rw [Multiset.count_add] at hle ⊢
    rwa [Multiset.count_erase_of_ne (by simp)]
  · exact (mem_erase_add (by simp)).2 (h.zero row hrow hthumb hzero)
  · by_cases heq : key' = key
    · subst heq
      exact .inl (hland hthumb)
    · have hne : key' ≠ tmp := by
        rintro rfl
        exact hstored (by simp [Function.update_of_ne heq])
      have hbefore : w.store key' ≠ none := by
        simpa [Function.update_of_ne heq, Function.update_of_ne hne] using hstored
      exact (h.stored key' hthumb hbefore).imp_right
        (.imp (mem_erase_add (by simp)).2 (mem_erase_add (by simpa using hne)).2)

/-- **One step.** -/
theorem step {op : FileOp} {r : op.Res} (hmay : MayDelete g op) (h : Accounted w (g + f))
    (hland : Lands w op) (hexec : execFile True w op r w') : Accounted w' (track g op r + f) := by
  cases op with
  | db op => exact h.step_db hmay hland (execFile_db.1 hexec)
  | create key bytes =>
    obtain ⟨-, -, hsame, -⟩ := execFile_create hexec
    have htemp : Accounted w (.temp r.1 ::ₘ g + f) := by
      rw [Multiset.cons_add]
      exact h.trade (fun _ _ => Multiset.count_le_count_cons _ _ _)
        (fun _ => Multiset.mem_cons_of_mem) fun _ _ htoken =>
          .inr (htoken.imp Multiset.mem_cons_of_mem Multiset.mem_cons_of_mem)
    refine htemp.sameBut hsame fun _ _ => .inr (.inr ?_)
    exact Multiset.mem_add.2 (.inl (Multiset.mem_cons_self _ _))
  | rename tmp key =>
    rcases execFile_rename hexec with ⟨bytes, -, rfl, rfl⟩ | ⟨⟨e, rfl⟩, -, rfl⟩
    · exact h.rename hland
    · exact h
  | linkThumb core key =>
    rcases execFile_linkThumb hexec with ⟨row, hrow, rfl, hnone, rfl, rfl⟩ | ⟨hr, rfl⟩
    · exact h.linkThumb hrow hnone
    · match r with
      | .error e => exact h
      | .ok 0 => exact h
      | .ok (n + 1) => exact absurd rfl (hr n)
  | findFile core =>
    rw [execFile_findFile hexec]
    exact h

end Accounted

end

/-! ## What the requests delete -/

/-- A program that deletes only bytes whose row it has deleted, whatever it has begun. -/
def Careful {α : Type} (p : FileHandler α) : Prop :=
  ∀ g, p.Obeys (Tracked.protocol track MayDelete fun _ _ => True) (fun _ _ => True) g

namespace Careful

variable {α β : Type} {backend : Backend}

theorem pure {a : α} : Careful (pure a : FileHandler α) := fun _ => trivial

theorem bind {p : FileHandler α} {f : α → FileHandler β} (hp : Careful p) (hf : ∀ a, Careful (f a)) :
    Careful (p >>= f) := fun g => (Prog.obeys_bind _ _ _).2 ((hp g).mono fun a g' _ => hf a g')

theorem perform {op : FileOp} (h : ∀ g, MayDelete g op) : Careful (Prog.perform op) :=
  fun g => ⟨h g, fun _ _ _ => trivial⟩

/-- A part of a handler on a backend. -/
theorem bind_on {p : Handler α} {f : α → Handler β} (hp : Careful (onBackend backend p))
    (hf : ∀ a, Careful (onBackend backend (f a))) : Careful (onBackend backend (p >>= f)) := by
  rw [onBackend_bind]
  exact hp.bind hf

/-- An operation on a backend. -/
theorem perform_on {op : DbOp} (h : ∀ g, MayDelete g (.db op)) :
    Careful (onBackend backend (Prog.perform op)) := by
  refine .bind ?_ fun _ => .pure
  cases op with
  | put key bytes =>
    cases backend with
    | localFs =>
      refine .bind (.perform fun _ => trivial) fun created => ?_
      match created with
      | (tmp, .error e) => exact .pure
      | (tmp, .ok ()) => exact .perform fun _ => trivial
    | s3 => exact .perform h
  | _ => exact .perform h

/-- When the bytes are to be deleted, the row has been. -/
theorem releaseObject (key : SafeKey) (g : Stakes) : (onBackend backend (releaseObject key)).Obeys
    (Tracked.protocol track MayDelete fun _ _ => True)
    (fun result g' => result = .ok true → .dead key ∈ g') g := by
  refine ⟨trivial, fun r g' _ => ?_⟩
  match r with
  | .error e => exact nofun
  | .ok none => exact nofun
  | .ok (some 0) =>
    refine ⟨trivial, fun r g'' hnext => ?_⟩
    match r with
    | .error e => exact nofun
    | .ok () =>
      rintro -
      rw [hnext.2]
      exact Multiset.mem_cons_self _ _
  | .ok (some (n + 1)) => exact nofun

/-- A release, and what comes after it. -/
theorem release {f : Except Failure Bool → Handler α} (key : SafeKey)
    (hnot : ∀ result, result ≠ .ok true → Careful (onBackend backend (f result)))
    (hlast : ∀ g, .dead key ∈ g → (onBackend backend (f (.ok true))).Obeys
      (Tracked.protocol track MayDelete fun _ _ => True) (fun _ _ => True) g) :
    Careful (onBackend backend (Dedupe.releaseObject key >>= f)) := by
  intro g
  rw [onBackend_bind]
  refine (Prog.obeys_bind _ _ _).2 ((releaseObject key g).mono fun result g' hdead => ?_)
  by_cases hresult : result = .ok true
  · rw [hresult]
    exact hlast g' (hdead hresult)
  · exact hnot result hresult g'

theorem rollbackObject (key : SafeKey) : Careful (onBackend backend (rollbackObject key)) := by
  refine release key (fun result hne => ?_) fun g hdead => ⟨hdead, fun _ _ _ => trivial⟩
  match result with
  | .error e => exact .pure
  | .ok false => exact .pure
  | .ok true => exact absurd rfl hne

theorem releaseAndDelete (key : SafeKey) : Careful (onBackend backend (releaseAndDelete key)) := by
  refine release key (fun result hne => ?_) fun g hdead => ⟨hdead, fun r g' _ => ?_⟩
  · match result with
    | .error e => exact .pure
    | .ok false => exact .pure
    | .ok true => exact absurd rfl hne
  · match r with
    | .error e => exact trivial
    | .ok () => exact trivial

theorem acquireObject (sha : Digest) (key : SafeKey) (size : ℕ) (mime : Text) :
    Careful (onBackend backend (acquireObject sha key size mime)) := by
  refine bind_on (perform_on fun _ => trivial) fun r => ?_
  match r with
  | .error e => exact .pure
  | .ok (some key) => exact .pure
  | .ok none =>
    refine bind_on (perform_on fun _ => trivial) fun r => ?_
    match r with
    | .error e => exact .pure
    | .ok key => exact .pure

theorem claimCore (draws : List Core) : Careful (onBackend backend (claimCore draws)) := by
  induction draws with
  | nil => exact .pure
  | cons candidate rest ih =>
    refine bind_on (perform_on fun _ => trivial) fun r => ?_
    match r with
    | .error e => exact .pure
    | .ok true => exact .pure
    | .ok false => exact ih

variable {sha256 : Bytes → Digest}

theorem storeThumbnail (core : Core) (jpeg : Content) :
    Careful (onBackend backend (storeThumbnail sha256 core jpeg)) := by
  refine bind_on (acquireObject _ _ _ _) fun result => ?_
  match result with
  | .error _ => exact .pure
  | .ok (key, false) => exact .pure
  | .ok (key, true) =>
    refine bind_on (perform_on fun _ => trivial) fun r => ?_
    match r with
    | .error _ => exact bind_on (rollbackObject key) fun _ => .pure
    | .ok () => exact .pure

theorem uploadThumbnail (u : Upload) (core : Core) :
    Careful (onBackend backend (uploadThumbnail sha256 u core)) := by
  unfold Dedupe.uploadThumbnail
  split
  · split
    · exact storeThumbnail _ _
    · exact .pure
  · exact .pure

theorem publish (u : Upload) (core : Core) (key : SafeKey) :
    Careful (onBackend backend (publish sha256 u core key)) := by
  refine bind_on (uploadThumbnail u core) fun thumbKey => bind_on (perform_on fun _ => trivial) fun r => ?_
  match r with
  | .ok () => exact .pure
  | .error e =>
    refine bind_on (rollbackObject key) fun _ => ?_
    match thumbKey with
    | none => exact .pure
    | some thumbKey => exact bind_on (rollbackObject thumbKey) fun _ => .pure

theorem uploadInner (u : Upload) : Careful (onBackend backend (uploadInner sha256 u)) := by
  refine bind_on (claimCore _) fun claimed => ?_
  match claimed with
  | .error e => exact .pure
  | .ok none => exact .pure
  | .ok (some core) =>
    refine bind_on (acquireObject _ _ _ _) fun result => ?_
    match result with
    | .error e => exact .pure
    | .ok (key, false) => exact publish u core key
    | .ok (key, true) =>
      refine bind_on (perform_on fun _ => trivial) fun r => ?_
      match r with
      | .error e => exact bind_on (rollbackObject key) fun _ => .pure
      | .ok () => exact publish u core key

theorem removeFile (core : Core) : Careful (onBackend backend (removeFile core)) := by
  refine bind_on (perform_on fun _ => trivial) fun r => ?_
  match r with
  | .error e => exact .pure
  | .ok none => exact .pure
  | .ok (some (storageKey, thumbKey)) =>
    refine bind_on (releaseAndDelete storageKey) fun result => ?_
    match result, thumbKey with
    | .error e, _ => exact .pure
    | .ok (), none => exact .pure
    | .ok (), some thumbKey =>
      refine bind_on (releaseAndDelete thumbKey) fun result => ?_
      match result with
      | .error e => exact .pure
      | .ok () => exact .pure

theorem ensureThumbnail (file : FileRow) (burnAfterRead hasPassword : Bool) (frame : Option Content) :
    Careful (ensureThumbnail backend sha256 file burnAfterRead hasPassword frame) := by
  unfold Dedupe.ensureThumbnail
  split
  · exact .pure
  · split
    · exact .pure
    · split
      · exact .pure
      · refine .bind (storeThumbnail _ _) fun stored => ?_
        match stored with
        | none => exact .pure
        | some key =>
          refine .bind (.perform fun _ => trivial) fun linked => ?_
          match linked with
          | .error e => exact .pure
          | .ok 0 =>
            refine .bind (rollbackObject key) fun _ => .bind (.perform fun _ => trivial) fun row => ?_
            match row with
            | .error e => exact .pure
            | .ok row => exact .pure
          | .ok (n + 1) => exact .pure

theorem code (work : Work) : Careful (work.code backend sha256) := by
  cases work with
  | upload u => exact .bind (uploadInner u) fun _ => .pure
  | backfill core burnAfterRead hasPassword frame =>
    refine .bind (.perform fun _ => trivial) fun r => ?_
    match r with
    | .error e => exact .pure
    | .ok none => exact .pure
    | .ok (some file) => exact .bind (ensureThumbnail file _ _ _) fun _ => .pure
  | remove core => exact .bind (removeFile core) fun _ => .pure

end Careful

/-! ## The runs -/

/-- Nothing is left over: every row is referred to as often as it is counted, and the bytes of a
thumbnail have a row. -/
structure Tidy (w : World) : Prop where
  counted : ∀ row ∈ w.objects.rows, row.refcount = fileRefs w.files.rows row.storageKey
  live : ∀ row ∈ w.objects.rows, row.refcount ≠ 0
  stored : ∀ key, Thumb key → w.store key ≠ none → HasRow w key

theorem Tidy.accounted {w : World} (h : Tidy w) : Accounted w 0 where
  counted row hrow := (h.counted row hrow).trans_le (Nat.le_add_right _ _)
  zero row hrow _ hzero := absurd hzero (h.live row hrow)
  stored key hthumb hstored := .inl (h.stored key hthumb hstored)

/-- What ends harmlessly takes nothing with it that is accounted for. -/
theorem Accounted.leave {w : World} {g f : Stakes} (hg : Harmless w g) (h : Accounted w (g + f)) :
    Accounted w f where
  counted row hrow := by
    have hle := h.counted row hrow
    have hnot : .held row.storageKey ∉ g := fun hmem => hg _ hmem ⟨row, hrow, rfl⟩
    rwa [Multiset.count_add, Multiset.count_eq_zero.2 hnot, Nat.zero_add] at hle
  zero row hrow hthumb hzero :=
    (Multiset.mem_add.1 (h.zero row hrow hthumb hzero)).resolve_left fun hmem =>
      hg _ hmem hthumb row hrow rfl hzero
  stored key hthumb hstored := (h.stored key hthumb hstored).imp_right
    (.imp (fun hmem => (Multiset.mem_add.1 hmem).resolve_left fun hmem =>
        hstored (hg (.dead key) hmem hthumb))
      fun hmem => (Multiset.mem_add.1 hmem).resolve_left fun hmem =>
        hstored (hg (.temp key) hmem hthumb))

/-- **Everything is accounted for** in every run that meets the condition. -/
theorem accounted_of_harmless (backend : Backend) (sha256 : Bytes → Digest) {w₀ : World}
    (hw₀ : Tidy w₀) {p : Pool World (Work × Stakes) FileOp FileOp.Res Unit}
    (hp : Tracked.Reachable track (fun w _ _ op => Lands w op) Harmless (Work.code backend sha256)
      (execFile True) w₀ p) : Accounted p.shared (Tracked.total p.threads) :=
  (hp.invariant hw₀.accounted (fun work => Careful.code work 0)
    (fun _ _ _ _ _ _ _ hmay h hland hexec => ⟨trivial, h.step hmay hland hexec⟩)
    fun _ _ _ hg h => h.leave hg).1

end Dedupe
end Uwuubox
