import Uwuubox.Dedupe.Backfill
import Uwuubox.Dedupe.Consistency
import Uwuubox.Table.Grouped
import Uwuubox.Table.Keyed

/-!
# The objects of the first files

Before migration 0002 every file had its own object in the store.  `0002_expansion.sql` makes one row of `objects`
for all files with the same digest, and points the files at its key.

* `FilesRow`, `ObjectsRow` — the rows the migration reads and writes.
* `objectsRow`, `insertObject`, `insertObjects`, `repoint`, `expand` — its statements, with the constraints of
  `objects`.
* `Owns` — every file has its own key, under which its contents are stored.
* `Deduped` — what the migration is for.
* `expand_deduped` — **it keeps every file**, if no refcount exceeds its column; where one does, it fails
  (`expand_outOfRange`).
* `Deduped.consistent`, `Deduped.backfilled` — the references are as all later code expects them.

Strings are those of the database, in the order of its collation: any linear order will do.
-/

namespace Uwuubox
namespace Dedupe
namespace Expansion

open Storage Table

/-- A row of `files`, as migration 0001 makes it, as far as migration 0002 reads it. -/
structure FilesRow (Key Str : Type) where
  idCore : Core
  ext : Ext
  sizeBytes : ℕ
  mimeStored : Str
  sha256 : Digest
  storageKey : Key
  createdAt : ℤ

/-- A row of `objects`. -/
structure ObjectsRow (Key Str : Type) where
  sha256 : Digest
  storageKey : Key
  sizeBytes : ℕ
  mimeStored : Str
  /-- `CHECK (refcount >= 0)` makes it a natural number. -/
  refcount : ℕ
  createdAt : ℤ

/-- `files`: primary key `id_core`. -/
abbrev Files (Key Str : Type) := Keyed (FilesRow.idCore : FilesRow Key Str → Core)

/-- `objects`: primary key `sha256`, unique `storage_key`. -/
structure Objects (Key Str : Type) where
  rows : List (ObjectsRow Key Str)
  uniqueSha : UniqueOn ObjectsRow.sha256 rows
  uniqueKey : UniqueOn ObjectsRow.storageKey rows

variable {Key Str : Type} [LinearOrder Key]

namespace Objects

def empty : Objects Key Str := ⟨[], List.nodup_nil, List.nodup_nil⟩

/-- Insert a row whose digest and key are not there. -/
def insert (t : Objects Key Str) (row : ObjectsRow Key Str) (hsha : ∀ s ∈ t.rows, s.sha256 ≠ row.sha256)
    (hkey : ∀ s ∈ t.rows, s.storageKey ≠ row.storageKey) : Objects Key Str where
  rows := row :: t.rows
  uniqueSha := t.uniqueSha.cons hsha
  uniqueKey := t.uniqueKey.cons hkey

end Objects

/-! ## The INSERT -/

/-- A row that is inserted: a `BIGINT` count goes into an `INTEGER` column. -/
def insertObject (t : Objects Key Str) (row : ObjectsRow Key Str) : Except SqlError (Objects Key Str) :=
  if row.refcount ≤ integerMax then
    if hsha : ∀ s ∈ t.rows, s.sha256 ≠ row.sha256 then
      if hkey : ∀ s ∈ t.rows, s.storageKey ≠ row.storageKey then .ok (t.insert row hsha hkey)
      else .error (.uniqueViolation "objects_storage_key_key")
    else .error (.uniqueViolation "objects_pkey")
  else .error .outOfRange

theorem insertObject_eq {t : Objects Key Str} {row : ObjectsRow Key Str} (hfits : row.refcount ≤ integerMax)
    (hsha : ∀ s ∈ t.rows, s.sha256 ≠ row.sha256) (hkey : ∀ s ∈ t.rows, s.storageKey ≠ row.storageKey) :
    insertObject t row = .ok (t.insert row hsha hkey) := by
  unfold insertObject
  rw [if_pos hfits, dif_pos hsha, dif_pos hkey]

theorem insertObject_outOfRange (t : Objects Key Str) {row : ObjectsRow Key Str}
    (hfits : ¬ row.refcount ≤ integerMax) : insertObject t row = .error .outOfRange := by
  unfold insertObject
  rw [if_neg hfits]

/-- Rows with new digests and keys go in, if their refcounts fit. -/
theorem foldlM_insertObject {rows : List (ObjectsRow Key Str)} {t : Objects Key Str}
    (hsha : UniqueOn ObjectsRow.sha256 (rows ++ t.rows)) (hkey : UniqueOn ObjectsRow.storageKey (rows ++ t.rows)) :
    (∃ t', rows.foldlM insertObject t = .ok t' ∧ (∀ row ∈ rows, row.refcount ≤ integerMax) ∧
      ∀ row, row ∈ t'.rows ↔ row ∈ rows ∨ row ∈ t.rows) ∨
    rows.foldlM insertObject t = .error .outOfRange ∧ ∃ row ∈ rows, ¬ row.refcount ≤ integerMax := by
  induction rows generalizing t with
  | nil => exact .inl ⟨t, rfl, fun row hrow => absurd hrow List.not_mem_nil, fun row => by simp⟩
  | cons row rows ih =>
    have hperm : (row :: rows ++ t.rows).Perm (rows ++ row :: t.rows) := List.perm_middle.symm
    have hsha' : UniqueOn ObjectsRow.sha256 (rows ++ row :: t.rows) := ((hperm.map _).nodup_iff).1 hsha
    have hkey' : UniqueOn ObjectsRow.storageKey (rows ++ row :: t.rows) := ((hperm.map _).nodup_iff).1 hkey
    by_cases hfits : row.refcount ≤ integerMax
    · have hnewSha : ∀ s ∈ t.rows, s.sha256 ≠ row.sha256 := fun s hs heq =>
        (List.nodup_cons.1 hsha).1 (heq ▸ List.mem_map_of_mem (List.mem_append_right _ hs))
      have hnewKey : ∀ s ∈ t.rows, s.storageKey ≠ row.storageKey := fun s hs heq =>
        (List.nodup_cons.1 hkey).1 (heq ▸ List.mem_map_of_mem (List.mem_append_right _ hs))
      have hstep : (row :: rows).foldlM insertObject t = rows.foldlM insertObject (t.insert row hnewSha hnewKey) := by
        rw [List.foldlM_cons, insertObject_eq hfits hnewSha hnewKey]
        rfl
      rw [hstep]
      rcases ih (t := t.insert row hnewSha hnewKey) hsha' hkey' with ⟨t', ht', hfit, hmem⟩ | ⟨herror, row', hrow', hnot⟩
      · refine .inl ⟨t', ht', List.forall_mem_cons.2 ⟨hfits, hfit⟩, fun s => ?_⟩
        rw [hmem, List.mem_cons]
        show s ∈ rows ∨ s ∈ row :: t.rows ↔ _
        rw [List.mem_cons]
        tauto
      · exact .inr ⟨herror, row', List.mem_cons_of_mem _ hrow', hnot⟩
    · refine .inr ⟨?_, row, List.mem_cons_self, hfits⟩
      rw [List.foldlM_cons, insertObject_outOfRange t hfits]
      rfl

/-! ## The statements -/

variable [LinearOrder Str]

/-- `SELECT sha256, MIN(storage_key), MAX(size_bytes), MAX(mime_stored), COUNT(*), MIN(created_at)` -/
def objectsRow (g : Group (FilesRow.sha256 : FilesRow Key Str → Digest)) : ObjectsRow Key Str where
  sha256 := g.value
  storageKey := g.min FilesRow.storageKey
  sizeBytes := g.max FilesRow.sizeBytes
  mimeStored := g.max FilesRow.mimeStored
  refcount := g.count
  createdAt := g.min FilesRow.createdAt

/-- `INSERT INTO objects .. SELECT .. FROM files GROUP BY sha256` -/
def insertObjects (files : Files Key Str) : Except SqlError (Objects Key Str) :=
  ((groupBy FilesRow.sha256 files.rows).map objectsRow).foldlM insertObject .empty

/-- `UPDATE files f SET storage_key = o.storage_key FROM objects o`
`WHERE f.sha256 = o.sha256 AND f.storage_key <> o.storage_key` -/
def repoint (objects : Objects Key Str) (files : Files Key Str) : Files Key Str where
  rows := updateFrom objects.rows (fun f o => f.sha256 = o.sha256 && f.storageKey ≠ o.storageKey)
    (fun f o => { f with storageKey := o.storageKey }) files.rows
  unique := files.unique.updateFrom fun _ _ => rfl

/-- The migration; it runs in a transaction, so that an error leaves everything as it was. -/
def expand (files : Files Key Str) : Except SqlError (Objects Key Str × Files Key Str) := do
  let objects ← insertObjects files
  pure (objects, repoint objects files)

/-! ## What it is for -/

/-- The contents of a file are stored under a key. -/
def Holds (sha256 : Bytes → Digest) (store : Key → Option Bytes) (row : FilesRow Key Str) : Prop :=
  ∃ bytes, store row.storageKey = some bytes ∧ sha256 bytes = row.sha256 ∧ bytes.length = row.sizeBytes

/-- Every file has its own key, and its contents are stored under it. -/
structure Owns (sha256 : Bytes → Digest) (store : Key → Option Bytes) (files : List (FilesRow Key Str)) : Prop where
  own : UniqueOn FilesRow.storageKey files
  holds : ∀ row ∈ files, Holds sha256 store row

/-- The contents that occur. -/
def contents (store : Key → Option Bytes) (files : List (FilesRow Key Str)) : Set Bytes :=
  {bytes | ∃ row ∈ files, store row.storageKey = some bytes}

/-- The file is the same, and reads the same contents. -/
def SameFile (store : Key → Option Bytes) (before after : FilesRow Key Str) : Prop :=
  after = { before with storageKey := after.storageKey } ∧ store after.storageKey = store before.storageKey

/-- How many files have the digest. -/
def duplicates (files : List (FilesRow Key Str)) (sha : Digest) : ℕ := files.countP fun row => row.sha256 = sha

/-- **The migration kept every file**, and the references to objects are counted. -/
structure Deduped (sha256 : Bytes → Digest) (store : Key → Option Bytes) (before : List (FilesRow Key Str))
    (objects : List (ObjectsRow Key Str)) (after : List (FilesRow Key Str)) : Prop where
  /-- Each file reads what it read. -/
  kept : List.Forall₂ (SameFile store) before after
  /-- Each digest has one object, whose key the file now has. -/
  object : ∀ row ∈ after, ∃! o, o ∈ objects ∧ o.sha256 = row.sha256
  shared : ∀ row ∈ after, ∀ o ∈ objects, o.sha256 = row.sha256 → row.storageKey = o.storageKey
  /-- Its key belonged to a file with that digest. -/
  belonged : ∀ o ∈ objects, ∃ row ∈ before, row.sha256 = o.sha256 ∧ row.storageKey = o.storageKey
  stored : ∀ o ∈ objects, ∃ bytes, store o.storageKey = some bytes ∧ sha256 bytes = o.sha256 ∧
    bytes.length = o.sizeBytes
  counted : ∀ o ∈ objects, o.refcount = after.countP fun row => row.storageKey = o.storageKey

/-! ## What the statements do -/

section

variable {sha256 : Bytes → Digest} {store : Key → Option Bytes} {files : Files Key Str} {objects : Objects Key Str}
  {g : Group (FilesRow.sha256 : FilesRow Key Str → Digest)}

/-- The key of a group is one of its files'. -/
theorem exists_storageKey (hg : g ∈ groupBy FilesRow.sha256 files.rows) :
    ∃ row ∈ files.rows, row.sha256 = (objectsRow g).sha256 ∧ row.storageKey = (objectsRow g).storageKey := by
  obtain ⟨row, hrow, hkey⟩ := g.exists_min FilesRow.storageKey
  obtain ⟨hmem, hsha⟩ := (mem_rows_of_mem_groupBy hg).1 hrow
  exact ⟨row, hmem, hsha, hkey⟩

theorem exists_sizeBytes (hg : g ∈ groupBy FilesRow.sha256 files.rows) :
    ∃ row ∈ files.rows, row.sha256 = (objectsRow g).sha256 ∧ row.sizeBytes = (objectsRow g).sizeBytes := by
  obtain ⟨row, hrow, hsize⟩ := g.exists_max FilesRow.sizeBytes
  obtain ⟨hmem, hsha⟩ := (mem_rows_of_mem_groupBy hg).1 hrow
  exact ⟨row, hmem, hsha, hsize⟩

theorem uniqueSha_groupBy (files : Files Key Str) :
    UniqueOn ObjectsRow.sha256 ((groupBy FilesRow.sha256 files.rows).map objectsRow) := by
  unfold UniqueOn
  rw [List.map_map]
  exact groupBy_nodup FilesRow.sha256 files.rows

/-- Groups have different keys, since files have. -/
theorem uniqueKey_groupBy (hown : UniqueOn FilesRow.storageKey files.rows) :
    UniqueOn ObjectsRow.storageKey ((groupBy FilesRow.sha256 files.rows).map objectsRow) := by
  unfold UniqueOn
  rw [List.map_map]
  refine List.Nodup.map_on (fun g hg g' hg' hkey => ?_) (groupBy_nodup FilesRow.sha256 files.rows).of_map
  obtain ⟨row, hrow, hsha, hrowKey⟩ := exists_storageKey hg
  obtain ⟨row', hrow', hsha', hrowKey'⟩ := exists_storageKey hg'
  obtain rfl : row = row' := hown.eq hrow hrow' ((hrowKey.trans hkey).trans hrowKey'.symm)
  exact (groupBy_nodup FilesRow.sha256 files.rows).eq hg hg' (hsha.symm.trans hsha')

/-- The rows of `objects` are those of the groups, unless a refcount does not fit. -/
theorem insertObjects_cases (hown : UniqueOn FilesRow.storageKey files.rows) :
    (∃ objects, insertObjects files = .ok objects ∧ (∀ sha, duplicates files.rows sha ≤ integerMax) ∧
      ∀ o, o ∈ objects.rows ↔ ∃ g ∈ groupBy FilesRow.sha256 files.rows, objectsRow g = o) ∨
    insertObjects files = .error .outOfRange ∧ ∃ sha, ¬ duplicates files.rows sha ≤ integerMax := by
  have hsha := uniqueSha_groupBy files
  have hkey := uniqueKey_groupBy hown
  rw [← List.append_nil ((groupBy FilesRow.sha256 files.rows).map objectsRow)] at hsha hkey
  rcases @foldlM_insertObject _ _ _ _ .empty hsha hkey with ⟨objects, hok, hfits, hmem⟩ | ⟨herror, o, ho, hnot⟩
  · refine .inl ⟨objects, hok, fun sha => ?_, fun o => ?_⟩
    · by_cases hnone : ∃ row ∈ files.rows, row.sha256 = sha
      · obtain ⟨row, hrow, rfl⟩ := hnone
        obtain ⟨g, hg, hvalue⟩ := exists_mem_groupBy FilesRow.sha256 hrow
        have hcount := hfits _ (List.mem_map_of_mem hg)
        rwa [show (objectsRow g).refcount = _ from count_of_mem_groupBy hg, hvalue] at hcount
      · have hzero : duplicates files.rows sha = 0 :=
          List.countP_eq_zero.2 fun row hrow hsha => hnone ⟨row, hrow, of_decide_eq_true hsha⟩
        rw [hzero]
        exact Nat.zero_le _
    · rw [hmem, ← List.mem_map]
      exact or_iff_left List.not_mem_nil
  · obtain ⟨g, hg, rfl⟩ := List.mem_map.1 ho
    refine .inr ⟨herror, g.value, ?_⟩
    rwa [show (objectsRow g).refcount = _ from count_of_mem_groupBy hg] at hnot

omit [LinearOrder Str] in
/-- A file is pointed at the object of its digest. -/
theorem repointed {row : FilesRow Key Str} {o : ObjectsRow Key Str} (ho : o ∈ objects.rows)
    (hsha : o.sha256 = row.sha256) :
    joined objects.rows (fun f o => f.sha256 = o.sha256 && f.storageKey ≠ o.storageKey)
      (fun f o => { f with storageKey := o.storageKey }) row = { row with storageKey := o.storageKey } := by
  refine joined_eq ho (fun o' ho' hp => ?_) fun hp => ?_
  · rw [Bool.and_eq_true, decide_eq_true_eq] at hp
    exact objects.uniqueSha.eq ho' ho (hp.1.symm.trans hsha.symm)
  · rw [Bool.and_eq_false_iff, decide_eq_false_iff_not, decide_eq_false_iff_not, not_not] at hp
    rw [← hp.resolve_left fun hne => hne hsha.symm]

/-! ## Files are kept -/

/-- The rows of `objects` are as the `INSERT` leaves them. -/
def Grouped (files : Files Key Str) (objects : Objects Key Str) : Prop :=
  ∀ o, o ∈ objects.rows ↔ ∃ g ∈ groupBy FilesRow.sha256 files.rows, objectsRow g = o

namespace Grouped

variable {row : FilesRow Key Str} {o : ObjectsRow Key Str}

theorem exists_object (h : Grouped files objects) (hrow : row ∈ files.rows) :
    ∃ o ∈ objects.rows, o.sha256 = row.sha256 := by
  obtain ⟨g, hg, hvalue⟩ := exists_mem_groupBy FilesRow.sha256 hrow
  exact ⟨objectsRow g, (h _).2 ⟨g, hg, rfl⟩, hvalue⟩

theorem belonged (h : Grouped files objects) (ho : o ∈ objects.rows) :
    ∃ row ∈ files.rows, row.sha256 = o.sha256 ∧ row.storageKey = o.storageKey := by
  obtain ⟨g, hg, rfl⟩ := (h o).1 ho
  exact exists_storageKey hg

/-- An object has the contents of every file with its digest. -/
theorem store_eq (h : Grouped files objects) (howns : Owns sha256 store files.rows)
    (hinj : Set.InjOn sha256 (contents store files.rows)) (ho : o ∈ objects.rows) (hrow : row ∈ files.rows)
    (hsha : o.sha256 = row.sha256) : store o.storageKey = store row.storageKey := by
  obtain ⟨row', hrow', hsha', hkey⟩ := h.belonged ho
  obtain ⟨bytes, hbytes, hdigest, -⟩ := howns.holds row hrow
  obtain ⟨bytes', hbytes', hdigest', -⟩ := howns.holds row' hrow'
  have hsame : bytes' = bytes := hinj ⟨row', hrow', hbytes'⟩ ⟨row, hrow, hbytes⟩
    (hdigest'.trans ((hsha'.trans hsha).trans hdigest.symm))
  rw [← hkey, hbytes', hbytes, hsame]

theorem stored (h : Grouped files objects) (howns : Owns sha256 store files.rows)
    (hinj : Set.InjOn sha256 (contents store files.rows)) (ho : o ∈ objects.rows) :
    ∃ bytes, store o.storageKey = some bytes ∧ sha256 bytes = o.sha256 ∧ bytes.length = o.sizeBytes := by
  obtain ⟨g, hg, rfl⟩ := (h o).1 ho
  obtain ⟨row, hrow, hsha, hsize⟩ := exists_sizeBytes hg
  obtain ⟨bytes, hbytes, hdigest, hlength⟩ := howns.holds row hrow
  exact ⟨bytes, (h.store_eq howns hinj ho hrow hsha.symm).trans hbytes, hdigest.trans hsha, hlength.trans hsize⟩

/-- Files have the key of an object exactly if they have its digest. -/
theorem counted (h : Grouped files objects) (ho : o ∈ objects.rows) :
    o.refcount = (repoint objects files).rows.countP fun row => row.storageKey = o.storageKey := by
  have hcount : o.refcount = files.rows.countP fun row => row.sha256 = o.sha256 := by
    obtain ⟨g, hg, rfl⟩ := (h o).1 ho
    exact count_of_mem_groupBy hg
  unfold repoint updateFrom
  rw [hcount, List.countP_map]
  refine List.countP_congr fun row hrow => ?_
  obtain ⟨o', ho', hsha'⟩ := h.exists_object hrow
  rw [Function.comp_apply, repointed ho' hsha', decide_eq_true_eq, decide_eq_true_eq, ← hsha']
  constructor
  · intro hsha
    rw [objects.uniqueSha.eq ho' ho hsha]
  · intro hkey
    rw [objects.uniqueKey.eq ho' ho hkey]

theorem deduped (h : Grouped files objects) (howns : Owns sha256 store files.rows)
    (hinj : Set.InjOn sha256 (contents store files.rows)) :
    Deduped sha256 store files.rows objects.rows (repoint objects files).rows where
  kept := by
    refine List.forall₂_map_right_iff.2 (List.forall₂_same.2 fun row hrow => ?_)
    obtain ⟨o, ho, hsha⟩ := h.exists_object hrow
    rw [repointed ho hsha]
    exact ⟨rfl, h.store_eq howns hinj ho hrow hsha⟩
  object row' hrow' := by
    obtain ⟨row, hrow, rfl⟩ := List.mem_map.1 hrow'
    obtain ⟨o, ho, hsha⟩ := h.exists_object hrow
    rw [repointed ho hsha]
    exact ⟨o, ⟨ho, hsha⟩, fun o' ho' => objects.uniqueSha.eq ho'.1 ho (ho'.2.trans hsha.symm)⟩
  shared row' hrow' o ho hsha := by
    obtain ⟨row, hrow, rfl⟩ := List.mem_map.1 hrow'
    obtain ⟨o', ho', hsha'⟩ := h.exists_object hrow
    rw [repointed ho' hsha'] at hsha ⊢
    rw [objects.uniqueSha.eq ho' ho (hsha'.trans hsha.symm)]
  belonged o ho := h.belonged ho
  stored o ho := h.stored howns hinj ho
  counted o ho := h.counted ho

end Grouped

/-- It fails if a digest has more. -/
theorem expand_outOfRange (hown : UniqueOn FilesRow.storageKey files.rows) {sha : Digest}
    (hover : integerMax < duplicates files.rows sha) : expand files = .error .outOfRange := by
  rcases insertObjects_cases hown with ⟨objects, -, hfits, -⟩ | ⟨herror, -⟩
  · exact absurd (hfits sha) (Nat.not_le.2 hover)
  · unfold expand
    rw [herror]
    rfl

end

/-! ## The references of later code -/

/-- The row, as later code reads it: migration 0006 adds `thumb_key`, which is null. -/
def FilesRow.toFileRow (row : FilesRow SafeKey Text) : FileRow :=
  ⟨row.idCore, row.ext, row.sizeBytes, row.mimeStored, row.sha256, row.storageKey, none⟩

def ObjectsRow.toObjectRow (row : ObjectsRow SafeKey Text) : ObjectRow :=
  ⟨row.sha256, row.storageKey, row.sizeBytes, row.mimeStored, row.refcount⟩

/-- What uploads and removals start from. -/
def world (used : List Core) (objects : Objects SafeKey Text) (files : Files SafeKey Text)
    (store : SafeKey → Option Bytes) : World where
  usedIdCores := used
  objects := ⟨objects.rows.map ObjectsRow.toObjectRow, by
    unfold UniqueOn
    rw [List.map_map]
    exact objects.uniqueSha, by
    unfold UniqueOn
    rw [List.map_map]
    exact objects.uniqueKey⟩
  files := ⟨files.rows.map FilesRow.toFileRow, by
    unfold UniqueOn
    rw [List.map_map]
    exact files.unique⟩
  store := store

/-- What is in one list has its counterpart in the other. -/
theorem exists_of_forall₂ {α β : Type} {P : α → β → Prop} {as : List α} {bs : List β} (h : List.Forall₂ P as bs)
    {a : α} (ha : a ∈ as) : ∃ b ∈ bs, P a b := by
  induction h with
  | nil => exact absurd ha List.not_mem_nil
  | @cons a' b as bs hab _ ih =>
    rcases List.mem_cons.1 ha with rfl | ha
    · exact ⟨b, List.mem_cons_self, hab⟩
    · obtain ⟨b', hb', hP⟩ := ih ha
      exact ⟨b', List.mem_cons_of_mem _ hb', hP⟩

section

variable [LinearOrder SafeKey] {sha256 : Bytes → Digest} {store : SafeKey → Option Bytes} {used : List Core}
  {before : List (FilesRow SafeKey Text)} {objects : Objects SafeKey Text} {after : Files SafeKey Text}

omit [LinearOrder SafeKey] in
theorem fileRefs_world (key : SafeKey) : fileRefs (world used objects after store).files.rows key =
    after.rows.countP fun row => row.storageKey = key := by
  have hkeys : (after.rows.map FilesRow.toFileRow).flatMap FileRow.keys = after.rows.map FilesRow.storageKey := by
    rw [List.flatMap_map]
    exact List.map_eq_flatMap.symm
  show ((after.rows.map FilesRow.toFileRow).flatMap FileRow.keys).count key = _
  rw [hkeys, List.count_eq_countP, List.countP_map]
  exact List.countP_congr fun row _ => by simp [Subtype.ext_iff]

namespace Deduped

variable {o : ObjectsRow SafeKey Text}

theorem refcount_eq (h : Deduped sha256 store before objects.rows after.rows) (ho : o ∈ objects.rows) :
    o.refcount = fileRefs (world used objects after store).files.rows o.storageKey := by
  rw [fileRefs_world, h.counted o ho]
  exact List.countP_congr fun row _ => by simp

/-- A key that is referred to has an object. -/
theorem exists_object (h : Deduped sha256 store before objects.rows after.rows) {key : SafeKey}
    (hkey : fileRefs (world used objects after store).files.rows key ≠ 0) :
    ∃ o ∈ objects.rows, o.storageKey = key := by
  rw [fileRefs_world, ← Nat.pos_iff_ne_zero, List.countP_pos_iff] at hkey
  obtain ⟨row, hrow, hrowKey⟩ := hkey
  obtain ⟨o, ⟨ho, hsha⟩, -⟩ := h.object row hrow
  exact ⟨o, ho, (h.shared row hrow o ho hsha).symm.trans (of_decide_eq_true hrowKey)⟩

/-- Every object has a file. -/
theorem live (h : Deduped sha256 store before objects.rows after.rows) (ho : o ∈ objects.rows) :
    o.refcount ≠ 0 := by
  obtain ⟨row, hrow, hsha, -⟩ := h.belonged o ho
  obtain ⟨row', hrow', hsame, -⟩ := exists_of_forall₂ h.kept hrow
  have hkey : row'.storageKey = o.storageKey := h.shared row' hrow' o ho (hsha.symm.trans (by rw [hsame]))
  have hpos : 0 < fileRefs (world [] objects after store).files.rows o.storageKey :=
    fileRefs_pos (List.mem_map_of_mem hrow') (List.mem_cons.2 (.inl hkey.symm))
  exact ((h.refcount_eq ho).trans_gt hpos).ne'

/-- **References are counted** as uploads and removals expect it. -/
theorem consistent (h : Deduped sha256 store before objects.rows after.rows)
    (hkeys : ∀ row ∈ before, row.storageKey = fileKey row.idCore row.ext) (hused : ∀ row ∈ before, row.idCore ∈ used) :
    Consistent (world used objects after store) where
  counted key hne := by
    have hrefs : refs (world used objects after store) 0 key =
        fileRefs (world used objects after store).files.rows key := Nat.add_zero _
    rw [hrefs] at hne
    obtain ⟨o, ho, rfl⟩ := h.exists_object hne
    exact ⟨o.toObjectRow, List.mem_map_of_mem ho, rfl, hrefs.trans_le (h.refcount_eq ho).ge⟩
  issued key hrow core hnames := by
    obtain ⟨_, hrow, rfl⟩ := hrow
    obtain ⟨o, ho, rfl⟩ := List.mem_map.1 hrow
    obtain ⟨row, hrow, -, hkey⟩ := h.belonged o ho
    have hcore : core = row.idCore := by
      refine hnames.core_eq (.inl ⟨row.ext, ?_⟩)
      rw [← hkeys row hrow, hkey]
      rfl
    exact hcore ▸ hused row hrow
  stored key hrow := by
    obtain ⟨_, hrow, rfl⟩ := hrow
    obtain ⟨o, ho, rfl⟩ := List.mem_map.1 hrow
    obtain ⟨bytes, hbytes, -⟩ := h.stored o ho
    exact ne_of_eq_of_ne hbytes (Option.some_ne_none _)

/-- ... and as thumbnails expect it. -/
theorem backfilled (h : Deduped sha256 store before objects.rows after.rows)
    (hkeys : ∀ row ∈ before, row.storageKey = fileKey row.idCore row.ext) :
    Backfill.Consistent sha256 (world used objects after store) where
  counted row hrow := by
    obtain ⟨o, ho, rfl⟩ := List.mem_map.1 hrow
    exact h.refcount_eq ho
  live row hrow := by
    obtain ⟨o, ho, rfl⟩ := List.mem_map.1 hrow
    exact h.live ho
  kept key hne := by
    obtain ⟨o, ho, hkey⟩ := h.exists_object hne
    exact ⟨o.toObjectRow, List.mem_map_of_mem ho, hkey⟩
  stored row hrow := by
    obtain ⟨o, ho, rfl⟩ := List.mem_map.1 hrow
    obtain ⟨bytes, hbytes, hsha, -⟩ := h.stored o ho
    exact ⟨bytes, hbytes, hsha⟩
  named row hrow := by
    obtain ⟨o, ho, rfl⟩ := List.mem_map.1 hrow
    obtain ⟨row, hrow, -, hkey⟩ := h.belonged o ho
    exact ⟨row.idCore, .inl ⟨row.ext, hkey.symm.trans (hkeys row hrow)⟩⟩

end Deduped

end

/-! ## Files of one content -/

/-- A core for each choice of eight letters. -/
def coreOf (letters : Fin idLen → Fin alphabet.length) : Core :=
  ⟨List.ofFn fun i => alphabet.get (letters i), List.length_ofFn, fun c hc => by
    obtain ⟨i, rfl⟩ := List.mem_ofFn.1 hc
    exact List.get_mem _ _⟩

theorem coreOf_injective : Function.Injective coreOf := by
  intro letters letters' h
  have hget : (fun i => alphabet.get (letters i)) = fun i => alphabet.get (letters' i) :=
    List.ofFn_injective (congrArg Subtype.val h)
  have hnodup : alphabet.Nodup := by decide
  exact funext fun i => List.nodup_iff_injective_get.1 hnodup (congrFun hget i)

/-- All cores. -/
noncomputable def everyCore : List Core := (Finset.univ : Finset (Fin idLen → Fin alphabet.length)).toList.map coreOf

theorem everyCore_nodup : everyCore.Nodup := (Finset.nodup_toList _).map coreOf_injective

theorem length_everyCore : everyCore.length = 32 ^ 8 := by
  unfold everyCore
  rw [List.length_map, Finset.length_toList, Finset.card_univ, Fintype.card_fun, Fintype.card_fin, Fintype.card_fin]
  rfl

/-- A file with the byte 7, of which everything is known by its core. -/
def sevenFile (core : Core) : FilesRow Text Text :=
  ⟨core, ⟨[], isExt_nil⟩, 1, [], sampleSha256 [7], (fileKey core ⟨[], isExt_nil⟩).val, 0⟩

theorem sevenFile_own {cores : List Core} (h : cores.Nodup) :
    UniqueOn FilesRow.storageKey (cores.map sevenFile) := by
  unfold UniqueOn
  rw [List.map_map]
  refine h.map fun core core' hkey => ?_
  exact (names_fileKey core ⟨[], rfl⟩).core_eq (.inl ⟨⟨[], rfl⟩, Subtype.ext hkey⟩)

/-- A table of such files. -/
def sevenFiles (cores : List Core) (h : cores.Nodup) : Files Text Text where
  rows := cores.map sevenFile
  unique := by
    unfold UniqueOn
    rw [List.map_map]
    exact (List.map_id cores).symm ▸ h

/-- The store of the first files, all of which have the same contents. -/
def sevenStore (_ : Text) : Option Bytes := some [7]

theorem sevenFiles_owns {cores : List Core} (h : cores.Nodup) :
    Owns sampleSha256 sevenStore (sevenFiles cores h).rows where
  own := sevenFile_own h
  holds row hrow := by
    obtain ⟨core, -, rfl⟩ := List.mem_map.1 hrow
    exact ⟨[7], rfl, rfl, rfl⟩

theorem sevenFiles_injOn {cores : List Core} (h : cores.Nodup) :
    Set.InjOn sampleSha256 (contents sevenStore (sevenFiles cores h).rows) := by
  rintro bytes ⟨row, -, hbytes⟩ bytes' ⟨row', -, hbytes'⟩ -
  exact Option.some.inj (hbytes.symm.trans hbytes')

theorem duplicates_sevenFiles {cores : List Core} (h : cores.Nodup) :
    duplicates (sevenFiles cores h).rows (sampleSha256 [7]) = cores.length := by
  unfold duplicates
  rw [List.countP_eq_length.2 fun row hrow => ?_]
  · exact List.length_map _
  · obtain ⟨core, -, rfl⟩ := List.mem_map.1 hrow
    exact decide_eq_true rfl

/-! ## The migration -/

/-- **The migration keeps every file**, if no two contents have the same digest and each digest has as many files
as a refcount can count. -/
theorem expand_deduped {sha256 : Bytes → Digest} {store : Key → Option Bytes} {files : Files Key Str}
    (howns : Owns sha256 store files.rows)
    (hinj : Set.InjOn sha256 (contents store files.rows)) (hfits : ∀ sha, duplicates files.rows sha ≤ integerMax) :
    ∃ objects after, expand files = .ok (objects, after) ∧
      Deduped sha256 store files.rows objects.rows after.rows := by
  rcases insertObjects_cases howns.own with ⟨objects, hok, -, hgrouped⟩ | ⟨-, sha, hnot⟩
  · refine ⟨objects, repoint objects files, ?_, Grouped.deduped hgrouped howns hinj⟩
    unfold expand
    rw [hok]
    rfl
  · exact absurd (hfits sha) hnot

/-- Two files with one byte share an object. -/
theorem expand_deduped_pair : ∃ objects after,
    expand (sevenFiles [coreA, coreB] (by decide)) = .ok (objects, after) ∧
      Deduped sampleSha256 sevenStore (sevenFiles [coreA, coreB] (by decide)).rows objects.rows after.rows :=
  expand_deduped (sevenFiles_owns _) (sevenFiles_injOn _) fun _ =>
    List.countP_le_length.trans (by decide)

/-- One more core than a refcount can count. -/
noncomputable def tooManyCores : List Core := everyCore.take (integerMax + 1)

theorem tooManyCores_nodup : tooManyCores.Nodup := everyCore_nodup.sublist (List.take_sublist _ _)

theorem length_tooManyCores : tooManyCores.length = integerMax + 1 := by
  unfold tooManyCores
  rw [List.length_take, length_everyCore]
  decide

/-- **More files with one byte than a refcount can count**: the migration fails. -/
theorem expand_overfull : ∃ files : Files Text Text, files.rows.length = 2 ^ 31 ∧
    Owns sampleSha256 sevenStore files.rows ∧ Set.InjOn sampleSha256 (contents sevenStore files.rows) ∧
      expand files = .error .outOfRange := by
  have hover : integerMax < duplicates (sevenFiles tooManyCores tooManyCores_nodup).rows (sampleSha256 [7]) := by
    rw [duplicates_sevenFiles, length_tooManyCores]
    exact Nat.lt_succ_self _
  exact ⟨sevenFiles tooManyCores tooManyCores_nodup, (List.length_map _).trans length_tooManyCores,
    sevenFiles_owns _, sevenFiles_injOn _, expand_outOfRange (sevenFile_own tooManyCores_nodup) hover⟩

end Expansion
end Dedupe
end Uwuubox
