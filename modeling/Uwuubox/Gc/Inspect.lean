import Uwuubox.Storage.Fetch
import Uwuubox.Table.Keyed

/-!
# What garbage collection reports

`inventory` and `inspect` of `src/routes/gc.rs`: a listing of the store and three columns of the
database are compared key by key.

* `Site` — the tables and the store, with whatever keys the schema allows; `Site.Referenced`.
* `Reads` — what `inspect` reads.  The listing covers `files/` and `avatars/` only.
* `finding`, `inspect` — the decision for one key, and the report.
* `reports_iff` — a key is reported for a reason where `finding` says so.
* `Plain` — the condition on a site under which the report is what it is called.
* `exact_iff` — **the report is exact** where every key is plain, and only there.
* `thumbnail_reported` — the thumbnail of a video is reported as missing.
-/

namespace Uwuubox
namespace Gc

open Storage Table

/-! ## The database and the store -/

/-- A row of `objects`, as far as it is read here. -/
structure ObjectRow where
  storageKey : ObjKey
  sizeBytes : ℤ
  /-- `CHECK (refcount >= 0)` makes it a natural number. -/
  refcount : ℕ
deriving DecidableEq

/-- The keys of a row of `files`. -/
structure FileKeys where
  storageKey : ObjKey
  thumbKey : Option ObjKey
deriving DecidableEq

/-- The tables and the store.  `storage_key` is unique in `objects`; the other columns may hold
anything. -/
structure Site where
  objects : Keyed ObjectRow.storageKey
  files : List FileKeys
  /-- `users.avatar_key`. -/
  avatarKeys : List (Option ObjKey)
  /-- The keys of the store, and the sizes of what they hold. -/
  store : Keyed (Prod.fst : ObjKey × ℕ → ObjKey)

namespace Site

variable (site : Site) (key : ObjKey)

/-- The refcount of a key that has a row. -/
def refcount? : Option ℕ := (site.objects.find? key).map ObjectRow.refcount

/-- The store holds an object at the key. -/
def Stored : Prop := (site.store.find? key).isSome

/-- Some `files.storage_key`. -/
def StorageRef : Prop := ∃ file ∈ site.files, file.storageKey = key

/-- Some `files.thumb_key`. -/
def ThumbRef : Prop := ∃ file ∈ site.files, file.thumbKey = some key

/-- Some `users.avatar_key`. -/
def AvatarRef : Prop := some key ∈ site.avatarKeys

/-- A row of `files` or of `users` refers to the key. -/
def Referenced : Prop := site.StorageRef key ∨ site.ThumbRef key ∨ site.AvatarRef key

instance : Decidable (site.Stored key) := inferInstanceAs (Decidable (_ = true))

instance : Decidable (site.StorageRef key) :=
  inferInstanceAs (Decidable (∃ file ∈ site.files, file.storageKey = key))

instance : Decidable (site.ThumbRef key) :=
  inferInstanceAs (Decidable (∃ file ∈ site.files, file.thumbKey = some key))

instance : Decidable (site.AvatarRef key) := inferInstanceAs (Decidable (some key ∈ site.avatarKeys))

instance : Decidable (site.Referenced key) := inferInstanceAs (Decidable (_ ∨ _ ∨ _))

end Site

/-! ## What is read -/

/-- `files/`. -/
def filesPrefix : ObjKey := ['f', 'i', 'l', 'e', 's', '/']

/-- `avatars/`. -/
def avatarsPrefix : ObjKey := ['a', 'v', 'a', 't', 'a', 'r', 's', '/']

/-- The listing covers the key. -/
def Listed (key : ObjKey) : Prop := filesPrefix <+: key ∨ avatarsPrefix <+: key

instance (key : ObjKey) : Decidable (Listed key) := inferInstanceAs (Decidable (_ ∨ _))

/-- What `inspect` reads, in its order. -/
structure Reads where
  inventory : List (ObjKey × ℕ)
  objects : List ObjectRow
  avatarKeys : List ObjKey
  fileKeys : List ObjKey

/-- `inventory.get(key)`. -/
def storedBytes (inventory : List (ObjKey × ℕ)) (key : ObjKey) : Option ℕ :=
  (inventory.find? fun o => o.1 = key).map Prod.snd

/-- What there is to read, when nothing else is going on. -/
def Site.reads (site : Site) : Reads where
  inventory := site.store.rows.filter fun o => Listed o.1
  objects := site.objects.rows
  avatarKeys := site.avatarKeys.filterMap id
  fileKeys := (site.files.map FileKeys.storageKey).dedup

/-! ## The report -/

/-- Why a key is reported. -/
inductive Reason where
  | zeroRef
  | missingBytes
  | unreferenced
deriving DecidableEq

/-- The reason, as it is shown. -/
def Reason.text : Reason → String
  | zeroRef => "zero-ref"
  | missingBytes => "missing-bytes"
  | unreferenced => "unreferenced"

structure Orphan where
  key : ObjKey
  bytes : ℕ
  reason : Reason
deriving DecidableEq

structure GcReport where
  checkedKeys : ℕ
  orphans : List Orphan
  reclaimedBytes : ℕ
deriving DecidableEq

/-- `u64::saturating_add`. -/
def saturatingAdd (a b : ℕ) : ℕ := min (a + b) (u64Size - 1)

/-- The keys that are looked at, as a `BTreeSet` goes through them. -/
def Reads.checked (r : Reads) : List ObjKey :=
  (r.inventory.map Prod.fst ++ r.objects.map ObjectRow.storageKey ++ r.avatarKeys ++ r.fileKeys).dedup
    |>.insertionSort fun a b => a ≤ b

/-- What is found out about one key. -/
def Reads.finding (r : Reads) (key : ObjKey) : Option (Reason × ℕ) :=
  match r.objects.find? fun object => object.storageKey = key with
  | some object =>
    if object.refcount ≤ 0 then
      some (.zeroRef, (storedBytes r.inventory key).getD object.sizeBytes.toNat)
    else match storedBytes r.inventory key with
      | none => some (.missingBytes, object.sizeBytes.toNat)
      | some _ => none
  | none =>
    if filesPrefix <+: key then
      match storedBytes r.inventory key with
      | some bytes => some (.unreferenced, bytes)
      | none => if key ∈ r.fileKeys then some (.missingBytes, 0) else none
    else if avatarsPrefix <+: key then
      match decide (key ∈ r.avatarKeys), storedBytes r.inventory key with
      | false, some bytes => some (.unreferenced, bytes)
      | true, none => some (.missingBytes, 0)
      | _, _ => none
    else none

def Reads.orphans (r : Reads) : List Orphan :=
  r.checked.filterMap fun key => (r.finding key).map fun found => ⟨key, found.2, found.1⟩

/-- `inspect`, with what it has read. -/
def inspect (r : Reads) : GcReport where
  checkedKeys := r.checked.length
  orphans := r.orphans
  reclaimedBytes := (r.orphans.filter fun orphan => orphan.reason ≠ .missingBytes ∧
    orphan.key ∉ r.fileKeys ∧ orphan.key ∉ r.avatarKeys).filterMap
      (fun orphan => storedBytes r.inventory orphan.key) |>.foldl saturatingAdd 0

/-! ## What is reported -/

theorem mem_checked {r : Reads} {key : ObjKey} : key ∈ r.checked ↔
    key ∈ r.inventory.map Prod.fst ∨ key ∈ r.objects.map ObjectRow.storageKey ∨
      key ∈ r.avatarKeys ∨ key ∈ r.fileKeys := by
  unfold Reads.checked
  rw [List.mem_insertionSort, List.mem_dedup]
  simp only [List.mem_append, or_assoc]

theorem nodup_checked (r : Reads) : r.checked.Nodup :=
  (List.perm_insertionSort _ _).nodup_iff.2 (List.nodup_dedup _)

theorem sorted_checked (r : Reads) : r.checked.Pairwise (· ≤ ·) := List.pairwise_insertionSort _ _

theorem mem_of_storedBytes {inventory : List (ObjKey × ℕ)} {key : ObjKey} {n : ℕ}
    (h : storedBytes inventory key = some n) : (key, n) ∈ inventory := by
  unfold storedBytes at h
  rw [Option.map_eq_some_iff] at h
  obtain ⟨⟨key', n'⟩, hfind, rfl⟩ := h
  obtain ⟨hmem, rfl⟩ := find?_col hfind
  exact hmem

/-- What is found out is found out about a key that is looked at. -/
theorem Reads.mem_checked_of_finding {r : Reads} {key : ObjKey} {found : Reason × ℕ}
    (h : r.finding key = some found) : key ∈ r.checked := by
  have hstored : ∀ {n}, storedBytes r.inventory key = some n → key ∈ r.checked := fun hn =>
    mem_checked.2 (.inl (List.mem_map.2 ⟨_, mem_of_storedBytes hn, rfl⟩))
  rw [mem_checked] at hstored ⊢
  unfold Reads.finding at h
  split at h
  · rename_i object hfind
    obtain ⟨hmem, rfl⟩ := find?_col hfind
    exact .inr (.inl (List.mem_map.2 ⟨object, hmem, rfl⟩))
  · split at h
    · split at h
      · rename_i hn
        exact hstored hn
      · split at h
        · rename_i hkey
          exact .inr (.inr (.inr hkey))
        · cases h
    · split at h
      · split at h
        · rename_i hn
          exact hstored hn
        · rename_i hkey _
          exact .inr (.inr (.inl (of_decide_eq_true hkey)))
        · cases h
      · cases h

/-- The keys that are reported for reasons of some kind, in order. -/
theorem Reads.map_key_filter_orphans (r : Reads) (p : Reason → Bool) :
    (r.orphans.filter fun o => p o.reason).map Orphan.key =
      r.checked.filter fun key => (r.finding key).any fun found => p found.1 := by
  unfold Reads.orphans
  induction r.checked with
  | nil => rfl
  | cons key keys ih =>
    cases hfinding : r.finding key with
    | none => simp [hfinding, ih]
    | some found =>
      by_cases hp : p found.1 = true <;>
        simp [hfinding, hp, ih]

/-- The key is reported for this reason. -/
def Site.Reports (site : Site) (key : ObjKey) (reason : Reason) : Prop :=
  ∃ orphan ∈ (inspect site.reads).orphans, orphan.key = key ∧ orphan.reason = reason

theorem reports_iff {site : Site} {key : ObjKey} {reason : Reason} :
    site.Reports key reason ↔ ∃ bytes, site.reads.finding key = some (reason, bytes) := by
  constructor
  · rintro ⟨orphan, hmem, rfl, rfl⟩
    obtain ⟨key, -, hfound⟩ := List.mem_filterMap.1 hmem
    obtain ⟨⟨reason, bytes⟩, hfinding, rfl⟩ := Option.map_eq_some_iff.1 hfound
    exact ⟨bytes, hfinding⟩
  · rintro ⟨bytes, hfinding⟩
    refine ⟨⟨key, bytes, reason⟩, List.mem_filterMap.2 ⟨key, ?_, ?_⟩, rfl, rfl⟩
    · exact Reads.mem_checked_of_finding hfinding
    · rw [hfinding]
      rfl

/-! ## The report, by what the tables and the store say -/

section

variable {site : Site} {key : ObjKey}

theorem mem_fileKeys : key ∈ site.reads.fileKeys ↔ site.StorageRef key := by
  unfold Site.reads Site.StorageRef
  rw [List.mem_dedup, List.mem_map]

theorem mem_avatarKeys : key ∈ site.reads.avatarKeys ↔ site.AvatarRef key := by
  simp [Site.reads, Site.AvatarRef]

/-- The listing shows what it covers. -/
theorem storedBytes_reads : storedBytes site.reads.inventory key =
    if Listed key then (site.store.find? key).map Prod.snd else none := by
  have hfind : (site.store.rows.filter fun o => Listed o.1).find? (fun o => o.1 = key) =
      if Listed key then site.store.find? key else none := by
    rw [List.find?_filter]
    split
    · rename_i hlisted
      refine List.find?_congr fun o _ => ?_
      by_cases heq : o.1 = key
      · simp [heq, hlisted]
      · simp [heq]
    · rename_i hlisted
      refine List.find?_eq_none.2 fun o _ => ?_
      by_cases heq : o.1 = key
      · simp [heq, hlisted]
      · simp [heq]
  unfold storedBytes Site.reads
  rw [hfind]
  split <;> rfl

theorem isSome_storedBytes :
    (storedBytes site.reads.inventory key).isSome ↔ Listed key ∧ site.Stored key := by
  rw [storedBytes_reads]
  by_cases hlisted : Listed key <;> simp [hlisted, Site.Stored]

/-- `files/` and `avatars/` differ in their first letter. -/
theorem not_avatars_of_files (h : filesPrefix <+: key) : ¬ avatarsPrefix <+: key := by
  obtain ⟨rest, rfl⟩ := h
  rintro ⟨rest', h⟩
  exact absurd (List.cons.inj h).1 (by decide)

/-- The decision for a key that has a row. -/
theorem finding_of_row {object : ObjectRow} (h : site.objects.find? key = some object) :
    site.reads.finding key =
      if object.refcount ≤ 0 then
        some (.zeroRef, (storedBytes site.reads.inventory key).getD object.sizeBytes.toNat)
      else match storedBytes site.reads.inventory key with
        | none => some (.missingBytes, object.sizeBytes.toNat)
        | some _ => none := by
  have hfind : site.reads.objects.find? (fun object => object.storageKey = key) = some object := h
  unfold Reads.finding
  rw [hfind]

/-- The decision for a key that has none. -/
theorem finding_of_none (h : site.objects.find? key = none) :
    site.reads.finding key =
      if filesPrefix <+: key then
        match storedBytes site.reads.inventory key with
        | some bytes => some (.unreferenced, bytes)
        | none => if key ∈ site.reads.fileKeys then some (.missingBytes, 0) else none
      else if avatarsPrefix <+: key then
        match decide (key ∈ site.reads.avatarKeys), storedBytes site.reads.inventory key with
        | false, some bytes => some (.unreferenced, bytes)
        | true, none => some (.missingBytes, 0)
        | _, _ => none
      else none := by
  have hfind : site.reads.objects.find? (fun object => object.storageKey = key) = none := h
  unfold Reads.finding
  rw [hfind]

theorem reports_zeroRef : site.Reports key .zeroRef ↔ site.refcount? key = some 0 := by
  rw [reports_iff]
  unfold Site.refcount?
  cases hrow : site.objects.find? key with
  | some object =>
    rw [finding_of_row hrow]
    by_cases hzero : object.refcount = 0
    · simp [hzero]
    · cases hs : storedBytes site.reads.inventory key <;> simp [hzero]
  | none =>
    rw [finding_of_none hrow]
    by_cases hfiles : filesPrefix <+: key
    · by_cases hfile : key ∈ site.reads.fileKeys <;>
        cases hs : storedBytes site.reads.inventory key <;> simp [hfiles, hfile]
    · by_cases havatars : avatarsPrefix <+: key <;> by_cases havatar : key ∈ site.reads.avatarKeys <;>
        cases hs : storedBytes site.reads.inventory key <;> simp [hfiles, havatars, havatar]

theorem reports_missingBytes : site.Reports key .missingBytes ↔
    ¬ (Listed key ∧ site.Stored key) ∧ ((∃ n, site.refcount? key = some n ∧ 0 < n) ∨
      site.refcount? key = none ∧
        (filesPrefix <+: key ∧ site.StorageRef key ∨ avatarsPrefix <+: key ∧ site.AvatarRef key)) := by
  rw [reports_iff, ← isSome_storedBytes, ← mem_fileKeys, ← mem_avatarKeys]
  unfold Site.refcount?
  cases hrow : site.objects.find? key with
  | some object =>
    rw [finding_of_row hrow]
    by_cases hzero : object.refcount = 0
    · simp [hzero]
    · cases hs : storedBytes site.reads.inventory key <;> simp [hzero, Nat.pos_of_ne_zero hzero]
  | none =>
    rw [finding_of_none hrow]
    by_cases hfiles : filesPrefix <+: key
    · have havatars := not_avatars_of_files hfiles
      by_cases hfile : key ∈ site.reads.fileKeys <;>
        cases hs : storedBytes site.reads.inventory key <;> simp [hfiles, havatars, hfile]
    · by_cases havatars : avatarsPrefix <+: key <;> by_cases havatar : key ∈ site.reads.avatarKeys <;>
        cases hs : storedBytes site.reads.inventory key <;> simp [hfiles, havatars, havatar]

theorem reports_unreferenced : site.Reports key .unreferenced ↔
    site.refcount? key = none ∧ site.Stored key ∧
      (filesPrefix <+: key ∨ avatarsPrefix <+: key ∧ ¬ site.AvatarRef key) := by
  have hshown : site.Stored key ∧ (filesPrefix <+: key ∨ avatarsPrefix <+: key ∧ ¬ site.AvatarRef key) ↔
      (storedBytes site.reads.inventory key).isSome ∧
        (filesPrefix <+: key ∨ avatarsPrefix <+: key ∧ ¬ key ∈ site.reads.avatarKeys) := by
    rw [isSome_storedBytes, mem_avatarKeys]
    unfold Listed
    tauto
  rw [reports_iff, hshown]
  unfold Site.refcount?
  cases hrow : site.objects.find? key with
  | some object =>
    rw [finding_of_row hrow]
    by_cases hzero : object.refcount = 0
    · simp [hzero]
    · cases hs : storedBytes site.reads.inventory key <;> simp [hzero]
  | none =>
    rw [finding_of_none hrow]
    by_cases hfiles : filesPrefix <+: key
    · by_cases hfile : key ∈ site.reads.fileKeys <;>
        cases hs : storedBytes site.reads.inventory key <;> simp [hfiles, hfile]
    · by_cases havatars : avatarsPrefix <+: key <;> by_cases havatar : key ∈ site.reads.avatarKeys <;>
        cases hs : storedBytes site.reads.inventory key <;> simp [hfiles, havatars, havatar]

end

/-! ## When the report is exact -/

/-- The report says what its reasons say: bytes are missing where something counts on them and
the store has none, and what is unreferenced nothing refers to. -/
def Site.Exact (site : Site) : Prop := ∀ key,
  (site.Reports key .missingBytes ↔ ((∃ n, site.refcount? key = some n ∧ 0 < n) ∨
    site.refcount? key = none ∧ (site.StorageRef key ∨ site.AvatarRef key)) ∧ ¬ site.Stored key) ∧
  (site.Reports key .unreferenced ∨ site.Reports key .zeroRef → ¬ site.Referenced key)

/-- What a key has to be like. -/
structure Site.Plain (site : Site) (key : ObjKey) : Prop where
  /-- What is counted and stored is listed. -/
  counted : ∀ n, site.refcount? key = some n → 0 < n → site.Stored key → Listed key
  /-- What has neither row nor bytes is referred to in the column of its prefix, if at all. -/
  lost : site.refcount? key = none → ¬ site.Stored key → site.StorageRef key ∨ site.AvatarRef key →
    filesPrefix <+: key ∧ site.StorageRef key ∨ avatarsPrefix <+: key ∧ site.AvatarRef key
  /-- Nothing refers to a key whose refcount is zero. -/
  zero : site.refcount? key = some 0 → ¬ site.Referenced key
  /-- Nothing refers to stored bytes that have no row, but for avatars. -/
  rowless : site.refcount? key = none → site.Stored key →
    filesPrefix <+: key ∨ avatarsPrefix <+: key ∧ ¬ site.AvatarRef key → ¬ site.Referenced key

/-- **The report is exact** where every key is plain, and only there. -/
theorem exact_iff (site : Site) : site.Exact ↔ ∀ key, site.Plain key := by
  refine forall_congr' fun key => ?_
  rw [reports_missingBytes, reports_unreferenced, reports_zeroRef]
  constructor
  · rintro ⟨hmissing, hrest⟩
    refine ⟨fun n hn hpos hstored => ?_, fun hnone hstored href => ?_, fun hzero => hrest (.inr hzero),
      fun hnone hstored hkind => hrest (.inl ⟨hnone, hstored, hkind⟩)⟩
    · by_contra hlisted
      exact (hmissing.1 ⟨fun h => hlisted h.1, .inl ⟨n, hn, hpos⟩⟩).2 hstored
    · rcases (hmissing.2 ⟨.inr ⟨hnone, href⟩, hstored⟩).2 with ⟨n, hn, -⟩ | ⟨-, hkind⟩
      · rw [hnone] at hn
        cases hn
      · exact hkind
  · rintro ⟨hcounted, hlost, hzero, hrowless⟩
    refine ⟨⟨?_, ?_⟩, ?_⟩
    · rintro ⟨hshown, ⟨n, hn, hpos⟩ | ⟨hnone, hkind⟩⟩
      · exact ⟨.inl ⟨n, hn, hpos⟩, fun hstored => hshown ⟨hcounted n hn hpos hstored, hstored⟩⟩
      · refine ⟨.inr ⟨hnone, hkind.imp And.right And.right⟩, fun hstored => hshown ⟨?_, hstored⟩⟩
        exact hkind.imp And.left And.left
    · rintro ⟨hcount, hstored⟩
      refine ⟨fun h => hstored h.2, hcount.imp_right fun h => ⟨h.1, hlost h.1 hstored h.2⟩⟩
    · rintro (⟨hnone, hstored, hkind⟩ | hcount)
      · exact hrowless hnone hstored hkind
      · exact hzero hcount

/-! ### A video with a thumbnail -/

/-- `files/aaaaaaaa.mp4`. -/
def videoKey : ObjKey := filesPrefix ++ ['a', 'a', 'a', 'a', 'a', 'a', 'a', 'a', '.', 'm', 'p', '4']

/-- `thumbs/aaaaaaaa.jpg`. -/
def videoThumbKey : ObjKey := ['t', 'h', 'u', 'm', 'b', 's', '/'] ++
  ['a', 'a', 'a', 'a', 'a', 'a', 'a', 'a', '.', 'j', 'p', 'g']

/-- A video has been uploaded, and nothing has gone wrong. -/
def videoSite : Site where
  objects := ⟨[⟨videoKey, 900, 1⟩, ⟨videoThumbKey, 90, 1⟩], by decide⟩
  files := [⟨videoKey, some videoThumbKey⟩]
  avatarKeys := [none]
  store := ⟨[(videoKey, 900), (videoThumbKey, 90)], by decide⟩

/-- Its thumbnail is stored, and reported as missing. -/
theorem thumbnail_reported : ¬ videoSite.Exact := by
  intro h
  have hreported : videoSite.Reports videoThumbKey .missingBytes :=
    ⟨⟨videoThumbKey, 90, .missingBytes⟩, by decide, rfl, rfl⟩
  exact absurd (by decide) ((h videoThumbKey).1.1 hreported).2

end Gc
end Uwuubox
