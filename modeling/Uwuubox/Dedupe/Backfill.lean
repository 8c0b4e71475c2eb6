import Uwuubox.Dedupe.Consistency
import Uwuubox.Dedupe.Leftovers

/-!
# Backfilled thumbnails

Any number of `ensure_thumbnail` calls and removals of one file of `files`, with any thumbnails, in any order, while
nothing fails.  `release_object` is taken as one step: nobody else does anything between its two statements.

* `Duty` — what a request has yet to do about a reference; `duties` computes it from what the request has done.
* `Consistent` — every refcount is the number of references, and every object has its bytes.
* `Exact` — **the invariant**: a refcount is the number of references of rows and of requests; bytes are stored,
  or about to be, unless nobody will ever refer to them.
* `Exact.insertObject` .. `Exact.deleteFile` — what each step does to it.
* `May`, `Expected` — what a request performs, and what it is answered; `obeys_code`: every request keeps to it.
* `backfill_keeps_references` — when all requests have finished the state is consistent.
-/

namespace Uwuubox
namespace Dedupe
namespace Backfill

open Storage Table

/-! ## Duties -/

/-- What a request has yet to do about a reference. -/
inductive Duty where
  /-- The object has been inserted, and its bytes are to be stored. -/
  | fresh (key : SafeKey) (sha256 : Digest)
  /-- The bytes are in a temporary file, to be renamed. -/
  | temp (tmp key : SafeKey) (bytes : Bytes)
  /-- A counted reference, to be put into the row. -/
  | held (key : SafeKey)
  /-- A counted reference that the row has no use for. -/
  | lost (key : SafeKey)
  /-- The refcount went to zero, and the row is to be deleted. -/
  | spent (key : SafeKey)
  /-- The row has been deleted, and the bytes are to be deleted. -/
  | dead (key : SafeKey)
deriving DecidableEq

abbrev Duties := Multiset Duty

namespace Duty

/-- The duty has a counted reference to the key. -/
def refers (key : SafeKey) : Duty → Bool
  | fresh key' _ | temp _ key' _ | held key' | lost key' => key' = key
  | spent _ | dead _ => false

/-- The bytes with this digest are going to be stored. -/
def Stores (sha256 : Bytes → Digest) (key : SafeKey) (sha : Digest) : Duty → Prop
  | fresh key' sha' => key' = key ∧ sha' = sha
  | temp _ key' bytes => key' = key ∧ sha256 bytes = sha
  | _ => False

/-- The row has a thumbnail, or is gone: the reference is not for it. -/
def Late : Duty → Prop
  | lost _ | spent _ | dead _ => True
  | _ => False

/-- The duty is not about bytes that are stored. -/
def Silent : Duty → Prop
  | fresh _ _ | temp _ _ _ => False
  | _ => True

def isSpent : Duty → Bool
  | spent _ => true
  | _ => false

def isTemp (tmp : SafeKey) : Duty → Bool
  | temp tmp' _ _ => tmp' = tmp
  | _ => false

/-- The bytes of the key have been stored. -/
def landed (key : SafeKey) : Duty → Duty
  | fresh key' sha => if key' = key then held key else fresh key' sha
  | d => d

/-- They are in a temporary file. -/
def written (tmp key : SafeKey) (bytes : Bytes) : Duty → Duty
  | fresh key' sha => if key' = key then temp tmp key bytes else fresh key' sha
  | d => d

/-- The temporary file has been renamed. -/
def renamed (tmp : SafeKey) : Duty → Duty
  | temp tmp' key bytes => if tmp' = tmp then held key else temp tmp' key bytes
  | d => d

end Duty

/-- The references of a deleted row. -/
def lostKeys (keys : List SafeKey) : Duties := (keys.map Duty.lost : List Duty)

/-- The duties of a request after an operation. -/
def duties (g : Duties) : (op : FileOp) → op.Res → Duties
  | .db (.insertObject sha _ _ _), .ok (some key) => .fresh key sha ::ₘ g
  | .db (.bumpObject _), .ok key => .held key ::ₘ g
  | .db (.put key _), .ok () => g.map (Duty.landed key)
  | .create key bytes, (tmp, .ok ()) => g.map (Duty.written tmp key bytes)
  | .rename tmp _, .ok () => g.map (Duty.renamed tmp)
  | .linkThumb _ key, .ok 0 => .lost key ::ₘ g.erase (.held key)
  | .linkThumb _ key, .ok (_ + 1) => g.erase (.held key)
  | .db (.dropObject key), .ok (some 0) => .spent key ::ₘ g.erase (.lost key)
  | .db (.dropObject key), .ok _ => g.erase (.lost key)
  | .db (.deleteObject key), .ok () => .dead key ::ₘ g.erase (.spent key)
  | .db (.delete key), .ok () => g.erase (.dead key)
  | .db (.deleteFile _), .ok (some (storageKey, thumbKey)) => lostKeys (storageKey :: thumbKey.toList) + g
  | _, _ => g

/-- How often a key is referred to by requests. -/
def owed (g : Duties) (key : SafeKey) : ℕ := g.countP fun d => d.refers key = true

@[simp] theorem owed_zero (key : SafeKey) : owed 0 key = 0 := Multiset.countP_zero _

@[simp] theorem owed_cons (d : Duty) (g : Duties) (key : SafeKey) :
    owed (d ::ₘ g) key = owed g key + if d.refers key = true then 1 else 0 := Multiset.countP_cons _ _ _

@[simp] theorem owed_add (g f : Duties) (key : SafeKey) : owed (g + f) key = owed g key + owed f key :=
  Multiset.countP_add _ _ _

theorem owed_lostKeys (keys : List SafeKey) (key : SafeKey) : owed (lostKeys keys) key = keys.count key := by
  unfold owed lostKeys
  rw [Multiset.coe_countP, List.countP_map, List.count_eq_countP]
  refine List.countP_congr fun key' _ => ?_
  simp [Duty.refers, Subtype.ext_iff]

theorem owed_ne_zero {d : Duty} {g : Duties} {key : SafeKey} (hd : d ∈ g) (hkey : d.refers key = true) :
    owed g key ≠ 0 :=
  (Multiset.countP_pos_of_mem hd hkey).ne'

theorem Duty.Stores.refers {sha256 : Bytes → Digest} {key : SafeKey} {sha : Digest} {d : Duty}
    (h : d.Stores sha256 key sha) : d.refers key = true := by
  cases d with
  | fresh key' sha' => exact decide_eq_true h.1
  | temp tmp key' bytes => exact decide_eq_true h.1
  | _ => exact h.elim

/-! ## The invariant -/

/-- The key is one of an upload. -/
def Named (key : SafeKey) : Prop := ∃ core, Names core key

/-- The object has its bytes. -/
def Stored (sha256 : Bytes → Digest) (store : SafeKey → Option Bytes) (row : ObjectRow) : Prop :=
  ∃ bytes, store row.storageKey = some bytes ∧ sha256 bytes = row.sha256

/-- **References are exact**, and every object has its bytes. -/
structure Consistent (sha256 : Bytes → Digest) (w : World) : Prop where
  counted : ∀ row ∈ w.objects.rows, row.refcount = fileRefs w.files.rows row.storageKey
  live : ∀ row ∈ w.objects.rows, row.refcount ≠ 0
  kept : ∀ key, fileRefs w.files.rows key ≠ 0 → HasRow w key
  stored : ∀ row ∈ w.objects.rows, Stored sha256 w.store row
  named : ∀ row ∈ w.objects.rows, Named row.storageKey

/-- The row has a thumbnail, or is gone. -/
def Settled (core : Core) (files : List FileRow) : Prop := ∀ row ∈ files, row.idCore = core → row.thumbKey ≠ none

/-- Somebody refers to the key, or may do so. -/
def Needed (core : Core) (files : List FileRow) (key : SafeKey) : Prop :=
  fileRefs files key ≠ 0 ∨ ¬ Settled core files

/-- A refcount is the number of references of rows and of requests. -/
structure Counts (objects : List ObjectRow) (files : List FileRow) (g : Duties) : Prop where
  counted : ∀ row ∈ objects, row.refcount = fileRefs files row.storageKey + owed g row.storageKey
  kept : ∀ key, fileRefs files key + owed g key ≠ 0 → ∃ row ∈ objects, row.storageKey = key
  zero : ∀ row ∈ objects, row.refcount = 0 → .spent row.storageKey ∈ g
  spent : ∀ key, .spent key ∈ g → ∃ row ∈ objects, row.storageKey = key ∧ row.refcount = 0
  sole : g.countP (fun d => d.isSpent = true) ≤ 1

/-- The bytes of what is needed are stored, or about to be. -/
structure Landing (sha256 : Bytes → Digest) (objects : List ObjectRow) (store : SafeKey → Option Bytes)
    (needed : SafeKey → Prop) (g : Duties) : Prop where
  due : ∀ d ∈ g, ∀ key sha, d.Stores sha256 key sha → ∃ row ∈ objects, row.storageKey = key ∧ row.sha256 = sha
  stored : ∀ row ∈ objects, needed row.storageKey →
    Stored sha256 store row ∨ ∃ d ∈ g, d.Stores sha256 row.storageKey row.sha256
  named : ∀ row ∈ objects, Named row.storageKey
  temp : ∀ tmp key bytes, .temp tmp key bytes ∈ g → store tmp = some bytes ∧ ¬ Named tmp
  single : ∀ tmp, g.countP (fun d => d.isTemp tmp = true) ≤ 1

/-- References are given back when the row has no use for them, and bytes are deleted that nobody refers to. -/
structure Ends (core : Core) (files : List FileRow) (g : Duties) : Prop where
  dead : ∀ key, .dead key ∈ g → fileRefs files key = 0 ∧ Named key
  settled : ∀ d ∈ g, d.Late → Settled core files

/-- **The invariant**; `g` is what all requests have yet to do. -/
structure Exact (sha256 : Bytes → Digest) (core : Core) (w : World) (g : Duties) : Prop where
  counts : Counts w.objects.rows w.files.rows g
  landing : Landing sha256 w.objects.rows w.store (Needed core w.files.rows) g
  ends : Ends core w.files.rows g

theorem Consistent.exact {sha256 : Bytes → Digest} {w : World} (h : Consistent sha256 w) (core : Core) :
    Exact sha256 core w 0 := by
  have hnone : ∀ {d : Duty}, d ∉ (0 : Duties) := Multiset.notMem_zero _
  refine ⟨⟨h.counted, h.kept, fun row hrow hzero => absurd hzero (h.live row hrow), fun _ hd => absurd hd hnone,
    Nat.zero_le _⟩, ⟨fun d hd => absurd hd hnone, fun row hrow _ => .inl (h.stored row hrow), h.named,
    fun _ _ _ hd => absurd hd hnone, fun _ => Nat.zero_le _⟩,
    ⟨fun _ hd => absurd hd hnone, fun _ hd => absurd hd hnone⟩⟩

/-- Nothing is left to do: the state is consistent. -/
theorem Exact.consistent {sha256 : Bytes → Digest} {core : Core} {w : World} (h : Exact sha256 core w 0) :
    Consistent sha256 w := by
  have hlive : ∀ row ∈ w.objects.rows, row.refcount ≠ 0 := fun row hrow hzero =>
    absurd (h.counts.zero row hrow hzero) (Multiset.notMem_zero _)
  refine ⟨h.counts.counted, hlive, h.counts.kept, fun row hrow => ?_, h.landing.named⟩
  have hrefs : fileRefs w.files.rows row.storageKey ≠ 0 := by
    have hcounted := h.counts.counted row hrow
    have hne := hlive row hrow
    rw [owed_zero] at hcounted
    omega
  rcases h.landing.stored row hrow (.inl hrefs) with hstored | ⟨d, hd, -⟩
  · exact hstored
  · exact absurd hd (Multiset.notMem_zero _)

/-- A temporary file is not named like an object. -/
theorem not_named_of_tempName {core : Core} {tmp : SafeKey} (h : TempName (thumbKey core) tmp) : ¬ Named tmp := by
  obtain ⟨simple, htmp⟩ := h
  have hslash : '/' ∉ core.val ++ ['.', 'j', 'p', 'g'] := by
    intro hmem
    rcases List.mem_append.1 hmem with hmem | hmem
    · exact absurd (core.property.2 _ hmem) (by decide)
    · exact absurd hmem (by decide)
  have hdirectory : directory (thumbKey core) = ['t', 'h', 'u', 'm', 'b', 's', '/'] :=
    @directory_append ['t', 'h', 'u', 'm', 'b', 's'] _ _ rfl hslash
  rw [hdirectory] at htmp
  rintro ⟨core', ⟨ext, rfl⟩ | rfl⟩
  · exact absurd (List.cons.inj htmp).1 (by decide)
  · have hname : core'.val ++ ['.', 'j', 'p', 'g'] = ['.', 't', 'm', 'p', '-'] ++ simple.val :=
      @List.append_cancel_left _ ['t', 'h', 'u', 'm', 'b', 's', '/'] _ _ htmp
    obtain ⟨c, cs, hcons⟩ : ∃ c cs, core'.val = c :: cs := by
      refine List.exists_cons_of_ne_nil fun hnil => ?_
      have hlength := core'.property.1
      rw [hnil] at hlength
      cases hlength
    rw [hcons] at hname
    obtain rfl : c = '.' := (List.cons.inj hname).1
    exact absurd (core'.property.2 '.' (hcons ▸ List.mem_cons_self)) (by decide)

/-! ## The counts -/

namespace Counts

variable {objects : List ObjectRow} {files files' : List FileRow} {g g' : Duties} {row : ObjectRow}

theorem countP_cons_le {p : Duty → Bool} {d : Duty} (h : g.countP (fun d => p d = true) ≤ 1) (hd : p d = false) :
    (d ::ₘ g).countP (fun d => p d = true) ≤ 1 := by
  rwa [Multiset.countP_cons_of_neg _ (by simp [hd])]

theorem spent_mem_cons {d : Duty} {key : SafeKey} (hd : d.isSpent = false) :
    .spent key ∈ d ::ₘ g ↔ .spent key ∈ g := by
  rw [Multiset.mem_cons, or_iff_right]
  rintro rfl
  cases hd

/-- References move. -/
theorem trade (h : Counts objects files g)
    (hrefs : ∀ key, fileRefs files' key + owed g' key = fileRefs files key + owed g key)
    (hspent : ∀ key, .spent key ∈ g' ↔ .spent key ∈ g) (hsole : g'.countP (fun d => d.isSpent = true) ≤ 1) :
    Counts objects files' g' where
  counted row hrow := (h.counted row hrow).trans (hrefs _).symm
  kept key hne := h.kept key (hrefs key ▸ hne)
  zero row hrow hzero := (hspent _).2 (h.zero row hrow hzero)
  spent key hmem := h.spent key ((hspent key).1 hmem)
  sole := hsole

/-- One reference for another. -/
theorem swap {d d' : Duty} (h : Counts objects files (d ::ₘ g)) (hrefers : ∀ key, d'.refers key = d.refers key)
    (hd : d.isSpent = false) (hd' : d'.isSpent = false) : Counts objects files (d' ::ₘ g) := by
  refine h.trade (fun key => by rw [owed_cons, owed_cons, hrefers]) (fun key => ?_) (countP_cons_le ?_ hd')
  · rw [spent_mem_cons hd', spent_mem_cons hd]
  · exact (Multiset.countP_le_of_le _ (Multiset.le_cons_self g _)).trans h.sole

/-- An object is inserted, and somebody has a reference. -/
theorem insert {d : Duty} (h : Counts objects files g) (hkey : ∀ s ∈ objects, s.storageKey ≠ row.storageKey)
    (hone : row.refcount = 1) (hd : ∀ key, d.refers key = decide (row.storageKey = key)) (hd' : d.isSpent = false) :
    Counts (row :: objects) files (d ::ₘ g) := by
  have hzero : fileRefs files row.storageKey + owed g row.storageKey = 0 := by
    by_contra hne
    obtain ⟨s, hs, heq⟩ := h.kept _ hne
    exact hkey s hs heq
  have howed : ∀ key, owed (d ::ₘ g) key = owed g key + if row.storageKey = key then 1 else 0 := by
    intro key
    rw [owed_cons, hd]
    simp
  have hne : ∀ key, d ≠ .spent key := by
    rintro key rfl
    cases hd'
  refine ⟨fun s hs => ?_, fun key hkept => ?_, fun s hs hszero => ?_, fun key hspent => ?_, countP_cons_le h.sole hd'⟩
  · rcases List.mem_cons.1 hs with rfl | hs
    · rw [howed, if_pos rfl, hone]
      omega
    · rw [howed, if_neg fun heq => hkey s hs heq.symm]
      exact h.counted s hs
  · by_cases heq : row.storageKey = key
    · exact ⟨row, List.mem_cons_self, heq⟩
    · rw [howed, if_neg heq] at hkept
      obtain ⟨s, hs, hskey⟩ := h.kept key hkept
      exact ⟨s, List.mem_cons_of_mem _ hs, hskey⟩
  · rcases List.mem_cons.1 hs with rfl | hs
    · omega
    · exact Multiset.mem_cons_of_mem (h.zero s hs hszero)
  · obtain ⟨s, hs, hskey⟩ := h.spent key ((Multiset.mem_cons.1 hspent).resolve_left (hne key).symm)
    exact ⟨s, List.mem_cons_of_mem _ hs, hskey⟩

/-- The refcount of one object changes with the references to it, while no refcount is zero. -/
theorem setRefcount {p : ObjectRow → Bool} {f : ℕ → ℕ} (h : Counts objects files g) (hrow : row ∈ objects)
    (hp : ∀ s ∈ objects, p s = true ↔ s = row) (hunique : UniqueOn ObjectRow.storageKey objects)
    (hnone : ∀ key, .spent key ∉ g)
    (hself : f row.refcount = fileRefs files row.storageKey + owed g' row.storageKey)
    (hother : ∀ key, key ≠ row.storageKey → owed g' key = owed g key)
    (hspent : ∀ key, .spent key ∈ g' ↔ key = row.storageKey ∧ f row.refcount = 0)
    (hsole : g'.countP (fun d => d.isSpent = true) ≤ 1) :
    Counts (updateWhere p (fun s => { s with refcount := f s.refcount }) objects) files g' := by
  have hchanged : { row with refcount := f row.refcount } ∈
      updateWhere p (fun s => { s with refcount := f s.refcount }) objects :=
    mem_updateWhere.2 (.inr ⟨row, hrow, (hp row hrow).2 rfl, rfl⟩)
  have hsame : ∀ s ∈ objects, s.storageKey ≠ row.storageKey →
      s ∈ updateWhere p (fun s => { s with refcount := f s.refcount }) objects := by
    intro s hs hne
    refine mem_updateWhere.2 (.inl ⟨hs, ?_⟩)
    rw [Bool.eq_false_iff, Ne, hp s hs]
    rintro rfl
    exact hne rfl
  have hcases : ∀ s ∈ updateWhere p (fun s => { s with refcount := f s.refcount }) objects,
      s = { row with refcount := f row.refcount } ∨ s ∈ objects ∧ s.storageKey ≠ row.storageKey := by
    intro s hs
    rcases mem_updateWhere.1 hs with ⟨hs, hps⟩ | ⟨s', hs', hps, rfl⟩
    · refine .inr ⟨hs, fun heq => ?_⟩
      rw [(hp s hs).2 (hunique.eq hs hrow heq)] at hps
      cases hps
    · obtain rfl := (hp s' hs').1 hps
      exact .inl rfl
  refine ⟨fun s hs => ?_, fun key hkept => ?_, fun s hs hszero => ?_, fun key hmem => ?_, hsole⟩
  · rcases hcases s hs with rfl | ⟨hs, hne⟩
    · exact hself
    · rw [hother _ hne]
      exact h.counted s hs
  · by_cases heq : key = row.storageKey
    · exact ⟨_, hchanged, heq.symm⟩
    · rw [hother key heq] at hkept
      obtain ⟨s, hs, rfl⟩ := h.kept key hkept
      exact ⟨s, hsame s hs heq, rfl⟩
  · rcases hcases s hs with rfl | ⟨hs, hne⟩
    · exact (hspent _).2 ⟨rfl, hszero⟩
    · exact absurd (h.zero s hs hszero) (hnone _)
  · obtain ⟨rfl, hzero⟩ := (hspent key).1 hmem
    exact ⟨_, hchanged, rfl, hzero⟩

/-- An object without references is deleted. -/
theorem delete {key : SafeKey} (h : Counts objects files (.spent key ::ₘ g)) :
    Counts (deleteWhere (fun row => row.storageKey = key) objects) files (.dead key ::ₘ g) ∧
      fileRefs files key = 0 ∧ owed g key = 0 := by
  obtain ⟨row, hrow, hkey, hrefcount⟩ := h.spent key (Multiset.mem_cons_self _ _)
  have howed : ∀ key', owed (.spent key ::ₘ g) key' = owed g key' := fun key' => by simp [Duty.refers]
  have howed' : ∀ key', owed (.dead key ::ₘ g) key' = owed g key' := fun key' => by simp [Duty.refers]
  have hunreferred : fileRefs files key + owed g key = 0 := by
    have hcounted := h.counted row hrow
    rw [hkey, howed] at hcounted
    omega
  -- the other duties are about other rows
  have hnone : ∀ key', .spent key' ∉ g := by
    intro key' hmem
    have hsole := h.sole
    rw [Multiset.countP_cons_of_pos (p := fun d : Duty => d.isSpent = true) g rfl] at hsole
    have hpos : 0 < g.countP (fun d => d.isSpent = true) := Multiset.countP_pos_of_mem hmem rfl
    omega
  refine ⟨⟨fun s hs => ?_, fun key' hkept => ?_, fun s hs hszero => ?_, fun key' hmem => ?_, ?_⟩, by omega, by omega⟩
  · rw [howed', ← howed]
    exact h.counted s (mem_deleteWhere.1 hs).1
  · rw [howed', ← howed] at hkept
    obtain ⟨s, hs, rfl⟩ := h.kept key' hkept
    refine ⟨s, mem_deleteWhere.2 ⟨hs, decide_eq_false fun heq => hkept ?_⟩, rfl⟩
    rw [heq, howed]
    exact hunreferred
  · obtain ⟨hs, hne⟩ := mem_deleteWhere.1 hs
    rcases Multiset.mem_cons.1 (h.zero s hs hszero) with heq | hmem
    · exact absurd (Duty.spent.inj heq) (of_decide_eq_false hne)
    · exact absurd hmem (hnone _)
  · rcases Multiset.mem_cons.1 hmem with heq | hmem
    · cases heq
    · exact absurd hmem (hnone _)
  · refine countP_cons_le ?_ rfl
    exact (Multiset.countP_le_of_le _ (Multiset.le_cons_self g _)).trans h.sole

end Counts

/-! ## The bytes -/

namespace Landing

variable {sha256 : Bytes → Digest} {objects objects' : List ObjectRow} {store : SafeKey → Option Bytes}
  {needed needed' : SafeKey → Prop} {g g' : Duties} {key tmp : SafeKey} {bytes : Bytes}

/-- The rows are the same, but for refcounts; duties change that are not about bytes. -/
theorem trade (h : Landing sha256 objects store needed g)
    (hkept : ∀ row ∈ objects, ∃ row' ∈ objects', row'.storageKey = row.storageKey ∧ row'.sha256 = row.sha256)
    (hold : ∀ row' ∈ objects', ∃ row ∈ objects, row'.storageKey = row.storageKey ∧ row'.sha256 = row.sha256)
    (hneeded : ∀ key, needed' key → needed key)
    (hstores : ∀ d key sha, Duty.Stores sha256 key sha d → (d ∈ g' ↔ d ∈ g))
    (htemp : ∀ tmp, g'.countP (fun d => d.isTemp tmp = true) ≤ g.countP (fun d => d.isTemp tmp = true)) :
    Landing sha256 objects' store needed' g' where
  due d hd key sha hds := by
    obtain ⟨row, hrow, hkey, hsha⟩ := h.due d ((hstores d key sha hds).1 hd) key sha hds
    obtain ⟨row', hrow', hkey', hsha'⟩ := hkept row hrow
    exact ⟨row', hrow', hkey'.trans hkey, hsha'.trans hsha⟩
  stored row' hrow' hrowneeded := by
    obtain ⟨row, hrow, hkey, hsha⟩ := hold row' hrow'
    unfold Stored
    rw [hkey, hsha]
    rcases h.stored row hrow (hneeded _ (hkey ▸ hrowneeded)) with hstored | ⟨d, hd, hds⟩
    · exact .inl hstored
    · exact .inr ⟨d, (hstores d _ _ hds).2 hd, hds⟩
  named row' hrow' := by
    obtain ⟨row, hrow, hkey, -⟩ := hold row' hrow'
    exact hkey ▸ h.named row hrow
  temp tmp key bytes hmem := h.temp tmp key bytes ((hstores (.temp tmp key bytes) key _ ⟨rfl, rfl⟩).1 hmem)
  single tmp := (htemp tmp).trans (h.single tmp)

/-- Only the refcounts change. -/
theorem setRefcount {p : ObjectRow → Bool} {f : ℕ → ℕ} (h : Landing sha256 objects store needed g) :
    Landing sha256 (updateWhere p (fun s => { s with refcount := f s.refcount }) objects) store needed g := by
  refine h.trade (fun row hrow => ?_) (fun row' hrow' => ?_) (fun _ hneeded => hneeded) (fun _ _ _ _ => Iff.rfl)
    fun _ => le_rfl
  · cases hp : p row with
    | false => exact ⟨row, mem_updateWhere.2 (.inl ⟨hrow, hp⟩), rfl, rfl⟩
    | true => exact ⟨_, mem_updateWhere.2 (.inr ⟨row, hrow, hp, rfl⟩), rfl, rfl⟩
  · rcases mem_updateWhere.1 hrow' with ⟨hrow, -⟩ | ⟨row, hrow, -, rfl⟩
    · exact ⟨row', hrow, rfl, rfl⟩
    · exact ⟨row, hrow, rfl, rfl⟩

/-- An object is inserted, and its bytes are to be stored. -/
theorem insert {row : ObjectRow} (h : Landing sha256 objects store needed g) (hnamed : Named row.storageKey) :
    Landing sha256 (row :: objects) store needed (.fresh row.storageKey row.sha256 ::ₘ g) where
  due d hd key sha hds := by
    rcases Multiset.mem_cons.1 hd with rfl | hd
    · exact ⟨row, List.mem_cons_self, hds⟩
    · obtain ⟨s, hs, hsame⟩ := h.due d hd key sha hds
      exact ⟨s, List.mem_cons_of_mem _ hs, hsame⟩
  stored s hs hneeded := by
    rcases List.mem_cons.1 hs with rfl | hs
    · exact .inr ⟨_, Multiset.mem_cons_self _ _, rfl, rfl⟩
    · exact (h.stored s hs hneeded).imp_right fun ⟨d, hd, hds⟩ => ⟨d, Multiset.mem_cons_of_mem hd, hds⟩
  named s hs := by
    rcases List.mem_cons.1 hs with rfl | hs
    · exact hnamed
    · exact h.named s hs
  temp tmp key bytes hmem := h.temp tmp key bytes ((Multiset.mem_cons.1 hmem).resolve_left nofun)
  single tmp := Counts.countP_cons_le (h.single tmp) rfl

/-- An object is deleted whose bytes nobody stores. -/
theorem delete (h : Landing sha256 objects store needed g) (hnone : ∀ d ∈ g, ∀ sha, ¬ d.Stores sha256 key sha) :
    Landing sha256 (deleteWhere (fun row => row.storageKey = key) objects) store needed g where
  due d hd key' sha hds := by
    obtain ⟨s, hs, hskey, hsha⟩ := h.due d hd key' sha hds
    refine ⟨s, mem_deleteWhere.2 ⟨hs, decide_eq_false fun heq => ?_⟩, hskey, hsha⟩
    exact hnone d hd sha (hskey.symm.trans heq ▸ hds)
  stored s hs hneeded := h.stored s (mem_deleteWhere.1 hs).1 hneeded
  named s hs := h.named s (mem_deleteWhere.1 hs).1
  temp := h.temp
  single := h.single

/-- The store changes at a key that is no temporary file. -/
theorem setStore {store' : SafeKey → Option Bytes} (h : Landing sha256 objects store needed g)
    (hsame : ∀ key', key' ≠ key → store' key' = store key') (hnamed : Named key)
    (hkey : ∀ row ∈ objects, row.storageKey = key → needed key →
      Stored sha256 store' row ∨ ∃ d ∈ g', d.Stores sha256 key row.sha256)
    (hsub : ∀ d ∈ g', ∀ key sha, d.Stores sha256 key sha → d ∈ g)
    (hsup : ∀ d ∈ g, ∀ key' sha, key' ≠ key → d.Stores sha256 key' sha → d ∈ g')
    (htemp : ∀ tmp, g'.countP (fun d => d.isTemp tmp = true) ≤ g.countP (fun d => d.isTemp tmp = true)) :
    Landing sha256 objects store' needed g' where
  due d hd key sha hds := h.due d (hsub d hd key sha hds) key sha hds
  stored row hrow hneeded := by
    by_cases heq : row.storageKey = key
    · subst heq
      exact hkey row hrow rfl hneeded
    · unfold Stored
      rw [hsame _ heq]
      exact (h.stored row hrow hneeded).imp_right fun ⟨d, hd, hds⟩ => ⟨d, hsup d hd _ _ heq hds, hds⟩
  named := h.named
  temp tmp key' bytes hmem := by
    obtain ⟨hbytes, hnot⟩ := h.temp tmp key' bytes (hsub _ hmem key' _ ⟨rfl, rfl⟩)
    rw [hsame tmp fun heq => hnot (heq ▸ hnamed)]
    exact ⟨hbytes, hnot⟩
  single tmp := (htemp tmp).trans (h.single tmp)

/-- Less is needed. -/
theorem mono (h : Landing sha256 objects store needed g) (hneeded : ∀ key, needed' key → needed key) :
    Landing sha256 objects store needed' g :=
  ⟨h.due, fun row hrow hrowneeded => h.stored row hrow (hneeded _ hrowneeded), h.named, h.temp, h.single⟩

/-- A duty that is not about bytes. -/
theorem cons_iff {d : Duty} (hd : d.Silent) :
    Landing sha256 objects store needed (d ::ₘ g) ↔ Landing sha256 objects store needed g := by
  have hstores : ∀ d' key sha, Duty.Stores sha256 key sha d' → (d' ∈ d ::ₘ g ↔ d' ∈ g) := by
    intro d' key sha hds
    rw [Multiset.mem_cons, or_iff_right]
    rintro rfl
    cases d' with
    | fresh => exact hd
    | temp => exact hd
    | _ => exact hds
  have htemp : ∀ tmp, d.isTemp tmp = false := by
    intro tmp
    cases d with
    | temp => exact hd.elim
    | _ => rfl
  have hcount : ∀ tmp, (d ::ₘ g).countP (fun d => d.isTemp tmp = true) = g.countP fun d => d.isTemp tmp = true :=
    fun tmp => Multiset.countP_cons_of_neg _ (by simp [htemp])
  constructor
  · exact fun h => h.trade (fun row hrow => ⟨row, hrow, rfl, rfl⟩) (fun row hrow => ⟨row, hrow, rfl, rfl⟩)
      (fun _ h => h) (fun d' key sha hds => (hstores d' key sha hds).symm) fun tmp => (hcount tmp).ge
  · exact fun h => h.trade (fun row hrow => ⟨row, hrow, rfl, rfl⟩) (fun row hrow => ⟨row, hrow, rfl, rfl⟩)
      (fun _ h => h) hstores fun tmp => (hcount tmp).le

/-- The row of a key whose bytes are to be stored. -/
theorem sha256_eq {d : Duty} {sha : Digest} (h : Landing sha256 objects store needed g)
    (hunique : UniqueOn ObjectRow.storageKey objects) (hd : d ∈ g) (hds : d.Stores sha256 key sha) :
    Named key ∧ ∀ row ∈ objects, row.storageKey = key → row.sha256 = sha := by
  obtain ⟨row, hrow, rfl, rfl⟩ := h.due d hd key sha hds
  exact ⟨h.named row hrow, fun row' hrow' hkey => by rw [hunique.eq hrow' hrow hkey]⟩

/-- **The bytes are stored.** -/
theorem put (h : Landing sha256 objects store needed (.fresh key (sha256 bytes) ::ₘ g))
    (hunique : UniqueOn ObjectRow.storageKey objects) :
    Landing sha256 objects (Function.update store key (some bytes)) needed (.held key ::ₘ g) := by
  obtain ⟨hnamed, hsha⟩ := h.sha256_eq hunique (Multiset.mem_cons_self _ _) ⟨rfl, rfl⟩
  refine h.setStore (fun key' hne => Function.update_of_ne hne _ _) hnamed (fun row hrow hkey _ => ?_)
    (fun d hd key' sha hds => ?_) (fun d hd key' sha hne hds => ?_) fun tmp => ?_
  · refine .inl ⟨bytes, ?_, (hsha row hrow hkey).symm⟩
    rw [hkey]
    exact Function.update_self _ _ _
  · rcases Multiset.mem_cons.1 hd with rfl | hd
    · exact hds.elim
    · exact Multiset.mem_cons_of_mem hd
  · rcases Multiset.mem_cons.1 hd with rfl | hd
    · exact absurd hds.1.symm hne
    · exact Multiset.mem_cons_of_mem hd
  · rw [Multiset.countP_cons_of_neg _ (by simp [Duty.isTemp]), Multiset.countP_cons_of_neg _ (by simp [Duty.isTemp])]

/-- The bytes are written to a temporary file. -/
theorem create (h : Landing sha256 objects store needed (.fresh key (sha256 bytes) ::ₘ g)) (hnew : store tmp = none)
    (hnamed : ¬ Named tmp) :
    Landing sha256 objects (Function.update store tmp (some bytes)) needed (.temp tmp key bytes ::ₘ g) := by
  have hne : ∀ tmp' key' bytes', .temp tmp' key' bytes' ∈ g → tmp' ≠ tmp := by
    rintro tmp' key' bytes' hmem rfl
    have hbytes := (h.temp _ _ _ (Multiset.mem_cons_of_mem hmem)).1
    rw [hnew] at hbytes
    cases hbytes
  refine ⟨fun d hd key' sha hds => ?_, fun row hrow hneeded => ?_, h.named, fun tmp' key' bytes' hmem => ?_,
    fun tmp' => ?_⟩
  · rcases Multiset.mem_cons.1 hd with rfl | hd
    · exact h.due _ (Multiset.mem_cons_self _ _) key' sha ⟨hds.1, hds.2⟩
    · exact h.due d (Multiset.mem_cons_of_mem hd) key' sha hds
  · have hrowne : row.storageKey ≠ tmp := fun heq => hnamed (heq ▸ h.named row hrow)
    unfold Stored
    rw [Function.update_of_ne hrowne]
    refine (h.stored row hrow hneeded).imp_right fun ⟨d, hd, hds⟩ => ?_
    rcases Multiset.mem_cons.1 hd with rfl | hd
    · exact ⟨_, Multiset.mem_cons_self _ _, hds.1, hds.2⟩
    · exact ⟨d, Multiset.mem_cons_of_mem hd, hds⟩
  · rcases Multiset.mem_cons.1 hmem with heq | hmem
    · cases heq
      exact ⟨Function.update_self _ _ _, hnamed⟩
    · rw [Function.update_of_ne (hne _ _ _ hmem)]
      exact h.temp _ _ _ (Multiset.mem_cons_of_mem hmem)
  · by_cases heq : tmp' = tmp
    · subst heq
      have hzero : g.countP (fun d => d.isTemp tmp' = true) = 0 := by
        refine Multiset.countP_eq_zero.2 fun d hd htemp => ?_
        cases d with
        | temp tmp'' key' bytes' => exact hne _ _ _ hd (of_decide_eq_true htemp)
        | _ => cases htemp
      rw [Multiset.countP_cons, hzero]
      split <;> omega
    · refine Counts.countP_cons_le ?_ (decide_eq_false (Ne.symm heq))
      exact (Multiset.countP_le_of_le _ (Multiset.le_cons_self g _)).trans (h.single tmp')

/-- **The temporary file is renamed.** -/
theorem rename (h : Landing sha256 objects store needed (.temp tmp key bytes ::ₘ g))
    (hunique : UniqueOn ObjectRow.storageKey objects) :
    Landing sha256 objects (Function.update (Function.update store tmp none) key (some bytes)) needed
      (.held key ::ₘ g) := by
  obtain ⟨hnamed, hsha⟩ := h.sha256_eq hunique (Multiset.mem_cons_self _ _) ⟨rfl, rfl⟩
  have hnot := (h.temp tmp key bytes (Multiset.mem_cons_self _ _)).2
  have hne : ∀ tmp' key' bytes', .temp tmp' key' bytes' ∈ g → tmp' ≠ tmp := by
    rintro tmp' key' bytes' hmem rfl
    have hsingle := h.single tmp'
    have hself : Duty.isTemp tmp' (.temp tmp' key bytes) = true := decide_eq_true rfl
    rw [Multiset.countP_cons_of_pos (p := fun d : Duty => d.isTemp tmp' = true) g hself] at hsingle
    have hpos : 0 < g.countP (fun d => d.isTemp tmp' = true) :=
      Multiset.countP_pos_of_mem hmem (decide_eq_true rfl)
    omega
  have hin : ∀ {d : Duty}, d ∈ (.held key ::ₘ g : Duties) → (∃ key sha, d.Stores sha256 key sha) → d ∈ g := by
    rintro d hd ⟨key', sha, hds⟩
    rcases Multiset.mem_cons.1 hd with rfl | hd
    · exact hds.elim
    · exact hd
  refine ⟨fun d hd key' sha hds => ?_, fun row hrow hneeded => ?_, h.named, fun tmp' key' bytes' hmem => ?_,
    fun tmp' => ?_⟩
  · exact h.due d (Multiset.mem_cons_of_mem (hin hd ⟨key', sha, hds⟩)) key' sha hds
  · by_cases heq : row.storageKey = key
    · refine .inl ⟨bytes, ?_, (hsha row hrow heq).symm⟩
      rw [heq]
      exact Function.update_self _ _ _
    · have hrowne : row.storageKey ≠ tmp := fun heq => hnot (heq ▸ h.named row hrow)
      unfold Stored
      rw [Function.update_of_ne heq, Function.update_of_ne hrowne]
      refine (h.stored row hrow hneeded).imp_right fun ⟨d, hd, hds⟩ => ?_
      rcases Multiset.mem_cons.1 hd with rfl | hd
      · exact absurd hds.1.symm heq
      · exact ⟨d, Multiset.mem_cons_of_mem hd, hds⟩
  · have hmem : .temp tmp' key' bytes' ∈ g := hin hmem ⟨key', _, rfl, rfl⟩
    obtain ⟨hbytes, hnot'⟩ := h.temp tmp' key' bytes' (Multiset.mem_cons_of_mem hmem)
    have hkey : tmp' ≠ key := fun heq => hnot' (heq ▸ hnamed)
    rw [Function.update_of_ne hkey, Function.update_of_ne (hne _ _ _ hmem)]
    exact ⟨hbytes, hnot'⟩
  · refine Counts.countP_cons_le ?_ rfl
    exact (Multiset.countP_le_of_le _ (Multiset.le_cons_self g _)).trans (h.single tmp')

end Landing

/-! ## Step by step -/

theorem Ends.of_late {core : Core} {files : List FileRow} {g g' : Duties} (h : Ends core files g)
    (hsub : ∀ d ∈ g', d.Late → d ∈ g) : Ends core files g' :=
  ⟨fun key hmem => h.dead key (hsub _ hmem trivial), fun d hd hlate => h.settled d (hsub d hd hlate) hlate⟩

/-- A duty becomes one that is not late. -/
theorem Ends.swap {core : Core} {files : List FileRow} {g : Duties} {d d' : Duty} (h : Ends core files (d ::ₘ g))
    (hlate : ¬ d'.Late) : Ends core files (d' ::ₘ g) := by
  refine h.of_late fun d'' hd hlate'' => ?_
  rcases Multiset.mem_cons.1 hd with rfl | hd
  · exact absurd hlate'' hlate
  · exact Multiset.mem_cons_of_mem hd

/-- A new duty that is not late. -/
theorem Ends.cons {core : Core} {files : List FileRow} {g : Duties} {d : Duty} (h : Ends core files g)
    (hlate : ¬ d.Late) : Ends core files (d ::ₘ g) :=
  h.of_late fun _ hd hlate' => (Multiset.mem_cons.1 hd).resolve_left fun heq => hlate (heq ▸ hlate')

namespace Exact

variable {sha256 : Bytes → Digest} {core : Core} {w : World} {g : Duties} {key tmp : SafeKey} {bytes : Bytes}

/-- An object is inserted. -/
theorem insertObject {row : ObjectRow} (h : Exact sha256 core w g)
    (hsha : ∀ s ∈ w.objects.rows, s.sha256 ≠ row.sha256) (hkey : ∀ s ∈ w.objects.rows, s.storageKey ≠ row.storageKey)
    (hone : row.refcount = 1) (hnamed : Named row.storageKey) :
    Exact sha256 core { w with objects := w.objects.insert row hsha hkey }
      (.fresh row.storageKey row.sha256 ::ₘ g) where
  counts := h.counts.insert hkey hone (fun _ => rfl) rfl
  landing := h.landing.insert hnamed
  ends := h.ends.cons id

/-- Deduplication: one more reference. -/
theorem bumpObject {row : ObjectRow} (h : Exact sha256 core w g) (hrow : row ∈ w.objects.rows)
    (hnone : ∀ key, .spent key ∉ g) :
    Exact sha256 core { w with objects := w.objects.setRefcount (fun s => s.sha256 = row.sha256) (· + 1) }
      (.held row.storageKey ::ₘ g) where
  counts := by
    have howed : ∀ key, owed (.held row.storageKey ::ₘ g) key = owed g key + if row.storageKey = key then 1 else 0 := by
      intro key
      simp [Duty.refers]
    refine h.counts.setRefcount hrow (fun s hs => ?_) w.objects.uniqueKey hnone ?_ (fun key hne => ?_) (fun key => ?_)
      (Counts.countP_cons_le h.counts.sole rfl)
    · rw [decide_eq_true_eq]
      exact ⟨w.objects.uniqueSha.eq hs hrow, fun heq => heq ▸ rfl⟩
    · have hcounted := h.counts.counted row hrow
      rw [howed, if_pos rfl]
      omega
    · rw [howed, if_neg hne.symm, Nat.add_zero]
    · rw [Counts.spent_mem_cons rfl]
      exact iff_of_false (hnone key) fun hand => absurd hand.2 (Nat.succ_ne_zero _)
  landing := (Landing.cons_iff (d := .held _) trivial).2 h.landing.setRefcount
  ends := h.ends.cons id

/-- The bytes are stored. -/
theorem put (h : Exact sha256 core w (.fresh key (sha256 bytes) ::ₘ g)) :
    Exact sha256 core { w with store := Function.update w.store key (some bytes) } (.held key ::ₘ g) where
  counts := h.counts.swap (fun _ => rfl) rfl rfl
  landing := h.landing.put w.objects.uniqueKey
  ends := h.ends.swap id

/-- The bytes are written to a temporary file. -/
theorem create (h : Exact sha256 core w (.fresh key (sha256 bytes) ::ₘ g)) (hnew : w.store tmp = none)
    (hnamed : ¬ Named tmp) :
    Exact sha256 core { w with store := Function.update w.store tmp (some bytes) } (.temp tmp key bytes ::ₘ g) where
  counts := h.counts.swap (fun _ => rfl) rfl rfl
  landing := h.landing.create hnew hnamed
  ends := h.ends.swap id

/-- The temporary file is renamed. -/
theorem rename (h : Exact sha256 core w (.temp tmp key bytes ::ₘ g)) :
    Exact sha256 core { w with store := Function.update (Function.update w.store tmp none) key (some bytes) }
      (.held key ::ₘ g) where
  counts := h.counts.swap (fun _ => rfl) rfl rfl
  landing := h.landing.rename w.objects.uniqueKey
  ends := h.ends.swap id

/-- The row had its thumbnail already, or is gone. -/
theorem notLinked (h : Exact sha256 core w (.held key ::ₘ g)) (hsettled : Settled core w.files.rows) :
    Exact sha256 core w (.lost key ::ₘ g) where
  counts := h.counts.swap (fun _ => rfl) rfl rfl
  landing := (Landing.cons_iff (d := .lost _) trivial).2 ((Landing.cons_iff (d := .held _) trivial).1 h.landing)
  ends := by
    refine ⟨fun key hmem => h.ends.dead key ?_, fun _ _ _ => hsettled⟩
    exact Multiset.mem_cons_of_mem ((Multiset.mem_cons.1 hmem).resolve_left nofun)

/-- While the row waits for a thumbnail no duty is late. -/
theorem not_late (h : Exact sha256 core w g) (hnot : ¬ Settled core w.files.rows) {d : Duty} (hd : d ∈ g) : ¬ d.Late :=
  fun hlate => hnot (h.ends.settled d hd hlate)

/-- **The row gets its thumbnail.** -/
theorem linkThumb {row : FileRow} (h : Exact sha256 core w (.held key ::ₘ g)) (hrow : row ∈ w.files.rows)
    (hcore : row.idCore = core) (hnone : row.thumbKey = none) :
    Exact sha256 core { w with files := w.files.linkThumb core key } g := by
  have hnot : ¬ Settled core w.files.rows := fun hsettled => hsettled row hrow hcore hnone
  have hlate : ∀ d ∈ g, ¬ d.Late := fun d hd => h.not_late hnot (Multiset.mem_cons_of_mem hd)
  refine ⟨?_, ?_, ⟨fun key hmem => absurd trivial (hlate _ hmem), fun d hd hd' => absurd hd' (hlate d hd)⟩⟩
  · refine h.counts.trade (fun key' => ?_) (fun key' => (Counts.spent_mem_cons rfl).symm) ?_
    · subst hcore
      rw [show fileRefs (w.files.linkThumb row.idCore key).rows key' = _ from fileRefs_linkThumb hrow hnone key',
        owed_cons]
      have hif : (if (Duty.held key).refers key' = true then 1 else 0) = if key' = key then 1 else 0 :=
        if_congr (decide_eq_true_iff.trans eq_comm) rfl rfl
      rw [hif]
      omega
    · exact (Multiset.countP_le_of_le _ (Multiset.le_cons_self g _)).trans h.counts.sole
  · exact ((Landing.cons_iff (d := .held _) trivial).1 h.landing).mono fun key' _ => .inr hnot

/-- A reference is given back. -/
theorem dropObject {row : ObjectRow} (h : Exact sha256 core w (.lost row.storageKey ::ₘ g))
    (hrow : row ∈ w.objects.rows) (hnone : ∀ key, .spent key ∉ g) : row.refcount ≠ 0 ∧
    Exact sha256 core { w with objects := w.objects.setRefcount (fun s => s.storageKey = row.storageKey) (· - 1) }
      (if row.refcount - 1 = 0 then .spent row.storageKey ::ₘ g else g) := by
  have hcounted := h.counts.counted row hrow
  have howed : ∀ key, owed (.lost row.storageKey ::ₘ g) key = owed g key + if row.storageKey = key then 1 else 0 := by
    intro key
    simp [Duty.refers]
  rw [howed, if_pos rfl] at hcounted
  refine ⟨by omega, ?_, ?_, ?_⟩
  · refine h.counts.setRefcount (p := fun s => s.storageKey = row.storageKey) (f := (· - 1)) hrow (fun s hs => ?_)
      w.objects.uniqueKey (fun key => ?_) ?_ (fun key hne => ?_) (fun key => ?_) ?_
    · rw [decide_eq_true_eq]
      exact ⟨w.objects.uniqueKey.eq hs hrow, fun heq => heq ▸ rfl⟩
    · rw [Counts.spent_mem_cons rfl]
      exact hnone key
    · have hspent : owed (.spent row.storageKey ::ₘ g) row.storageKey = owed g row.storageKey := by simp [Duty.refers]
      split
      · rw [hspent]
        omega
      · omega
    · rw [howed, if_neg hne.symm]
      split
      · simp [Duty.refers]
      · rfl
    · split
      · rename_i hzero
        rw [Multiset.mem_cons, Duty.spent.injEq]
        exact ⟨fun hmem => ⟨hmem.resolve_right (hnone key), hzero⟩, fun hand => .inl hand.1⟩
      · rename_i hzero
        exact iff_of_false (hnone key) fun hand => hzero hand.2
    · have hempty : g.countP (fun d => d.isSpent = true) = 0 := by
        refine Multiset.countP_eq_zero.2 fun d hd hspent => ?_
        cases d with
        | spent key => exact hnone key hd
        | _ => cases hspent
      split
      · rw [Multiset.countP_cons, hempty]
        split <;> omega
      · omega
  · have hlanding := ((Landing.cons_iff (d := .lost _) trivial).1 h.landing).setRefcount
      (p := fun s => s.storageKey = row.storageKey) (f := (· - 1))
    split
    · exact (Landing.cons_iff (d := .spent _) trivial).2 hlanding
    · exact hlanding
  · have hends : Ends core w.files.rows g := h.ends.of_late fun d hd _ => Multiset.mem_cons_of_mem hd
    have hsettled := h.ends.settled _ (Multiset.mem_cons_self _ _) trivial
    split
    · refine ⟨fun key hmem => hends.dead key ?_, fun _ _ _ => hsettled⟩
      exact (Multiset.mem_cons.1 hmem).resolve_left nofun
    · exact hends

/-- The row of an object is deleted. -/
theorem deleteObject (h : Exact sha256 core w (.spent key ::ₘ g)) :
    Exact sha256 core { w with objects := w.objects.delete fun row => row.storageKey = key } (.dead key ::ₘ g) := by
  obtain ⟨row, hrow, rfl, -⟩ := h.counts.spent key (Multiset.mem_cons_self _ _)
  obtain ⟨hcounts, hfiles, howed⟩ := h.counts.delete
  have hlanding := (Landing.cons_iff (d := .spent _) trivial).1 h.landing
  refine ⟨hcounts, (Landing.cons_iff (d := .dead _) trivial).2 (hlanding.delete ?_), ?_⟩
  · exact fun d hd sha hds => owed_ne_zero hd hds.refers howed
  · refine ⟨fun key hmem => ?_, fun d hd hlate => ?_⟩
    · rcases Multiset.mem_cons.1 hmem with heq | hmem
      · cases heq
        exact ⟨hfiles, h.landing.named row hrow⟩
      · exact h.ends.dead key (Multiset.mem_cons_of_mem hmem)
    · exact h.ends.settled (.spent row.storageKey) (Multiset.mem_cons_self _ _) trivial

/-- **Bytes are deleted** that nobody needs. -/
theorem delete (h : Exact sha256 core w (.dead key ::ₘ g)) :
    Exact sha256 core { w with store := Function.update w.store key none } g where
  counts := by
    refine h.counts.trade (fun key' => by simp [Duty.refers]) (fun key' => (Counts.spent_mem_cons rfl).symm) ?_
    exact (Multiset.countP_le_of_le _ (Multiset.le_cons_self g _)).trans h.counts.sole
  landing := by
    obtain ⟨hrefs, hnamed⟩ := h.ends.dead key (Multiset.mem_cons_self _ _)
    have hsettled := h.ends.settled _ (Multiset.mem_cons_self _ _) trivial
    have hlanding := (Landing.cons_iff (d := .dead _) trivial).1 h.landing
    refine hlanding.setStore (fun key' hne => Function.update_of_ne hne _ _) hnamed
      (fun row hrow hkey hneeded => ?_) (fun d hd _ _ _ => hd) (fun d hd _ _ _ _ => hd) fun _ => le_rfl
    rcases hneeded with hne | hnot
    · exact absurd hrefs hne
    · exact absurd hsettled hnot
  ends := h.ends.of_late fun d hd _ => Multiset.mem_cons_of_mem hd

/-- **The row is removed**, and its references are to be given back. -/
theorem deleteFile {row : FileRow} (h : Exact sha256 core w g) (hrow : row ∈ w.files.rows)
    (hcore : row.idCore = core) :
    Exact sha256 core { w with files := w.files.delete fun s => s.idCore = core } (lostKeys row.keys + g) := by
  have hsettled : Settled core (w.files.delete fun s => s.idCore = core).rows := fun s hs heq =>
    absurd heq (of_decide_eq_false (mem_deleteWhere.1 hs).2)
  have hlost : ∀ d ∈ lostKeys row.keys, ∃ key, d = .lost key := by
    intro d hd
    obtain ⟨key, -, rfl⟩ := List.mem_map.1 (Multiset.mem_coe.1 hd)
    exact ⟨key, rfl⟩
  have hrefs : ∀ key, fileRefs w.files.rows key =
      row.keys.count key + fileRefs (w.files.delete fun s => s.idCore = core).rows key := by
    intro key
    rw [← hcore]
    exact fileRefs_delete hrow key
  refine ⟨?_, ?_, ⟨fun key hmem => ?_, fun _ _ _ => hsettled⟩⟩
  · refine h.counts.trade (fun key => ?_) (fun key => ?_) ?_
    · rw [hrefs, owed_add, owed_lostKeys]
      show fileRefs (w.files.delete fun s => s.idCore = core).rows key + _ = _
      omega
    · rw [Multiset.mem_add, or_iff_right]
      intro hmem
      obtain ⟨key', heq⟩ := hlost _ hmem
      cases heq
    · rw [Multiset.countP_add, Multiset.countP_eq_zero.2 fun d hd hspent => ?_, Nat.zero_add]
      · exact h.counts.sole
      · obtain ⟨key, rfl⟩ := hlost d hd
        cases hspent
  · have hadd : ∀ keys : List SafeKey, Landing sha256 w.objects.rows w.store (Needed core w.files.rows)
        (lostKeys keys + g) := by
      intro keys
      induction keys with
      | nil => exact (zero_add g).symm ▸ h.landing
      | cons key keys ih =>
        have hcons : lostKeys (key :: keys) + g = .lost key ::ₘ (lostKeys keys + g) := by
          unfold lostKeys
          rw [List.map_cons, ← Multiset.cons_coe, Multiset.cons_add]
        rw [hcons]
        exact (Landing.cons_iff (d := .lost _) trivial).2 ih
    refine (hadd row.keys).mono fun key hneeded => ?_
    rcases hneeded with hne | hnot
    · refine .inl fun hzero => hne ?_
      rw [hrefs] at hzero
      exact (Nat.add_eq_zero_iff.1 hzero).2
    · exact absurd hsettled hnot
  · rcases Multiset.mem_add.1 hmem with hmem | hmem
    · obtain ⟨key', heq⟩ := hlost _ hmem
      cases heq
    · obtain ⟨hzero, hnamed⟩ := h.ends.dead key hmem
      refine ⟨?_, hnamed⟩
      rw [hrefs] at hzero
      exact (Nat.add_eq_zero_iff.1 hzero).2

end Exact

/-! ## What a request performs -/

/-- No row of an object is to be deleted. -/
def Unspent (g : Duties) : Prop := ∀ key, .spent key ∉ g

/-- What a request performs, with what it has yet to do. -/
def May (sha256 : Bytes → Digest) (core : Core) (g : Duties) : FileOp → Prop
  | .db (.insertObject _ key _ _) => key = thumbKey core
  | .db (.bumpObject _) => Unspent g
  | .db (.dropObject key) => .lost key ∈ g ∧ Unspent g
  | .db (.deleteObject key) => .spent key ∈ g
  | .db (.delete key) => .dead key ∈ g
  | .db (.put key bytes) => g = {.fresh key (sha256 bytes)}
  | .db (.deleteFile core') => core' = core
  | .db (.claimCore _) | .db (.insertFile _) => False
  | .create key bytes => key = thumbKey core ∧ g = {.fresh key (sha256 bytes)}
  | .rename tmp key => ∃ bytes, g = {.temp tmp key bytes}
  | .linkThumb core' key => core' = core ∧ .held key ∈ g
  | .findFile _ => True

/-- What it is answered: releases and the store do what they are asked for. -/
def Expected : (op : FileOp) → op.Res → Prop
  | .db (.insertObject _ key _ _), r => ∀ key', r = .ok (some key') → key' = key
  | .db (.dropObject _), r => ∃ n, r = .ok (some n)
  | .db (.deleteObject _), r | .db (.delete _), r | .db (.put _ _), r | .rename _ _, r => r = .ok ()
  | .db (.deleteFile _), r => ∃ keys, r = .ok keys
  | .create _ _, r => r.2 = .ok ()
  | .linkThumb _ _, r => ∃ n, r = .ok n
  | .findFile core, r => ∀ row, r = .ok (some row) → row.idCore = core
  | _, _ => True

theorem Unspent.add {g f : Duties} (hg : Unspent g) (hf : Unspent f) : Unspent (g + f) := fun key hmem =>
  (Multiset.mem_add.1 hmem).elim (hg key) (hf key)

/-- No row is updated: there is a thumbnail, or no row. -/
theorem settled_of_countP {core : Core} {files : List FileRow}
    (h : files.countP (fun row => row.idCore = core && row.thumbKey.isNone) = 0) : Settled core files := by
  intro row hrow hcore hnone
  have hnot := List.countP_eq_zero.1 h row hrow
  simp [hcore, hnone] at hnot

theorem Exact.step_db {sha256 : Bytes → Digest} {core : Core} {w w' : World} {g f : Duties} {op : DbOp} {r : op.Res}
    (hmay : May sha256 core g (.db op)) (h : Exact sha256 core w (g + f)) (hf : Unspent f)
    (hexec : exec False w op r w') :
    Expected (.db op) r ∧ Exact sha256 core w' (duties g (.db op) r + f) := by
  have hanswer : (r, w') = answer w op := hexec.resolve_right fun hand => hand.1
  cases op with
  | claimCore core => exact hmay.elim
  | insertFile row => exact hmay.elim
  | insertObject sha key size mime =>
    rcases exec_insertObject hexec with ⟨hsha, hkey, rfl, rfl⟩ | ⟨rfl, rfl⟩ | ⟨e, rfl, rfl⟩
    · refine ⟨?_, ?_⟩
      · rintro key' hkey'
        cases hkey'
        rfl
      · have hnamed : Named key := ⟨core, .inr hmay⟩
        show Exact sha256 core _ (.fresh key sha ::ₘ g + f)
        rw [Multiset.cons_add]
        exact h.insertObject hsha hkey rfl hnamed
    · exact ⟨fun _ heq => (by cases heq), h⟩
    · exact ⟨fun _ heq => (by cases heq), h⟩
  | bumpObject sha =>
    rcases exec_bumpObject hexec with ⟨row, hrow, rfl, rfl, rfl⟩ | ⟨e, rfl, rfl⟩
    · refine ⟨trivial, ?_⟩
      show Exact sha256 core _ (.held row.storageKey ::ₘ g + f)
      rw [Multiset.cons_add]
      exact h.bumpObject hrow (hmay.add hf)
    · exact ⟨trivial, h⟩
  | dropObject key =>
    obtain ⟨hmem, hg⟩ := hmay
    obtain ⟨g, rfl⟩ := Multiset.exists_cons_of_mem hmem
    rw [Multiset.cons_add] at h
    have hunspent : Unspent (g + f) := Unspent.add (fun key hmem => hg key (Multiset.mem_cons_of_mem hmem)) hf
    have hrefers : fileRefs w.files.rows key + owed (.lost key ::ₘ (g + f)) key ≠ 0 := fun hzero =>
      owed_ne_zero (d := .lost key) (Multiset.mem_cons_self _ _) (decide_eq_true rfl) (Nat.add_eq_zero_iff.1 hzero).2
    obtain ⟨row, hrow, rfl⟩ := h.counts.kept key hrefers
    obtain ⟨hpos, hdrop⟩ := h.dropObject hrow hunspent
    rcases exec_dropObject hexec with ⟨row', hrow', hkey, -, rfl, rfl⟩ | ⟨hr, -⟩
    · obtain rfl := w.objects.uniqueKey.eq hrow' hrow hkey
      refine ⟨⟨_, rfl⟩, ?_⟩
      cases hn : row'.refcount - 1 with
      | zero =>
        rw [if_pos hn] at hdrop
        show Exact sha256 core _ (.spent row'.storageKey ::ₘ (.lost row'.storageKey ::ₘ g).erase _ + f)
        rwa [Multiset.erase_cons_head, Multiset.cons_add]
      | succ n =>
        rw [if_neg (by omega)] at hdrop
        show Exact sha256 core _ ((.lost row'.storageKey ::ₘ g).erase _ + f)
        rwa [Multiset.erase_cons_head]
    · simp only [answer, w.objects.uniqueKey.find? hrow rfl, if_neg hpos] at hanswer
      cases hanswer
      exact absurd rfl (hr _)
  | deleteObject key =>
    cases hanswer
    obtain ⟨g, rfl⟩ := Multiset.exists_cons_of_mem hmay
    rw [Multiset.cons_add] at h
    refine ⟨rfl, ?_⟩
    show Exact sha256 core _ (.dead key ::ₘ (.spent key ::ₘ g).erase _ + f)
    rw [Multiset.erase_cons_head, Multiset.cons_add]
    exact h.deleteObject
  | deleteFile core' =>
    obtain rfl : core' = core := hmay
    rcases exec_deleteFile hexec with ⟨row, hrow, hcore, rfl, rfl⟩ | ⟨hr, rfl⟩
    · refine ⟨⟨_, rfl⟩, ?_⟩
      show Exact sha256 core' _ (lostKeys row.keys + g + f)
      rw [add_assoc]
      exact h.deleteFile hrow hcore
    · rcases r with e | _ | keys
      · simp only [answer] at hanswer
        split at hanswer <;> cases hanswer
      · exact ⟨⟨_, rfl⟩, h⟩
      · exact absurd rfl (hr keys)
  | put key bytes =>
    cases hanswer
    obtain rfl : g = {.fresh key (sha256 bytes)} := hmay
    refine ⟨rfl, ?_⟩
    have hlanded : ({.fresh key (sha256 bytes)} : Duties).map (Duty.landed key) = {.held key} := by
      simp [Duty.landed]
    show Exact sha256 core _ (({.fresh key (sha256 bytes)} : Duties).map (Duty.landed key) + f)
    rw [hlanded]
    exact h.put
  | delete key =>
    cases hanswer
    obtain ⟨g, rfl⟩ := Multiset.exists_cons_of_mem hmay
    rw [Multiset.cons_add] at h
    refine ⟨rfl, ?_⟩
    show Exact sha256 core _ ((.dead key ::ₘ g).erase _ + f)
    rw [Multiset.erase_cons_head]
    exact h.delete

/-- **One step.** -/
theorem Exact.step {sha256 : Bytes → Digest} {core : Core} {w w' : World} {g f : Duties} {op : FileOp} {r : op.Res}
    (hmay : May sha256 core g op) (h : Exact sha256 core w (g + f)) (hf : Unspent f)
    (hexec : execFile False w op r w') : Expected op r ∧ Exact sha256 core w' (duties g op r + f) := by
  cases op with
  | db op => exact h.step_db hmay hf (execFile_db.1 hexec)
  | create key bytes =>
    obtain ⟨rfl, rfl⟩ := hmay
    obtain ⟨tmp, ⟨hname, hnew⟩, hanswer | ⟨hf, -⟩⟩ := hexec
    · cases hanswer
      refine ⟨rfl, ?_⟩
      have hwritten : ({.fresh (thumbKey core) (sha256 bytes)} : Duties).map
          (Duty.written tmp (thumbKey core) bytes) = {.temp tmp (thumbKey core) bytes} := by simp [Duty.written]
      show Exact sha256 core _ (({.fresh (thumbKey core) (sha256 bytes)} : Duties).map _ + f)
      rw [hwritten]
      exact h.create hnew (not_named_of_tempName hname)
    · exact hf.elim
  | rename tmp key =>
    obtain ⟨bytes, rfl⟩ := hmay
    have hstored : w.store tmp = some bytes := (h.landing.temp tmp key bytes (Multiset.mem_cons_self _ _)).1
    rcases execFile_rename hexec with ⟨bytes', hbytes', rfl, rfl⟩ | ⟨-, hfails, -⟩
    · obtain rfl : bytes = bytes' := Option.some.inj (hstored.symm.trans hbytes')
      refine ⟨rfl, ?_⟩
      have hrenamed : ({.temp tmp key bytes} : Duties).map (Duty.renamed tmp) = {.held key} := by simp [Duty.renamed]
      show Exact sha256 core _ (({.temp tmp key bytes} : Duties).map _ + f)
      rw [hrenamed]
      exact h.rename
    · rw [hstored] at hfails
      exact absurd hfails (by simp)
  | linkThumb core' key =>
    obtain ⟨rfl, hmem⟩ := hmay
    obtain ⟨g, rfl⟩ := Multiset.exists_cons_of_mem hmem
    rw [Multiset.cons_add] at h
    rcases execFile_linkThumb hexec with ⟨row, hrow, hcore, hnone, rfl, rfl⟩ | ⟨hr, rfl⟩
    · refine ⟨⟨_, rfl⟩, ?_⟩
      show Exact sha256 core' _ ((.held key ::ₘ g).erase _ + f)
      rw [Multiset.erase_cons_head]
      exact h.linkThumb hrow hcore hnone
    · obtain ⟨_, -, hanswer | ⟨hf, -⟩⟩ := hexec
      · obtain rfl := congrArg Prod.fst hanswer
        cases hcount : w'.files.rows.countP fun row => row.idCore = core' && row.thumbKey.isNone with
        | zero =>
          refine ⟨⟨_, rfl⟩, ?_⟩
          simp only [answerFile, hcount]
          show Exact sha256 core' _ (.lost key ::ₘ (.held key ::ₘ g).erase _ + f)
          rw [Multiset.erase_cons_head, Multiset.cons_add]
          exact h.notLinked (settled_of_countP hcount)
        | succ n => exact absurd (congrArg Except.ok hcount) (hr n)
      · exact hf.elim
  | findFile core' =>
    obtain ⟨_, -, hanswer | ⟨hf, -⟩⟩ := hexec
    · cases hanswer
      refine ⟨fun row hrow => ?_, h⟩
      have hfind : w.files.rows.find? (fun row => row.idCore = core') = some row := Except.ok.inj hrow
      exact (find?_col hfind).2
    · exact hf.elim

section

variable {backend : Backend} {sha256 : Bytes → Digest} {core : Core} {g : Duties}

/-- The rules that every request keeps to. -/
abbrev rules (sha256 : Bytes → Digest) (core : Core) : Protocol Duties FileOp FileOp.Res :=
  Tracked.protocol duties (May sha256 core) Expected

/-- A lost reference is released, and bytes without references are to be deleted. -/
theorem obeys_releaseObject (key : SafeKey) (hg : Unspent g) :
    (onBackend backend (releaseObject key)).Obeys (rules sha256 core)
      (fun result g' => result = .ok true ∧ g' = .dead key ::ₘ g ∨ result = .ok false ∧ g' = g) (.lost key ::ₘ g) := by
  have hunspent : Unspent (.lost key ::ₘ g) := fun key' hmem => hg key' ((Multiset.mem_cons.1 hmem).resolve_left nofun)
  refine ⟨⟨Multiset.mem_cons_self _ _, hunspent⟩, fun r g' hnext => ?_⟩
  obtain ⟨⟨n, rfl⟩, rfl⟩ := hnext
  match n with
  | 0 =>
    refine ⟨Multiset.mem_cons_self _ _, fun r g' hnext => ?_⟩
    obtain ⟨rfl, rfl⟩ := hnext
    refine .inl ⟨rfl, ?_⟩
    show Duty.dead key ::ₘ (.spent key ::ₘ (.lost key ::ₘ g).erase (.lost key)).erase (.spent key) = _
    rw [Multiset.erase_cons_head, Multiset.erase_cons_head]
  | n + 1 => exact .inr ⟨rfl, Multiset.erase_cons_head _ _⟩

/-- The bytes of a deleted row are deleted. -/
theorem obeys_delete (key : SafeKey) :
    (onBackend backend (Prog.perform (DbOp.delete key))).Obeys (rules sha256 core) (fun r g' => r = .ok () ∧ g' = g)
      (.dead key ::ₘ g) := by
  refine ⟨Multiset.mem_cons_self _ _, fun r g' hnext => ?_⟩
  obtain ⟨rfl, rfl⟩ := hnext
  exact ⟨rfl, Multiset.erase_cons_head _ _⟩

theorem obeys_releaseAndDelete (key : SafeKey) (hg : Unspent g) :
    (onBackend backend (releaseAndDelete key)).Obeys (rules sha256 core) (fun result g' => result = .ok () ∧ g' = g)
      (.lost key ::ₘ g) := by
  unfold releaseAndDelete
  rw [onBackend_bind]
  refine (Prog.obeys_bind _ _ _).2 ((obeys_releaseObject key hg).mono fun result g' hresult => ?_)
  rcases hresult with ⟨rfl, rfl⟩ | ⟨rfl, rfl⟩
  · dsimp only
    rw [onBackend_bind]
    refine (Prog.obeys_bind _ _ _).2 ((obeys_delete key).mono fun r g'' hr => ?_)
    obtain ⟨rfl, rfl⟩ := hr
    exact ⟨rfl, rfl⟩
  · exact ⟨rfl, rfl⟩

theorem obeys_rollbackObject (key : SafeKey) (hg : Unspent g) :
    (onBackend backend (rollbackObject key)).Obeys (rules sha256 core) (fun _ g' => g' = g) (.lost key ::ₘ g) := by
  unfold rollbackObject
  rw [onBackend_bind]
  refine (Prog.obeys_bind _ _ _).2 ((obeys_releaseObject key hg).mono fun result g' hresult => ?_)
  rcases hresult with ⟨rfl, rfl⟩ | ⟨rfl, rfl⟩
  · dsimp only
    rw [onBackend_bind]
    exact (Prog.obeys_bind _ _ _).2 ((obeys_delete key).mono fun r g'' hr => hr.2)
  · exact rfl

/-- A removal gives back what the row referred to. -/
theorem obeys_removeFile :
    (onBackend backend (removeFile core)).Obeys (rules sha256 core) (fun _ g' => g' = 0) 0 := by
  have hzero : Unspent 0 := fun _ => Multiset.notMem_zero _
  refine ⟨rfl, fun r g' hnext => ?_⟩
  obtain ⟨⟨keys, rfl⟩, rfl⟩ := hnext
  match keys with
  | none => exact rfl
  | some (storageKey, none) =>
    show (onBackend backend (releaseAndDelete storageKey >>= _)).Obeys _ _ (Duty.lost storageKey ::ₘ (0 : Duties))
    rw [onBackend_bind]
    refine (Prog.obeys_bind _ _ _).2 ((obeys_releaseAndDelete storageKey hzero).mono fun result g' hresult => ?_)
    obtain ⟨rfl, rfl⟩ := hresult
    exact rfl
  | some (storageKey, some thumbKey) =>
    have hunspent : Unspent {Duty.lost thumbKey} := fun key hmem => nomatch Multiset.mem_singleton.1 hmem
    show (onBackend backend (releaseAndDelete storageKey >>= _)).Obeys _ _ (.lost storageKey ::ₘ {Duty.lost thumbKey})
    rw [onBackend_bind]
    refine (Prog.obeys_bind _ _ _).2 ((obeys_releaseAndDelete storageKey hunspent).mono fun result g' hresult => ?_)
    obtain ⟨rfl, rfl⟩ := hresult
    dsimp only
    rw [onBackend_bind]
    refine (Prog.obeys_bind _ _ _).2 ((obeys_releaseAndDelete thumbKey hzero).mono fun result g' hresult => ?_)
    obtain ⟨rfl, rfl⟩ := hresult
    exact rfl

/-- An acquisition: bytes to be stored, or a counted reference. -/
theorem obeys_acquireObject (sha : Digest) (size : ℕ) (mime : Text) :
    (onBackend backend (acquireObject sha (thumbKey core) size mime)).Obeys (rules sha256 core)
      (fun result g' => match result with
        | .error _ => g' = 0
        | .ok (key, true) => key = thumbKey core ∧ g' = {.fresh key sha}
        | .ok (key, false) => g' = {.held key}) 0 := by
  refine ⟨rfl, fun r g' hnext => ?_⟩
  obtain ⟨hkey, rfl⟩ := hnext
  match r with
  | .error e => exact rfl
  | .ok (some key) =>
    obtain rfl := hkey key rfl
    exact ⟨rfl, rfl⟩
  | .ok none =>
    refine ⟨fun _ => Multiset.notMem_zero _, fun r g' hnext => ?_⟩
    obtain ⟨-, rfl⟩ := hnext
    match r with
    | .error e => exact rfl
    | .ok key => exact rfl

/-- The bytes are stored, through a temporary file or not. -/
theorem obeys_put (bytes : Bytes) :
    (onBackend backend (Prog.perform (DbOp.put (thumbKey core) bytes))).Obeys (rules sha256 core)
      (fun r g' => r = .ok () ∧ g' = {.held (thumbKey core)}) {.fresh (thumbKey core) (sha256 bytes)} := by
  cases backend with
  | localFs =>
    refine ⟨⟨rfl, rfl⟩, fun created g' hnext => ?_⟩
    obtain ⟨tmp, result⟩ := created
    obtain ⟨hresult, rfl⟩ := hnext
    obtain rfl : result = .ok () := hresult
    have hwritten : ({.fresh (thumbKey core) (sha256 bytes)} : Duties).map
        (Duty.written tmp (thumbKey core) bytes) = {.temp tmp (thumbKey core) bytes} := by simp [Duty.written]
    refine ⟨⟨bytes, hwritten⟩, fun r g' hnext => ?_⟩
    obtain ⟨rfl, rfl⟩ := hnext
    refine ⟨rfl, ?_⟩
    show (Multiset.map (Duty.written tmp (thumbKey core) bytes) {.fresh (thumbKey core) (sha256 bytes)}).map
      (Duty.renamed tmp) = _
    rw [hwritten]
    simp [Duty.renamed]
  | s3 =>
    refine ⟨rfl, fun r g' hnext => ?_⟩
    obtain ⟨rfl, rfl⟩ := hnext
    refine ⟨rfl, ?_⟩
    show ({.fresh (thumbKey core) (sha256 bytes)} : Duties).map (Duty.landed (thumbKey core)) = _
    simp [Duty.landed]

theorem obeys_storeThumbnail (jpeg : Content) :
    (onBackend backend (storeThumbnail sha256 core jpeg)).Obeys (rules sha256 core)
      (fun stored g' => match stored with
        | none => g' = 0
        | some key => g' = {.held key}) 0 := by
  unfold storeThumbnail
  rw [onBackend_bind]
  refine (Prog.obeys_bind _ _ _).2 ((obeys_acquireObject _ _ _).mono fun result g' hresult => ?_)
  match result with
  | .error e => exact hresult
  | .ok (key, false) => exact hresult
  | .ok (key, true) =>
    obtain ⟨rfl, rfl⟩ := hresult
    show (onBackend backend (_ >>= _)).Obeys _ _ _
    rw [onBackend_bind]
    refine (Prog.obeys_bind _ _ _).2 ((obeys_put jpeg.bytes).mono fun r g' hr => ?_)
    obtain ⟨rfl, rfl⟩ := hr
    exact rfl

/-- **A backfill** puts its reference into the row, or gives it back. -/
theorem obeys_ensureThumbnail {file : FileRow} (hcore : file.idCore = core) (burnAfterRead hasPassword : Bool)
    (frame : Option Content) :
    (ensureThumbnail backend sha256 file burnAfterRead hasPassword frame).Obeys (rules sha256 core)
      (fun _ g' => g' = 0) 0 := by
  have hzero : Unspent 0 := fun _ => Multiset.notMem_zero _
  subst hcore
  unfold ensureThumbnail
  split
  · exact rfl
  · split
    · exact rfl
    · split
      · exact rfl
      · refine (Prog.obeys_bind _ _ _).2 ((obeys_storeThumbnail _).mono fun stored g' hstored => ?_)
        match stored with
        | none => exact hstored
        | some key =>
          obtain rfl : g' = {.held key} := hstored
          refine ⟨⟨rfl, Multiset.mem_singleton_self _⟩, fun r g' hnext => ?_⟩
          obtain ⟨⟨n, rfl⟩, rfl⟩ := hnext
          have herase : ({.held key} : Duties).erase (.held key) = 0 := Multiset.erase_cons_head _ _
          match n with
          | n + 1 => exact herase
          | 0 =>
            show Prog.Obeys (rules sha256 file.idCore) _ (onBackend backend (rollbackThumbnail key) >>= _)
              (.lost key ::ₘ ({.held key} : Duties).erase (.held key))
            rw [herase]
            refine (Prog.obeys_bind _ _ _).2 ((obeys_rollbackObject key hzero).mono fun _ g' hg' => ?_)
            subst hg'
            refine ⟨trivial, fun r g' hnext => ?_⟩
            obtain ⟨-, rfl⟩ := hnext
            match r with
            | .error e => exact rfl
            | .ok row => exact rfl

end

/-! ## The runs -/

/-- What is asked for, all of it about one file. -/
inductive Call where
  | ensureThumbnail (burnAfterRead hasPassword : Bool) (frame : Option Content)
  | removeFile

/-- The request. -/
def Call.work (core : Core) : Call → Work
  | ensureThumbnail burnAfterRead hasPassword frame => .backfill core burnAfterRead hasPassword frame
  | removeFile => .remove core

theorem obeys_code (backend : Backend) (sha256 : Bytes → Digest) (core : Core) (call : Call) :
    ((call.work core).code backend sha256).Obeys (rules sha256 core) (fun _ g' => g' = 0) 0 := by
  cases call with
  | ensureThumbnail burnAfterRead hasPassword frame =>
    refine ⟨trivial, fun r g' hnext => ?_⟩
    obtain ⟨hcore, rfl⟩ := hnext
    match r with
    | .error e => exact rfl
    | .ok none => exact rfl
    | .ok (some file) =>
      show Prog.Obeys (rules sha256 core) _ (ensureThumbnail backend sha256 file _ _ _ >>= _) 0
      exact (Prog.obeys_bind _ _ _).2 ((obeys_ensureThumbnail (hcore file rfl) _ _ _).mono fun _ _ hg' => hg')
  | removeFile => exact (Prog.obeys_bind _ _ _).2 (obeys_removeFile.mono fun _ _ hg' => hg')

/-- `release_object` is one step: nobody else is between its two statements. -/
def Atomic (_ : World) (_ f : Duties) (_ : FileOp) : Prop := Unspent f

/-- A request ends when it has nothing left to do. -/
def Done (_ : World) (g : Duties) : Prop := g = 0

/-- The rows that refer to a key, when none of them does so twice. -/
theorem fileRefs_eq_countP {files : List FileRow} {key : SafeKey}
    (honce : ∀ row ∈ files, row.storageKey = key → row.thumbKey ≠ some key) :
    fileRefs files key = files.countP fun row => key ∈ row.keys := by
  unfold fileRefs
  induction files with
  | nil => rfl
  | cons row files ih =>
    have hrow : row.keys.count key = if key ∈ row.keys then 1 else 0 := by
      have hself := honce row List.mem_cons_self
      unfold FileRow.keys
      by_cases hkey : row.storageKey = key
      · rw [hkey, List.count_cons_self, List.count_eq_zero.2 (by simpa using hself hkey), if_pos List.mem_cons_self]
      · rw [List.count_cons_of_ne hkey]
        cases row.thumbKey with
        | none => simp [Ne.symm hkey]
        | some thumb => simp [List.count_singleton, Ne.symm hkey, eq_comm (a := key), Subtype.ext_iff]
    rw [List.flatMap_cons, List.count_append, hrow, ih fun row hrow => honce row (List.mem_cons_of_mem _ hrow),
      List.countP_cons]
    simp [add_comm]

/-- **Backfills keep references exact.**  Start consistent, and let any number of backfills and removals of a file
run in any order: once all have returned, the state is consistent again.  Every refcount is the number of
references, that is of rows that refer to the key; and the thumbnail of the file, if it is still there, has a
counted object with its bytes. -/
theorem backfill_keeps_references (backend : Backend) (sha256 : Bytes → Digest) (core : Core) {w₀ : World}
    (hw₀ : Consistent sha256 w₀) {p : Pool World (Call × Duties) FileOp FileOp.Res Unit}
    (hp : Tracked.Reachable duties Atomic Done (fun call => (call.work core).code backend sha256) (execFile False) w₀ p)
    (hquiet : p.Quiet) :
    Consistent sha256 p.shared ∧
    (∀ obj ∈ p.shared.objects.rows,
      (∀ row ∈ p.shared.files.rows, row.storageKey = obj.storageKey → row.thumbKey ≠ some obj.storageKey) →
      obj.refcount = p.shared.files.rows.countP fun row => obj.storageKey ∈ row.keys) ∧
    ∀ row ∈ p.shared.files.rows, row.idCore = core →
      (∀ row' ∈ p.shared.files.rows, row'.idCore = core → row' = row) ∧
      ∀ key, row.thumbKey = some key → ∃ obj ∈ p.shared.objects.rows,
        obj.storageKey = key ∧ 0 < obj.refcount ∧ Stored sha256 p.shared.store obj := by
  obtain ⟨hexact, hall⟩ := hp.invariant (hw₀.exact core) (obeys_code backend sha256 core)
    (fun _ _ _ _ _ _ _ hmay h hatomic hexec => h.step hmay hatomic hexec) fun _ _ _ hdone h => by
      obtain rfl := hdone
      rwa [zero_add] at h
  have htotal : Tracked.total p.threads = 0 := by
    refine List.sum_eq_zero fun g hg => ?_
    obtain ⟨t, ht, rfl⟩ := List.mem_map.1 hg
    obtain ⟨a, ha⟩ := hquiet t ht
    have hobeys := hall t ht
    rw [ha] at hobeys
    exact hobeys
  rw [htotal] at hexact
  have hconsistent := hexact.consistent
  refine ⟨hconsistent, fun obj hobj honce => ?_, fun row hrow hcore =>
    ⟨fun row' hrow' hcore' => ?_, fun key hkey => ?_⟩⟩
  · rw [hconsistent.counted obj hobj, fileRefs_eq_countP honce]
  · exact p.shared.files.uniqueCore.eq hrow' hrow (hcore'.trans hcore.symm)
  · have hrefs : fileRefs p.shared.files.rows key ≠ 0 := by
      refine (List.count_pos_iff.2 (List.mem_flatMap.2 ⟨row, hrow, ?_⟩)).ne'
      simp [FileRow.keys, hkey]
    obtain ⟨obj, hobj, rfl⟩ := hconsistent.kept key hrefs
    exact ⟨obj, hobj, rfl, Nat.pos_of_ne_zero (hconsistent.live obj hobj), hconsistent.stored obj hobj⟩

/-! ### A run -/

/-- A digest that tells the byte 7 from other contents. -/
def sevenDigest (bytes : Bytes) : Digest := ⟨List.replicate 32 (if bytes = [7] then 7 else 0), List.length_replicate⟩

/-- A video of one byte, without a thumbnail. -/
def videoRow : FileRow where
  idCore := coreA
  ext := ⟨[], isExt_nil⟩
  sizeBytes := 1
  mimeStored := ['v', 'i', 'd', 'e', 'o', '/', 'm', 'p', '4']
  sha256 := sevenDigest [7]
  storageKey := fileKey coreA ⟨[], isExt_nil⟩
  thumbKey := none

def videoObject : ObjectRow := ⟨sevenDigest [7], fileKey coreA ⟨[], isExt_nil⟩, 1, videoRow.mimeStored, 1⟩

/-- The video has been uploaded. -/
def videoWorld : World where
  usedIdCores := [coreA]
  objects := ⟨[videoObject], List.nodup_singleton _, List.nodup_singleton _⟩
  files := ⟨[videoRow], List.nodup_singleton _⟩
  store := Function.update (fun _ => none) (fileKey coreA ⟨[], isExt_nil⟩) (some [7])

theorem consistent_videoWorld : Consistent sevenDigest videoWorld where
  counted := by decide
  live := by decide
  kept key hne := by
    refine ⟨videoObject, List.mem_singleton_self _, ?_⟩
    by_contra hkey
    exact hne (List.count_eq_zero.2 fun hmem => hkey (List.mem_singleton.1 hmem).symm)
  stored row hrow := by
    obtain rfl := List.mem_singleton.1 hrow
    exact ⟨[7], rfl, rfl⟩
  named row hrow := by
    obtain rfl := List.mem_singleton.1 hrow
    exact ⟨coreA, names_fileKey coreA _⟩

/-- Two backfills with the same frame: the second takes up the object of the first, and finds the row linked. -/
def twoBackfills : List (Tracked.Turn Call Unit) :=
  .spawn (.ensureThumbnail false false (some ⟨[8], by decide⟩)) ::
    .spawn (.ensureThumbnail false false (some ⟨[8], by decide⟩)) ::
    [0, 1, 0, 1, 1, 0, 0, 1, 1, 1].map fun n => .act n ()

/-- All operations but the creation of a temporary file. -/
def createsNothing : FileOp → Bool
  | .create _ _ => false
  | _ => true

theorem backfill_keeps_references_twoBackfills :
    Consistent sevenDigest (Tracked.play duties (fun call => (Call.work coreA call).code .s3 sevenDigest)
      (fun _ w op => answerFile (thumbKey coreA) w op) videoWorld twoBackfills).shared := by
  refine (backfill_keeps_references .s3 sevenDigest coreA consistent_videoWorld ?_
    (Pool.quiet_of_allReturned (by rfl))).1
  refine @Tracked.reachable_play _ _ _ _ _ _ _ duties _ _ _ _ Unit _
    (fun _ _ _ f op => createsNothing op && decide (f.countP (fun d => d.isSpent = true) = 0)) (fun _ _ => false) ?_
    (fun _ _ hleave => by cases hleave) videoWorld twoBackfills (by rfl)
  intro _ w g f op hok
  rw [Bool.and_eq_true, decide_eq_true_eq, Multiset.countP_eq_zero] at hok
  refine ⟨fun key hmem => hok.2 _ hmem rfl, thumbKey coreA, ?_, .inl rfl⟩
  cases op with
  | create => cases hok.1
  | _ => trivial

end Backfill
end Dedupe
end Uwuubox
