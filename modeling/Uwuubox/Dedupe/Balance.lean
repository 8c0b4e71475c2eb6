import Uwuubox.Dedupe.Durability
import Uwuubox.Dedupe.Leftovers
import Uwuubox.Dedupe.Retry

/-!
# The accounts of requests that run alone

Uploads, backfills and removals, one after another.  Bytes may fail to be stored and rows of `files` to be inserted;
everything else succeeds, so what a request has begun it gives back.

* `Sound` — what holds between two requests: every refcount is the number of references, the store holds the objects
  and nothing else, and every file has its content.
* `Balanced` — **the invariant**, with the references that the request in progress holds and the object whose bytes it
  has yet to store.
* `Balanced.insertObject` .. `Balanced.deleteFile` — what each operation does to it.
* `balanced_uploadInner`, `balanced_storeThumbnail`, `balanced_removeFile` — what the handlers do to it.
-/

namespace Uwuubox
namespace Dedupe

open Storage Table

/-! ## The invariant -/

/-- What holds between two requests. -/
structure Sound (sha256 : Bytes → Digest) (w : World) : Prop where
  counted : ∀ row ∈ w.objects.rows, 0 < row.refcount ∧
    row.refcount = (w.files.rows.countP fun file => file.storageKey = row.storageKey) +
      w.files.rows.countP fun file => file.thumbKey = some row.storageKey
  stored : ∀ key, w.store key ≠ none ↔ HasRow w key
  content : ∀ file ∈ w.files.rows, ∃ bytes, w.store file.storageKey = some bytes ∧
    bytes.length = file.sizeBytes ∧ sha256 bytes = file.sha256

/-- **The accounts balance**: `held` are the references that the request in progress holds, some of them to objects
whose digests it relies on, and `missing` is the object whose bytes it has yet to store. -/
structure Balanced (sha256 : Bytes → Digest) (known : Bytes → Prop) (pins : SafeKey → Digest → Prop)
    (held : Multiset SafeKey) (missing : Option SafeKey) (w : World) : Prop where
  counted : ∀ row ∈ w.objects.rows,
    row.refcount = fileRefs w.files.rows row.storageKey + held.count row.storageKey
  live : ∀ row ∈ w.objects.rows, row.refcount ≠ 0
  kept : ∀ key, fileRefs w.files.rows key + held.count key ≠ 0 → HasRow w key
  bytes : ∀ key, w.store key ≠ none → HasRow w key
  content : ∀ row ∈ w.objects.rows, some row.storageKey ≠ missing →
    ∃ bytes, known bytes ∧ w.store row.storageKey = some bytes ∧ sha256 bytes = row.sha256
  files : ∀ file ∈ w.files.rows, RowOf w file.storageKey file.sha256
  sizes : ∀ file ∈ w.files.rows, ∀ bytes, known bytes → sha256 bytes = file.sha256 → bytes.length = file.sizeBytes
  sole : ∀ key, missing = some key → fileRefs w.files.rows key + held.count key = 1
  pinned : ∀ key sha, pins key sha → key ∈ held ∧ RowOf w key sha

/-- No object that a request relies on. -/
def noPins (_ : SafeKey) (_ : Digest) : Prop := False

section

variable {sha256 : Bytes → Digest} {known : Bytes → Prop} {pins : SafeKey → Digest → Prop}
  {held held' : Multiset SafeKey} {missing : Option SafeKey} {w w' : World} {key : SafeKey} {sha : Digest}

theorem balanced_empty : Balanced sha256 known noPins 0 none World.empty where
  counted _ hrow := absurd hrow List.not_mem_nil
  live _ hrow := absurd hrow List.not_mem_nil
  kept _ hne := absurd rfl hne
  bytes _ hne := absurd rfl hne
  content _ hrow := absurd hrow List.not_mem_nil
  files _ hfile := absurd hfile List.not_mem_nil
  sizes _ hfile := absurd hfile List.not_mem_nil
  sole _ hmissing := nomatch hmissing
  pinned _ _ hpin := hpin.elim

/-- The references, column by column. -/
theorem fileRefs_eq (files : List FileRow) (key : SafeKey) : fileRefs files key =
    (files.countP fun file => file.storageKey = key) + files.countP fun file => file.thumbKey = some key := by
  unfold fileRefs
  induction files with
  | nil => rfl
  | cons file files ih =>
    have hkeys : file.keys.count key =
        (if file.storageKey = key then 1 else 0) + if file.thumbKey = some key then 1 else 0 := by
      unfold FileRow.keys
      rw [List.count_cons, Nat.add_comm]
      cases file.thumbKey with
      | none => simp [Subtype.ext_iff]
      | some thumb => simp [List.count_singleton, Subtype.ext_iff]
    rw [List.flatMap_cons, List.count_append, ih, hkeys, List.countP_cons, List.countP_cons]
    simp only [decide_eq_true_eq]
    omega

/-- The content of a file. -/
theorem Balanced.reads (h : Balanced sha256 known pins held none w) {file : FileRow} (hfile : file ∈ w.files.rows) :
    ∃ bytes, known bytes ∧ w.store file.storageKey = some bytes ∧ sha256 bytes = file.sha256 := by
  obtain ⟨row, hrow, hkey, hsha⟩ := h.files file hfile
  rw [← hkey, ← hsha]
  exact h.content row hrow (by simp)

/-- A file that is there before and after reads the same. -/
theorem Balanced.store_eq (h : Balanced sha256 known pins held none w) (h' : Balanced sha256 known pins held' none w')
    (hinj : Set.InjOn sha256 {bytes | known bytes}) {file : FileRow} (hfile : file ∈ w.files.rows)
    (hfile' : file ∈ w'.files.rows) : w'.store file.storageKey = w.store file.storageKey := by
  obtain ⟨bytes, hknown, hstored, hdigest⟩ := h.reads hfile
  obtain ⟨bytes', hknown', hstored', hdigest'⟩ := h'.reads hfile'
  rw [hstored, hstored', hinj hknown hknown' (hdigest.trans hdigest'.symm)]

/-- Nothing is held, and nothing is missing. -/
theorem Balanced.sound (h : Balanced sha256 known pins 0 none w) : Sound sha256 w where
  counted row hrow := by
    have hcounted := h.counted row hrow
    rw [Multiset.count_zero, Nat.add_zero, fileRefs_eq] at hcounted
    exact ⟨Nat.pos_of_ne_zero (h.live row hrow), hcounted⟩
  stored key := by
    refine ⟨h.bytes key, ?_⟩
    rintro ⟨row, hrow, rfl⟩ hnone
    obtain ⟨bytes, -, hstored, -⟩ := h.content row hrow (by simp)
    rw [hnone] at hstored
    cases hstored
  content file hfile := by
    obtain ⟨bytes, hknown, hstored, hdigest⟩ := h.reads hfile
    exact ⟨bytes, hstored, h.sizes file hfile bytes hknown hdigest, hdigest⟩

/-! ## Objects -/

/-- The rows after some refcounts have been set. -/
theorem mem_setRefcount {t : ObjectTable} {p : ObjectRow → Bool} {f : ℕ → ℕ} {row' : ObjectRow}
    (h : row' ∈ (t.setRefcount p f).rows) : ∃ row ∈ t.rows, row'.storageKey = row.storageKey ∧
      row'.sha256 = row.sha256 ∧ row'.refcount = if p row then f row.refcount else row.refcount := by
  rcases mem_updateWhere.1 h with ⟨hrow, hp⟩ | ⟨row, hrow, hp, rfl⟩
  · exact ⟨row', hrow, rfl, rfl, by rw [hp]; rfl⟩
  · exact ⟨row, hrow, rfl, rfl, by rw [hp]; rfl⟩

namespace Balanced

/-- Only the claimed cores differ. -/
theorem claim (h : Balanced sha256 known pins held missing w) (cores : List Core) :
    Balanced sha256 known pins held missing { w with usedIdCores := cores } :=
  ⟨h.counted, h.live, h.kept, h.bytes, h.content, h.files, h.sizes, h.sole, h.pinned⟩

/-- Nothing is relied on any more. -/
theorem unpin (h : Balanced sha256 known pins held missing w) : Balanced sha256 known noPins held missing w :=
  { h with pinned := fun _ _ hpin => hpin.elim }

/-- An object is relied on. -/
theorem pin (h : Balanced sha256 known noPins (key ::ₘ held) missing w) (hrow : RowOf w key sha) :
    Balanced sha256 known (fun key' sha' => key' = key ∧ sha' = sha) (key ::ₘ held) missing w := by
  refine { h with pinned := ?_ }
  rintro _ _ ⟨rfl, rfl⟩
  exact ⟨Multiset.mem_cons_self _ _, hrow⟩

/-- An object without a row has neither references nor bytes. -/
theorem unknown (h : Balanced sha256 known pins held missing w) (hkey : ¬ HasRow w key) :
    fileRefs w.files.rows key = 0 ∧ held.count key = 0 ∧ w.store key = none := by
  have hzero : fileRefs w.files.rows key + held.count key = 0 := by
    by_contra hne
    exact hkey (h.kept key hne)
  refine ⟨by omega, by omega, ?_⟩
  by_contra hne
  exact hkey (h.bytes key hne)

/-- **An object is inserted**, whose bytes are to be stored. -/
theorem insertObject {size : ℕ} {mime : Text} (h : Balanced sha256 known pins held none w)
    (hsha : ∀ s ∈ w.objects.rows, s.sha256 ≠ sha) (hkey : ∀ s ∈ w.objects.rows, s.storageKey ≠ key) :
    Balanced sha256 known pins (key ::ₘ held) (some key)
      { w with objects := w.objects.insert ⟨sha, key, size, mime, 1⟩ hsha hkey } := by
  have hnew : ¬ HasRow w key := fun ⟨row, hrow, heq⟩ => hkey row hrow heq
  obtain ⟨hfiles, hheld, -⟩ := h.unknown hnew
  have hrow : ∀ {key'}, HasRow w key' →
      HasRow { w with objects := w.objects.insert ⟨sha, key, size, mime, 1⟩ hsha hkey } key' :=
    fun ⟨row, hrow, heq⟩ => ⟨row, List.mem_cons_of_mem _ hrow, heq⟩
  refine ⟨fun row hmem => ?_, fun row hmem => ?_, fun key' hne => ?_, fun key' hne => hrow (h.bytes key' hne),
    fun row hmem hne => ?_, fun file hfile => ?_, h.sizes, ?_, fun key' sha' hpin => ?_⟩
  · rcases List.mem_cons.1 hmem with rfl | hmem
    · rw [hfiles, Multiset.count_cons_self, hheld]
    · rw [Multiset.count_cons_of_ne (hkey row hmem)]
      exact h.counted row hmem
  · rcases List.mem_cons.1 hmem with rfl | hmem
    · exact Nat.one_ne_zero
    · exact h.live row hmem
  · by_cases heq : key' = key
    · exact ⟨_, List.mem_cons_self, heq.symm⟩
    · rw [Multiset.count_cons_of_ne heq] at hne
      exact hrow (h.kept key' hne)
  · rcases List.mem_cons.1 hmem with rfl | hmem
    · exact absurd rfl hne
    · exact h.content row hmem (by simp)
  · obtain ⟨row, hmem, heq⟩ := h.files file hfile
    exact ⟨row, List.mem_cons_of_mem _ hmem, heq⟩
  · rintro key' heq
    obtain rfl := Option.some.inj heq
    rw [hfiles, Multiset.count_cons_self, hheld]
  · obtain ⟨hmem, row, hrow, heq⟩ := h.pinned key' sha' hpin
    exact ⟨Multiset.mem_cons_of_mem hmem, row, List.mem_cons_of_mem _ hrow, heq⟩

/-- The refcount of one object follows what is held. -/
theorem setRefcount {row : ObjectRow} {p : ObjectRow → Bool} {f : ℕ → ℕ} (h : Balanced sha256 known pins held none w)
    (hrow : row ∈ w.objects.rows) (hp : ∀ s ∈ w.objects.rows, p s = true ↔ s.storageKey = row.storageKey)
    (hself : f row.refcount = fileRefs w.files.rows row.storageKey + held'.count row.storageKey)
    (hlive : f row.refcount ≠ 0) (hother : ∀ key, key ≠ row.storageKey → held'.count key = held.count key)
    (hpins : ∀ key sha, pins key sha → key ∈ held') :
    Balanced sha256 known pins held' none { w with objects := w.objects.setRefcount p f } := by
  have hcases : ∀ s ∈ w.objects.rows, p s = true ∧ s = row ∨ p s = false ∧ s.storageKey ≠ row.storageKey := by
    intro s hs
    cases hps : p s with
    | true => exact .inl ⟨rfl, w.objects.uniqueKey.eq hs hrow ((hp s hs).1 hps)⟩
    | false =>
      refine .inr ⟨rfl, fun heq => ?_⟩
      rw [(hp s hs).2 heq] at hps
      cases hps
  refine ⟨fun s' hs' => ?_, fun s' hs' => ?_, fun key hne => ?_, fun key hne => hasRow_setRefcount.2 (h.bytes key hne),
    fun s' hs' hne => ?_, fun file hfile => rowOf_setRefcount (h.files file hfile), h.sizes, nofun,
    fun key sha hpin => ⟨hpins key sha hpin, rowOf_setRefcount (h.pinned key sha hpin).2⟩⟩
  · obtain ⟨s, hs, hkey, -, hcount⟩ := mem_setRefcount hs'
    rw [hcount, hkey]
    rcases hcases s hs with ⟨hps, rfl⟩ | ⟨hps, hne⟩
    · rw [if_pos hps]
      exact hself
    · rw [hps, hother _ hne]
      exact h.counted s hs
  · obtain ⟨s, hs, -, -, hcount⟩ := mem_setRefcount hs'
    rw [hcount]
    rcases hcases s hs with ⟨hps, rfl⟩ | ⟨hps, hne⟩
    · rw [if_pos hps]
      exact hlive
    · rw [hps]
      exact h.live s hs
  · by_cases heq : key = row.storageKey
    · exact hasRow_setRefcount.2 ⟨row, hrow, heq.symm⟩
    · rw [hother key heq] at hne
      exact hasRow_setRefcount.2 (h.kept key hne)
  · obtain ⟨s, hs, hkey, hsha, -⟩ := mem_setRefcount hs'
    rw [hkey, hsha]
    exact h.content s hs (by simp)

/-- **Another reference** to an object. -/
theorem bumpObject {row : ObjectRow} (h : Balanced sha256 known pins held none w) (hrow : row ∈ w.objects.rows) :
    Balanced sha256 known pins (row.storageKey ::ₘ held) none
      { w with objects := w.objects.setRefcount (fun s => s.sha256 = row.sha256) (· + 1) } := by
  refine h.setRefcount hrow (fun s hs => ?_) ?_ (Nat.succ_ne_zero _) (fun key hne => Multiset.count_cons_of_ne hne _)
    fun key sha hpin => Multiset.mem_cons_of_mem (h.pinned key sha hpin).1
  · rw [decide_eq_true_eq]
    constructor
    · exact fun heq => congrArg ObjectRow.storageKey (w.objects.uniqueSha.eq hs hrow heq)
    · exact fun heq => congrArg ObjectRow.sha256 (w.objects.uniqueKey.eq hs hrow heq)
  · rw [Multiset.count_cons_self, h.counted row hrow, Nat.add_assoc]

/-- Something is done to the bytes of an object. -/
theorem sameBut {missing' : Option SafeKey} (h : Balanced sha256 known pins held missing w) (hsame : SameBut key w w')
    (hrow : HasRow w key) (hmissing : ∀ key', missing = some key' → key' = key)
    (hsole : ∀ key', missing' = some key' → missing = some key')
    (hcontent : some key ≠ missing' → ∀ sha, RowOf w key sha →
      ∃ bytes, known bytes ∧ w'.store key = some bytes ∧ sha256 bytes = sha) :
    Balanced sha256 known pins held missing' w' := by
  obtain ⟨used, objects, files, store⟩ := w
  obtain ⟨used', objects', files', store'⟩ := w'
  obtain ⟨rfl, rfl, rfl, hstore⟩ := hsame
  refine ⟨h.counted, h.live, h.kept, fun key' hne => ?_, fun s hs hne => ?_, h.files, h.sizes,
    fun key' heq => h.sole key' (hsole key' heq), h.pinned⟩
  · by_cases heq : key' = key
    · exact heq ▸ hrow
    · exact h.bytes key' (hstore key' heq ▸ hne)
  · by_cases heq : s.storageKey = key
    · rw [heq]
      exact hcontent (heq ▸ hne) _ ⟨s, hs, heq, rfl⟩
    · have hbytes := h.content s hs fun heq' => heq (hmissing _ heq'.symm)
      rwa [← hstore _ heq] at hbytes

/-- A key that is held has a row. -/
theorem hasRow (h : Balanced sha256 known pins (key ::ₘ held) missing w) : HasRow w key := by
  refine h.kept key ?_
  rw [Multiset.count_cons_self]
  exact Nat.succ_ne_zero _

/-- **The bytes are stored.** -/
theorem put {bytes : Bytes} (h : Balanced sha256 known pins (key ::ₘ held) (some key) w) (hknown : known bytes)
    (hrow : RowOf w key (sha256 bytes)) (hsame : SameBut key w w') (hstore : w'.store key = some bytes) :
    Balanced sha256 known pins (key ::ₘ held) none w' := by
  refine h.sameBut hsame h.hasRow (fun key' heq => (Option.some.inj heq).symm) nofun ?_
  rintro - sha ⟨s, hs, hskey, rfl⟩
  obtain ⟨row, hmem, hkey, hsha⟩ := hrow
  rw [w.objects.uniqueKey.eq hs hmem (hskey.trans hkey.symm)]
  exact ⟨bytes, hknown, hstore, hsha.symm⟩

/-- They are not. -/
theorem unstored (h : Balanced sha256 known pins (key ::ₘ held) (some key) w) (hsame : SameBut key w w') :
    Balanced sha256 known pins (key ::ₘ held) (some key) w' :=
  h.sameBut hsame h.hasRow (fun _ heq => (Option.some.inj heq).symm) (fun _ heq => heq) fun hne => absurd rfl hne

/-! ## References that are given back -/

/-- The rows that are left when one is deleted. -/
theorem mem_drop_delete {t : ObjectTable} {row : ObjectRow} :
    row ∈ ((t.drop key).delete fun row => row.storageKey = key).rows ↔ row ∈ t.rows ∧ row.storageKey ≠ key := by
  constructor
  · intro h
    obtain ⟨hrow, hne⟩ := mem_deleteWhere.1 h
    rcases mem_updateWhere.1 hrow with ⟨hrow, hne'⟩ | ⟨s, hs, hp, rfl⟩
    · exact ⟨hrow, of_decide_eq_false hne'⟩
    · exact absurd (of_decide_eq_true hp) (of_decide_eq_false hne)
  · rintro ⟨hrow, hne⟩
    exact mem_deleteWhere.2 ⟨mem_updateWhere.2 (.inl ⟨hrow, decide_eq_false hne⟩), decide_eq_false hne⟩

/-- **A reference is released**, and with the last one the object and its bytes. -/
theorem release (h : Balanced sha256 known pins (key ::ₘ held) missing w)
    (hmissing : ∀ key', missing = some key' → key' = key) (hpins : ∀ key sha, pins key sha → key ∈ held) :
    Balanced sha256 known pins held none (w.release key) := by
  obtain ⟨row, hrow, hkey⟩ := h.hasRow
  have hcounted := h.counted row hrow
  rw [hkey, Multiset.count_cons_self] at hcounted
  unfold World.release ObjectTable.release
  by_cases hlast : w.objects.Last key
  · obtain ⟨s, hs, hskey, hone⟩ := id hlast
    obtain rfl := w.objects.uniqueKey.eq hs hrow (hskey.trans hkey.symm)
    have hfiles : fileRefs w.files.rows key = 0 := by omega
    have hheld : held.count key = 0 := by omega
    have hother : ∀ key', key' ≠ key → Function.update w.store key none key' = w.store key' :=
      fun _ hne => Function.update_of_ne hne _ _
    simp only [if_pos hlast]
    refine ⟨fun s hs => ?_, fun s hs => h.live s (mem_drop_delete.1 hs).1, fun key' hne => ?_, fun key' hne => ?_,
      fun s hs _ => ?_, fun file hfile => ?_, h.sizes, nofun, fun key' sha hpin => ?_⟩
    · obtain ⟨hs, hne⟩ := mem_drop_delete.1 hs
      rw [h.counted s hs, Multiset.count_cons_of_ne hne]
    · have heq : key' ≠ key := by
        rintro rfl
        exact hne (by rw [hfiles, hheld])
      obtain ⟨s, hs, hskey⟩ := h.kept key' (by rwa [Multiset.count_cons_of_ne heq])
      exact ⟨s, mem_drop_delete.2 ⟨hs, hskey ▸ heq⟩, hskey⟩
    · have heq : key' ≠ key := by
        rintro rfl
        exact hne (Function.update_self _ _ _)
      obtain ⟨s, hs, hskey⟩ := h.bytes key' fun hnone => hne ((hother key' heq).trans hnone)
      exact ⟨s, mem_drop_delete.2 ⟨hs, hskey ▸ heq⟩, hskey⟩
    · obtain ⟨hs, hne⟩ := mem_drop_delete.1 hs
      obtain ⟨bytes, hknown, hstored, hdigest⟩ := h.content s hs fun heq => hne (hmissing _ heq.symm)
      exact ⟨bytes, hknown, (hother _ hne).trans hstored, hdigest⟩
    · obtain ⟨s, hs, hskey, hsha⟩ := h.files file hfile
      have hne : file.storageKey ≠ key := by
        intro heq
        have hpos : 0 < fileRefs w.files.rows file.storageKey := fileRefs_pos hfile List.mem_cons_self
        rw [heq, hfiles] at hpos
        exact absurd hpos (Nat.lt_irrefl 0)
      exact ⟨s, mem_drop_delete.2 ⟨hs, hskey ▸ hne⟩, hskey, hsha⟩
    · obtain ⟨-, s, hs, hskey, hsha⟩ := h.pinned key' sha hpin
      have hne : key' ≠ key := by
        rintro rfl
        exact Multiset.count_ne_zero.2 (hpins _ _ hpin) hheld
      exact ⟨hpins _ _ hpin, s, mem_drop_delete.2 ⟨hs, hskey ▸ hne⟩, hskey, hsha⟩
  · have hmany : row.refcount ≠ 1 := fun hone => hlast ⟨row, hrow, hkey, hone⟩
    -- an object whose bytes are missing has one reference
    have hnone : missing = none := by
      cases hm : missing with
      | none => rfl
      | some key' =>
        obtain rfl := hmissing key' hm
        have hsole := h.sole key' hm
        rw [Multiset.count_cons_self] at hsole
        omega
    subst hnone
    simp only [if_neg hlast]
    refine h.setRefcount hrow (fun s _ => ?_) ?_ ?_ (fun key' hne => ?_) hpins
    · rw [decide_eq_true_eq, hkey]
    · rw [hkey]
      omega
    · omega
    · exact (Multiset.count_cons_of_ne (hkey ▸ hne) _).symm

/-! ## Files -/

/-- The keys of a row, counted as what is held. -/
theorem count_coe (keys : List SafeKey) (key : SafeKey) : (keys : Multiset SafeKey).count key = keys.count key := by
  rw [Multiset.coe_count]
  unfold List.count
  exact List.countP_congr fun _ _ => by simp [Subtype.ext_iff]

/-- References move between rows of files and the request. -/
theorem trade {files : FileTable} (h : Balanced sha256 known noPins held none w)
    (hrefs : ∀ key, fileRefs files.rows key + held'.count key = fileRefs w.files.rows key + held.count key)
    (hfiles : ∀ file ∈ files.rows, RowOf w file.storageKey file.sha256 ∧
      ∀ bytes, known bytes → sha256 bytes = file.sha256 → bytes.length = file.sizeBytes) :
    Balanced sha256 known noPins held' none { w with files := files } where
  counted row hrow := (h.counted row hrow).trans (hrefs _).symm
  live := h.live
  kept key hne := h.kept key (hrefs key ▸ hne)
  bytes := h.bytes
  content := h.content
  files file hfile := (hfiles file hfile).1
  sizes file hfile := (hfiles file hfile).2
  sole := nofun
  pinned _ _ hpin := hpin.elim

/-- **A row is inserted**, with the references that are held for it. -/
theorem insertFile {row : FileRow} (h : Balanced sha256 known noPins ((row.keys : Multiset SafeKey) + held) none w)
    (hrow : RowOf w row.storageKey row.sha256)
    (hsize : ∀ bytes, known bytes → sha256 bytes = row.sha256 → bytes.length = row.sizeBytes)
    (hcore : ∀ s ∈ w.files.rows, s.idCore ≠ row.idCore) :
    Balanced sha256 known noPins held none { w with files := w.files.insert row hcore } := by
  refine h.trade (fun key => ?_) fun file hfile => ?_
  · have hinsert : fileRefs (w.files.insert row hcore).rows key = row.keys.count key + fileRefs w.files.rows key := by
      unfold fileRefs FileTable.insert
      rw [List.flatMap_cons, List.count_append]
    rw [hinsert, Multiset.count_add, count_coe]
    omega
  · rcases List.mem_cons.1 hfile with rfl | hfile
    · exact ⟨hrow, hsize⟩
    · exact ⟨h.files file hfile, h.sizes file hfile⟩

/-- **A row gets its thumbnail.** -/
theorem linkThumb {row : FileRow} (h : Balanced sha256 known noPins (key ::ₘ held) none w) (hrow : row ∈ w.files.rows)
    (hnone : row.thumbKey = none) :
    Balanced sha256 known noPins held none { w with files := w.files.linkThumb row.idCore key } := by
  refine h.trade (fun key' => ?_) fun file hfile => ?_
  · rw [fileRefs_linkThumb hrow hnone, Multiset.count_cons]
    omega
  · rcases mem_updateWhere.1 hfile with ⟨hfile, -⟩ | ⟨s, hs, -, rfl⟩
    · exact ⟨h.files file hfile, h.sizes file hfile⟩
    · exact ⟨h.files s hs, h.sizes s hs⟩

/-- **A row is deleted**, and its references are to be given back. -/
theorem deleteFile {row : FileRow} (h : Balanced sha256 known noPins held none w) (hrow : row ∈ w.files.rows) :
    Balanced sha256 known noPins ((row.keys : Multiset SafeKey) + held) none
      { w with files := w.files.delete fun s => s.idCore = row.idCore } := by
  refine h.trade (fun key => ?_) fun file hfile => ?_
  · rw [fileRefs_delete hrow, Multiset.count_add, count_coe]
    omega
  · have hmem := (mem_deleteWhere.1 hfile).1
    exact ⟨h.files file hmem, h.sizes file hmem⟩

end Balanced

end

/-! ## The handlers -/

/-- What one operation can do: all but what gives back references may fail. -/
def execSome (w : World) (op : DbOp) (r : op.Res) (w' : World) : Prop := exec (op.isRelease = false) w op r w'

/-- An operation that succeeds. -/
theorem eq_answer {w w' : World} {op : DbOp} {r : op.Res} (h : execSome w op r w') (hop : op.isRelease = true) :
    (r, w') = answer w op := h.resolve_right fun hfails => absurd (hfails.1.symm.trans hop) Bool.false_ne_true

/-- What gives back references succeeds. -/
theorem obeys_of_isRelease {α : Type} {p : Handler α} {fin : α → World → Prop} {w : World}
    (hp : p.Obeys (.flat (fun op => op.isRelease = true) fun _ _ => True) (fun _ _ => True) ())
    (h : fin (p.eval answer w).1 (p.eval answer w).2) : p.Obeys (.ofExec execSome) fin w := by
  induction p generalizing w with
  | ret a => exact h
  | call op k ih =>
    refine ⟨trivial, fun r w' hexec => ?_⟩
    obtain ⟨rfl, rfl⟩ := Prod.ext_iff.1 (eq_answer hexec hp.1)
    exact ih _ (hp.2 _ () trivial) h

section

variable {sha256 : Bytes → Digest} {known : Bytes → Prop} {pins : SafeKey → Digest → Prop}
  {held : Multiset SafeKey} {missing : Option SafeKey} {w : World} {key : SafeKey}

/-- A reference that is held can be released. -/
theorem Balanced.refcount (h : Balanced sha256 known pins (key ::ₘ held) missing w) :
    (∃ row ∈ w.objects.rows, row.storageKey = key ∧ row.refcount = 1) ∨
      ∃ row ∈ w.objects.rows, row.storageKey = key ∧ 2 ≤ row.refcount := by
  obtain ⟨row, hrow, hkey⟩ := h.hasRow
  have hlive := h.live row hrow
  by_cases hone : row.refcount = 1
  · exact .inl ⟨row, hrow, hkey, hone⟩
  · exact .inr ⟨row, hrow, hkey, by omega⟩

theorem eval_releaseAndDelete (h : Balanced sha256 known pins (key ::ₘ held) missing w) :
    (releaseAndDelete key).eval answer w = (.ok (), w.release key) := by
  unfold World.release ObjectTable.release
  rcases h.refcount with ⟨row, hrow, hkey, hone⟩ | ⟨row, hrow, hkey, hmany⟩
  · have hlast : w.objects.Last key := ⟨row, hrow, hkey, hone⟩
    rw [if_pos hlast, if_pos hlast]
    exact (Releases.last hrow hkey hone).eval
  · have hlast : ¬ w.objects.Last key := by
      rintro ⟨s, hs, hskey, hone⟩
      rw [w.objects.uniqueKey.eq hs hrow (hskey.trans hkey.symm)] at hone
      omega
    rw [if_neg hlast, if_neg hlast]
    exact (Releases.shared hrow hkey hmany).eval

theorem eval_rollbackObject (h : Balanced sha256 known pins (key ::ₘ held) missing w) :
    (rollbackObject key).eval answer w = ((), w.release key) := by
  have heval := eval_releaseAndDelete h
  unfold releaseAndDelete at heval
  unfold rollbackObject
  rw [Prog.eval_bind] at heval ⊢
  generalize (releaseObject key).eval answer w = result at heval ⊢
  obtain ⟨r, w'⟩ := result
  match r, heval with
  | .ok true, heval =>
    obtain ⟨-, hw⟩ := Prod.ext_iff.1 heval
    exact Prod.ext_iff.2 ⟨rfl, hw⟩
  | .ok false, heval =>
    obtain ⟨-, hw⟩ := Prod.ext_iff.1 heval
    exact Prod.ext_iff.2 ⟨rfl, hw⟩

theorem rollbackObject_isRelease (key : SafeKey) :
    (rollbackObject key).Obeys (.flat (fun op => op.isRelease = true) fun _ _ => True) (fun _ _ => True) () := by
  refine (Prog.obeys_bind _ _ _).2 ((releaseObject_isRelease key).mono ?_)
  rintro result _ -
  match result with
  | .ok true => exact ⟨rfl, fun _ _ _ => trivial⟩
  | .ok false => exact trivial
  | .error _ => exact trivial

/-- **A rollback** gives back one reference. -/
theorem balanced_rollbackObject (h : Balanced sha256 known pins (key ::ₘ held) missing w)
    (hmissing : ∀ key', missing = some key' → key' = key) (hpins : ∀ key sha, pins key sha → key ∈ held) :
    (rollbackObject key).Obeys (.ofExec execSome) (fun _ => Balanced sha256 known pins held none) w := by
  refine obeys_of_isRelease (rollbackObject_isRelease key) ?_
  rw [eval_rollbackObject h]
  exact h.release hmissing hpins

/-- What is released for good leaves the rows of files alone. -/
theorem balanced_releaseAndDelete (h : Balanced sha256 known noPins (key ::ₘ held) none w) :
    (releaseAndDelete key).Obeys (.ofExec execSome)
      (fun r w' => r = .ok () ∧ w'.files = w.files ∧ Balanced sha256 known noPins held none w') w := by
  refine obeys_of_isRelease (releaseAndDelete_isRelease key) ?_
  rw [eval_releaseAndDelete h]
  exact ⟨rfl, rfl, h.release nofun nofun⟩

/-- **An acquisition** leads to a reference, to an object whose bytes are there or are to be stored. -/
theorem balanced_acquireObject (h : Balanced sha256 known pins held none w) (sha : Digest) (key : SafeKey) (size : ℕ)
    (mime : Text) : (acquireObject sha key size mime).Obeys (.ofExec execSome)
      (fun r w' => match r with
        | .ok (key', isNew) =>
          Balanced sha256 known pins (key' ::ₘ held) (if isNew then some key' else none) w' ∧ RowOf w' key' sha
        | .error _ => Balanced sha256 known pins held none w') w := by
  unfold acquireObject
  refine ⟨trivial, fun r w' hexec => ?_⟩
  rcases exec_insertObject hexec with ⟨hsha, hkey, rfl, rfl⟩ | ⟨rfl, rfl⟩ | ⟨e, rfl, rfl⟩
  · exact ⟨h.insertObject hsha hkey, _, List.mem_cons_self, rfl, rfl⟩
  · refine ⟨trivial, fun r w'' hexec => ?_⟩
    rcases exec_bumpObject hexec with ⟨row, hrow, rfl, rfl, rfl⟩ | ⟨e, rfl, rfl⟩
    · exact ⟨h.bumpObject hrow, rowOf_setRefcount ⟨row, hrow, rfl, rfl⟩⟩
    · exact h
  · exact h

/-- What stores the bytes of an object. -/
theorem balanced_put {bytes : Bytes} (h : Balanced sha256 known pins (key ::ₘ held) (some key) w)
    (hknown : known bytes) (hrow : RowOf w key (sha256 bytes)) {r : (DbOp.put key bytes).Res} {w' : World}
    (hexec : execSome w (.put key bytes) r w') : RowOf w' key (sha256 bytes) ∧
      (r = .ok () ∧ Balanced sha256 known pins (key ::ₘ held) none w' ∨
        (∃ e, r = .error e) ∧ Balanced sha256 known pins (key ::ₘ held) (some key) w') := by
  obtain ⟨hsame, hr⟩ := exec_put hexec
  refine ⟨by unfold RowOf; rw [hsame.objects]; exact hrow, ?_⟩
  rcases hr with ⟨hok, hstore⟩ | ⟨-, herror⟩
  · exact .inl ⟨hok, h.put hknown hrow hsame hstore⟩
  · exact .inr ⟨herror, h.unstored hsame⟩

/-- **A thumbnail is stored**, or nothing happens. -/
theorem balanced_storeThumbnail (h : Balanced sha256 known pins held none w) (core : Core) {jpeg : Content}
    (hknown : known jpeg.bytes) : (storeThumbnail sha256 core jpeg).Obeys (.ofExec execSome)
      (fun r w' => match r with
        | some key => Balanced sha256 known pins (key ::ₘ held) none w'
        | none => Balanced sha256 known pins held none w') w := by
  unfold storeThumbnail
  refine (Prog.obeys_bind _ _ _).2 ((balanced_acquireObject h _ _ _ _).mono ?_)
  intro r w' hr
  match r, hr with
  | .error _, hr => exact hr
  | .ok (key, false), hr => exact hr.1
  | .ok (key, true), hr =>
    refine ⟨trivial, fun r w'' hexec => ?_⟩
    rcases (balanced_put hr.1 hknown hr.2 hexec).2 with ⟨rfl, hput⟩ | ⟨⟨e, rfl⟩, hput⟩
    · exact hput
    · have hback := balanced_rollbackObject hput (fun _ heq => (Option.some.inj heq).symm)
        fun key sha hpin => (h.pinned key sha hpin).1
      show (rollbackThumbnail key >>= fun _ => pure none).Obeys (.ofExec execSome) _ w''
      exact (Prog.obeys_bind _ _ _).2 (hback.mono fun _ _ hdone => hdone)

/-- The thumbnail of an upload is held for its row. -/
theorem balanced_uploadThumbnail (h : Balanced sha256 known pins held none w) {u : Upload} (core : Core)
    (hknown : ∀ bytes ∈ u.contents, known bytes) : (uploadThumbnail sha256 u core).Obeys (.ofExec execSome)
      (fun r w' => Balanced sha256 known pins ((r.toList : Multiset SafeKey) + held) none w') w := by
  have hnone : Balanced sha256 known pins (((none : Option SafeKey).toList : Multiset SafeKey) + held) none w := by
    rwa [Option.toList_none, Multiset.coe_nil, zero_add]
  unfold uploadThumbnail
  split
  · split
    · rename_i jpeg hframe
      have hjpeg : jpeg.bytes ∈ u.contents := by
        rw [Upload.contents, hframe]
        exact List.mem_cons_of_mem _ List.mem_cons_self
      refine (balanced_storeThumbnail h core (hknown _ hjpeg)).mono fun r w' hr => ?_
      match r, hr with
      | some key, hr => exact hr
      | none, hr => rwa [Option.toList_none, Multiset.coe_nil, zero_add]
    · exact hnone
  · exact hnone

/-- **The end of an upload**: the row takes over what is held for it, or everything is given back. -/
theorem balanced_publish {u : Upload} {core : Core} (h : Balanced sha256 known noPins (key ::ₘ held) none w)
    (hrow : RowOf w key (sha256 u.content.bytes)) (hknown : ∀ bytes ∈ u.contents, known bytes)
    (hinj : Set.InjOn sha256 {bytes | known bytes}) : (publish sha256 u core key).Obeys (.ofExec execSome)
      (fun _ => Balanced sha256 known noPins held none) w := by
  unfold publish
  refine (Prog.obeys_bind _ _ _).2 ((balanced_uploadThumbnail (h.pin hrow) core hknown).mono ?_)
  intro thumb w' hthumb
  have hrow' := (hthumb.pinned key _ ⟨rfl, rfl⟩).2
  have hheld : Balanced sha256 known noPins (key ::ₘ ((thumb.toList : Multiset SafeKey) + held)) none w' := by
    rw [← Multiset.add_cons]
    exact hthumb.unpin
  refine ⟨trivial, fun r w'' hexec => ?_⟩
  rcases exec_insertFile hexec with ⟨hcore, rfl, rfl⟩ | ⟨e, rfl, rfl⟩
  · rw [← Multiset.cons_add] at hheld
    refine Balanced.insertFile hheld hrow' (fun bytes hbytes heq => ?_) hcore
    rw [hinj hbytes (hknown _ List.mem_cons_self) heq]
    rfl
  · show (rollbackObject key >>= fun _ => _).Obeys (.ofExec execSome) _ w''
    refine (Prog.obeys_bind _ _ _).2 ((balanced_rollbackObject hheld nofun nofun).mono ?_)
    intro _ w₁ hback
    match thumb, hback with
    | none, hback =>
      rwa [Option.toList_none, Multiset.coe_nil, zero_add] at hback
    | some thumbKey, hback =>
      rw [Option.toList_some, Multiset.coe_singleton, Multiset.singleton_add] at hback
      refine (Prog.obeys_bind _ _ _).2 ((balanced_rollbackObject hback nofun nofun).mono ?_)
      exact fun _ _ hdone => hdone

/-- A claim leaves the accounts alone. -/
theorem balanced_claimCore (h : Balanced sha256 known pins held missing w) (draws : List Core) :
    (claimCore draws).Obeys (.ofExec execSome) (fun _ => Balanced sha256 known pins held missing) w := by
  induction draws generalizing w with
  | nil => exact h
  | cons candidate rest ih =>
    refine ⟨trivial, fun r w' hexec => ?_⟩
    have hclaimed : Balanced sha256 known pins held missing w' := by
      rcases exec_claimCore hexec with ⟨-, -, rfl⟩ | ⟨-, rfl⟩
      · exact h.claim _
      · exact h
    match r with
    | .error e => exact hclaimed
    | .ok true => exact hclaimed
    | .ok false => exact ih hclaimed

/-- **An upload** keeps the accounts balanced, however it ends. -/
theorem balanced_uploadInner {u : Upload} (h : Balanced sha256 known noPins held none w)
    (hknown : ∀ bytes ∈ u.contents, known bytes) (hinj : Set.InjOn sha256 {bytes | known bytes}) :
    (uploadInner sha256 u).Obeys (.ofExec execSome) (fun _ => Balanced sha256 known noPins held none) w := by
  unfold uploadInner
  refine (Prog.obeys_bind _ _ _).2 ((balanced_claimCore h _).mono fun r w₁ hclaimed => ?_)
  match r with
  | .error e => exact hclaimed
  | .ok none => exact hclaimed
  | .ok (some core) =>
    refine (Prog.obeys_bind _ _ _).2 ((balanced_acquireObject hclaimed _ _ _ _).mono fun r w₂ hr => ?_)
    match r, hr with
    | .error e, hr => exact hr
    | .ok (key, false), hr => exact balanced_publish hr.1 hr.2 hknown hinj
    | .ok (key, true), hr =>
      refine ⟨trivial, fun r w₃ hexec => ?_⟩
      obtain ⟨hrow, hput⟩ := balanced_put hr.1 (hknown _ List.mem_cons_self) hr.2 hexec
      rcases hput with ⟨rfl, hput⟩ | ⟨⟨e, rfl⟩, hput⟩
      · exact balanced_publish hput hrow hknown hinj
      · have hback := balanced_rollbackObject hput (fun _ heq => (Option.some.inj heq).symm) nofun
        show (rollbackObject key >>= fun _ => pure _).Obeys (.ofExec execSome) _ w₃
        exact (Prog.obeys_bind _ _ _).2 (hback.mono fun _ _ hdone => hdone)

/-- What a deleted row referred to is given back. -/
theorem balanced_releaseRow {storageKey : SafeKey} {thumbKey : Option SafeKey}
    (h : Balanced sha256 known noPins (storageKey ::ₘ ((thumbKey.toList : Multiset SafeKey) + held)) none w) :
    (releaseRow storageKey thumbKey).Obeys (.ofExec execSome)
      (fun _ w' => w'.files = w.files ∧ Balanced sha256 known noPins held none w') w := by
  unfold releaseRow
  refine (Prog.obeys_bind _ _ _).2 ((balanced_releaseAndDelete h).mono ?_)
  rintro _ w₁ ⟨rfl, hfiles, hfirst⟩
  match thumbKey, hfirst with
  | none, hfirst =>
    rw [Option.toList_none, Multiset.coe_nil, zero_add] at hfirst
    exact ⟨hfiles, hfirst⟩
  | some thumbKey, hfirst =>
    rw [Option.toList_some, Multiset.coe_singleton, Multiset.singleton_add] at hfirst
    refine (Prog.obeys_bind _ _ _).2 ((balanced_releaseAndDelete hfirst).mono ?_)
    rintro _ w₂ ⟨rfl, hfiles', hsecond⟩
    exact ⟨hfiles'.trans hfiles, hsecond⟩

/-- **A removal** keeps the accounts balanced, and leaves the other rows of files alone. -/
theorem balanced_removeFile (h : Balanced sha256 known noPins held none w) (core : Core) :
    (removeFile core).Obeys (.ofExec execSome) (fun _ w' => Balanced sha256 known noPins held none w' ∧
      ∀ file ∈ w.files.rows, file.idCore ≠ core → file ∈ w'.files.rows) w := by
  rw [removeFile_eq]
  refine ⟨trivial, fun r w₁ hexec => ?_⟩
  rcases exec_deleteFile hexec with ⟨row, hrow, rfl, rfl, rfl⟩ | ⟨hnone, rfl⟩
  · have hdeleted := h.deleteFile hrow
    have hheld : ((row.keys : Multiset SafeKey) + held) =
        row.storageKey ::ₘ ((row.thumbKey.toList : Multiset SafeKey) + held) := by
      rw [← Multiset.cons_add]
      rfl
    rw [hheld] at hdeleted
    refine (balanced_releaseRow hdeleted).mono ?_
    rintro _ w₂ ⟨hfiles, hbalanced⟩
    refine ⟨hbalanced, fun file hfile hne => ?_⟩
    rw [hfiles]
    exact mem_deleteWhere.2 ⟨hfile, decide_eq_false hne⟩
  · match r with
    | .error e => exact ⟨h, fun file hfile _ => hfile⟩
    | .ok none => exact ⟨h, fun file hfile _ => hfile⟩
    | .ok (some keys) => exact absurd rfl (hnone keys)

end

end Dedupe
end Uwuubox
