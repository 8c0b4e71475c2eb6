import Uwuubox.Dedupe.Database

/-!
# The books of the reference count

What the requests in progress owe and own, as a multiset of tokens, and the invariant that
ties them to the tables.

* `Token` — a candidate key, a counted reference, a key whose row may be deleted, a key
  whose bytes may be deleted, a published file.
* `refs` — the references to a key: by rows of `files`, and held by requests.
* `Books` — **the invariant**: references are covered by refcounts, a candidate key is
  nobody else's, and a key whose bytes may be deleted has no row.
* `Books.claimCore` .. `Books.deleteFile` — what each statement does to the books.  Only
  `Books.deleteObject` asks for something the statement does not check: that the
  refcount is still zero.
-/

namespace Uwuubox
namespace Dedupe

open Storage Table

/-- How a request holds a counted reference. -/
inductive Grip where
  /-- Nothing is known of the object. -/
  | bare
  /-- The request inserted the row, and has yet to store the bytes. -/
  | fresh (sha256 : Digest)
  /-- The bytes are stored. -/
  | landed (sha256 : Digest)
deriving DecidableEq

/-- What a request can own. -/
inductive Token where
  /-- The right to insert a row with this key. -/
  | cand (key : SafeKey)
  /-- A counted reference. -/
  | held (key : SafeKey) (grip : Grip)
  /-- The refcount of this key went to zero: the row may be deleted. -/
  | spent (key : SafeKey)
  /-- The row of this key has been deleted: its bytes may be. -/
  | dead (key : SafeKey)
  /-- The row of this core has been inserted. -/
  | done (core : Core) (sha256 : Digest)
deriving DecidableEq

/-- What one request owns. -/
abbrev Share := Multiset Token

@[simp] def Token.isHeld (key : SafeKey) : Token → Bool
  | .held key' _ => key' = key
  | _ => false

/-- How often a share holds a reference to `key`. -/
def heldCount (g : Share) (key : SafeKey) : ℕ := g.countP fun t => t.isHeld key = true

@[simp] theorem heldCount_zero (key : SafeKey) : heldCount 0 key = 0 := Multiset.countP_zero _

@[simp] theorem heldCount_add (g f : Share) (key : SafeKey) :
    heldCount (g + f) key = heldCount g key + heldCount f key := Multiset.countP_add _ _ _

@[simp] theorem heldCount_cons (t : Token) (g : Share) (key : SafeKey) :
    heldCount (t ::ₘ g) key = heldCount g key + if t.isHeld key then 1 else 0 :=
  Multiset.countP_cons _ _ _

@[simp] theorem heldCount_singleton (t : Token) (key : SafeKey) :
    heldCount {t} key = if t.isHeld key then 1 else 0 := by
  rw [← Multiset.cons_zero, heldCount_cons, heldCount_zero, Nat.zero_add]

/-! ## The invariant -/

/-- The references to `key` in the table of files. -/
def fileRefs (files : List FileRow) (key : SafeKey) : ℕ := (files.flatMap FileRow.keys).count key

/-- The references of the row that is deleted, and the others. -/
theorem fileRefs_delete {files : FileTable} {row : FileRow} (hrow : row ∈ files.rows) (key : SafeKey) :
    fileRefs files.rows key =
      row.keys.count key + fileRefs (files.delete fun s => s.idCore = row.idCore).rows key := by
  unfold fileRefs
  have hperm := files.uniqueCore.perm_deleteWhere hrow rfl
  rw [(hperm.flatMap_right FileRow.keys).count_eq, List.flatMap_cons, List.count_append]
  rfl

theorem fileRefs_pos {files : List FileRow} {row : FileRow} {key : SafeKey} (hrow : row ∈ files)
    (hkey : key ∈ row.keys) : 0 < fileRefs files key :=
  List.count_pos_iff.2 (List.mem_flatMap.2 ⟨row, hrow, hkey⟩)

/-- All references to `key`. -/
def refs (w : World) (g : Share) (key : SafeKey) : ℕ := fileRefs w.files.rows key + heldCount g key

/-- There is an object with this key. -/
def HasRow (w : World) (key : SafeKey) : Prop := ∃ row ∈ w.objects.rows, row.storageKey = key

/-- Every reference is counted. -/
def Counted (w : World) (g : Share) : Prop := ∀ key, refs w g key ≠ 0 →
  ∃ row ∈ w.objects.rows, row.storageKey = key ∧ refs w g key ≤ row.refcount

/-- A row with this key has been inserted. -/
def Spent (w : World) (g : Share) (key : SafeKey) : Prop :=
  HasRow w key ∨ .spent key ∈ g ∨ .dead key ∈ g

/-- The core of this key has been claimed. -/
def Issued (used : List Core) (key : SafeKey) : Prop := ∀ core, Names core key → core ∈ used

/-- The invariant: `g` is what all requests own together. -/
structure Books (w : World) (g : Share) : Prop where
  counted : Counted w g
  once : ∀ key, g.count (.cand key) ≤ 1
  unspent : ∀ key, .cand key ∈ g → ¬ Spent w g key
  issued : ∀ key, .cand key ∈ g ∨ Spent w g key → Issued w.usedIdCores key
  gone : ∀ key, .dead key ∈ g → ¬ HasRow w key

section

variable {w w' : World} {g f : Share} {key : SafeKey}

theorem Issued.mono {used used' : List Core} (h : Issued used key) (hsub : used ⊆ used') :
    Issued used' key := fun core hcore => hsub (h core hcore)

theorem Counted.eq_zero (h : Counted w g) (hrow : ¬ HasRow w key) : refs w g key = 0 := by
  by_contra hne
  obtain ⟨row, hmem, hkey, -⟩ := h key hne
  exact hrow ⟨row, hmem, hkey⟩

theorem refs_ne_zero_of_held {grip : Grip} (h : .held key grip ∈ g) : refs w g key ≠ 0 := by
  have hpos : 0 < heldCount g key := Multiset.countP_pos_of_mem h (decide_eq_true rfl)
  unfold refs
  omega

theorem refs_ne_zero_of_file {file : FileRow} (h : file ∈ w.files.rows) :
    refs w g file.storageKey ≠ 0 := by
  have hpos := fileRefs_pos h (List.mem_cons_self : file.storageKey ∈ file.keys)
  unfold refs
  omega

theorem hasRow_iff_mem : HasRow w key ↔ key ∈ w.objects.rows.map ObjectRow.storageKey :=
  List.mem_map.symm

/-- Setting refcounts does not change which keys there are. -/
theorem hasRow_setRefcount {p : ObjectRow → Bool} {set : ℕ → ℕ} :
    HasRow { w with objects := w.objects.setRefcount p set } key ↔ HasRow w key := by
  rw [hasRow_iff_mem, hasRow_iff_mem]
  exact iff_of_eq (congrArg (key ∈ ·) (map_updateWhere fun _ => rfl))

theorem hasRow_delete {key' : SafeKey} :
    HasRow { w with objects := w.objects.delete fun row => row.storageKey = key } key' ↔
      HasRow w key' ∧ key' ≠ key := by
  constructor
  · rintro ⟨row, hrow, rfl⟩
    obtain ⟨hmem, hne⟩ := mem_deleteWhere.1 hrow
    exact ⟨⟨row, hmem, rfl⟩, of_decide_eq_false hne⟩
  · rintro ⟨⟨row, hmem, rfl⟩, hne⟩
    exact ⟨row, mem_deleteWhere.2 ⟨hmem, decide_eq_false hne⟩, rfl⟩

namespace Books

/-- What a step has to show that claims no core: the references are still counted, no new
candidates, and a key is spent that was not only if its candidate was given up. -/
theorem frame {g' : Share} (h : Books w g) (hused : w'.usedIdCores = w.usedIdCores)
    (hcounted : Counted w' g') (hcand : ∀ key, g'.count (.cand key) ≤ g.count (.cand key))
    (hspent : ∀ key, Spent w' g' key → Spent w g key ∨ .cand key ∈ g ∧ .cand key ∉ g')
    (hgone : ∀ key, .dead key ∈ g' → ¬ HasRow w' key) : Books w' g' where
  counted := hcounted
  once key := (hcand key).trans (h.once key)
  unspent key hmem hs := by
    have hmem' : .cand key ∈ g :=
      Multiset.count_pos.1 ((Multiset.count_pos.2 hmem).trans_le (hcand key))
    rcases hspent key hs with hs | ⟨-, hno⟩
    · exact h.unspent key hmem' hs
    · exact hno hmem
  issued key hor := by
    rw [hused]
    rcases hor with hmem | hs
    · exact h.issued key (.inl (Multiset.count_pos.1 ((Multiset.count_pos.2 hmem).trans_le (hcand key))))
    · rcases hspent key hs with hs | ⟨hmem, -⟩
      · exact h.issued key (.inr hs)
      · exact h.issued key (.inl hmem)
  gone := hgone

/-- Tokens may be thrown away. -/
theorem mono {g' : Share} (h : Books w g) (hle : g' ≤ g) : Books w g' := by
  refine h.frame rfl ?_ (fun key => Multiset.count_le_of_le _ hle) ?_ ?_
  · intro key hne
    have hheld : refs w g' key ≤ refs w g key :=
      Nat.add_le_add_left (Multiset.countP_le_of_le _ hle) _
    obtain ⟨row, hmem, hkey, hle'⟩ := h.counted key (by omega)
    exact ⟨row, hmem, hkey, hheld.trans hle'⟩
  · rintro key (hrow | hmem | hmem)
    · exact .inl (.inl hrow)
    · exact .inl (.inr (.inl (Multiset.mem_of_le hle hmem)))
    · exact .inl (.inr (.inr (Multiset.mem_of_le hle hmem)))
  · exact fun key hmem => h.gone key (Multiset.mem_of_le hle hmem)

/-- The share of one request may be thrown away. -/
theorem drop (h : Books w (g + f)) : Books w f := h.mono (Multiset.le_add_left f g)

/-- The books do not look into the store. -/
theorem sameBut (h : Books w g) (hsame : SameBut key w w') : Books w' g := by
  obtain ⟨used, objects, files, store⟩ := w
  obtain ⟨used', objects', files', store'⟩ := w'
  obtain ⟨rfl, rfl, rfl, -⟩ := hsame
  exact ⟨h.counted, h.once, h.unspent, h.issued, h.gone⟩

/-- What is known of a reference may change. -/
theorem regrip {grip : Grip} (h : Books w ({.held key grip} + f)) (grip' : Grip) :
    Books w ({.held key grip'} + f) := by
  have hrefs : ∀ key', refs w ({.held key grip'} + f) key' = refs w ({.held key grip} + f) key' := by
    intro key'
    simp [refs]
  refine h.frame rfl ?_ (fun key' => by simp) ?_ ?_
  · intro key' hne
    rw [hrefs] at hne ⊢
    exact h.counted key' hne
  · rintro key' (hs | hmem | hmem)
    · exact .inl (.inl hs)
    · exact .inl (.inr (.inl (by simpa using hmem)))
    · exact .inl (.inr (.inr (by simpa using hmem)))
  · intro key' hmem
    exact h.gone key' (by simpa using hmem)

/-! ## Statement by statement -/

/-- A new core brings its two keys as candidates. -/
theorem claimCore {core : Core} (h : Books w f) (hnew : core ∉ w.usedIdCores) (ext : Ext) :
    Books { w with usedIdCores := core :: w.usedIdCores }
      ({.cand (fileKey core ext)} + {.cand (thumbKey core)} + f) := by
  have hkeys := fileKey_ne_thumbKey core core ext
  have hnames : ∀ key, .cand key ∈ ({.cand (fileKey core ext)} + {.cand (thumbKey core)} : Share) →
      Names core key := by
    intro key hmem
    rw [Multiset.mem_add, Multiset.mem_singleton, Multiset.mem_singleton] at hmem
    rcases hmem with heq | heq <;> cases heq
    · exact names_fileKey core ext
    · exact names_thumbKey core
  have hfresh : ∀ key, Names core key → .cand key ∉ f ∧ ¬ Spent w f key := fun key hkey =>
    ⟨fun hmem => hnew (h.issued key (.inl hmem) core hkey),
      fun hs => hnew (h.issued key (.inr hs) core hkey)⟩
  have hspent : ∀ key, Spent { w with usedIdCores := core :: w.usedIdCores }
      ({.cand (fileKey core ext)} + {.cand (thumbKey core)} + f) key ↔ Spent w f key := by
    intro key
    simp [Spent, HasRow]
  refine ⟨?_, ?_, ?_, ?_, ?_⟩
  · intro key
    have hrefs : refs { w with usedIdCores := core :: w.usedIdCores }
        ({.cand (fileKey core ext)} + {.cand (thumbKey core)} + f) key = refs w f key := by
      simp [refs]
    rw [hrefs]
    exact h.counted key
  · intro key
    rw [Multiset.count_add, Multiset.count_add, Multiset.count_singleton, Multiset.count_singleton]
    by_cases hkey : Names core key
    · rw [Multiset.count_eq_zero.2 (hfresh key hkey).1]
      split <;> split <;> simp_all
    · rw [if_neg, if_neg]
      · simpa using h.once key
      · intro heq
        cases heq
        exact hkey (names_thumbKey core)
      · intro heq
        cases heq
        exact hkey (names_fileKey core ext)
  · intro key hmem hs
    rw [hspent] at hs
    rcases Multiset.mem_add.1 hmem with hmem | hmem
    · exact (hfresh key (hnames key hmem)).2 hs
    · exact h.unspent key hmem hs
  · intro key hor
    rw [hspent] at hor
    rcases hor with hmem | hs
    · rcases Multiset.mem_add.1 hmem with hmem | hmem
      · intro core' hcore'
        rw [Names.core_eq hcore' (hnames key hmem)]
        exact List.mem_cons_self
      · exact (h.issued key (.inl hmem)).mono (List.subset_cons_self _ _)
    · exact (h.issued key (.inr hs)).mono (List.subset_cons_self _ _)
  · intro key hmem
    refine h.gone key ?_
    simpa using hmem

/-- An insertion turns the candidate into a reference. -/
theorem insertObject {row : ObjectRow} (h : Books w ({.cand row.storageKey} + f))
    (hsha : ∀ s ∈ w.objects.rows, s.sha256 ≠ row.sha256)
    (hkey : ∀ s ∈ w.objects.rows, s.storageKey ≠ row.storageKey) (hone : row.refcount = 1)
    (grip : Grip) :
    Books { w with objects := w.objects.insert row hsha hkey } ({.held row.storageKey grip} + f) := by
  have hnorow : ¬ HasRow w row.storageKey := fun ⟨s, hs, heq⟩ => hkey s hs heq
  have hcandf : .cand row.storageKey ∉ f := by
    have honce := h.once row.storageKey
    rw [Multiset.count_add, Multiset.count_singleton_self] at honce
    exact Multiset.count_eq_zero.1 (by omega)
  have hold : ∀ key, refs { w with objects := w.objects.insert row hsha hkey }
      ({.held row.storageKey grip} + f) key =
      refs w ({.cand row.storageKey} + f) key + if row.storageKey = key then 1 else 0 := by
    intro key
    simp [refs, Nat.add_assoc]
  refine h.frame rfl ?_ ?_ ?_ ?_
  · intro key hne
    rw [hold] at hne ⊢
    by_cases heq : row.storageKey = key
    · subst heq
      refine ⟨row, List.mem_cons_self, rfl, ?_⟩
      rw [h.counted.eq_zero hnorow, if_pos rfl, hone]
    · rw [if_neg heq] at hne ⊢
      obtain ⟨s, hs, hskey, hle⟩ := h.counted key hne
      exact ⟨s, List.mem_cons_of_mem _ hs, hskey, hle⟩
  · intro key
    simp [Multiset.count_cons]
  · rintro key (⟨s, hs, rfl⟩ | hmem | hmem)
    · rcases List.mem_cons.1 hs with rfl | hs
      · exact .inr ⟨by simp, by simpa using hcandf⟩
      · exact .inl (.inl ⟨s, hs, rfl⟩)
    · exact .inl (.inr (.inl (by simpa using hmem)))
    · exact .inl (.inr (.inr (by simpa using hmem)))
  · rintro key hmem ⟨s, hs, rfl⟩
    have hdead : .dead s.storageKey ∈ f := by simpa using hmem
    rcases List.mem_cons.1 hs with rfl | hs
    · exact h.unspent s.storageKey (Multiset.mem_add.2 (.inl (Multiset.mem_singleton_self _)))
        (.inr (.inr (Multiset.mem_add.2 (.inr hdead))))
    · exact h.gone s.storageKey (Multiset.mem_add.2 (.inr hdead)) ⟨s, hs, rfl⟩

/-- Where the references to one key change together with its refcount. -/
theorem counted_setRefcount {g' : Share} {row : ObjectRow} {p : ObjectRow → Bool} {set : ℕ → ℕ}
    (h : Counted w g) (hrow : row ∈ w.objects.rows)
    (hp : ∀ s ∈ w.objects.rows, p s = true ↔ s = row)
    (hself : refs w g' row.storageKey ≤ set row.refcount)
    (hother : ∀ key, key ≠ row.storageKey → refs w g' key = refs w g key) :
    Counted { w with objects := w.objects.setRefcount p set } g' := by
  intro key hne
  by_cases heq : key = row.storageKey
  · subst heq
    exact ⟨{ row with refcount := set row.refcount },
      mem_updateWhere.2 (.inr ⟨row, hrow, (hp row hrow).2 rfl, rfl⟩), rfl, hself⟩
  · change refs w g' key ≠ 0 at hne
    rw [hother key heq] at hne
    obtain ⟨s, hs, rfl, hle⟩ := h key hne
    refine ⟨s, mem_updateWhere.2 (.inl ⟨hs, ?_⟩), rfl, ?_⟩
    · rw [Bool.eq_false_iff, Ne, hp s hs]
      rintro rfl
      exact heq rfl
    · show refs w g' s.storageKey ≤ s.refcount
      rw [hother _ heq]
      exact hle

/-- Deduplication: one more reference, counted. -/
theorem bumpObject {row : ObjectRow} (h : Books w f) (hrow : row ∈ w.objects.rows) (grip : Grip) :
    Books { w with objects := w.objects.setRefcount (fun s => s.sha256 = row.sha256) (· + 1) }
      ({.held row.storageKey grip} + f) := by
  refine h.frame rfl (counted_setRefcount h.counted hrow ?_ ?_ ?_) ?_ ?_ ?_
  · intro s hs
    rw [decide_eq_true_eq]
    exact ⟨w.objects.uniqueSha.eq hs hrow, fun heq => heq ▸ rfl⟩
  · have hle : refs w f row.storageKey ≤ row.refcount := by
      by_cases hzero : refs w f row.storageKey = 0
      · omega
      · obtain ⟨s, hs, hkey, hle⟩ := h.counted _ hzero
        rwa [w.objects.uniqueKey.eq hs hrow hkey] at hle
    have : refs w ({.held row.storageKey grip} + f) row.storageKey = refs w f row.storageKey + 1 := by
      simp [refs, Nat.add_assoc]
    omega
  · intro key hne
    simp [refs, Ne.symm hne]
  · intro key
    simp
  · rintro key (hs | hmem | hmem)
    · exact .inl (.inl (hasRow_setRefcount.1 hs))
    · exact .inl (.inr (.inl (by simpa using hmem)))
    · exact .inl (.inr (.inr (by simpa using hmem)))
  · intro key hmem hs
    exact h.gone key (by simpa using hmem) (hasRow_setRefcount.1 hs)

/-- A reference that is held has a row, and is counted there. -/
theorem held {grip : Grip} (h : Books w ({.held key grip} + f)) :
    ∃ row ∈ w.objects.rows, row.storageKey = key ∧ row.refcount ≠ 0 := by
  have hpos : refs w ({.held key grip} + f) key ≠ 0 :=
    refs_ne_zero_of_held (Multiset.mem_add.2 (.inl (Multiset.mem_singleton_self _)))
  obtain ⟨row, hrow, hkey, hle⟩ := h.counted key hpos
  exact ⟨row, hrow, hkey, by omega⟩

/-- A reference is given back. -/
theorem dropObject {grip : Grip} (h : Books w ({.held key grip} + f)) :
    Books { w with objects := w.objects.setRefcount (fun s => s.storageKey = key) (· - 1) }
      ({.spent key} + f) := by
  obtain ⟨row, hrow, hkey, -⟩ := h.held
  have hhas : HasRow w key := ⟨row, hrow, hkey⟩
  subst hkey
  refine h.frame rfl (counted_setRefcount h.counted hrow ?_ ?_ ?_) ?_ ?_ ?_
  · intro s hs
    rw [decide_eq_true_eq]
    exact ⟨w.objects.uniqueKey.eq hs hrow, fun heq => heq ▸ rfl⟩
  · have hold : refs w ({.held row.storageKey grip} + f) row.storageKey =
        refs w ({.spent row.storageKey} + f) row.storageKey + 1 := by
      simp [refs, Nat.add_assoc]
    obtain ⟨s, hs, hskey, hle⟩ := h.counted row.storageKey (by omega)
    rw [w.objects.uniqueKey.eq hs hrow hskey] at hle
    omega
  · intro key hne
    simp [refs, Ne.symm hne]
  · intro key
    simp
  · rintro key' (hs | hmem | hmem)
    · exact .inl (.inl (hasRow_setRefcount.1 hs))
    · rcases Multiset.mem_add.1 hmem with hmem | hmem
      · cases Multiset.mem_singleton.1 hmem
        exact .inl (.inl hhas)
      · exact .inl (.inr (.inl (by simp [hmem])))
    · exact .inl (.inr (.inr (by simpa using hmem)))
  · intro key' hmem hs
    exact h.gone key' (by simpa using hmem) (hasRow_setRefcount.1 hs)

/-- **The row is deleted**, provided its refcount is still zero. -/
theorem deleteObject (h : Books w ({.spent key} + f))
    (hzero : ∀ row ∈ w.objects.rows, row.storageKey = key → row.refcount = 0) :
    Books { w with objects := w.objects.delete fun row => row.storageKey = key }
      ({.dead key} + f) := by
  have hrefs : ∀ key', refs w ({.dead key} + f) key' = refs w ({.spent key} + f) key' := by
    intro key'
    simp [refs]
  refine h.frame rfl ?_ ?_ ?_ ?_
  · intro key' hne
    change refs w ({.dead key} + f) key' ≠ 0 at hne
    rw [hrefs] at hne
    obtain ⟨row, hrow, rfl, hle⟩ := h.counted key' hne
    refine ⟨row, mem_deleteWhere.2 ⟨hrow, decide_eq_false fun heq => ?_⟩, rfl, ?_⟩
    · rw [hzero row hrow heq] at hle
      omega
    · show refs w ({.dead key} + f) row.storageKey ≤ row.refcount
      rw [hrefs]
      exact hle
  · intro key'
    simp
  · rintro key' (hs | hmem | hmem)
    · exact .inl (.inl (hasRow_delete.1 hs).1)
    · have hmem : .spent key' ∈ f := by simpa using hmem
      exact .inl (.inr (.inl (Multiset.mem_add.2 (.inr hmem))))
    · rcases Multiset.mem_add.1 hmem with hmem | hmem
      · cases Multiset.mem_singleton.1 hmem
        exact .inl (.inr (.inl (by simp)))
      · exact .inl (.inr (.inr (by simp [hmem])))
  · intro key' hmem hs
    obtain ⟨hs, hne⟩ := hasRow_delete.1 hs
    rcases Multiset.mem_add.1 hmem with hmem | hmem
    · cases Multiset.mem_singleton.1 hmem
      exact hne rfl
    · exact h.gone key' (by simp [hmem]) hs

/-- References move from the request into the new row. -/
theorem insertFile {row : FileRow} (h : Books w (g + f))
    (hheld : ∀ key, row.keys.count key ≤ heldCount g key)
    (hcore : ∀ s ∈ w.files.rows, s.idCore ≠ row.idCore) :
    Books { w with files := w.files.insert row hcore } ({.done row.idCore row.sha256} + f) := by
  refine h.frame rfl ?_ ?_ ?_ ?_
  · intro key hne
    have hle : refs { w with files := w.files.insert row hcore }
        ({.done row.idCore row.sha256} + f) key ≤ refs w (g + f) key := by
      have hfiles : fileRefs (row :: w.files.rows) key =
          row.keys.count key + fileRefs w.files.rows key := by
        unfold fileRefs
        rw [List.flatMap_cons, List.count_append]
      have hkey := hheld key
      show fileRefs (row :: w.files.rows) key + heldCount ({.done row.idCore row.sha256} + f) key ≤ _
      rw [hfiles, refs, heldCount_add, heldCount_add, heldCount_singleton]
      simp only [Token.isHeld, Bool.false_eq_true, if_false]
      omega
    obtain ⟨s, hs, hkey, hle'⟩ := h.counted key (by omega)
    exact ⟨s, hs, hkey, hle.trans hle'⟩
  · intro key
    rw [Multiset.count_add, Multiset.count_add]
    simp
  · rintro key (hs | hmem | hmem)
    · exact .inl (.inl hs)
    · exact .inl (.inr (.inl (Multiset.mem_add.2 (.inr (by simpa using hmem)))))
    · exact .inl (.inr (.inr (Multiset.mem_add.2 (.inr (by simpa using hmem)))))
  · intro key hmem
    exact h.gone key (Multiset.mem_add.2 (.inr (by simpa using hmem)))

/-- References move from the deleted row to the request. -/
theorem deleteFile {row : FileRow} (h : Books w f) (hrow : row ∈ w.files.rows)
    (hg : ∀ key, heldCount g key ≤ row.keys.count key)
    (hplain : ∀ t ∈ g, ∃ key, t.isHeld key = true) :
    Books { w with files := w.files.delete fun s => s.idCore = row.idCore } (g + f) := by
  have hnone : ∀ t : Token, (∀ key, t.isHeld key = false) → t ∉ g := by
    intro t ht hmem
    obtain ⟨key, hkey⟩ := hplain t hmem
    rw [ht key] at hkey
    cases hkey
  refine h.frame rfl ?_ ?_ ?_ ?_
  · intro key hne
    have hle : refs { w with files := w.files.delete fun s => s.idCore = row.idCore } (g + f) key ≤
        refs w f key := by
      have hkey := hg key
      show fileRefs (w.files.delete fun s => s.idCore = row.idCore).rows key + heldCount (g + f) key ≤ _
      rw [refs, fileRefs_delete hrow, heldCount_add]
      omega
    obtain ⟨s, hs, hkey, hle'⟩ := h.counted key (by omega)
    exact ⟨s, hs, hkey, hle.trans hle'⟩
  · intro key
    rw [Multiset.count_add, Multiset.count_eq_zero.2 (hnone (.cand key) fun _ => rfl), Nat.zero_add]
  · rintro key (hs | hmem | hmem)
    · exact .inl (.inl hs)
    · rcases Multiset.mem_add.1 hmem with hmem | hmem
      · exact absurd hmem (hnone _ fun _ => rfl)
      · exact .inl (.inr (.inl hmem))
    · rcases Multiset.mem_add.1 hmem with hmem | hmem
      · exact absurd hmem (hnone _ fun _ => rfl)
      · exact .inl (.inr (.inr hmem))
  · intro key hmem
    rcases Multiset.mem_add.1 hmem with hmem | hmem
    · exact absurd hmem (hnone _ fun _ => rfl)
    · exact h.gone key hmem

end Books

end

end Dedupe
end Uwuubox
