import Uwuubox.Dedupe.Consistency

/-!
# Uploads of equal contents

The row of an object is inserted before its bytes are stored, so an upload that is
deduplicated depends on another one, which may still fail or be interrupted.

* `Landed` — the object of a key has this digest, and bytes with this digest are stored.
* `LandedFirst` — the condition under which deduplication is safe: the bytes of the object are
  there already (and a row is deleted only while its refcount is zero).
* `Vouched` — what the requests know of the objects they refer to; `vouchedRules` are the
  rules of the statements, each of which may fail.
* `durable_of_landedFirst` — **in every run whose steps meet the condition**, from the moment
  an upload reports success on, its bytes are stored under the key of its row.
* `upload_depends_on_failed` — a run in which an upload relies on bytes that never arrive.
-/

namespace Uwuubox
namespace Dedupe

open Storage Table

section

variable (sha256 : Bytes → Digest) (known : Bytes → Prop)

/-- The object of `key` has the digest `sha`. -/
def RowOf (w : World) (key : SafeKey) (sha : Digest) : Prop :=
  ∃ row ∈ w.objects.rows, row.storageKey = key ∧ row.sha256 = sha

/-- The object of `key` has the digest `sha`, and its bytes are stored. -/
def Landed (w : World) (key : SafeKey) (sha : Digest) : Prop :=
  RowOf w key sha ∧ ∃ bytes, known bytes ∧ w.store key = some bytes ∧ sha256 bytes = sha

/-- A row is shared only when its bytes are there, and deleted only while its refcount is
zero. -/
def LandedFirst (w : World) : DbOp → Prop
  | .bumpObject sha => ∀ row ∈ w.objects.rows, row.sha256 = sha →
      ∃ bytes, known bytes ∧ w.store row.storageKey = some bytes ∧ sha256 bytes = sha
  | op => StillZero w op

/-- A database whose files have their objects, and whose objects have the bytes of their
digests. -/
structure Intact (w : World) : Prop extends Consistent w where
  files : ∀ file ∈ w.files.rows, Landed sha256 known w file.storageKey file.sha256
  unclaimed : ∀ key, ¬ Issued w.usedIdCores key → w.store key = none

theorem intact_empty : Intact sha256 known World.empty where
  toConsistent := consistent_empty
  files file hfile := by cases hfile
  unclaimed key _ := rfl

/-! ## What requests know -/

/-- Whether a token is the duty to store the bytes of `key`. -/
def Token.isFresh (key : SafeKey) : Token → Bool
  | .held key' (.fresh _) => key' = key
  | _ => false

/-- How many requests have yet to store the bytes of `key`. -/
def freshCount (g : Share) (key : SafeKey) : ℕ := g.countP fun t => t.isFresh key = true

/-- Nothing has been stored under `key`: its core is not claimed, or the bytes are yet to
come. -/
def Vacant (w : World) (g : Share) (key : SafeKey) : Prop :=
  ¬ Issued w.usedIdCores key ∨ .cand key ∈ g ∨ ∃ sha, .held key (.fresh sha) ∈ g

/-- The books, and what is known of the objects that are referred to. -/
structure Vouched (w : World) (g : Share) : Prop where
  books : Books w g
  landed : ∀ key sha, .held key (.landed sha) ∈ g → Landed sha256 known w key sha
  fresh : ∀ key sha, .held key (.fresh sha) ∈ g → RowOf w key sha
  freshOnce : ∀ key, freshCount g key ≤ 1
  files : ∀ file ∈ w.files.rows, Landed sha256 known w file.storageKey file.sha256
  done : ∀ core sha, .done core sha ∈ g →
    ∃ file ∈ w.files.rows, file.idCore = core ∧ file.sha256 = sha
  empty : ∀ key, Vacant w g key → w.store key = none

end

/-- Tokens that say nothing of an object. -/
def Token.Inert : Token → Prop
  | .spent _ => True
  | .dead _ => True
  | .held _ .bare => True
  | _ => False

section

variable {sha256 : Bytes → Digest} {known : Bytes → Prop} {w w' : World} {g f : Share}
  {key : SafeKey} {sha : Digest}

@[simp] theorem freshCount_add (g f : Share) (key : SafeKey) :
    freshCount (g + f) key = freshCount g key + freshCount f key := Multiset.countP_add _ _ _

@[simp] theorem freshCount_singleton (t : Token) (key : SafeKey) :
    freshCount {t} key = if t.isFresh key then 1 else 0 := by
  unfold freshCount
  rw [← Multiset.cons_zero, Multiset.countP_cons, Multiset.countP_zero, Nat.zero_add]

theorem freshCount_inert {t : Token} (ht : t.Inert) (key : SafeKey) : freshCount {t} key = 0 := by
  rw [freshCount_singleton]
  match t, ht with
  | .spent _, _ => rfl
  | .dead _, _ => rfl
  | .held _ .bare, _ => rfl

theorem freshCount_pos (h : .held key (.fresh sha) ∈ g) : 0 < freshCount g key :=
  Multiset.countP_pos_of_mem h (decide_eq_true rfl)

/-- Who has bytes to store holds a reference. -/
theorem freshCount_eq_zero (h : heldCount g key = 0) : freshCount g key = 0 := by
  unfold freshCount
  unfold heldCount at h
  rw [Multiset.countP_eq_zero] at h ⊢
  intro t ht hfresh
  apply h t ht
  match t, hfresh with
  | .held key' (.fresh sha), hfresh => exact hfresh

theorem RowOf.hasRow (h : RowOf w key sha) : HasRow w key := by
  obtain ⟨row, hrow, hkey, -⟩ := h
  exact ⟨row, hrow, hkey⟩

theorem rowOf_setRefcount {p : ObjectRow → Bool} {set : ℕ → ℕ} (h : RowOf w key sha) :
    RowOf { w with objects := w.objects.setRefcount p set } key sha := by
  obtain ⟨row, hrow, hkey, hsha⟩ := h
  by_cases hp : p row = true
  · exact ⟨_, mem_updateWhere.2 (.inr ⟨row, hrow, hp, rfl⟩), hkey, hsha⟩
  · exact ⟨row, mem_updateWhere.2 (.inl ⟨hrow, Bool.eq_false_iff.2 hp⟩), hkey, hsha⟩

/-- The object is still there, and the store has not changed. -/
theorem Landed.mono (h : Landed sha256 known w key sha) (hrow : RowOf w key sha → RowOf w' key sha)
    (hstore : w'.store key = w.store key) : Landed sha256 known w' key sha := by
  obtain ⟨hold, bytes, hbytes, hat, hsha⟩ := h
  exact ⟨hrow hold, bytes, hbytes, hstore.trans hat, hsha⟩

namespace Vouched

/-- What a step has to show that brings no knowledge: what is referred to stays as it is, and
what was empty stays empty. -/
theorem frame {g' : Share} (h : Vouched sha256 known w g) (hbooks : Books w' g')
    (hused : w'.usedIdCores = w.usedIdCores) (hfiles : w'.files = w.files)
    (htoken : ∀ t ∈ g', t.Inert ∨ t ∈ g) (hfresh : ∀ key, freshCount g' key ≤ freshCount g key)
    (hrow : ∀ key sha, refs w g key ≠ 0 → RowOf w key sha → RowOf w' key sha)
    (hland : ∀ key sha, refs w g key ≠ 0 → Landed sha256 known w key sha → w'.store key = w.store key)
    (hempty : ∀ key, Vacant w' g' key → w'.store key = w.store key) :
    Vouched sha256 known w' g' where
  books := hbooks
  landed key sha hmem := by
    have hmem' := (htoken _ hmem).resolve_left fun hinert => hinert
    have hrefs : refs w g key ≠ 0 := refs_ne_zero_of_held hmem'
    have hold := h.landed key sha hmem'
    exact hold.mono (hrow key sha hrefs) (hland key sha hrefs hold)
  fresh key sha hmem := by
    have hmem' := (htoken _ hmem).resolve_left fun hinert => hinert
    exact hrow key sha (refs_ne_zero_of_held hmem') (h.fresh key sha hmem')
  freshOnce key := (hfresh key).trans (h.freshOnce key)
  files file hfile := by
    rw [hfiles] at hfile
    have hrefs : refs w g file.storageKey ≠ 0 := refs_ne_zero_of_file hfile
    have hold := h.files file hfile
    exact hold.mono (hrow _ _ hrefs) (hland _ _ hrefs hold)
  done core sha hmem := by
    rw [hfiles]
    exact h.done core sha ((htoken _ hmem).resolve_left fun hinert => hinert)
  empty key hvacant := by
    rw [hempty key hvacant]
    apply h.empty key
    unfold Vacant at hvacant
    rw [hused] at hvacant
    rcases hvacant with hissued | hmem | ⟨sha, hmem⟩
    · exact .inl hissued
    · exact .inr (.inl ((htoken _ hmem).resolve_left fun hinert => hinert))
    · exact .inr (.inr ⟨sha, (htoken _ hmem).resolve_left fun hinert => hinert⟩)

/-- The same, where a request trades what it has for a token that says nothing. -/
theorem trade {t : Token} (h : Vouched sha256 known w (g + f)) (ht : t.Inert)
    (hbooks : Books w' ({t} + f)) (hused : w'.usedIdCores = w.usedIdCores)
    (hfiles : w'.files = w.files)
    (hrow : ∀ key sha, refs w (g + f) key ≠ 0 → RowOf w key sha → RowOf w' key sha)
    (hland : ∀ key sha, Landed sha256 known w key sha → w'.store key = w.store key)
    (hempty : ∀ key, Vacant w' ({t} + f) key → w'.store key = w.store key) :
    Vouched sha256 known w' ({t} + f) := by
  refine h.frame hbooks hused hfiles ?_ ?_ hrow (fun key sha _ => hland key sha) hempty
  · intro t' ht'
    rcases Multiset.mem_add.1 ht' with ht' | ht'
    · rw [Multiset.mem_singleton.1 ht']
      exact .inl ht
    · exact .inr (Multiset.mem_add.2 (.inr ht'))
  · intro key
    rw [freshCount_add, freshCount_add, freshCount_inert ht, Nat.zero_add]
    exact Nat.le_add_left _ _

/-- The share of one request may be thrown away. -/
theorem drop (h : Vouched sha256 known w (g + f)) : Vouched sha256 known w f :=
  h.frame h.books.drop rfl rfl (fun _ ht => .inr (Multiset.mem_add.2 (.inr ht)))
    (fun key => by rw [freshCount_add]; omega) (fun _ _ _ hrow => hrow) (fun _ _ _ _ => rfl)
    fun _ _ => rfl

/-- A reference whose object turns out to have landed. -/
theorem land (h : Vouched sha256 known w ({.held key .bare} + f))
    (hland : Landed sha256 known w key sha) :
    Vouched sha256 known w ({.held key (.landed sha)} + f) where
  books := h.books.regrip _
  landed key' sha' hmem := by
    rcases Multiset.mem_add.1 hmem with hmem | hmem
    · cases Multiset.mem_singleton.1 hmem
      exact hland
    · exact h.landed key' sha' (Multiset.mem_add.2 (.inr hmem))
  fresh key' sha' hmem := h.fresh key' sha' (by simpa using hmem)
  freshOnce key' := by
    have honce := h.freshOnce key'
    rw [freshCount_add, freshCount_singleton] at honce ⊢
    exact honce
  files := h.files
  done core sha' hmem := h.done core sha' (by simpa using hmem)
  empty key' hvacant := by
    apply h.empty key'
    rcases hvacant with hissued | hmem | ⟨sha', hmem⟩
    · exact .inl hissued
    · exact .inr (.inl (by simpa using hmem))
    · exact .inr (.inr ⟨sha', by simpa using hmem⟩)

/-- A reference to an object whose bytes are yet to be stored. -/
theorem owe (h : Vouched sha256 known w ({.held key .bare} + f)) (hrow : RowOf w key sha)
    (hnone : w.store key = none) (hfirst : freshCount f key = 0) :
    Vouched sha256 known w ({.held key (.fresh sha)} + f) where
  books := h.books.regrip _
  landed key' sha' hmem := h.landed key' sha' (by simpa using hmem)
  fresh key' sha' hmem := by
    rcases Multiset.mem_add.1 hmem with hmem | hmem
    · cases Multiset.mem_singleton.1 hmem
      exact hrow
    · exact h.fresh key' sha' (Multiset.mem_add.2 (.inr hmem))
  freshOnce key' := by
    have honce := h.freshOnce key'
    rw [freshCount_add, freshCount_singleton] at honce ⊢
    by_cases heq : key = key'
    · subst heq
      rw [hfirst]
      split <;> omega
    · have hother : (Token.held key (.fresh sha)).isFresh key' = false := decide_eq_false heq
      rw [hother]
      simpa using le_trans (Nat.le_add_left _ _) honce
  files := h.files
  done core sha' hmem := h.done core sha' (by simpa using hmem)
  empty key' hvacant := by
    by_cases heq : key' = key
    · rw [heq]
      exact hnone
    · apply h.empty key'
      rcases hvacant with hissued | hmem | ⟨sha', hmem⟩
      · exact .inl hissued
      · exact .inr (.inl (by simpa using hmem))
      · rcases Multiset.mem_add.1 hmem with hmem | hmem
        · cases Multiset.mem_singleton.1 hmem
          exact absurd rfl heq
        · exact .inr (.inr ⟨sha', Multiset.mem_add.2 (.inr hmem)⟩)

/-! ## Statement by statement -/

theorem claimCore {core : Core} (h : Vouched sha256 known w f) (hnew : core ∉ w.usedIdCores)
    (ext : Ext) :
    Vouched sha256 known { w with usedIdCores := core :: w.usedIdCores }
      ({.cand (fileKey core ext)} + {.cand (thumbKey core)} + f) where
  books := h.books.claimCore hnew ext
  landed key sha hmem := h.landed key sha (by simpa using hmem)
  fresh key sha hmem := h.fresh key sha (by simpa using hmem)
  freshOnce key := by
    have hcount : freshCount ({.cand (fileKey core ext)} + {.cand (thumbKey core)} + f) key =
        freshCount f key := by
      simp only [freshCount_add, freshCount_singleton, Token.isFresh, Bool.false_eq_true, if_false,
        Nat.zero_add]
    rw [hcount]
    exact h.freshOnce key
  files := h.files
  done core sha hmem := h.done core sha (by simpa using hmem)
  empty key hvacant := by
    apply h.empty key
    have hunclaimed : ∀ key, Names core key → ¬ Issued w.usedIdCores key :=
      fun key hnames hissued => hnew (hissued core hnames)
    rcases hvacant with hissued | hmem | ⟨sha, hmem⟩
    · exact .inl fun hold => hissued (hold.mono (List.subset_cons_self _ _))
    · rcases Multiset.mem_add.1 hmem with hmem | hmem
      · rcases Multiset.mem_add.1 hmem with hmem | hmem <;> cases Multiset.mem_singleton.1 hmem
        · exact .inl (hunclaimed _ (names_fileKey core ext))
        · exact .inl (hunclaimed _ (names_thumbKey core))
      · exact .inr (.inl hmem)
    · exact .inr (.inr ⟨sha, by simpa using hmem⟩)

theorem insertObject {row : ObjectRow} (h : Vouched sha256 known w ({.cand row.storageKey} + f))
    (hsha : ∀ s ∈ w.objects.rows, s.sha256 ≠ row.sha256)
    (hkey : ∀ s ∈ w.objects.rows, s.storageKey ≠ row.storageKey) (hone : row.refcount = 1) :
    Vouched sha256 known { w with objects := w.objects.insert row hsha hkey }
      ({.held row.storageKey (.fresh row.sha256)} + f) := by
  have hnorow : ¬ HasRow w row.storageKey := fun ⟨s, hs, heq⟩ => hkey s hs heq
  have hbare : Vouched sha256 known { w with objects := w.objects.insert row hsha hkey }
      ({.held row.storageKey .bare} + f) := by
    refine h.trade trivial (h.books.insertObject hsha hkey hone .bare) rfl rfl ?_
      (fun _ _ _ => rfl) fun _ _ => rfl
    rintro key sha - ⟨s, hs, hskey, hssha⟩
    exact ⟨s, List.mem_cons_of_mem _ hs, hskey, hssha⟩
  refine hbare.owe ⟨row, List.mem_cons_self, rfl, rfl⟩ (h.empty _ (.inr (.inl ?_))) ?_
  · exact Multiset.mem_add.2 (.inl (Multiset.mem_singleton_self _))
  · have hrefs := h.books.counted.eq_zero hnorow
    unfold refs at hrefs
    rw [heldCount_add] at hrefs
    exact freshCount_eq_zero (by omega)

/-- Deduplication onto an object whose bytes are stored. -/
theorem bumpObject {row : ObjectRow} (h : Vouched sha256 known w f) (hrow : row ∈ w.objects.rows)
    (hbytes : ∃ bytes, known bytes ∧ w.store row.storageKey = some bytes ∧
      sha256 bytes = row.sha256) :
    Vouched sha256 known
      { w with objects := w.objects.setRefcount (fun s => s.sha256 = row.sha256) (· + 1) }
      ({.held row.storageKey (.landed row.sha256)} + f) := by
  have hbare : Vouched sha256 known
      { w with objects := w.objects.setRefcount (fun s => s.sha256 = row.sha256) (· + 1) }
      ({.held row.storageKey .bare} + f) := by
    have hbooks := h.books.bumpObject hrow .bare
    rw [← zero_add f] at h
    exact h.trade trivial hbooks rfl rfl (fun _ _ _ hs => rowOf_setRefcount hs) (fun _ _ _ => rfl)
      fun _ _ => rfl
  exact hbare.land ⟨rowOf_setRefcount ⟨row, hrow, rfl, rfl⟩, hbytes⟩

theorem dropObject {grip : Grip} (h : Vouched sha256 known w ({.held key grip} + f)) :
    Vouched sha256 known
      { w with objects := w.objects.setRefcount (fun s => s.storageKey = key) (· - 1) }
      ({.spent key} + f) :=
  h.trade trivial h.books.dropObject rfl rfl (fun _ _ _ hs => rowOf_setRefcount hs)
    (fun _ _ _ => rfl) fun _ _ => rfl

theorem deleteObject (h : Vouched sha256 known w ({.spent key} + f))
    (hzero : ∀ row ∈ w.objects.rows, row.storageKey = key → row.refcount = 0) :
    Vouched sha256 known { w with objects := w.objects.delete fun row => row.storageKey = key }
      ({.dead key} + f) := by
  refine h.trade trivial (h.books.deleteObject hzero) rfl rfl ?_ (fun _ _ _ => rfl) fun _ _ => rfl
  -- what is referred to has a refcount
  rintro key' sha hrefs ⟨row, hrow, rfl, hsha⟩
  obtain ⟨s, hs, hskey, hle⟩ := h.books.counted _ hrefs
  refine ⟨row, mem_deleteWhere.2 ⟨hrow, decide_eq_false fun heq => ?_⟩, rfl, hsha⟩
  have := hzero s hs (hskey.trans heq)
  omega

/-- The bytes of a key without a row are deleted. -/
theorem delete (h : Vouched sha256 known w ({.dead key} + f)) (hsame : SameBut key w w') :
    Vouched sha256 known w' f := by
  have hdead : .dead key ∈ ({.dead key} + f : Share) :=
    Multiset.mem_add.2 (.inl (Multiset.mem_singleton_self _))
  have hnorow := h.books.gone key hdead
  have hrow : ∀ key' sha, RowOf w key' sha → RowOf w' key' sha := by
    intro key' sha hs
    unfold RowOf
    rwa [hsame.objects]
  refine h.frame (h.books.sameBut hsame).drop hsame.usedIdCores hsame.files
    (fun t ht => .inr (Multiset.mem_add.2 (.inr ht))) (fun key' => by rw [freshCount_add]; omega)
    (fun key' sha _ => hrow key' sha) ?_ ?_
  · intro key' sha _ hland
    apply hsame.store
    rintro rfl
    exact hnorow hland.1.hasRow
  · intro key' hvacant
    apply hsame.store
    rintro rfl
    have hspent : Spent w ({.dead key'} + f) key' := .inr (.inr hdead)
    rcases hvacant with hissued | hmem | ⟨sha, hmem⟩
    · rw [hsame.usedIdCores] at hissued
      exact hissued (h.books.issued key' (.inr hspent))
    · exact h.books.unspent key' (Multiset.mem_add.2 (.inr hmem)) hspent
    · exact hnorow (h.fresh key' sha (Multiset.mem_add.2 (.inr hmem))).hasRow

/-- Bytes are put, or half of them, or the call fails: nobody has relied on them yet. -/
theorem put (h : Vouched sha256 known w ({.held key (.fresh sha)} + f)) (hsame : SameBut key w w') :
    Vouched sha256 known w' ({.held key .bare} + f) := by
  have hfresh : .held key (.fresh sha) ∈ ({.held key (.fresh sha)} + f : Share) :=
    Multiset.mem_add.2 (.inl (Multiset.mem_singleton_self _))
  have hnone : w.store key = none := h.empty key (.inr (.inr ⟨sha, hfresh⟩))
  have hspent : Spent w ({.held key (.fresh sha)} + f) key := .inl (h.fresh key sha hfresh).hasRow
  have honce := h.freshOnce key
  rw [freshCount_add, freshCount_singleton,
    show (Token.held key (.fresh sha)).isFresh key = true from decide_eq_true rfl, if_pos rfl] at honce
  refine h.trade trivial ((h.books.sameBut hsame).regrip .bare) hsame.usedIdCores hsame.files ?_ ?_ ?_
  · intro key' sha' _ hs
    unfold RowOf
    rwa [hsame.objects]
  · rintro key' sha' ⟨-, bytes, -, hat, -⟩
    apply hsame.store
    rintro rfl
    rw [hnone] at hat
    cases hat
  · intro key' hvacant
    apply hsame.store
    rintro rfl
    rcases hvacant with hissued | hmem | ⟨sha', hmem⟩
    · rw [hsame.usedIdCores] at hissued
      exact hissued (h.books.issued key' (.inr hspent))
    · exact h.books.unspent key' (by simpa using hmem) hspent
    · have hmem : .held key' (.fresh sha') ∈ f := by simpa using hmem
      have := freshCount_pos hmem
      omega

/-- A row is published whose bytes are stored. -/
theorem insertFile {row : FileRow} {thumb : Share}
    (h : Vouched sha256 known w ({.held row.storageKey (.landed row.sha256)} + thumb + f))
    (hthumb : ThumbShare row.thumbKey thumb) (hcore : ∀ s ∈ w.files.rows, s.idCore ≠ row.idCore) :
    Vouched sha256 known { w with files := w.files.insert row hcore }
      ({.done row.idCore row.sha256} + f) := by
  have hrest : ∀ t ∈ f, t ∈ ({.held row.storageKey (.landed row.sha256)} + thumb + f : Share) :=
    fun t ht => Multiset.mem_add.2 (.inr ht)
  refine ⟨h.books.insertFile (fun key => (hthumb.heldCount _ key).ge) hcore, ?_, ?_, ?_, ?_, ?_, ?_⟩
  · intro key sha hmem
    exact h.landed key sha (hrest _ (by simpa using hmem))
  · intro key sha hmem
    exact h.fresh key sha (hrest _ (by simpa using hmem))
  · intro key
    have honce := h.freshOnce key
    rw [freshCount_add] at honce
    simp only [freshCount_add, freshCount_singleton, Token.isFresh, Bool.false_eq_true, if_false]
    omega
  · intro file hfile
    rcases List.mem_cons.1 hfile with rfl | hfile
    · exact h.landed _ _ (Multiset.mem_add.2 (.inl (Multiset.mem_add.2
        (.inl (Multiset.mem_singleton_self _)))))
    · exact h.files file hfile
  · intro core sha hmem
    rcases Multiset.mem_add.1 hmem with hmem | hmem
    · cases Multiset.mem_singleton.1 hmem
      exact ⟨row, List.mem_cons_self, rfl, rfl⟩
    · obtain ⟨file, hfile, hfilecore, hsha⟩ := h.done core sha (hrest _ hmem)
      exact ⟨file, List.mem_cons_of_mem _ hfile, hfilecore, hsha⟩
  · intro key hvacant
    apply h.empty key
    rcases hvacant with hissued | hmem | ⟨sha, hmem⟩
    · exact .inl hissued
    · exact .inr (.inl (hrest _ (by simpa using hmem)))
    · exact .inr (.inr ⟨sha, hrest _ (by simpa using hmem)⟩)

end Vouched

end

/-! ## The rules -/

/-- **The rules of the statements**, each of which may fail, under the condition. -/
theorem vouchedRules (sha256 : Bytes → Digest) (known : Bytes → Prop) :
    Discipline (Vouched sha256 known) (guarded (LandedFirst sha256 known) (exec True)) sha256 known
      (fun sha grip => grip = .landed sha) where
  notFresh h sha hfresh := by cases h.symm.trans hfresh
  claimCore core ext := by
    rintro w r w' f h ⟨-, hex⟩
    rcases exec_claimCore hex with ⟨rfl, hnew, rfl⟩ | ⟨hr, rfl⟩
    · rw [zero_add] at h
      exact ⟨_, h.claimCore hnew ext, rfl⟩
    · refine ⟨0, h, ?_⟩
      match r, hr with
      | .error e, _ => exact rfl
      | .ok false, _ => exact rfl
  insertObject sha key size mime := by
    rintro w r w' f h ⟨-, hex⟩
    rcases exec_insertObject hex with ⟨hsha, hkey, rfl, rfl⟩ | ⟨rfl, rfl⟩ | ⟨e, rfl, rfl⟩
    · exact ⟨_, h.insertObject hsha hkey rfl, rfl⟩
    · exact ⟨0, by rw [zero_add]; exact h.drop, rfl⟩
    · exact ⟨0, by rw [zero_add]; exact h.drop, rfl⟩
  bumpObject sha := by
    rintro w r w' f h ⟨hfirst, hex⟩
    rcases exec_bumpObject hex with ⟨row, hrow, rfl, rfl, rfl⟩ | ⟨e, rfl, rfl⟩
    · rw [zero_add] at h
      exact ⟨_, h.bumpObject hrow (hfirst row hrow rfl), _, rfl, rfl⟩
    · exact ⟨0, h, rfl⟩
  dropObject key grip hgrip := by
    rintro w r w' f h ⟨-, hex⟩
    rcases exec_dropObject hex with ⟨row, hrow, hkey, hpos, rfl, rfl⟩ | ⟨hr, rfl⟩
    · cases hcount : row.refcount - 1 with
      | zero => exact ⟨_, h.dropObject, rfl⟩
      | succ n => exact ⟨0, by rw [zero_add]; exact h.dropObject.drop, rfl⟩
    · refine ⟨0, by rw [zero_add]; exact h.drop, ?_⟩
      match r, hr with
      | .error e, _ => exact rfl
      | .ok none, _ => exact rfl
      | .ok (some n), hr => exact absurd rfl (hr n)
  deleteObject key := by
    rintro w r w' f h ⟨hzero, hex⟩
    rcases exec_deleteObject hex with ⟨rfl, rfl⟩ | ⟨e, rfl, rfl⟩
    · exact ⟨_, h.deleteObject hzero, rfl⟩
    · exact ⟨0, by rw [zero_add]; exact h.drop, rfl⟩
  delete key := by
    rintro w r w' f h ⟨-, hex⟩
    exact ⟨0, by rw [zero_add]; exact h.delete (exec_delete hex), rfl⟩
  put key bytes hbytes := by
    rintro w r w' f h ⟨-, hex⟩
    obtain ⟨hsame, ⟨rfl, hput⟩ | ⟨-, e, rfl⟩⟩ := exec_put hex
    · have hrow : RowOf w key (sha256 bytes) :=
        h.fresh key _ (Multiset.mem_add.2 (.inl (Multiset.mem_singleton_self _)))
      rw [RowOf, ← hsame.objects] at hrow
      exact ⟨_, (h.put hsame).land ⟨hrow, bytes, hbytes, hput, rfl⟩, _, rfl, rfl⟩
    · exact ⟨_, h.put hsame, rfl⟩
  insertFile row grip thumb hgrip hthumb := by
    rintro w r w' f h ⟨-, hex⟩
    subst hgrip
    rcases exec_insertFile hex with ⟨hcore, rfl, rfl⟩ | ⟨e, rfl, rfl⟩
    · exact ⟨_, h.insertFile hthumb hcore, rfl⟩
    · exact ⟨_, h, rfl⟩

/-! ## Every run -/

/-- The contents there are: those that are uploaded, and those in the store at the start. -/
def Known {ι : Type} (u : ι → Upload) (w₀ : World) (bytes : Bytes) : Prop :=
  (∃ i, bytes ∈ (u i).contents) ∨ ∃ key, w₀.store key = some bytes

/-- An intact database, with no request in progress. -/
theorem Intact.vouched {sha256 : Bytes → Digest} {known : Bytes → Prop} {w : World}
    (h : Intact sha256 known w) : Vouched sha256 known w 0 where
  books := h.books
  landed key sha hmem := absurd hmem (Multiset.notMem_zero _)
  fresh key sha hmem := absurd hmem (Multiset.notMem_zero _)
  freshOnce key := Nat.zero_le 1
  files := h.files
  done core sha hmem := absurd hmem (Multiset.notMem_zero _)
  empty key hvacant := by
    rcases hvacant with hissued | hmem | ⟨sha, hmem⟩
    · exact h.unclaimed key hissued
    · exact absurd hmem (Multiset.notMem_zero _)
    · exact absurd hmem (Multiset.notMem_zero _)

/-- **Uploads of equal contents.**  Among uploads any of which may fail at any statement or be
interrupted between two, in every run in which each deduplication finds the bytes of the
object stored and each deletion its refcount at zero: once an upload has reported
success, its content is stored under the key of its row. -/
theorem durable_of_landedFirst (sha256 : Bytes → Digest) {ι : Type} (u : ι → Upload) {w₀ : World}
    (hsha : Set.InjOn sha256 {bytes | Known u w₀ bytes}) (hw₀ : Intact sha256 (Known u w₀) w₀)
    {p : Pool World ι DbOp DbOp.Res (Except AppError Core)}
    (hp : Pool.Reachable (fun i => uploadInner sha256 (u i))
      (guarded (LandedFirst sha256 (Known u w₀)) (exec True)) True w₀ p)
    {i : ι} {core : Core} (hi : (i, .ret (.ok core)) ∈ p.threads) :
    ∃ file ∈ p.shared.files.rows, file.idCore = core ∧
      p.shared.store file.storageKey = some (u i).content.bytes := by
  have hknown : ∀ i, ∀ bytes ∈ (u i).contents, Known u w₀ bytes :=
    fun i bytes hbytes => .inl ⟨i, hbytes⟩
  obtain ⟨gs, hgs⟩ := Pool.ledger hw₀.vouched
    (fun i => (vouchedRules sha256 (Known u w₀)).uploadInner (u i) (hknown i))
    (fun _ s g f h => h.drop) hp
  obtain ⟨g, f, ⟨hdone, -⟩, hinv⟩ := hgs.returned hi
  obtain ⟨file, hfile, hcore, hfilesha⟩ := hinv.done core _ (Multiset.mem_add.2 (.inl hdone))
  obtain ⟨-, bytes, hbytes, hat, hbytessha⟩ := hinv.files file hfile
  refine ⟨file, hfile, hcore, ?_⟩
  rw [hat, hsha hbytes (hknown i _ List.mem_cons_self) (hbytessha.trans hfilesha)]

/-! ### Schedules of one content -/

/-- The statement is executed, or its connection breaks. -/
def answerOr (broken : Bool) (w : World) (op : DbOp) : op.Res × World :=
  if broken then (.error (.storage (.backend "connection reset")), w) else answer w op

theorem exec_answerOr (broken : Bool) (w : World) (op : DbOp) :
    exec True w op (answerOr broken w op).1 (answerOr broken w op).2 := by
  cases broken with
  | false => exact exec_answer True w op
  | true => exact .inr ⟨trivial, ⟨_, rfl⟩, rfl, rfl, rfl, fun _ _ => rfl⟩

/-- `LandedFirst` where the byte 7 is the only content. -/
def sampleLandedFirst (w : World) : DbOp → Bool
  | .bumpObject sha => w.objects.rows.all fun row =>
      w.store row.storageKey = some [7] ∧ sampleSha256 [7] = sha
  | op => decide (StillZero w op)

theorem known_sample {bytes : Bytes} : Known sampleUpload World.empty bytes ↔ bytes = [7] := by
  constructor
  · rintro (⟨core, hbytes⟩ | ⟨key, hat⟩)
    · exact List.mem_singleton.1 hbytes
    · cases hat
  · rintro rfl
    exact .inl ⟨coreA, List.mem_cons_self⟩

theorem landedFirst_sample {w : World} {op : DbOp} (h : sampleLandedFirst w op = true) :
    LandedFirst sampleSha256 (Known sampleUpload World.empty) w op := by
  match op, h with
  | .bumpObject sha, h =>
    intro row hrow _
    have hrow := of_decide_eq_true (List.all_eq_true.1 h row hrow)
    exact ⟨[7], known_sample.2 rfl, hrow.1, hrow.2⟩
  | .deleteObject key, h => exact (of_decide_eq_true h : StillZero w (.deleteObject key))
  | .claimCore _, _ => exact trivial
  | .insertObject _ _ _ _, _ => exact trivial
  | .dropObject _, _ => exact trivial
  | .insertFile _, _ => exact trivial
  | .deleteFile _, _ => exact trivial
  | .put _ _, _ => exact trivial
  | .delete _, _ => exact trivial

/-- One upload after the other. -/
def inTurn : List (Pool.Turn Core Bool) :=
  .spawn coreA :: List.replicate 4 (.act 0 false) ++
    .spawn coreB :: List.replicate 4 (.act 0 false)

theorem durable_of_landedFirst_inTurn :
    let p := Pool.play (fun core => uploadInner sampleSha256 (sampleUpload core)) answerOr World.empty
      inTurn
    ∃ file ∈ p.shared.files.rows, file.idCore = coreB ∧ p.shared.store file.storageKey = some [7] := by
  refine durable_of_landedFirst sampleSha256 sampleUpload ?_ (intact_empty _ _)
    (@Pool.reachable_play _ _ _ _ _ (fun core => uploadInner sampleSha256 (sampleUpload core)) _ True
      Bool answerOr sampleLandedFirst
      (fun broken w op hok => ⟨landedFirst_sample hok, exec_answerOr broken w op⟩) World.empty inTurn
      (by rfl)) (List.mem_cons_self : (coreB, _) ∈ _)
  intro bytes hbytes bytes' hbytes' _
  rw [known_sample.1 hbytes, known_sample.1 hbytes']

/-- The first upload inserts the object; the second finds it, relies on it and is done; then
the put of the first fails. -/
def relianceRace : List (Pool.Turn Core Bool) :=
  [.spawn coreA, .act 0 false, .act 0 false,
    .spawn coreB, .act 0 false, .act 0 false, .act 0 false, .act 0 false,
    .act 1 true, .act 1 false]

/-- The second upload has reported success, and its bytes are never stored. -/
theorem upload_depends_on_failed :
    ∃ p : Pool World Core DbOp DbOp.Res (Except AppError Core),
      Pool.Reachable (fun core => uploadInner sampleSha256 (sampleUpload core)) (exec True) True
        World.empty p ∧ p.Quiet ∧ (coreB, .ret (.ok coreB)) ∈ p.threads ∧
      ¬ ∃ file ∈ p.shared.files.rows, file.idCore = coreB ∧
        p.shared.store file.storageKey = some (sampleUpload coreB).content.bytes := by
  refine ⟨Pool.play (fun core => uploadInner sampleSha256 (sampleUpload core)) answerOr World.empty
    relianceRace,
    @Pool.reachable_play _ _ _ _ _ (fun core => uploadInner sampleSha256 (sampleUpload core)) _ True
      Bool answerOr (fun _ _ => true) (fun broken w op _ => exec_answerOr broken w op) World.empty
      relianceRace (by rfl),
    Pool.quiet_of_allReturned (by rfl), List.mem_cons_self, ?_⟩
  rintro ⟨file, -, -, hat⟩
  cases hat

end Dedupe
end Uwuubox
