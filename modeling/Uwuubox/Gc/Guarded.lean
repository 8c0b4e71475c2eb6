import Uwuubox.Gc.Alongside

/-!
# What a collection and uploads keep

The state that collections, uploads of files and uploads of avatars share, seen from what they have begun.

* `IsTemp`, `slot_eq` — temporary files, objects and avatars have different keys, and an object has one slot.
* `Holding.Means` — what somebody who has begun something knows; `Sole` — nobody else has begun the same.
* `Guarded` — **the invariant**: the bytes of every object are stored, or about to be, or its row is about to be
  deleted; every file inserted since the start has a counted row, and every recorded avatar is stored.
* `Guarded.claimCore` .. `Guarded.rename` — what each change of the state does to it.
-/

namespace Uwuubox
namespace Gc

open Dedupe Storage Table Fallible Server
open Dedupe.Backfill (Named)

/-! ## Keys -/

/-- The name of a temporary file of an upload. -/
def IsTemp (tmp : SafeKey) : Prop := ∃ dir ∈ [filesPrefix, thumbsPrefix, avatarsPrefix], dir ++ ['.'] <+: tmp.val

section

variable {key tmp : SafeKey} {core : Core} {slot slot' : Slot}

/-- What begins a key begins with its first letter. -/
theorem first_letter_eq {a b : Char} {as bs cs : ObjKey} (ha : a :: as <+: cs) (hb : b :: bs <+: cs) : a = b := by
  obtain ⟨_, rfl⟩ := ha
  obtain ⟨_, h⟩ := hb
  exact (List.cons.inj h).1.symm

theorem slash_not_mem_core (core : Core) : '/' ∉ core.val := fun hmem =>
  absurd (core.property.2 _ hmem) (by decide)

/-- A core begins with a letter of its alphabet. -/
theorem exists_core_cons (core : Core) : ∃ c cs, core.val = c :: cs ∧ c ≠ '.' := by
  obtain ⟨c, cs, hcons⟩ : ∃ c cs, core.val = c :: cs := by
    refine List.exists_cons_of_ne_nil fun hnil => ?_
    have hlength := core.property.1
    rw [hnil] at hlength
    cases hlength
  refine ⟨c, cs, hcons, ?_⟩
  rintro rfl
  exact absurd (core.property.2 '.' (hcons ▸ List.mem_cons_self)) (by decide)

theorem holds_fileKey (core : Core) (ext : Ext) : (Slot.object core).Holds (fileKey core ext).val := ⟨ext.val, rfl⟩

theorem holds_thumbKey (core : Core) : (Slot.thumb core).Holds (thumbKey core).val := ⟨['.', 'j', 'p', 'g'], rfl⟩

/-- **A key has one slot.** -/
theorem slot_eq {key : ObjKey} (h : slot.Holds key) (h' : slot'.Holds key) : slot = slot' := by
  have hcore : ∀ {dir : ObjKey} {core core' : Core}, dir ++ core.val <+: key → dir ++ core'.val <+: key →
      core = core' := by
    intro dir core core' h h'
    have hlen : (dir ++ core.val).length = (dir ++ core'.val).length := by
      rw [List.length_append, List.length_append, core.property.1, core'.property.1]
    have heq := (List.prefix_of_prefix_length_le h h' hlen.le).eq_of_length hlen
    exact Subtype.ext (List.append_cancel_left heq)
  cases slot with
  | row core => exact h.elim
  | object core =>
    cases slot' with
    | row core' => exact h'.elim
    | object core' => rw [hcore h h']
    | thumb core' => exact absurd (first_letter_eq h h') (by decide)
  | thumb core =>
    cases slot' with
    | row core' => exact h'.elim
    | object core' => exact absurd (first_letter_eq h h') (by decide)
    | thumb core' => rw [hcore h h']

/-- A temporary file is beside its key. -/
theorem isTemp_of_tempName (hkey : Named key ∨ IsAvatarKey key) (h : TempName key tmp) : IsTemp tmp := by
  obtain ⟨simple, htmp⟩ := h
  have hdir : ∀ {pre rest : ObjKey}, key.val = pre ++ '/' :: rest → '/' ∉ rest → pre ++ ['/'] ∈
      [filesPrefix, thumbsPrefix, avatarsPrefix] → IsTemp tmp := by
    intro pre rest hval hslash hmem
    rw [directory_append hval hslash, List.append_assoc, List.append_assoc] at htmp
    refine ⟨_, hmem, ['t', 'm', 'p', '-'] ++ simple.val, ?_⟩
    rw [htmp, List.append_assoc, List.append_assoc]
    rfl
  rcases hkey with ⟨core, ⟨ext, rfl⟩ | rfl⟩ | ⟨id, ext, rfl⟩
  · refine @hdir ['f', 'i', 'l', 'e', 's'] _ rfl ?_ (by decide)
    exact fun hmem => (List.mem_append.1 hmem).elim (slash_not_mem_core core) (slash_not_mem_ext ext)
  · refine @hdir ['t', 'h', 'u', 'm', 'b', 's'] (core.val ++ ['.', 'j', 'p', 'g']) rfl ?_ (by decide)
    exact fun hmem => (List.mem_append.1 hmem).elim (slash_not_mem_core core) (by decide)
  · refine @hdir ['a', 'v', 'a', 't', 'a', 'r', 's'] (hyphenated id ++ ext.val) (by simp [avatarKey]) ?_ (by decide)
    exact fun hmem => (List.mem_append.1 hmem).elim (fun h => (mem_hyphenated h).2 rfl) (slash_not_mem_ext ext)

/-- A temporary file is in no slot. -/
theorem IsTemp.not_holds (h : IsTemp tmp) (slot : Slot) : ¬ slot.Holds tmp.val := by
  obtain ⟨dir, hdir, hdot⟩ := h
  intro hholds
  have hclash : ∀ {core : Core}, dir ++ core.val <+: tmp.val → False := by
    intro core hcore
    obtain ⟨c, cs, hcons, hc⟩ := exists_core_cons core
    rw [hcons] at hcore
    obtain ⟨t, ht⟩ := hcore
    obtain ⟨t', ht'⟩ := hdot
    rw [← ht', List.append_assoc, List.append_assoc] at ht
    exact hc (List.cons.inj (List.append_cancel_left ht)).1
  simp only [List.mem_cons, List.not_mem_nil, or_false] at hdir
  cases slot with
  | row core => exact hholds
  | object core =>
    rcases hdir with rfl | rfl | rfl
    · exact hclash hholds
    · exact absurd (first_letter_eq hholds hdot) (by decide)
    · exact absurd (first_letter_eq hholds hdot) (by decide)
  | thumb core =>
    rcases hdir with rfl | rfl | rfl
    · exact absurd (first_letter_eq hholds hdot) (by decide)
    · exact hclash hholds
    · exact absurd (first_letter_eq hholds hdot) (by decide)

/-- An object is in a slot. -/
theorem exists_holds (h : Named key) : ∃ slot : Slot, slot.Holds key.val := by
  obtain ⟨core, ⟨ext, rfl⟩ | rfl⟩ := h
  · exact ⟨_, holds_fileKey core ext⟩
  · exact ⟨_, holds_thumbKey core⟩

/-- An avatar is in no slot. -/
theorem not_holds_of_avatar (h : IsAvatarKey key) (slot : Slot) : ¬ slot.Holds key.val := by
  obtain ⟨id, ext, rfl⟩ := h
  have hprefix : avatarsPrefix <+: (avatarKey id ext).val :=
    ⟨hyphenated id ++ ext.val, by simp [avatarKey, avatarsPrefix]⟩
  intro hholds
  cases slot with
  | row core => exact hholds
  | object core => exact absurd (first_letter_eq hholds hprefix) (by decide)
  | thumb core => exact absurd (first_letter_eq hholds hprefix) (by decide)

theorem IsTemp.not_named (h : IsTemp tmp) : ¬ Named tmp := fun hnamed =>
  let ⟨slot, hholds⟩ := exists_holds hnamed
  h.not_holds slot hholds

theorem IsTemp.not_avatar (h : IsTemp tmp) : ¬ IsAvatarKey tmp := by
  obtain ⟨dir, hdir, hdot⟩ := h
  rintro ⟨id, ext, rfl⟩
  have hval : (avatarKey id ext).val = avatarsPrefix ++ (hyphenated id ++ ext.val) := by simp [avatarKey, avatarsPrefix]
  obtain ⟨c, cs, hcons⟩ := List.exists_cons_of_ne_nil (hyphenated_ne_nil id)
  rw [hval] at hdot
  have hprefix : avatarsPrefix <+: avatarsPrefix ++ (hyphenated id ++ ext.val) := List.prefix_append _ _
  simp only [List.mem_cons, List.not_mem_nil, or_false] at hdir
  rcases hdir with rfl | rfl | rfl
  · exact absurd (first_letter_eq hprefix hdot) (by decide)
  · exact absurd (first_letter_eq hprefix hdot) (by decide)
  · rw [List.prefix_append_right_inj, hcons] at hdot
    obtain ⟨t, ht⟩ := hdot
    obtain rfl : '.' = c := (List.cons.inj ht).1
    exact (mem_hyphenated (hcons ▸ List.mem_cons_self : '.' ∈ hyphenated id)).1 rfl

theorem not_avatar_of_named (h : Named key) : ¬ IsAvatarKey key := fun havatar =>
  let ⟨slot, hholds⟩ := exists_holds h
  not_holds_of_avatar havatar slot hholds

end


/-! ## The invariant -/

/-- The key is stored, or has a row, or has been listed. -/
def Seen (d : Dedupe.World) (t : Holdings) (key : ObjKey) : Prop :=
  (∃ object : SafeKey, (d.store object).isSome = true ∧ object.val = key) ∨
    (∃ row ∈ d.objects.rows, row.storageKey.val = key) ∨ .listed key ∈ t

/-- The slot has been used. -/
def Taken (d : Dedupe.World) (t : Holdings) (slot : Slot) : Prop :=
  (∃ row ∈ d.files.rows, slot = .row row.idCore) ∨ ∃ key, slot.Holds key ∧ Seen d t key

/-- The object has a row that is counted. -/
def Counted (d : Dedupe.World) (key : SafeKey) : Prop :=
  ∃ row ∈ d.objects.rows, row.storageKey = key ∧ 0 < row.refcount

/-- The key is one of the avatars of the user. -/
def AvatarOf (id : Uuid) (key : SafeKey) : Prop := ∃ ext, key = avatarKey id ext

/-- What somebody who has begun this knows. -/
def Holding.Means (d : Dedupe.World) (t : Holdings) : Holding → Prop
  | free slot => slot.core ∈ d.usedIdCores ∧ ¬ Taken d t slot
  | found sha256 => ∃ row ∈ d.objects.rows, row.sha256 = sha256
  | fresh key | held key => Counted d key
  | temp tmp => (d.store tmp).isSome = true ∧ IsTemp tmp
  | put key => (d.store key).isSome = true ∧ IsAvatarKey key
  | vacant key => .listed key ∈ t ∧ ∀ row ∈ d.objects.rows, row.storageKey.val ≠ key
  | locks key lock => ∃ row ∈ d.objects.rows, row.storageKey.val = key ∧ row.refcount = lock.refcount
  | deleted _ | listed _ => True

/-- Something depends on this, besides the request that has begun it. -/
def Holding.matters : Holding → Bool
  | listed _ | fresh _ | locks _ _ | deleted _ => true
  | _ => false

/-- What there is one of. -/
inductive Title where
  | slot (slot : Slot)
  | temp (tmp : SafeKey)
  | row (key : ObjKey)
deriving DecidableEq

def Holding.title : Holding → Option Title
  | free slot => some (.slot slot)
  | temp tmp => some (.temp tmp)
  | locks key _ => some (.row key)
  | _ => none

theorem Holding.title_eq_slot {h : Holding} {slot : Slot} : h.title = some (.slot slot) ↔ h = .free slot := by
  cases h <;> simp [title]

theorem Holding.title_eq_temp {h : Holding} {tmp : SafeKey} : h.title = some (.temp tmp) ↔ h = .temp tmp := by
  cases h <;> simp [title]

theorem Holding.title_eq_row {h : Holding} {key : ObjKey} :
    h.title = some (.row key) ↔ ∃ lock, h = .locks key lock := by
  cases h <;> simp [title]

/-- No two requests hold the same. -/
def Sole (t : Holdings) : Prop := (t.filterMap Holding.title).Nodup

/-- The bytes of an object are stored, or about to be, or its row is about to be deleted. -/
def Provided (d : Dedupe.World) (t : Holdings) (key : SafeKey) : Prop :=
  (d.store key).isSome = true ∨ .fresh key ∈ t ∨ .locks key.val .bare ∈ t ∨ .locks key.val .dying ∈ t

/-- **The invariant**; `files` are the rows of files at the start. -/
structure Guarded (files : List FileRow) (d : Dedupe.World) (column : Uuid → Option SafeKey) (t : Holdings) :
    Prop where
  sole : Sole t
  means : ∀ h ∈ t, h.Means d t
  used : ∀ slot, Taken d t slot → slot.core ∈ d.usedIdCores
  objects : ∀ row ∈ d.objects.rows, Named row.storageKey ∧ Provided d t row.storageKey
  written : ∀ row ∈ d.files.rows, row ∈ files ∨ Counted d row.storageKey
  recorded : ∀ id key, column id = some key → AvatarOf id key ∧ ((d.store key).isSome = true ∨ .deleted key ∈ t)

/-! ### What there is one of -/

section

variable {t t' g f : Holdings} {h h' : Holding} {x : Title} {p : Holding → Prop} [DecidablePred p]

theorem Sole.le (hsole : Sole t) (hle : t' ≤ t) : Sole t' :=
  Multiset.nodup_of_le (Multiset.filterMap_le_filterMap _ hle) hsole

theorem Sole.cons (hsole : Sole t) (hnew : ∀ x, h.title = some x → ∀ h' ∈ t, h'.title ≠ some x) : Sole (h ::ₘ t) := by
  unfold Sole
  cases hx : h.title with
  | none =>
    rw [Multiset.filterMap_cons_none _ _ hx]
    exact hsole
  | some x =>
    rw [Multiset.filterMap_cons_some _ _ _ hx]
    refine Multiset.nodup_cons.2 ⟨fun hmem => ?_, hsole⟩
    obtain ⟨h', hh', hx'⟩ := (Multiset.mem_filterMap _ _).1 hmem
    exact hnew x hx h' hh' hx'

theorem Sole.add (hsole : Sole t) (hx : h.title = none) : Sole (h ::ₘ t) :=
  hsole.cons fun x hx' => absurd (hx.symm.trans hx') (by simp)

/-- Two requests do not hold the same. -/
theorem Sole.apart (hsole : Sole (g + f)) (hg : h ∈ g) (hf : h' ∈ f) (hx : h.title = some x) : h'.title ≠ some x := by
  intro hx'
  unfold Sole at hsole
  rw [Multiset.filterMap_add, Multiset.nodup_add] at hsole
  exact Multiset.disjoint_left.1 hsole.2.2 ((Multiset.mem_filterMap _ _).2 ⟨h, hg, hx⟩)
    ((Multiset.mem_filterMap _ _).2 ⟨h', hf, hx'⟩)

theorem mem_of_kept (hmem : h ∈ g.filter p + f) : h ∈ g + f :=
  Multiset.mem_of_le (Multiset.add_le_add_right (Multiset.filter_le p g)) hmem

theorem mem_kept (hmem : h ∈ g + f) (hp : h ∈ g → p h) : h ∈ g.filter p + f := by
  rw [Multiset.mem_add] at hmem ⊢
  exact hmem.imp_left fun hg => Multiset.mem_filter.2 ⟨hg, hp hg⟩

theorem Sole.kept (hsole : Sole (g + f)) : Sole (g.filter p + f) :=
  hsole.le (Multiset.add_le_add_right (Multiset.filter_le p g))

/-- What has been dropped is not held by anybody else. -/
theorem Sole.dropped (hsole : Sole (g + f)) (hg : h ∈ g) (hx : h.title = some x) (hp : ∀ h', h'.title = some x → ¬ p h')
    (hmem : h' ∈ g.filter p + f) : h'.title ≠ some x := by
  rcases Multiset.mem_add.1 hmem with hmem | hmem
  · exact fun hx' => hp h' hx' (Multiset.mem_filter.1 hmem).2
  · exact hsole.apart hg hmem hx

theorem Sole.forgotten (hsole : Sole (g + f)) (hg : h ∈ g) (hx : h.title = some x) : h ∉ g.filter (· ≠ h) + f := by
  intro hmem
  rcases Multiset.mem_add.1 hmem with hmem | hmem
  · exact (Multiset.mem_filter.1 hmem).2 rfl
  · exact hsole.apart hg hmem hx hx

/-- A lock that is given back is not held by anybody. -/
theorem Sole.unlocked (hsole : Sole (g + f)) {key : ObjKey} {lock : Lock} (hg : .locks key lock ∈ g)
    (hmem : h' ∈ unlock key g + f) : h'.title ≠ some (.row key) := by
  refine hsole.dropped hg rfl (fun h'' hx => ?_) hmem
  obtain ⟨lock', rfl⟩ := Holding.title_eq_row.1 hx
  simp [Holding.locksRow]

end

/-! ### Uploads of files -/

section

variable {files : List FileRow} {d d' : Dedupe.World} {column : Uuid → Option SafeKey} {t t' g f : Holdings}
  {key tmp : SafeKey} {core : Core}

/-- Nothing is listed by an operation that adds no such holding. -/
theorem Taken.mono {slot : Slot} (h : Taken d' t' slot) (hfiles : ∀ row ∈ d'.files.rows, row ∈ d.files.rows)
    (hstore : ∀ key, (d'.store key).isSome = true → slot.Holds key.val → Seen d t key.val)
    (hobjects : ∀ row ∈ d'.objects.rows, slot.Holds row.storageKey.val → Seen d t row.storageKey.val)
    (hlisted : ∀ key, .listed key ∈ t' → .listed key ∈ t) : Taken d t slot := by
  rcases h with ⟨row, hrow, hslot⟩ | ⟨key, hholds, ⟨object, hstored, rfl⟩ | ⟨row, hrow, rfl⟩ | hmem⟩
  · exact .inl ⟨row, hfiles row hrow, hslot⟩
  · exact .inr ⟨_, hholds, hstore object hstored hholds⟩
  · exact .inr ⟨_, hholds, hobjects row hrow hholds⟩
  · exact .inr ⟨key, hholds, .inr (.inr (hlisted key hmem))⟩

/-- Where only holdings change. -/
theorem Taken.trade {slot : Slot} (h : Taken d t' slot) (hlisted : ∀ key, .listed key ∈ t' → .listed key ∈ t) :
    Taken d t slot :=
  h.mono (fun _ h => h) (fun key h _ => .inl ⟨key, h, rfl⟩) (fun row h _ => .inr (.inl ⟨row, h, rfl⟩)) hlisted

/-- A core is claimed. -/
theorem Guarded.claimCore (h : Guarded files d column t) (hcore : core ∉ d.usedIdCores) :
    Guarded files { d with usedIdCores := core :: d.usedIdCores } column
      (.free (.row core) ::ₘ .free (.object core) ::ₘ .free (.thumb core) ::ₘ t) := by
  have hold : ∀ slot, .free slot ∈ t → slot.core ≠ core := by
    rintro slot hmem rfl
    exact hcore (h.means _ hmem).1
  have hlisted : ∀ key, .listed key ∈ .free (.row core) ::ₘ .free (.object core) ::ₘ .free (.thumb core) ::ₘ t →
      .listed key ∈ t := fun key hmem => by simpa using hmem
  have htaken : ∀ {slot : Slot}, Taken { d with usedIdCores := core :: d.usedIdCores } (.free (.row core) ::ₘ
      .free (.object core) ::ₘ .free (.thumb core) ::ₘ t) slot → Taken d t slot := fun htaken =>
    Taken.trade (d := d) htaken hlisted
  have hnew : ∀ slot : Slot, slot.core = core → Holding.Means { d with usedIdCores := core :: d.usedIdCores }
      (.free (.row core) ::ₘ .free (.object core) ::ₘ .free (.thumb core) ::ₘ t) (.free slot) := by
    rintro slot rfl
    exact ⟨List.mem_cons_self, fun hslot => hcore (h.used slot (htaken hslot))⟩
  have hapart : ∀ slot : Slot, slot.core = core → ∀ x, Holding.title (.free slot) = some x → ∀ h' ∈ t,
      h'.title ≠ some x := by
    rintro slot hslot _ ⟨⟩ h' hmem htitle
    obtain rfl := Holding.title_eq_slot.1 htitle
    exact hold _ hmem hslot
  refine ⟨?_, fun h' hmem => ?_, fun slot hslot => List.mem_cons_of_mem _ (h.used slot (htaken hslot)),
    fun row hrow => ?_, h.written, fun id key hkey => ?_⟩
  · refine ((h.sole.cons (hapart (.thumb core) rfl)).cons ?_).cons ?_
    · rintro _ ⟨⟩ h' hmem
      rcases Multiset.mem_cons.1 hmem with rfl | hmem
      · simp [Holding.title]
      · exact hapart (.object core) rfl _ rfl h' hmem
    · rintro _ ⟨⟩ h' hmem
      rcases Multiset.mem_cons.1 hmem with rfl | hmem
      · simp [Holding.title]
      · rcases Multiset.mem_cons.1 hmem with rfl | hmem
        · simp [Holding.title]
        · exact hapart (.row core) rfl _ rfl h' hmem
  · simp only [Multiset.mem_cons] at hmem
    rcases hmem with rfl | rfl | rfl | hmem
    · exact hnew _ rfl
    · exact hnew _ rfl
    · exact hnew _ rfl
    · have hmeans := h.means h' hmem
      cases h' with
      | free slot => exact ⟨List.mem_cons_of_mem _ hmeans.1, fun hslot => hmeans.2 (htaken hslot)⟩
      | vacant key => exact ⟨by simpa using hmeans.1, hmeans.2⟩
      | _ => exact hmeans
  · obtain ⟨hnamed, hprovided⟩ := h.objects row hrow
    exact ⟨hnamed, by simpa [Provided] using hprovided⟩
  · simpa using h.recorded id key hkey

theorem Provided.trade (h : Provided d t key) (hfresh : .fresh key ∈ t → .fresh key ∈ t')
    (hlocks : ∀ lock, .locks key.val lock ∈ t → .locks key.val lock ∈ t') : Provided d t' key :=
  h.imp_right (.imp hfresh (.imp (hlocks _) (hlocks _)))

theorem Holding.Means.trade {h : Holding} (hmeans : h.Means d t) (hlisted : ∀ key, .listed key ∈ t' ↔ .listed key ∈ t) :
    h.Means d t' := by
  cases h with
  | free slot => exact ⟨hmeans.1, fun hslot => hmeans.2 (hslot.trade fun key => (hlisted key).1)⟩
  | vacant key => exact ⟨(hlisted key).2 hmeans.1, hmeans.2⟩
  | _ => exact hmeans

/-- Only holdings change. -/
theorem Guarded.trade (h : Guarded files d column t) (hsole : Sole t')
    (hlisted : ∀ key, .listed key ∈ t' ↔ .listed key ∈ t) (hmeans : ∀ h' ∈ t', h' ∈ t ∨ h'.Means d t)
    (hprovided : ∀ row ∈ d.objects.rows, Provided d t row.storageKey → Provided d t' row.storageKey)
    (hdeleted : ∀ id key, column id = some key → .deleted key ∈ t → (d.store key).isSome = true ∨ .deleted key ∈ t') :
    Guarded files d column t' where
  sole := hsole
  means h' hmem := ((hmeans h' hmem).elim (h.means h') id).trade hlisted
  used slot hslot := h.used slot (hslot.trade fun key => (hlisted key).1)
  objects row hrow := (h.objects row hrow).imp_right (hprovided row hrow)
  written := h.written
  recorded id key hkey := (h.recorded id key hkey).imp_right fun hstored => hstored.elim .inl (hdeleted id key hkey)

/-- Something more is known. -/
theorem Guarded.gain (h : Guarded files d column t) {new : Holding} (hsole : Sole (new ::ₘ t))
    (hnot : ∀ key, new ≠ .listed key) (hmeans : new.Means d t) : Guarded files d column (new ::ₘ t) := by
  refine h.trade hsole (fun key => ?_) (fun h' hmem => ?_) (fun row _ hprovided => ?_)
    fun id key _ hmem => .inr (Multiset.mem_cons_of_mem hmem)
  · exact Multiset.mem_cons.trans (or_iff_right fun heq => hnot key heq.symm)
  · exact (Multiset.mem_cons.1 hmem).elim (fun heq => .inr (heq ▸ hmeans)) .inl
  · exact hprovided.trade Multiset.mem_cons_of_mem fun _ => Multiset.mem_cons_of_mem

/-- Something is dropped that nothing depends on any more. -/
theorem Guarded.drop (h : Guarded files d column (g + f)) {p : Holding → Prop} [DecidablePred p]
    (hlisted : ∀ key, p (.listed key)) (hfresh : ∀ key, .fresh key ∈ g → p (.fresh key) ∨ (d.store key).isSome = true)
    (hlocks : ∀ key lock, .locks key lock ∈ g → p (.locks key lock) ∨ lock ≠ .bare ∧ lock ≠ .dying ∨
      ∀ row ∈ d.objects.rows, row.storageKey.val ≠ key)
    (hdeleted : ∀ id key, column id = some key → .deleted key ∈ g → p (.deleted key) ∨ (d.store key).isSome = true) :
    Guarded files d column (g.filter p + f) := by
  have hkept : ∀ {h' : Holding}, h' ∈ g + f → h' ∈ g.filter p + f ∨ h' ∈ g ∧ ¬ p h' := by
    intro h' hmem
    by_cases hp : h' ∈ g → p h'
    · exact .inl (mem_kept hmem hp)
    · exact .inr (Classical.not_imp.1 hp)
  refine h.trade h.sole.kept (fun key => ⟨mem_of_kept, fun hmem => mem_kept hmem fun _ => hlisted key⟩)
    (fun h' hmem => .inl (mem_of_kept hmem)) (fun row hrow hprovided => ?_) fun id key hkey hmem => ?_
  · have hlock : ∀ {lock : Lock}, .locks row.storageKey.val lock ∈ g + f → lock = .bare ∨ lock = .dying →
        .locks row.storageKey.val lock ∈ g.filter p + f := by
      intro lock hmem hlock
      refine (hkept hmem).resolve_right fun hgone => ?_
      rcases hlocks _ lock hgone.1 with hp | hne | hnone
      · exact hgone.2 hp
      · exact hlock.elim hne.1 hne.2
      · exact hnone row hrow rfl
    rcases hprovided with hstored | hmem | hmem | hmem
    · exact .inl hstored
    · rcases hkept hmem with hmem | ⟨hmem, hp⟩
      · exact .inr (.inl hmem)
      · exact .inl ((hfresh _ hmem).resolve_left hp)
    · exact .inr (.inr (.inl (hlock hmem (.inl rfl))))
    · exact .inr (.inr (.inr (hlock hmem (.inr rfl))))
  · rcases hkept hmem with hmem | ⟨hmem, hp⟩
    · exact .inr hmem
    · exact .inl ((hdeleted id key hkey hmem).resolve_left hp)

/-- Something is dropped that only the request itself needs. -/
theorem Guarded.forget (h : Guarded files d column (g + f)) (x : Holding) (hx : x.matters = false) :
    Guarded files d column (g.filter (· ≠ x) + f) := by
  have hne : ∀ h' : Holding, h'.matters = true → h' ≠ x := by
    rintro h' hh' rfl
    rw [hx] at hh'
    cases hh'
  exact h.drop (fun _ => hne _ rfl) (fun _ _ => .inl (hne _ rfl)) (fun _ _ _ => .inl (hne _ rfl))
    fun _ _ _ _ => .inl (hne _ rfl)

/-- **The store changes**: bytes are written where nothing else could be, and what is taken away is needed by
nobody. -/
theorem Guarded.restore (h : Guarded files d column t) {store : SafeKey → Option Bytes}
    (hnew : ∀ key, (store key).isSome = true → Seen d t key.val ∨ ∀ slot : Slot, ¬ slot.Holds key.val)
    (hgone : ∀ key, (d.store key).isSome = true → (store key).isSome = true ∨
      (∀ row ∈ d.objects.rows, row.storageKey = key → .fresh key ∈ t ∨ .locks key.val .bare ∈ t ∨
        .locks key.val .dying ∈ t) ∧
      .temp key ∉ t ∧ .put key ∉ t ∧ ∀ id, column id = some key → .deleted key ∈ t) :
    Guarded files { d with store := store } column t := by
  have htaken : ∀ {slot : Slot}, Taken { d with store := store } t slot → Taken d t slot := fun hslot =>
    hslot.mono (fun _ h => h) (fun key hstored hholds => (hnew key hstored).resolve_right fun hnot => hnot _ hholds)
      (fun row hrow _ => .inr (.inl ⟨row, hrow, rfl⟩)) fun _ h => h
  refine ⟨h.sole, fun h' hmem => ?_, fun slot hslot => h.used slot (htaken hslot), fun row hrow => ?_, h.written,
    fun id key hkey => ?_⟩
  · have hmeans := h.means h' hmem
    cases h' with
    | free slot => exact ⟨hmeans.1, fun hslot => hmeans.2 (htaken hslot)⟩
    | temp tmp => exact ⟨(hgone tmp hmeans.1).resolve_right fun hlost => hlost.2.1 hmem, hmeans.2⟩
    | put key => exact ⟨(hgone key hmeans.1).resolve_right fun hlost => hlost.2.2.1 hmem, hmeans.2⟩
    | _ => exact hmeans
  · obtain ⟨hnamed, hstored | hprovided⟩ := h.objects row hrow
    · exact ⟨hnamed, (hgone _ hstored).imp_right fun hlost => hlost.1 row hrow rfl⟩
    · exact ⟨hnamed, .inr hprovided⟩
  · obtain ⟨howner, hstored | hdeleted⟩ := h.recorded id key hkey
    · exact ⟨howner, (hgone key hstored).imp_right fun hlost => hlost.2.2.2 id hkey⟩
    · exact ⟨howner, .inr hdeleted⟩

/-- A row is inserted. -/
theorem Guarded.insertObject (h : Guarded files d column (g + f)) {row : Dedupe.ObjectRow} {slot : Slot}
    (hnamed : Named row.storageKey) (hfree : .free slot ∈ g) (hholds : slot.Holds row.storageKey.val)
    (hone : row.refcount = 1) (hsha : ∀ s ∈ d.objects.rows, s.sha256 ≠ row.sha256)
    (hkey : ∀ s ∈ d.objects.rows, s.storageKey ≠ row.storageKey) :
    Guarded files { d with objects := d.objects.insert row hsha hkey } column
      (.fresh row.storageKey ::ₘ .held row.storageKey ::ₘ
        g.filter (fun h => h.frees row.storageKey.val = false) + f) := by
  obtain ⟨hcore, hnot⟩ : slot.core ∈ d.usedIdCores ∧ ¬ Taken d (g + f) slot :=
    h.means _ (Multiset.mem_add.2 (.inl hfree))
  rw [Multiset.cons_add, Multiset.cons_add]
  generalize hk : g.filter (fun h => h.frees row.storageKey.val = false) + f = kept
  have hkept : ∀ h', h' ∈ kept → h' ∈ g + f := fun h' hmem => mem_of_kept (hk ▸ hmem)
  have hkeep : ∀ h' : Holding, h'.frees row.storageKey.val = false → h' ∈ g + f → h' ∈ kept := fun h' hp hmem =>
    hk ▸ mem_kept hmem fun _ => hp
  -- the slot of the key is not free any more
  have hused : .free slot ∉ kept := fun hmem => h.sole.dropped hfree rfl (fun h' hx => by
    obtain rfl := Holding.title_eq_slot.1 hx
    simp [Holding.frees, hholds]) (hk ▸ hmem) rfl
  have htaken : ∀ {slot' : Slot} {t' : Holdings}, (∀ key, .listed key ∈ t' → .listed key ∈ g + f) →
      Taken { d with objects := d.objects.insert row hsha hkey } t' slot' → Taken d (g + f) slot' ∨ slot' = slot := by
    intro slot' t' hlisted hslot
    by_cases heq : slot' = slot
    · exact .inr heq
    · refine .inl (hslot.mono (fun _ h => h) (fun key h _ => .inl ⟨key, h, rfl⟩) (fun s hs hs' => ?_) hlisted)
      rcases List.mem_cons.1 hs with rfl | hs
      · exact absurd (slot_eq hs' hholds) heq
      · exact .inr (.inl ⟨s, hs, rfl⟩)
  have hlisted : ∀ key, .listed key ∈ .fresh row.storageKey ::ₘ .held row.storageKey ::ₘ kept → .listed key ∈ g + f :=
    fun key hmem => hkept _ (by simpa using hmem)
  have hcounted : ∀ {key : SafeKey}, Counted d key → Counted { d with objects := d.objects.insert row hsha hkey } key :=
    fun ⟨s, hs, hcount⟩ => ⟨s, List.mem_cons_of_mem _ hs, hcount⟩
  have hmine : Counted { d with objects := d.objects.insert row hsha hkey } row.storageKey :=
    ⟨row, List.mem_cons_self, rfl, by omega⟩
  refine ⟨((hk ▸ h.sole.kept).add rfl).add rfl, fun h' hmem => ?_, fun slot' hslot => ?_, fun s hs => ?_,
    fun s hs => (h.written s hs).imp_right hcounted, fun id key hrecorded => ?_⟩
  · simp only [Multiset.mem_cons] at hmem
    rcases hmem with rfl | rfl | hmem
    · exact hmine
    · exact hmine
    · have hmeans := h.means h' (hkept _ hmem)
      cases h' with
      | free slot' =>
        refine ⟨hmeans.1, fun hslot => ?_⟩
        rcases htaken hlisted hslot with hslot | rfl
        · exact hmeans.2 hslot
        · exact hused hmem
      | found sha256 =>
        obtain ⟨s, hs, hsha'⟩ := hmeans
        exact ⟨s, List.mem_cons_of_mem _ hs, hsha'⟩
      | fresh key | held key => exact hcounted hmeans
      | vacant key =>
        refine ⟨by simpa using hkeep (.listed key) rfl hmeans.1, fun s hs => ?_⟩
        rcases List.mem_cons.1 hs with rfl | hs
        · rintro rfl
          exact hnot (.inr ⟨_, hholds, .inr (.inr hmeans.1)⟩)
        · exact hmeans.2 s hs
      | locks key lock =>
        obtain ⟨s, hs, hlock⟩ := hmeans
        exact ⟨s, List.mem_cons_of_mem _ hs, hlock⟩
      | temp | put | deleted | listed => exact hmeans
  · rcases htaken hlisted hslot with hslot | rfl
    · exact h.used slot' hslot
    · exact hcore
  · rcases List.mem_cons.1 hs with rfl | hs
    · exact ⟨hnamed, .inr (.inl (Multiset.mem_cons_self _ _))⟩
    · obtain ⟨hname, hprovided⟩ := h.objects s hs
      refine ⟨hname, Provided.trade (d := d) hprovided (fun hmem => ?_) fun lock hmem => ?_⟩
      · simp [hkeep _ rfl hmem]
      · simp [hkeep _ rfl hmem]
  · obtain ⟨howner, hstored⟩ := h.recorded id key hrecorded
    refine ⟨howner, hstored.imp_right fun hmem => ?_⟩
    simp [hkeep _ rfl hmem]

/-- **The rows of objects change**: the keys and digests stay, and a row that is not locked may be counted once
more. -/
theorem Guarded.bump (h : Guarded files d column t) (sha256 : Digest)
    (hfree : ∀ row ∈ d.objects.rows, row.sha256 = sha256 → ∀ lock, .locks row.storageKey.val lock ∉ t) :
    Guarded files { d with objects := d.objects.setRefcount (fun row => row.sha256 = sha256) (· + 1) } column t := by
  generalize hobjects : d.objects.setRefcount (fun row => row.sha256 = sha256) (· + 1) = objects
  have hback : ∀ row ∈ objects.rows, ∃ s ∈ d.objects.rows, s.storageKey = row.storageKey ∧ s.sha256 = row.sha256 := by
    subst hobjects
    intro row hrow
    rcases mem_updateWhere.1 hrow with ⟨hrow, -⟩ | ⟨s, hs, -, rfl⟩
    · exact ⟨row, hrow, rfl, rfl⟩
    · exact ⟨s, hs, rfl, rfl⟩
  have hforth : ∀ row ∈ d.objects.rows, ∃ s ∈ objects.rows, s.storageKey = row.storageKey ∧ s.sha256 = row.sha256 ∧
      row.refcount ≤ s.refcount ∧ (row.sha256 ≠ sha256 → s.refcount = row.refcount) := by
    subst hobjects
    intro row hrow
    by_cases hp : row.sha256 = sha256
    · exact ⟨_, mem_updateWhere.2 (.inr ⟨row, hrow, decide_eq_true hp, rfl⟩), rfl, rfl, Nat.le_succ _,
        fun hne => absurd hp hne⟩
    · exact ⟨row, mem_updateWhere.2 (.inl ⟨hrow, decide_eq_false hp⟩), rfl, rfl, le_rfl, fun _ => rfl⟩
  have hcounted : ∀ {key : SafeKey}, Counted d key → Counted { d with objects := objects } key := by
    rintro key ⟨row, hrow, rfl, hpos⟩
    obtain ⟨s, hs, hkey, -, hle, -⟩ := hforth row hrow
    exact ⟨s, hs, hkey, hpos.trans_le hle⟩
  have htaken : ∀ {slot : Slot}, Taken { d with objects := objects } t slot → Taken d t slot := fun hslot =>
    hslot.mono (fun _ h => h) (fun key h _ => .inl ⟨key, h, rfl⟩) (fun row hrow _ => by
      obtain ⟨s, hs, hkey, -⟩ := hback row hrow
      exact .inr (.inl ⟨s, hs, congrArg Subtype.val hkey⟩)) fun _ h => h
  refine ⟨h.sole, fun h' hmem => ?_, fun slot hslot => h.used slot (htaken hslot), fun row hrow => ?_,
    fun row hrow => (h.written row hrow).imp_right hcounted, h.recorded⟩
  · have hmeans := h.means h' hmem
    cases h' with
    | free slot => exact ⟨hmeans.1, fun hslot => hmeans.2 (htaken hslot)⟩
    | found sha =>
      obtain ⟨row, hrow, rfl⟩ := hmeans
      obtain ⟨s, hs, -, hsha, -⟩ := hforth row hrow
      exact ⟨s, hs, hsha⟩
    | fresh key | held key => exact hcounted hmeans
    | vacant key =>
      refine ⟨hmeans.1, fun row hrow => ?_⟩
      obtain ⟨s, hs, hkey, -⟩ := hback row hrow
      exact hkey ▸ hmeans.2 s hs
    | locks key lock =>
      obtain ⟨row, hrow, rfl, hcount⟩ := hmeans
      obtain ⟨s, hs, hkey, -, -, hsame⟩ := hforth row hrow
      refine ⟨s, hs, congrArg Subtype.val hkey, (hsame fun hsha => ?_).trans hcount⟩
      exact hfree row hrow hsha lock hmem
    | temp | put | deleted | listed => exact hmeans
  · obtain ⟨s, hs, hkey, -⟩ := hback row hrow
    exact hkey ▸ h.objects s hs

/-- A row of files is inserted. -/
theorem Guarded.insertFile (h : Guarded files d column t) {row : FileRow}
    (hcore : ∀ s ∈ d.files.rows, s.idCore ≠ row.idCore)
    (hused : row.idCore ∈ d.usedIdCores) (hfree : .free (.row row.idCore) ∉ t) (hheld : Counted d row.storageKey) :
    Guarded files { d with files := d.files.insert row hcore } column t := by
  have htaken : ∀ {slot : Slot}, Taken { d with files := d.files.insert row hcore } t slot →
      Taken d t slot ∨ slot = .row row.idCore := by
    rintro slot (⟨s, hs, hslot⟩ | hseen)
    · rcases List.mem_cons.1 hs with rfl | hs
      · exact .inr hslot
      · exact .inl (.inl ⟨s, hs, hslot⟩)
    · exact .inl (.inr hseen)
  refine ⟨h.sole, fun h' hmem => ?_, fun slot hslot => ?_, h.objects, fun s hs => ?_, h.recorded⟩
  · have hmeans := h.means h' hmem
    cases h' with
    | free slot =>
      refine ⟨hmeans.1, fun hslot => ?_⟩
      rcases htaken hslot with hslot | rfl
      · exact hmeans.2 hslot
      · exact hfree hmem
    | _ => exact hmeans
  · rcases htaken hslot with hslot | rfl
    · exact h.used slot hslot
    · exact hused
  · rcases List.mem_cons.1 hs with rfl | hs
    · exact .inr hheld
    · exact h.written s hs

/-! ### Uploads of avatars, and collections -/

/-- An avatar is recorded that is stored. -/
theorem Guarded.record (h : Guarded files d column t) {id : Uuid} (howner : AvatarOf id key)
    (hstored : (d.store key).isSome = true) : Guarded files d (Function.update column id (some key)) t := by
  refine ⟨h.sole, h.means, h.used, h.objects, h.written, fun id' key' hkey' => ?_⟩
  by_cases heq : id' = id
  · subst heq
    rw [Function.update_self] at hkey'
    obtain rfl := Option.some.inj hkey'
    exact ⟨howner, .inl hstored⟩
  · rw [Function.update_of_ne heq] at hkey'
    exact h.recorded id' key' hkey'

/-- What is stored is listed. -/
theorem Guarded.list (h : Guarded files d column t) (keys : List ObjKey)
    (hkeys : ∀ key ∈ keys, ∃ object : SafeKey, (d.store object).isSome = true ∧ object.val = key) :
    Guarded files d column ((keys.map Holding.listed : List Holding) + t) := by
  have hmem : ∀ {h' : Holding}, h' ∈ (keys.map Holding.listed : List Holding) + t ↔
      (∃ key ∈ keys, h' = .listed key) ∨ h' ∈ t := by
    intro h'
    simp [eq_comm]
  have htaken : ∀ {slot : Slot}, Taken d ((keys.map Holding.listed : List Holding) + t) slot → Taken d t slot := by
    rintro slot (hrow | ⟨key, hholds, hstored | hrow | hlisted⟩)
    · exact .inl hrow
    · exact .inr ⟨key, hholds, .inl hstored⟩
    · exact .inr ⟨key, hholds, .inr (.inl hrow)⟩
    · rcases hmem.1 hlisted with ⟨_, hkey, ⟨⟩⟩ | hlisted
      · exact .inr ⟨key, hholds, .inl (hkeys key hkey)⟩
      · exact .inr ⟨key, hholds, .inr (.inr hlisted)⟩
  refine ⟨?_, fun h' hh' => ?_, fun slot hslot => h.used slot (htaken hslot), fun row hrow => ?_, h.written,
    fun id key hkey => ?_⟩
  · unfold Sole
    have hnone : Multiset.filterMap Holding.title (keys.map Holding.listed : List Holding) = 0 := by
      rw [Multiset.eq_zero_iff_forall_notMem]
      intro x hx
      obtain ⟨h', hh', htitle⟩ := (Multiset.mem_filterMap _ _).1 hx
      obtain ⟨key, -, rfl⟩ := List.mem_map.1 hh'
      cases htitle
    rw [Multiset.filterMap_add, hnone, zero_add]
    exact h.sole
  · rcases hmem.1 hh' with ⟨key, -, rfl⟩ | hold
    · trivial
    · have hmeans := h.means h' hold
      cases h' with
      | free slot => exact ⟨hmeans.1, fun hslot => hmeans.2 (htaken hslot)⟩
      | vacant key => exact ⟨hmem.2 (.inr hmeans.1), hmeans.2⟩
      | _ => exact hmeans
  · obtain ⟨hnamed, hprovided⟩ := h.objects row hrow
    exact ⟨hnamed, hprovided.trade (fun h => hmem.2 (.inr h)) fun _ h => hmem.2 (.inr h)⟩
  · exact (h.recorded id key hkey).imp_right fun hstored => hstored.imp_right fun h => hmem.2 (.inr h)

/-- A locked row, and what its transaction has done. -/
theorem Guarded.relock (h : Guarded files d column (g + f)) {key : ObjKey} {lock : Lock} (lock' : Lock)
    (hmem : .locks key lock ∈ g) (hcount : lock.refcount = lock'.refcount) (hlock' : lock' = .bare ∨ lock' = .dying) :
    Guarded files d column (.locks key lock' ::ₘ unlock key g + f) := by
  rw [Multiset.cons_add]
  have hkeep : ∀ h' : Holding, h'.locksRow key = false → h' ∈ g + f → h' ∈ .locks key lock' ::ₘ (unlock key g + f) :=
    fun h' hp hh' => Multiset.mem_cons_of_mem (mem_kept hh' fun _ => hp)
  refine h.trade ?_ (fun key' => ?_) (fun h' hh' => ?_) (fun row _ hprovided => ?_) fun id key' _ hdeleted =>
    .inr (hkeep _ rfl hdeleted)
  · refine h.sole.kept.cons ?_
    rintro _ ⟨⟩ h' hh'
    exact h.sole.unlocked hmem hh'
  · refine ⟨fun hh' => mem_of_kept ((Multiset.mem_cons.1 hh').resolve_left (by simp)), fun hh' => hkeep _ rfl hh'⟩
  · rcases Multiset.mem_cons.1 hh' with rfl | hh'
    · obtain ⟨row, hrow, hkey, hrefcount⟩ := h.means _ (Multiset.mem_add.2 (.inl hmem))
      exact .inr ⟨row, hrow, hkey, hrefcount.trans hcount⟩
    · exact .inl (mem_of_kept hh')
  · by_cases hkey : row.storageKey.val = key
    · subst hkey
      rcases hlock' with rfl | rfl
      · exact .inr (.inr (.inl (Multiset.mem_cons_self _ _)))
      · exact .inr (.inr (.inr (Multiset.mem_cons_self _ _)))
    · exact hprovided.trade (hkeep _ rfl) fun _ => hkeep _ (decide_eq_false hkey)

/-- A row is deleted that is not counted and not found by an upload, and its lock is given back. -/
theorem Guarded.deleteRow (h : Guarded files d column t) {key : ObjKey} (hsole : Sole t') (hsub : ∀ h' ∈ t', h' ∈ t)
    (hkeep : ∀ h' ∈ t, h'.locksRow key = false → h' ∈ t') (hlocks : ∀ lock, .locks key lock ∉ t')
    (hzero : ∀ row ∈ d.objects.rows, row.storageKey.val = key → row.refcount = 0)
    (hfound : ∀ row ∈ d.objects.rows, row.storageKey.val = key → .found row.sha256 ∉ t) :
    Guarded files { d with objects := d.objects.delete fun row => row.storageKey.val = key && row.refcount ≤ 0 }
      column t' := by
  generalize hobjects : (d.objects.delete fun row => row.storageKey.val = key && row.refcount ≤ 0) = objects
  have hback : ∀ row ∈ objects.rows, row ∈ d.objects.rows ∧ row.storageKey.val ≠ key := by
    subst hobjects
    intro row hrow
    obtain ⟨hrow, hp⟩ := mem_deleteWhere.1 hrow
    refine ⟨hrow, fun hkey => ?_⟩
    simp [hkey, hzero row hrow hkey] at hp
  have hforth : ∀ row ∈ d.objects.rows, row.storageKey.val ≠ key → row ∈ objects.rows := by
    subst hobjects
    exact fun row hrow hne => mem_deleteWhere.2 ⟨hrow, by simp [hne]⟩
  have hcounted : ∀ {key : SafeKey}, Counted d key → Counted { d with objects := objects } key := by
    rintro key' ⟨row, hrow, hkey', hpos⟩
    refine ⟨row, hforth row hrow fun hkey => ?_, hkey', hpos⟩
    rw [hzero row hrow hkey] at hpos
    exact lt_irrefl _ hpos
  have htaken : ∀ {slot : Slot}, Taken { d with objects := objects } t' slot → Taken d t slot := fun hslot =>
    hslot.mono (fun _ h => h) (fun key h _ => .inl ⟨key, h, rfl⟩)
      (fun row hrow _ => .inr (.inl ⟨row, (hback row hrow).1, rfl⟩)) fun key hmem => hsub _ hmem
  refine ⟨hsole, fun h' hmem => ?_, fun slot hslot => h.used slot (htaken hslot), fun row hrow => ?_,
    fun row hrow => (h.written row hrow).imp_right hcounted, fun id key hkey => ?_⟩
  · have hmeans := h.means h' (hsub h' hmem)
    cases h' with
    | free slot => exact ⟨hmeans.1, fun hslot => hmeans.2 (htaken hslot)⟩
    | found sha =>
      obtain ⟨row, hrow, rfl⟩ := hmeans
      exact ⟨row, hforth row hrow fun hkey => hfound row hrow hkey (hsub _ hmem), rfl⟩
    | fresh key | held key => exact hcounted hmeans
    | vacant key => exact ⟨hkeep _ hmeans.1 rfl, fun row hrow => hmeans.2 row (hback row hrow).1⟩
    | locks key' lock =>
      obtain ⟨row, hrow, rfl, hcount⟩ := hmeans
      refine ⟨row, hforth row hrow ?_, rfl, hcount⟩
      rintro rfl
      exact hlocks lock hmem
    | temp | put | deleted | listed => exact hmeans
  · obtain ⟨hrow, hne⟩ := hback row hrow
    obtain ⟨hnamed, hprovided⟩ := h.objects row hrow
    exact ⟨hnamed, Provided.trade (d := d) hprovided (fun hmem => hkeep _ hmem rfl) fun lock hmem =>
      hkeep _ hmem (decide_eq_false hne)⟩
  · exact (h.recorded id key hkey).imp_right fun hstored => hstored.imp_right fun hmem => hkeep _ hmem rfl

/-! ### Temporary files -/

/-- What has been written is stored. -/
theorem isSome_update (store : SafeKey → Option Bytes) (key : SafeKey) (bytes : Bytes) :
    (Function.update store key (some bytes) key).isSome = true := by
  rw [Function.update_self]
  rfl

/-- A temporary file is created. -/
theorem Guarded.create (h : Guarded files d column t) {bytes : Bytes} (htemp : IsTemp tmp)
    (hnone : d.store tmp = none) :
    Guarded files { d with store := Function.update d.store tmp (some bytes) } column (.temp tmp ::ₘ t) := by
  have hstore : Guarded files { d with store := Function.update d.store tmp (some bytes) } column t := by
    refine h.restore (fun key hkey => ?_) fun key hkey => .inl ?_
    · by_cases heq : key = tmp
      · exact .inr (heq ▸ htemp.not_holds)
      · rw [Function.update_of_ne heq] at hkey
        exact .inl (.inl ⟨key, hkey, rfl⟩)
    · have hne : key ≠ tmp := by
        rintro rfl
        rw [hnone] at hkey
        cases hkey
      rwa [Function.update_of_ne hne]
  refine hstore.gain (h.sole.cons ?_) (by simp) ⟨isSome_update _ tmp bytes, htemp⟩
  rintro _ ⟨⟩ h' hmem htitle
  obtain rfl := Holding.title_eq_temp.1 htitle
  have hstored := (h.means _ hmem).1
  rw [hnone] at hstored
  cases hstored

/-- A temporary file gets its name. -/
theorem Guarded.rename (h : Guarded files d column (g + f)) (bytes : Bytes) (htemp : .temp tmp ∈ g)
    (hkey : Seen d (g.filter (· ≠ .temp tmp) + f) key.val ∨ ∀ slot : Slot, ¬ slot.Holds key.val) :
    Guarded files { d with store := Function.update (Function.update d.store tmp none) key (some bytes) } column
      (g.filter (· ≠ .temp tmp) + f) := by
  have hname : IsTemp tmp := (h.means _ (Multiset.mem_add.2 (.inl htemp))).2
  have hdrop := h.forget (.temp tmp) rfl
  refine hdrop.restore (fun key' hkey' => ?_) fun key' hkey' => ?_
  · by_cases heq : key' = key
    · exact heq ▸ hkey
    · rw [Function.update_of_ne heq] at hkey'
      by_cases htmp : key' = tmp
      · subst htmp
        rw [Function.update_self] at hkey'
        cases hkey'
      · rw [Function.update_of_ne htmp] at hkey'
        exact .inl (.inl ⟨key', hkey', rfl⟩)
  · by_cases heq : key' = key
    · subst heq
      exact .inl (isSome_update _ _ bytes)
    · by_cases htmp : key' = tmp
      · -- nothing but the upload knows of its temporary file
        subst htmp
        refine .inr ⟨fun row hrow hrowkey => ?_, fun hmem => ?_, fun hmem => ?_, fun id hid => ?_⟩
        · exact absurd (hrowkey ▸ (h.objects row hrow).1) hname.not_named
        · exact h.sole.forgotten htemp rfl hmem
        · exact absurd (hdrop.means _ hmem).2 hname.not_avatar
        · obtain ⟨⟨ext, hext⟩, -⟩ := h.recorded id key' hid
          exact absurd ⟨id, ext, hext⟩ hname.not_avatar
      · rw [Function.update_of_ne heq, Function.update_of_ne htmp]
        exact .inl hkey'

end

end Gc
end Uwuubox
