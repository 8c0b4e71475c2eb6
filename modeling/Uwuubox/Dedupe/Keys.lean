import Uwuubox.Storage.Fetch

/-!
# The keys of uploads

`file_key` of `src/storage.rs`, the thumbnail key of `src/routes/files.rs`, and the parts
they are made of.

* `Core` — an id core; `Ext` — an extension as `normalize_ext` returns it.
* `fileKey`, `thumbKey` — with them every key passes `assert_safe_key`, so both are a
  `SafeKey`.
* `Names` — the keys an upload with a given core can ask for.  A key has one core
  (`Names.core_eq`).
-/

namespace Uwuubox
namespace Dedupe

open Storage

/-- The alphabet of cores: no `0`, `O`, `1` or `l`. -/
def alphabet : List Char :=
  ['a', 'b', 'c', 'd', 'e', 'f', 'g', 'h', 'i', 'j', 'k', 'm', 'n', 'p', 'q', 'r', 's', 't',
    'u', 'v', 'w', 'x', 'y', 'z', '2', '3', '4', '5', '6', '7', '8', '9']

def idLen : ℕ := 8

/-- What `generate_core` draws. -/
abbrev Core := {cs : List Char // cs.length = idLen ∧ ∀ c ∈ cs, c ∈ alphabet}

/-- The letters of an extension after its dot. -/
def isExtChar (c : Char) : Bool := ('a' ≤ c && c ≤ 'z') || ('0' ≤ c && c ≤ '9')

/-- Nothing, or a dot and one to nine letters or digits. -/
def isExt : List Char → Bool
  | [] => true
  | dot :: tail => dot == '.' && 1 ≤ tail.length && tail.length ≤ 9 && tail.all isExtChar

/-- What `normalize_ext` returns. -/
abbrev Ext := {cs : List Char // isExt cs = true}

instance lawfulBEqCore : LawfulBEq Core := inferInstance

theorem isExt_nil : isExt [] = true := rfl

/-! ## Safety -/

/-- A key with at most one dot that starts with a letter is safe. -/
theorem assertSafeKey_of_count {c : Char} {cs : List Char} (hslash : c ≠ '/')
    (hdots : (c :: cs).count '.' ≤ 1) : assertSafeKey (c :: cs) = true := by
  have htwo : ¬ ['.', '.'] <:+: c :: cs := by
    intro hin
    have hle : ['.', '.'].count '.' ≤ (c :: cs).count '.' := hin.sublist.count_le '.'
    have : ['.', '.'].count '.' = 2 := by decide
    omega
  have hroot : ¬ ['/'] <+: c :: cs := by
    rintro ⟨t, ht⟩
    exact hslash (List.cons.inj ht).1.symm
  simp only [assertSafeKey, htwo, hroot, decide_false, Bool.not_false, List.isEmpty_cons, Bool.and_self]

theorem count_dot_core (core : Core) : core.val.count '.' = 0 := by
  rw [List.count_eq_zero]
  intro hmem
  exact absurd (core.property.2 _ hmem) (by decide)

theorem count_dot_ext (ext : Ext) : ext.val.count '.' ≤ 1 := by
  obtain ⟨cs, h⟩ := ext
  cases cs with
  | nil => exact Nat.zero_le _
  | cons dot tail =>
    simp only [isExt, Bool.and_eq_true, List.all_eq_true] at h
    have htail : tail.count '.' = 0 := by
      rw [List.count_eq_zero]
      intro hmem
      exact absurd (h.2 _ hmem) (by decide)
    show (dot :: tail).count '.' ≤ 1
    rw [List.count_cons, htail, Nat.zero_add]
    split <;> omega

/-- `file_key`. -/
def fileKey (core : Core) (ext : Ext) : SafeKey :=
  ⟨['f', 'i', 'l', 'e', 's', '/'] ++ core.val ++ ext.val, by
    refine assertSafeKey_of_count (by decide) ?_
    show (['f', 'i', 'l', 'e', 's', '/'] ++ core.val ++ ext.val).count '.' ≤ 1
    have hext := count_dot_ext ext
    rw [List.count_append, List.count_append, count_dot_core]
    simpa using hext⟩

/-- `thumbs/`. -/
def thumbsPrefix : ObjKey := ['t', 'h', 'u', 'm', 'b', 's', '/']

/-- The key of a thumbnail. -/
def thumbKey (core : Core) : SafeKey :=
  ⟨['t', 'h', 'u', 'm', 'b', 's', '/'] ++ core.val ++ ['.', 'j', 'p', 'g'], by
    refine assertSafeKey_of_count (by decide) ?_
    show (['t', 'h', 'u', 'm', 'b', 's', '/'] ++ core.val ++ ['.', 'j', 'p', 'g']).count '.' ≤ 1
    rw [List.count_append, List.count_append, count_dot_core]
    decide⟩

/-! ## Distinctness -/

/-- The keys an upload with this core can ask for. -/
def Names (core : Core) (key : SafeKey) : Prop :=
  (∃ ext, key = fileKey core ext) ∨ key = thumbKey core

theorem names_fileKey (core : Core) (ext : Ext) : Names core (fileKey core ext) := .inl ⟨ext, rfl⟩

theorem names_thumbKey (core : Core) : Names core (thumbKey core) := .inr rfl

theorem fileKey_ne_thumbKey (core core' : Core) (ext : Ext) : fileKey core ext ≠ thumbKey core' := by
  intro h
  exact absurd (List.cons.inj (congrArg Subtype.val h)).1 (by decide)

/-- The core stands at a fixed place. -/
private theorem core_eq_of_append {a : List Char} {core core' : Core} {b b' : List Char}
    (h : a ++ core.val ++ b = a ++ core'.val ++ b') : core = core' := by
  rw [List.append_assoc, List.append_assoc] at h
  have hlen : core.val.length = core'.val.length := core.property.1.trans core'.property.1.symm
  exact Subtype.ext (List.append_inj (List.append_cancel_left h) hlen).1

/-- **A key has one core.** -/
theorem Names.core_eq {core core' : Core} {key : SafeKey} (h : Names core key)
    (h' : Names core' key) : core = core' := by
  rcases h with ⟨ext, rfl⟩ | rfl <;> rcases h' with ⟨ext', h'⟩ | h'
  · exact core_eq_of_append (congrArg Subtype.val h')
  · exact absurd h' (fileKey_ne_thumbKey core core' ext)
  · exact absurd h'.symm (fileKey_ne_thumbKey core' core ext')
  · exact core_eq_of_append (congrArg Subtype.val h')

end Dedupe
end Uwuubox
