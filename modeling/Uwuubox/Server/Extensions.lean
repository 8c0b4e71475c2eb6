import Uwuubox.Server.FileNames
import Uwuubox.Server.Uploads

/-!
# Extensions and keys

`generate_core` and `normalize_ext` of `src/ids.rs` and `file_key` of `src/storage.rs`, as they work on texts.  The name
of a file is anything; `str::to_lowercase` works with the Unicode character database.

* `Unicode`, `Unicode.toLowercase` — the database, as far as lowercasing looks at it, and lowercasing;
  `Unicode.Laws` — what is relied on.
* `normalizeExt` — `isExt_normalizeExt` is its shape, `normalizeExt_stem` its round trip, `normalizeExt_upload` connects
  it with uploads.
* `generateCore`, `fileKeyText` — `InDirectory` is what it is to stay in a directory.
* `keys_safe` — **the key of a file is safe whatever its name, and has one core**.
-/

namespace Uwuubox
namespace Ids

open Dedupe Storage Server

/-! ## Lowercasing -/

/-- What lowercasing looks up in the Unicode character database. -/
structure Unicode where
  /-- The lower-case mapping of a character, which may have up to three. -/
  lower : Char → Text
  /-- `Cased`. -/
  cased : Char → Bool
  /-- `Case_Ignorable`. -/
  caseIgnorable : Char → Bool

namespace Unicode

variable (u : Unicode)

/-- `case_ignorable_then_cased`. -/
def ignorableThenCased (cs : Text) : Bool := (cs.dropWhile u.caseIgnorable).head?.any u.cased

/-- A character between what is `before` it, from the end, and what is `after` it.  A sigma at the end of a word has a
form of its own. -/
def lowerAt (before : Text) (c : Char) (after : Text) : Text :=
  if c = 'Σ' then
    if u.ignorableThenCased before && !u.ignorableThenCased after then ['ς'] else ['σ']
  else u.lower c

/-- What comes after `before`. -/
def toLowercaseFrom (before : Text) : Text → Text
  | [] => []
  | c :: after => u.lowerAt before c after ++ toLowercaseFrom (c :: before) after

/-- `str::to_lowercase`. -/
def toLowercase (t : Text) : Text := u.toLowercaseFrom [] t

/-- What the database says about ASCII and about dots. -/
structure Laws : Prop where
  ascii : ∀ c : Char, c.val < 128 → u.lower c = [c.toLower]
  /-- Nothing but a dot has a dot in its mapping. -/
  dot : ∀ c : Char, 128 ≤ c.val → '.' ∉ u.lower c
  uncased : u.cased '.' = false

end Unicode

section

variable {u : Unicode}

/-- A character that is no upper-case letter of ASCII stays. -/
theorem toLower_of_not_upper {c : Char} (h : ¬ ('A'.val ≤ c.val ∧ c.val ≤ 'Z'.val)) : c.toLower = c := by
  unfold Char.toLower
  exact dif_neg h

theorem toLower_ne_dot {c : Char} (h : c ≠ '.') : c.toLower ≠ '.' := by
  by_cases hupper : 'A'.val ≤ c.val ∧ c.val ≤ 'Z'.val
  · intro hdot
    have hval : c.val + ('a'.val - 'A'.val) = '.'.val := by
      rw [← hdot]
      unfold Char.toLower
      rw [dif_pos hupper]
    obtain ⟨hA, hZ⟩ := hupper
    simp only [UInt32.le_iff_toNat_le, ← UInt32.toNat_inj, UInt32.toNat_add, UInt32.toNat_sub] at hA hZ hval
    simp at hA hZ hval
    omega
  · rwa [toLower_of_not_upper hupper]

/-- **Lowercasing makes no dots.** -/
theorem dot_not_mem_lowerAt (hu : u.Laws) {c : Char} (hc : c ≠ '.') (before after : Text) :
    '.' ∉ u.lowerAt before c after := by
  unfold Unicode.lowerAt
  split
  · split <;> decide
  · by_cases hascii : c.val < 128
    · rw [hu.ascii c hascii, List.mem_singleton]
      exact (toLower_ne_dot hc).symm
    · exact hu.dot c (UInt32.not_lt.1 hascii)

theorem dot_not_mem_toLowercaseFrom (hu : u.Laws) {t : Text} (ht : '.' ∉ t) (before : Text) :
    '.' ∉ u.toLowercaseFrom before t := by
  induction t generalizing before with
  | nil => exact List.not_mem_nil
  | cons c after ih =>
    rw [List.mem_cons, not_or] at ht
    simp only [Unicode.toLowercaseFrom, List.mem_append, not_or]
    exact ⟨dot_not_mem_lowerAt hu (Ne.symm ht.1) _ _, ih ht.2 _⟩

theorem dot_not_mem_toLowercase (hu : u.Laws) {t : Text} (ht : '.' ∉ t) : '.' ∉ u.toLowercase t :=
  dot_not_mem_toLowercaseFrom hu ht []

/-- The letters of an extension are ASCII. -/
theorem val_of_isExtChar {c : Char} (h : isExtChar c = true) : c.val < 128 ∧ ¬ ('A'.val ≤ c.val ∧ c.val ≤ 'Z'.val) := by
  simp only [isExtChar, Bool.or_eq_true, Bool.and_eq_true, decide_eq_true_eq, Char.le_def, UInt32.le_iff_toNat_le] at h
  rw [UInt32.lt_iff_toNat_lt, UInt32.le_iff_toNat_le, UInt32.le_iff_toNat_le]
  simp at h ⊢
  omega

/-- **Lowercasing leaves what is plain.** -/
theorem toLowercaseFrom_of_plain (hu : u.Laws) {t : Text} (ht : ∀ c ∈ t, isExtChar c = true ∨ c = '.') (before : Text) :
    u.toLowercaseFrom before t = t := by
  induction t generalizing before with
  | nil => rfl
  | cons c after ih =>
    have hc : c.val < 128 ∧ ¬ ('A'.val ≤ c.val ∧ c.val ≤ 'Z'.val) := by
      rcases ht c List.mem_cons_self with hc | rfl
      · exact val_of_isExtChar hc
      · decide
    have hsigma : c ≠ 'Σ' := by
      rintro rfl
      exact absurd hc.1 (by decide)
    have hone : u.lowerAt before c after = [c] := by
      unfold Unicode.lowerAt
      rw [if_neg hsigma, hu.ascii c hc.1, toLower_of_not_upper hc.2]
    simp only [Unicode.toLowercaseFrom, hone, ih fun d hd => ht d (List.mem_cons_of_mem _ hd)]
    rfl

/-- A dot in front of everything makes no difference to what comes after it. -/
theorem ignorableThenCased_dot (hu : u.Laws) (before : Text) :
    u.ignorableThenCased (before ++ ['.']) = u.ignorableThenCased before := by
  unfold Unicode.ignorableThenCased
  induction before with
  | nil => cases hdot : u.caseIgnorable '.' <;> simp [hdot, hu.uncased]
  | cons c cs ih =>
    cases hc : u.caseIgnorable c with
    | true => simpa [hc] using ih
    | false => simp [hc]

theorem toLowercaseFrom_dot (hu : u.Laws) (before t : Text) :
    u.toLowercaseFrom (before ++ ['.']) t = u.toLowercaseFrom before t := by
  induction t generalizing before with
  | nil => rfl
  | cons c after ih =>
    have hone : u.lowerAt (before ++ ['.']) c after = u.lowerAt before c after := by
      unfold Unicode.lowerAt
      rw [ignorableThenCased_dot hu]
    have hrest := ih (c :: before)
    rw [List.cons_append] at hrest
    simp only [Unicode.toLowercaseFrom, hone, hrest]

theorem toLowercase_dot (hu : u.Laws) (t : Text) : u.toLowercase ('.' :: t) = '.' :: u.toLowercase t := by
  have hone : u.lowerAt [] '.' t = ['.'] := by
    unfold Unicode.lowerAt
    rw [if_neg (by decide), hu.ascii '.' (by decide)]
    rfl
  have hrest := toLowercaseFrom_dot hu [] t
  rw [List.nil_append] at hrest
  unfold Unicode.toLowercase
  simp only [Unicode.toLowercaseFrom, hone, hrest]
  rfl

end

/-! ## Extensions -/

/-- `str::rfind`, counted in characters. -/
def rfind (p : Char) : Text → Option ℕ
  | [] => none
  | c :: cs => match rfind p cs with
    | some i => some (i + 1)
    | none => if c = p then some 0 else none

/-- `normalize_ext`. -/
def normalizeExt (u : Unicode) (originalName : Text) : Text :=
  let base := originalName.rtakeWhile fun c => c ≠ '/' && c ≠ '\\'
  match rfind '.' base with
  | none => []
  | some i =>
    if 0 < i then
      let ext := u.toLowercase (base.drop i)
      if 2 ≤ utf8Len ext ∧ utf8Len ext ≤ 10 then
        if ext.all fun c => isExtChar c || c = '.' then ext else []
      else []
    else []

theorem rfind_cons (p c : Char) (cs : Text) :
    rfind p (c :: cs) = match rfind p cs with
      | some i => some (i + 1)
      | none => if c = p then some 0 else none := rfl

theorem rfind_eq_none {p : Char} {t : Text} : rfind p t = none ↔ p ∉ t := by
  induction t with
  | nil => simp [rfind]
  | cons c cs ih =>
    rw [List.mem_cons, not_or, ← ih, rfind_cons]
    cases rfind p cs with
    | some i => simp
    | none => by_cases hc : c = p <;> simp [hc, @eq_comm _ p]

/-- What is before the last one, and what is after it. -/
theorem rfind_append {p : Char} {after : Text} (h : p ∉ after) (before : Text) :
    rfind p (before ++ p :: after) = some before.length := by
  induction before with
  | nil =>
    have hnone := rfind_eq_none.2 h
    simp [rfind, hnone]
  | cons c cs ih => simp [rfind, ih]

theorem exists_of_mem {p : Char} {t : Text} (h : p ∈ t) : ∃ before after, t = before ++ p :: after ∧ p ∉ after := by
  induction t with
  | nil => exact absurd h List.not_mem_nil
  | cons c cs ih =>
    by_cases hin : p ∈ cs
    · obtain ⟨before, after, rfl, hafter⟩ := ih hin
      exact ⟨c :: before, after, rfl, hafter⟩
    · rcases List.mem_cons.1 h with rfl | h
      · exact ⟨[], cs, rfl, hin⟩
      · exact absurd h hin

/-- ASCII takes one byte for each character. -/
theorem utf8Len_of_plain {t : Text} (ht : ∀ c ∈ t, isExtChar c = true ∨ c = '.') : utf8Len t = t.length := by
  induction t with
  | nil => rfl
  | cons c cs ih =>
    have hsize : c.utf8Size = 1 := by
      have hascii : c.val < 128 := by
        rcases ht c List.mem_cons_self with hc | rfl
        · exact (val_of_isExtChar hc).1
        · decide
      rw [UInt32.lt_iff_toNat_lt] at hascii
      simp [Char.utf8Size, UInt32.le_iff_toNat_le]
      simp at hascii
      omega
    rw [utf8Len_cons, hsize, ih fun d hd => ht d (List.mem_cons_of_mem _ hd), List.length_cons, Nat.add_comm]

/-- The checks, where there is one dot. -/
theorem isExt_cons_iff {tail : Text} (htail : '.' ∉ tail) : isExt ('.' :: tail) = true ↔
    (2 ≤ utf8Len ('.' :: tail) ∧ utf8Len ('.' :: tail) ≤ 10) ∧
      (('.' :: tail).all fun c => isExtChar c || c = '.') = true := by
  simp only [isExt, beq_self_eq_true, Bool.true_and, Bool.and_eq_true, List.all_eq_true, Bool.or_eq_true,
    decide_eq_true_eq]
  constructor
  · rintro ⟨⟨hone, hnine⟩, hplain⟩
    have hall : ∀ c ∈ '.' :: tail, isExtChar c = true ∨ c = '.' := by
      intro c hc
      rcases List.mem_cons.1 hc with rfl | hc
      · exact .inr rfl
      · exact .inl (hplain c hc)
    rw [utf8Len_of_plain hall, List.length_cons]
    exact ⟨⟨by omega, by omega⟩, hall⟩
  · rintro ⟨⟨htwo, hten⟩, hall⟩
    rw [utf8Len_of_plain hall, List.length_cons] at htwo hten
    refine ⟨⟨by omega, by omega⟩, fun c hc => ?_⟩
    rcases hall c (List.mem_cons_of_mem _ hc) with hplain | rfl
    · exact hplain
    · exact absurd hc htail

section

variable {u : Unicode} {name before after : Text}

/-- The last component of a name. -/
def lastComponent (name : Text) : Text := name.rtakeWhile fun c => c ≠ '/' && c ≠ '\\'

theorem normalizeExt_of_no_dot (h : '.' ∉ lastComponent name) : normalizeExt u name = [] := by
  have hnone : rfind '.' (name.rtakeWhile fun c => c ≠ '/' && c ≠ '\\') = none := rfind_eq_none.2 h
  unfold normalizeExt
  simp only [hnone]

/-- **What an extension is made of**: what comes after the last dot, if there is something before it. -/
theorem normalizeExt_of_dot (hu : u.Laws) (h : lastComponent name = before ++ '.' :: after) (hafter : '.' ∉ after) :
    normalizeExt u name =
      if before ≠ [] ∧ isExt ('.' :: u.toLowercase after) = true then '.' :: u.toLowercase after else [] := by
  have hbase : (name.rtakeWhile fun c => c ≠ '/' && c ≠ '\\') = before ++ '.' :: after := h
  have hext := isExt_cons_iff (dot_not_mem_toLowercase hu hafter)
  unfold normalizeExt
  simp only [hbase, rfind_append hafter, List.drop_left, toLowercase_dot hu]
  cases before with
  | nil => simp
  | cons c cs =>
    have hpos : 0 < (c :: cs).length := Nat.zero_lt_succ _
    rw [if_pos hpos]
    by_cases hisExt : isExt ('.' :: u.toLowercase after) = true
    · obtain ⟨hlength, hall⟩ := hext.1 hisExt
      rw [if_pos hlength, if_pos hall, if_pos ⟨List.cons_ne_nil _ _, hisExt⟩]
    · have hright : ¬ (c :: cs ≠ [] ∧ isExt ('.' :: u.toLowercase after) = true) := fun h => hisExt h.2
      rw [if_neg hright]
      by_cases hlength : 2 ≤ utf8Len ('.' :: u.toLowercase after) ∧ utf8Len ('.' :: u.toLowercase after) ≤ 10
      · rw [if_pos hlength]
        exact if_neg fun hall => hisExt (hext.2 ⟨hlength, hall⟩)
      · rw [if_neg hlength]

/-- **An extension is nothing, or a dot and one to nine letters or digits.** -/
theorem isExt_normalizeExt (hu : u.Laws) (name : Text) : isExt (normalizeExt u name) = true := by
  by_cases hdot : '.' ∈ lastComponent name
  · obtain ⟨before, after, hbase, hafter⟩ := exists_of_mem hdot
    rw [normalizeExt_of_dot hu hbase hafter]
    split
    · rename_i h
      exact h.2
    · rfl
  · rw [normalizeExt_of_no_dot hdot]
    rfl

theorem isExt_iff {ext : Text} : isExt ext = true ↔
    ext = [] ∨ ∃ tail, ext = '.' :: tail ∧ (1 ≤ tail.length ∧ tail.length ≤ 9) ∧ ∀ c ∈ tail, isExtChar c = true := by
  cases ext with
  | nil => simp [isExt]
  | cons dot tail =>
    simp only [isExt, Bool.and_eq_true, beq_iff_eq, decide_eq_true_eq, List.all_eq_true, reduceCtorEq, false_or,
      List.cons.injEq]
    constructor
    · rintro ⟨⟨⟨rfl, hone⟩, hnine⟩, hplain⟩
      exact ⟨tail, ⟨rfl, rfl⟩, ⟨hone, hnine⟩, hplain⟩
    · rintro ⟨_, ⟨rfl, rfl⟩, ⟨hone, hnine⟩, hplain⟩
      exact ⟨⟨⟨rfl, hone⟩, hnine⟩, hplain⟩

/-- What a stem has none of. -/
def IsStem (stem : Text) : Prop := stem ≠ [] ∧ ∀ c ∈ stem, c ≠ '/' ∧ c ≠ '\\' ∧ c ≠ '.'

/-- **An extension is its own extension** behind any stem. -/
theorem normalizeExt_stem (hu : u.Laws) {stem ext : Text} (hstem : IsStem stem) (hext : isExt ext = true) :
    normalizeExt u (stem ++ ext) = ext := by
  have hplain : ∀ c ∈ ext, isExtChar c = true ∨ c = '.' := by
    rcases isExt_iff.1 hext with rfl | ⟨tail, rfl, -, htail⟩
    · exact fun c hc => absurd hc List.not_mem_nil
    · intro c hc
      exact (List.mem_cons.1 hc).elim .inr fun hc => .inl (htail c hc)
  have hbase : lastComponent (stem ++ ext) = stem ++ ext := by
    refine List.rtakeWhile_eq_self_iff.2 fun c hc => ?_
    rw [Bool.and_eq_true, decide_eq_true_eq, decide_eq_true_eq]
    rcases List.mem_append.1 hc with hc | hc
    · exact ⟨(hstem.2 c hc).1, (hstem.2 c hc).2.1⟩
    · rcases hplain c hc with hc | rfl
      · constructor <;> rintro rfl <;> exact absurd hc (by decide)
      · decide
  have hdot : '.' ∉ stem := fun h => (hstem.2 '.' h).2.2 rfl
  rcases isExt_iff.1 hext with rfl | ⟨tail, rfl, -, htail⟩
  · refine normalizeExt_of_no_dot ?_
    rw [hbase, List.append_nil]
    exact hdot
  · have hafter : '.' ∉ tail := fun h => absurd (htail '.' h) (by decide)
    have hlower : u.toLowercase tail = tail := toLowercaseFrom_of_plain hu (fun c hc => .inl (htail c hc)) []
    rw [normalizeExt_of_dot hu hbase hafter, hlower, if_pos ⟨hstem.1, hext⟩]

/-- Uploads have the same extension. -/
theorem normalizeExt_upload (hu : u.Laws) {env : Env} (henv : env.toLowercase = u.toLowercase) (name : Text) :
    (Server.normalizeExt env name).val = normalizeExt u name := by
  have hbase : (name.rtakeWhile fun c => c ≠ '/' && c ≠ '\\') = lastComponent name := rfl
  unfold Server.normalizeExt
  simp only [apply_ite Subtype.val, apply_dite Subtype.val, dite_eq_ite, hbase, henv]
  by_cases hdot : '.' ∈ lastComponent name
  · obtain ⟨before, after, hdots, hafter⟩ := exists_of_mem hdot
    have htail : (lastComponent name).rtakeWhile (· ≠ '.') = after := by
      have hall : ∀ c ∈ after.reverse, decide (c ≠ '.') = true := by
        intro c hc
        rw [decide_eq_true_eq]
        rintro rfl
        exact hafter (List.mem_reverse.1 hc)
      rw [hdots]
      unfold List.rtakeWhile
      rw [List.reverse_append, List.reverse_cons, List.append_assoc, List.takeWhile_append_of_pos hall]
      simp
    rw [normalizeExt_of_dot hu hdots hafter, htail, hdots]
    by_cases hbefore : before = []
    · simp [hbefore]
    · have hlonger : ¬ (before ++ '.' :: after).length ≤ after.length + 1 := by
        have hpos := List.length_pos_iff.2 hbefore
        rw [List.length_append, List.length_cons]
        omega
      rw [if_neg hlonger]
      by_cases hisExt : isExt ('.' :: u.toLowercase after) = true <;> simp [hisExt, hbefore]
  · have htail : (lastComponent name).rtakeWhile (· ≠ '.') = lastComponent name := by
      refine List.rtakeWhile_eq_self_iff.2 fun c hc => ?_
      rw [decide_eq_true_eq]
      rintro rfl
      exact hdot hc
    rw [normalizeExt_of_no_dot hdot, htail, if_pos (Nat.le_succ _)]

end

/-! ## Cores and keys -/

/-- `ALPHABET[b & 31]`. -/
def letter (b : UInt8) : Char := alphabet.get ⟨(b &&& 31).toNat, by
  have hle : b.toNat &&& 31 ≤ 31 := Nat.and_le_right
  have hlength : alphabet.length = 32 := rfl
  rw [hlength, UInt8.toNat_and]
  exact Nat.lt_succ_of_le hle⟩

/-- `generate_core`, with the bytes it draws. -/
def generateCore (buf : Fin idLen → UInt8) : Text := List.ofFn fun i => letter (buf i)

/-- `file_key`. -/
def fileKeyText (core ext : Text) : ObjKey := ['f', 'i', 'l', 'e', 's', '/'] ++ core ++ ext

/-- The key names a file in the directory, and nothing below it or beside it. -/
def InDirectory (directory : Text) (key : ObjKey) : Prop :=
  ∃ name, key.splitOn '/' = [directory, name] ∧ name ∉ [[], ['.'], ['.', '.']] ∧ '\\' ∉ name

theorem isCore_generateCore (buf : Fin idLen → UInt8) :
    (generateCore buf).length = idLen ∧ ∀ c ∈ generateCore buf, c ∈ alphabet := by
  refine ⟨List.length_ofFn, fun c hc => ?_⟩
  obtain ⟨i, rfl⟩ := List.mem_ofFn.1 hc
  exact List.get_mem _ _

/-- The key of an upload. -/
theorem fileKeyText_eq (core : Core) (ext : Ext) : fileKeyText core.val ext.val = (fileKey core ext).val := rfl

theorem inDirectory_fileKey (core : Core) (ext : Ext) :
    InDirectory ['f', 'i', 'l', 'e', 's'] (fileKey core ext).val := by
  have hext : ∀ c ∈ ext.val, isExtChar c = true ∨ c = '.' := by
    rcases isExt_iff.1 ext.property with hnil | ⟨tail, hcons, -, htail⟩
    · exact fun c hc => absurd (hnil ▸ hc) List.not_mem_nil
    · intro c hc
      rw [hcons] at hc
      exact (List.mem_cons.1 hc).elim .inr fun hc => .inl (htail c hc)
  have hmem : ∀ c ∈ core.val ++ ext.val, c ≠ '/' ∧ c ≠ '\\' := by
    intro c hc
    rcases List.mem_append.1 hc with hc | hc
    · have halphabet := core.property.2 c hc
      constructor <;> rintro rfl <;> exact absurd halphabet (by decide)
    · rcases hext c hc with hc | rfl
      · constructor <;> rintro rfl <;> exact absurd hc (by decide)
      · decide
  refine ⟨core.val ++ ext.val, ?_, fun hname => ?_, fun h => (hmem _ h).2 rfl⟩
  · have hkey : (fileKey core ext).val = ['f', 'i', 'l', 'e', 's'] ++ '/' :: (core.val ++ ext.val) := by
      simp [fileKey]
    rw [hkey, List.splitOn_append_cons_self, List.splitOn_eq_singleton fun h => (hmem _ h).1 rfl]
    rfl
  · have hlength : idLen ≤ (core.val ++ ext.val).length := by
      rw [List.length_append, core.property.1]
      exact Nat.le_add_right _ _
    have hshort : (core.val ++ ext.val).length ≤ 2 := by
      simp only [List.mem_cons, List.not_mem_nil, or_false] at hname
      rcases hname with h | h | h <;> rw [h] <;> decide
    exact absurd (hlength.trans hshort) (by decide)

/-- **The key of a file is safe whatever its name.**  Its extension is nothing, or a dot and one to nine letters or
digits, and comes back from any name that ends in it; its key passes the check of the store and stays in `files/`; and
files with different cores have different keys. -/
theorem keys_safe {u : Unicode} (hu : u.Laws) (name : Text) :
    (normalizeExt u name = [] ∨ ∃ tail, normalizeExt u name = '.' :: tail ∧ (1 ≤ tail.length ∧ tail.length ≤ 9) ∧
      ∀ c ∈ tail, isExtChar c = true) ∧
    (∀ stem, IsStem stem → normalizeExt u (stem ++ normalizeExt u name) = normalizeExt u name) ∧
    ∀ buf, assertSafeKey (fileKeyText (generateCore buf) (normalizeExt u name)) = true ∧
      InDirectory ['f', 'i', 'l', 'e', 's'] (fileKeyText (generateCore buf) (normalizeExt u name)) ∧
      ∀ buf' name', generateCore buf' ≠ generateCore buf →
        fileKeyText (generateCore buf') (normalizeExt u name') ≠
          fileKeyText (generateCore buf) (normalizeExt u name) := by
  refine ⟨isExt_iff.1 (isExt_normalizeExt hu name),
    fun stem hstem => normalizeExt_stem hu hstem (isExt_normalizeExt hu name), fun buf => ?_⟩
  have hkey : ∀ buf name, ∃ core ext, core.val = generateCore buf ∧
      fileKeyText (generateCore buf) (normalizeExt u name) = (fileKey core ext).val := fun buf name =>
    ⟨⟨_, isCore_generateCore buf⟩, ⟨_, isExt_normalizeExt hu name⟩, rfl, rfl⟩
  obtain ⟨core, ext, hcore, heq⟩ := hkey buf name
  rw [heq]
  refine ⟨(fileKey core ext).property, inDirectory_fileKey core ext, fun buf' name' hne hsame => hne ?_⟩
  obtain ⟨core', ext', hcore', heq'⟩ := hkey buf' name'
  rw [heq'] at hsame
  have hnames := names_fileKey core ext
  rw [← Subtype.ext hsame] at hnames
  rw [← hcore, ← hcore', (names_fileKey core' ext').core_eq hnames]

/-! ### A few letters -/

/-- ASCII, the Kelvin sign, which is a `k`, and the `I` with a dot, which is two characters; the others have no case. -/
def fewLetters : Unicode where
  lower c := if c.val < 128 then [c.toLower] else if c = '\u212A' then ['k']
    else if c = '\u0130' then ['i', '\u0307'] else [c]
  cased c := c.isAlpha || c = '\u212A' || c = '\u0130'
  caseIgnorable c := c = '.'

theorem laws_fewLetters : fewLetters.Laws where
  ascii c hc := if_pos hc
  dot c hc := by
    have hnot : ¬ c.val < 128 := UInt32.not_lt.2 hc
    have hdot : c ≠ '.' := by
      rintro rfl
      exact absurd hc (by decide)
    unfold fewLetters
    simp only [if_neg hnot]
    split
    · decide
    · split
      · decide
      · rw [List.mem_singleton]
        exact hdot.symm
  uncased := by decide

/-- A film whose type is written with a Kelvin sign. -/
theorem keys_safe_kelvin : normalizeExt fewLetters ['/', 'a', '.', 'M', '\u212A', 'V'] = ['.', 'm', 'k', 'v'] ∧
    normalizeExt fewLetters ['x', '.', 'm', 'k', 'v'] = ['.', 'm', 'k', 'v'] := by
  have hext : normalizeExt fewLetters ['/', 'a', '.', 'M', '\u212A', 'V'] = ['.', 'm', 'k', 'v'] := rfl
  have hsafe := keys_safe laws_fewLetters ['/', 'a', '.', 'M', '\u212A', 'V']
  rw [hext] at hsafe
  refine ⟨hext, hsafe.2.1 ['x'] ⟨List.cons_ne_nil _ _, fun c hc => ?_⟩⟩
  rw [List.mem_singleton] at hc
  subst hc
  decide

end Ids
end Uwuubox
