import Uwuubox.Server.Bundles
import Uwuubox.Server.FileNames

/-!
# The names in an archive

`unique_name` of `src/routes/zip.rs` tries ` (2)`, ` (3)` and so on, without a bound, until a name has not been seen.

* `searchSuffix` — the loop, for a number of rounds.
* `suffixedName_injective` — no two rounds try the same name, so
* `searchSuffix_eq_some` — **the loop ends**, after one round more than there are names.
* `namesIn` — a call for each entry, with one set.
* `unique_names` — **the names are distinct**; a name that is free is kept; all are free of separators and controls.
-/

namespace Uwuubox
namespace Server

open Dedupe Storage Table Fallible

variable {base requested : Text} {seen : List Text} {rounds : ℕ}

/-! ## The loop -/

/-- `for suffix in 2usize..`: so many rounds from a suffix on; `none` if a name is still sought. -/
def searchSuffix (base : Text) (seen : List Text) : ℕ → ℕ → Option Text
  | 0, _ => none
  | rounds + 1, suffix =>
    if suffixedName base suffix ∉ seen then some (suffixedName base suffix)
    else searchSuffix base seen rounds (suffix + 1)

/-- `unique_name`, with a bound on its rounds. -/
def uniqueNameIn (rounds : ℕ) (requested : Text) (seen : List Text) : Option Text := do
  let base ← sanitizeFilename requested
  if base ∉ seen then some base else searchSuffix base seen rounds 2

theorem toDigits_injective : Function.Injective (Nat.toDigits 10) := by
  intro m n h
  have hparsed := congrArg (fun digits => Nat.ofDigitChars 10 digits 0) h
  simpa using hparsed

/-- No two rounds try one name. -/
theorem suffixedName_injective (base : Text) : Function.Injective (suffixedName base) := by
  intro m n h
  apply toDigits_injective
  unfold suffixedName at h
  simp only at h
  split at h
  · simpa using h
  · simpa using h

/-- What the loop finds is free, and all before it was taken. -/
theorem of_searchSuffix {suffix : ℕ} {name : Text} (h : searchSuffix base seen rounds suffix = some name) :
    name ∉ seen ∧ ∃ i, name = suffixedName base (suffix + i) ∧ ∀ j < i, suffixedName base (suffix + j) ∈ seen := by
  induction rounds generalizing suffix with
  | zero => cases h
  | succ rounds ih =>
    unfold searchSuffix at h
    split at h
    · rename_i hfree
      cases h
      exact ⟨hfree, 0, rfl, nofun⟩
    · rename_i htaken
      rw [not_not] at htaken
      obtain ⟨hfree, i, rfl, hbefore⟩ := ih h
      refine ⟨hfree, i + 1, by rw [Nat.add_assoc, Nat.add_comm 1], ?_⟩
      rintro (_ | j) hj
      · exact htaken
      · rw [show suffix + (j + 1) = suffix + 1 + j by omega]
        exact hbefore j (by omega)

/-- As long as the loop goes on, all it has tried is taken. -/
theorem of_searchSuffix_none {suffix : ℕ} (h : searchSuffix base seen rounds suffix = none) :
    ∀ i < rounds, suffixedName base (suffix + i) ∈ seen := by
  induction rounds generalizing suffix with
  | zero => exact fun i hi => absurd hi (Nat.not_lt_zero i)
  | succ rounds ih =>
    unfold searchSuffix at h
    split at h
    · cases h
    · rename_i htaken
      rw [not_not] at htaken
      rintro (_ | i) hi
      · exact htaken
      · rw [show suffix + (i + 1) = suffix + 1 + i by omega]
        exact ih h i (by omega)

/-- **The loop ends**: there are more rounds than names. -/
theorem searchSuffix_eq_some (base : Text) {seen : List Text} {rounds : ℕ} (suffix : ℕ) (h : seen.length < rounds) :
    ∃ name, searchSuffix base seen rounds suffix = some name := by
  cases hsearch : searchSuffix base seen rounds suffix with
  | some name => exact ⟨name, rfl⟩
  | none =>
    exfalso
    have htried : (List.range rounds).map (fun i => suffixedName base (suffix + i)) ⊆ seen := by
      intro name hname
      obtain ⟨i, hi, rfl⟩ := List.mem_map.1 hname
      exact of_searchSuffix_none hsearch i (List.mem_range.1 hi)
    have hdistinct : ((List.range rounds).map fun i => suffixedName base (suffix + i)).Nodup :=
      List.nodup_range.map fun i j hij => Nat.add_left_cancel (suffixedName_injective base hij)
    have hle := (hdistinct.subperm htried).length_le
    rw [List.length_map, List.length_range] at hle
    omega

/-- More rounds find the same name. -/
theorem searchSuffix_mono {suffix more : ℕ} {name : Text} (h : searchSuffix base seen rounds suffix = some name)
    (hmore : rounds ≤ more) : searchSuffix base seen more suffix = some name := by
  induction rounds generalizing suffix more with
  | zero => cases h
  | succ rounds ih =>
    obtain ⟨more, rfl⟩ : ∃ n, more = n + 1 := ⟨more - 1, by omega⟩
    unfold searchSuffix at h ⊢
    split at h
    · rename_i hfree
      rw [if_pos hfree]
      exact h
    · rename_i htaken
      rw [if_neg htaken]
      exact ih h (by omega)

/-! ## One name -/

/-- The loop finds the first name of a list that is free. -/
theorem searchSuffix_eq_find? (base : Text) (seen : List Text) (rounds suffix : ℕ) :
    searchSuffix base seen rounds suffix =
      ((List.range rounds).map fun i => suffixedName base (i + suffix)).find? fun name => name ∉ seen := by
  induction rounds generalizing suffix with
  | zero => rfl
  | succ rounds ih =>
    rw [searchSuffix, ih, List.range_succ_eq_map, List.map_cons, List.map_map, Nat.zero_add]
    by_cases hfree : suffixedName base suffix ∉ seen
    · rw [if_pos hfree, List.find?_cons_of_pos (by simpa using hfree)]
    · rw [if_neg hfree, List.find?_cons_of_neg (by simpa using hfree)]
      congr 2
      funext i
      simp only [Function.comp_apply, Nat.succ_eq_add_one]
      rw [Nat.add_right_comm, Nat.add_assoc]

/-- With one round more than there are names, the loop is over. -/
theorem uniqueName_eq (requested : Text) (h : seen.length < rounds) :
    uniqueName requested seen = uniqueNameIn rounds requested seen := by
  unfold uniqueName uniqueNameIn
  cases sanitizeFilename requested with
  | none => rfl
  | some base =>
    by_cases hnew : base ∉ seen
    · simp [hnew]
    · obtain ⟨name, hname⟩ := searchSuffix_eq_some base 2 (Nat.lt_succ_self seen.length)
      have hfound := hname
      rw [searchSuffix_eq_find?] at hfound
      simp only [Option.map_some, if_neg hnew, Option.bind_eq_bind, Option.bind_some]
      rw [searchSuffix_mono hname h, hfound]
      rfl

/-- What an entry may be called. -/
def EntryName (name : Text) : Prop := ∀ c ∈ name, c ≠ '/' ∧ c ≠ '\\' ∧ isControl c = false

theorem SafeName.entryName (h : SafeName base) : EntryName base := by
  intro c hc
  have hplain := h.plain c hc
  simp only [isPlain, Bool.and_eq_true, decide_eq_true_eq, Bool.not_eq_true'] at hplain
  exact ⟨hplain.1.1.1.1.1, hplain.1.1.1.1.2, hplain.1.1.1.2⟩

/-- The digits of a suffix are those of a name. -/
theorem entryName_digits (n : ℕ) : EntryName (Nat.toDigits 10 n) := by
  intro c hc
  have hdigit := isDigit_toDigits n c hc
  refine ⟨?_, ?_, ?_⟩
  · rintro rfl
    simp at hdigit
  · rintro rfl
    simp at hdigit
  · obtain ⟨hlow, hhigh⟩ := toNat_of_isDigit hdigit
    simp only [isControl, Bool.or_eq_false_iff, decide_eq_false_iff_not, Bool.and_eq_false_iff]
    omega

theorem EntryName.append {left right : Text} (hleft : EntryName left) (hright : EntryName right) :
    EntryName (left ++ right) := by
  intro c hc
  rcases List.mem_append.1 hc with hc | hc
  · exact hleft c hc
  · exact hright c hc

theorem EntryName.subset {left right : Text} (h : EntryName right) (hsub : left ⊆ right) : EntryName left :=
  fun c hc => h c (hsub hc)

/-- A suffix changes nothing about that. -/
theorem EntryName.suffixed (h : EntryName base) (suffix : ℕ) : EntryName (suffixedName base suffix) := by
  have hopen : EntryName [' ', '('] := by simp [EntryName, isControl]
  have hclose : EntryName [')'] := by simp [EntryName, isControl]
  have hdot : EntryName ['.'] := by simp [EntryName, isControl]
  have hnumber := (hopen.append (entryName_digits suffix)).append hclose
  unfold suffixedName
  simp only
  split
  · exact (((h.subset (List.take_subset _ _)).append hnumber).append hdot).append
      (h.subset (List.rtakeWhile_suffix _ _).subset)
  · exact h.append hnumber

/-- What a call returns: a free name, which is that form if it is free. -/
theorem uniqueNameIn_spec (hbase : sanitizeFilename requested = some base) (seen : List Text) :
    ∃ name, (∀ rounds, seen.length < rounds → uniqueNameIn rounds requested seen = some name) ∧ name ∉ seen ∧
      (base ∉ seen → name = base) ∧ EntryName name := by
  have hsafe : SafeName base := safeName_of_sanitize hbase
  unfold uniqueNameIn
  rw [hbase]
  by_cases hnew : base ∉ seen
  · exact ⟨base, fun _ _ => if_pos hnew, hnew, fun _ => rfl, hsafe.entryName⟩
  · obtain ⟨name, hname⟩ := searchSuffix_eq_some base 2 (Nat.lt_succ_self seen.length)
    obtain ⟨hfree, i, rfl, -⟩ := of_searchSuffix hname
    refine ⟨_, fun rounds hrounds => ?_, hfree, fun h => absurd h hnew, hsafe.entryName.suffixed _⟩
    exact (if_neg hnew).trans (searchSuffix_mono hname hrounds)

/-! ## One name for each entry -/

/-- A call for each name that is requested, with what has been returned before. -/
def namesIn (rounds : ℕ) : List Text → List Text → Option (List Text)
  | [], _ => some []
  | requested :: rest, seen => do
    let name ← uniqueNameIn rounds requested seen
    let names ← namesIn rounds rest (name :: seen)
    some (name :: names)

theorem length_namesIn {requests names : List Text} (h : namesIn rounds requests seen = some names) :
    names.length = requests.length := by
  induction requests generalizing seen names with
  | nil =>
    cases h
    rfl
  | cons request rest ih =>
    simp only [namesIn, Option.bind_eq_bind, Option.bind_eq_some_iff] at h
    obtain ⟨name, -, others, hothers, heq⟩ := h
    cases heq
    exact congrArg Nat.succ (ih hothers)

/-- The names of the entries, when some are taken already. -/
theorem namesIn_spec {requests : List Text} (hrequests : ∀ r ∈ requests, ∃ base, sanitizeFilename r = some base)
    (seen : List Text) :
    ∃ names, (∀ rounds, seen.length + requests.length ≤ rounds → namesIn rounds requests seen = some names) ∧
      names.Nodup ∧ (∀ name ∈ names, name ∉ seen) ∧
      (∀ i r base, requests[i]? = some r → sanitizeFilename r = some base → base ∉ seen → base ∉ names.take i →
        names[i]? = some base) ∧
      ∀ name ∈ names, EntryName name := by
  induction requests generalizing seen with
  | nil => exact ⟨[], fun _ _ => rfl, List.nodup_nil, nofun, nofun, nofun⟩
  | cons request rest ih =>
    obtain ⟨base, hbase⟩ := hrequests request List.mem_cons_self
    obtain ⟨name, hname, hfree, hkept, hentry⟩ := uniqueNameIn_spec hbase seen
    obtain ⟨names, hnames, hnodup, hnew, hforms, hentries⟩ :=
      ih (fun r hr => hrequests r (List.mem_cons_of_mem _ hr)) (name :: seen)
    refine ⟨name :: names, fun rounds hrounds => ?_, ?_, ?_, ?_, ?_⟩
    · rw [List.length_cons] at hrounds
      have hlater : (name :: seen).length + rest.length ≤ rounds := by
        rw [List.length_cons]
        omega
      rw [namesIn, hname rounds (by omega)]
      simp [hnames rounds hlater]
    · exact hnodup.cons fun hmem => hnew name hmem List.mem_cons_self
    · intro other hother
      rcases List.mem_cons.1 hother with rfl | hother
      · exact hfree
      · exact fun hmem => hnew other hother (List.mem_cons_of_mem _ hmem)
    · rintro (_ | i) r form hr hform hunseen htake
      · obtain rfl := Option.some.inj hr
        obtain rfl := Option.some.inj (hform.symm.trans hbase)
        exact congrArg some (hkept hunseen)
      · rw [List.take_succ_cons, List.mem_cons, not_or] at htake
        exact hforms i r form hr hform (fun hmem => (List.mem_cons.1 hmem).elim htake.1 hunseen) htake.2
    · intro other hother
      rcases List.mem_cons.1 hother with rfl | hother
      · exact hentry
      · exact hentries other hother

/-- **The names in an archive.**  If no requested name makes `sanitize_filename` panic, every call ends, and the names
are distinct, of the sanitized form where that has not been returned before, and free of separators and controls. -/
theorem unique_names {requests : List Text} (hrequests : ∀ r ∈ requests, ∃ base, sanitizeFilename r = some base) :
    ∃ names, (∀ rounds, requests.length ≤ rounds → namesIn rounds requests [] = some names) ∧
      names.length = requests.length ∧ names.Nodup ∧
      (∀ i r base, requests[i]? = some r → sanitizeFilename r = some base → base ∉ names.take i →
        names[i]? = some base) ∧
      ∀ name ∈ names, ∀ c ∈ name, c ≠ '/' ∧ c ≠ '\\' ∧ isControl c = false := by
  obtain ⟨names, hnames, hnodup, -, hforms, hentries⟩ := namesIn_spec hrequests []
  simp only [List.length_nil, Nat.zero_add] at hnames
  have hlength := length_namesIn (hnames _ le_rfl)
  exact ⟨names, hnames, hlength, hnodup, fun i r base hr hbase => hforms i r base hr hbase List.not_mem_nil, hentries⟩

def clashing : List Text := [['a', '.', 't'], ['a', ' ', '(', '2', ')', '.', 't'], ['a', '.', 't']]

theorem unique_names_clashing : ∃ names, (∀ rounds, 3 ≤ rounds → namesIn rounds clashing [] = some names) ∧
    names.Nodup ∧ names[0]? = some ['a', '.', 't'] := by
  have hrequests : ∀ r ∈ clashing, ∃ base, sanitizeFilename r = some base := by
    intro r hr
    exact Option.isSome_iff_exists.1 ((by decide : ∀ r ∈ clashing, (sanitizeFilename r).isSome) r hr)
  obtain ⟨names, hnames, -, hnodup, hforms, -⟩ := unique_names hrequests
  exact ⟨names, hnames, hnodup, hforms 0 _ ['a', '.', 't'] rfl (by decide) List.not_mem_nil⟩

end Server
end Uwuubox
