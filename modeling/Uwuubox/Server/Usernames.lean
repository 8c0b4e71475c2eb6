import Uwuubox.Server.Requests
import Uwuubox.Server.ArchiveNames

/-!
# The names of first logins

`oidc_base_username` makes a user name of any text; `validate_username` is what a registration asks of one.

* `length_trimmed` — what is left between the first and the last character that is kept.
* `validateUsername_eq_ok` — the names that are accepted.
* `registrable_iff` — **the name, and the name with a number behind it, is accepted** exactly if two letters or digits
  with something between them are among the first 20 characters.  A shorter name gets a hyphen.
-/

namespace Uwuubox
namespace Server

open Dedupe Storage Table Fallible

/-! ## Trimming -/

section Trim

variable {α : Type} {p : α → Bool} {l : List α}

/-- The list without what `p` holds of at its ends. -/
def trimmed (p : α → Bool) (l : List α) : List α := (l.dropWhile p).rdropWhile p

theorem infix_trimmed (p : α → Bool) (l : List α) : trimmed p l <:+: l := by
  have hfirst : trimmed p l <+: l.dropWhile p := List.rdropWhile_prefix p _
  exact hfirst.isInfix.trans (List.dropWhile_suffix p).isInfix

/-- The list is what was before, what is left, and what was behind. -/
theorem eq_append_trimmed (p : α → Bool) (l : List α) :
    l = l.takeWhile p ++ (trimmed p l ++ (l.dropWhile p).rtakeWhile p) := by
  unfold trimmed
  rw [List.rdropWhile_append_rtakeWhile, List.takeWhile_append_dropWhile]

theorem head_trimmed {a : α} (h : (trimmed p l).head? = some a) : p a = false := by
  obtain ⟨rest, hrest⟩ : trimmed p l <+: l.dropWhile p := List.rdropWhile_prefix p _
  have hhead := List.head?_dropWhile_not p l
  rw [← hrest, List.head?_append, h] at hhead
  exact hhead

theorem getLast_trimmed {a : α} (h : (trimmed p l).getLast? = some a) : p a = false := by
  have hne : trimmed p l ≠ [] := by
    rintro hnil
    simp [hnil] at h
  rw [List.getLast?_eq_some_getLast hne] at h
  obtain rfl := Option.some.inj h
  exact Bool.eq_false_iff.2 (List.rdropWhile_last_not p (l.dropWhile p) hne)

/-- **At least three are left** exactly if two are kept that have something between them. -/
theorem three_le_trimmed_iff : 3 ≤ (trimmed p l).length ↔
    ∃ i j a b, i + 2 ≤ j ∧ l[i]? = some a ∧ p a = false ∧ l[j]? = some b ∧ p b = false := by
  have hsplit := eq_append_trimmed p l
  have hfirst := fun {a} => @head_trimmed α p l a
  have hlast := fun {a} => @getLast_trimmed α p l a
  have hbefore : ∀ a ∈ l.takeWhile p, p a = true := fun a ha => List.mem_takeWhile_imp ha
  have hbehind : ∀ a ∈ (l.dropWhile p).rtakeWhile p, p a = true := fun a ha => List.mem_rtakeWhile_imp ha
  generalize l.takeWhile p = before at *
  generalize (l.dropWhile p).rtakeWhile p = behind at *
  generalize trimmed p l = core at *
  subst hsplit
  constructor
  · intro h
    refine ⟨before.length, before.length + (core.length - 1), core[0], core[core.length - 1], by omega, ?_, ?_, ?_, ?_⟩
    · rw [List.getElem?_append_right le_rfl, Nat.sub_self, List.getElem?_append_left (by omega)]
      exact List.getElem?_eq_getElem _
    · exact hfirst (by rw [List.head?_eq_getElem?, List.getElem?_eq_getElem])
    · rw [List.getElem?_append_right (by omega), Nat.add_sub_cancel_left, List.getElem?_append_left (by omega)]
      exact List.getElem?_eq_getElem _
    · exact hlast (by rw [List.getLast?_eq_getElem?, List.getElem?_eq_getElem])
  · rintro ⟨i, j, a, b, hij, hi, ha, hj, hb⟩
    have hleft : before.length ≤ i := by
      by_contra hlt
      rw [List.getElem?_append_left (not_le.1 hlt)] at hi
      simp [hbefore a (List.mem_of_getElem? hi)] at ha
    have hright : j < before.length + core.length := by
      by_contra hge
      rw [List.getElem?_append_right (by omega), List.getElem?_append_right (by omega)] at hj
      simp [hbehind b (List.mem_of_getElem? hj)] at hb
    omega

end Trim

/-! ## Accepted names -/

theorem utf8Size_username {c : Char} (h : isUsernameChar c = true) : c.utf8Size = 1 := by
  have hascii : c.val ≤ 0x7f := by
    simp only [isUsernameChar, Bool.or_eq_true, Bool.and_eq_true, decide_eq_true_eq, beq_iff_eq] at h
    rcases h with (⟨-, h⟩ | ⟨-, h⟩) | rfl
    · exact UInt32.le_trans h (by decide)
    · exact UInt32.le_trans h (by decide)
    · decide
  simp [Char.utf8Size, hascii]

/-- Such names are as long in bytes as in characters. -/
theorem utf8Len_username {name : Text} (h : ∀ c ∈ name, isUsernameChar c = true) : utf8Len name = name.length := by
  induction name with
  | nil => rfl
  | cons c name ih =>
    rw [utf8Len_cons, utf8Size_username (h c List.mem_cons_self), ih fun d hd => h d (List.mem_cons_of_mem _ hd),
      List.length_cons, Nat.add_comm]

/-- **The names that are accepted.** -/
theorem validateUsername_eq_ok {name : Text} : validateUsername name = .ok () ↔
    3 ≤ name.length ∧ name.length ≤ 24 ∧ (∀ c ∈ name, isUsernameChar c = true) ∧ name ∉ usernameReserved := by
  unfold validateUsername
  by_cases hchars : ∀ c ∈ name, isUsernameChar c = true
  · rw [utf8Len_username hchars]
    have hall : name.all isUsernameChar = true := List.all_eq_true.2 hchars
    by_cases hlength : 3 ≤ name.length ∧ name.length ≤ 24
    · by_cases hreserved : name ∈ usernameReserved
      · simp [hlength, hall, hreserved]
      · simpa [hlength, hall, hreserved] using hchars
    · rw [if_pos hlength]
      exact iff_of_false nofun fun h => hlength ⟨h.1, h.2.1⟩
  · have hall : name.all isUsernameChar = false := by simpa using hchars
    refine iff_of_false ?_ fun h => hchars h.2.2.1
    split
    · exact nofun
    · simp [hall]

/-- A letter or a digit. -/
def isWordChar (c : Char) : Bool := isUsernameChar c && c != '_'

/-- Two letters or digits, with something between them, are among the first 20 characters. -/
def HasSpan (name : Text) : Prop :=
  ∃ i j c d, i + 2 ≤ j ∧ j < 20 ∧ name[i]? = some c ∧ isWordChar c = true ∧ name[j]? = some d ∧ isWordChar d = true

/-- The characters of a user name, with `_` for the others. -/
def usernamePart (name : Text) : Text :=
  trimmed (· = '_') ((name.map fun c => if isUsernameChar c then c else '_').take 20)

theorem oidcBaseUsername_eq (env : Env) (preferred : Text) : oidcBaseUsername env preferred =
    let part := usernamePart (env.toLowercase preferred)
    let padded := if part.length < 3 then ['u', 's', 'e', 'r', '-'] ++ part else part
    if padded ∈ usernameReserved then padded ++ ['_', 'u', 'w', 'u'] else padded := by
  rfl

/-- **What is left is long enough** exactly if the name has such a span. -/
theorem three_le_usernamePart_iff (name : Text) : 3 ≤ (usernamePart name).length ↔ HasSpan name := by
  have hget : ∀ i, ((name.map fun c => if isUsernameChar c then c else '_').take 20)[i]? =
      if i < 20 then (name[i]?).map (fun c => if isUsernameChar c then c else '_') else none := by
    intro i
    rw [List.getElem?_take, List.getElem?_map]
  have hkept : ∀ c, decide ((if isUsernameChar c then c else '_') = '_') = false ↔ isWordChar c = true := by
    intro c
    unfold isWordChar
    by_cases hc : isUsernameChar c = true
    · simp [hc]
    · simp [hc]
  unfold usernamePart HasSpan
  rw [three_le_trimmed_iff]
  constructor
  · rintro ⟨i, j, a, b, hij, hi, ha, hj, hb⟩
    rw [hget] at hi hj
    split at hj
    · rename_i hlt
      rw [if_pos (by omega)] at hi
      obtain ⟨c, hc, rfl⟩ := Option.map_eq_some_iff.1 hi
      obtain ⟨d, hd, rfl⟩ := Option.map_eq_some_iff.1 hj
      exact ⟨i, j, c, d, hij, hlt, hc, (hkept c).1 ha, hd, (hkept d).1 hb⟩
    · cases hj
  · rintro ⟨i, j, c, d, hij, hlt, hi, hc, hj, hd⟩
    refine ⟨i, j, _, _, hij, ?_, (hkept c).2 hc, ?_, (hkept d).2 hd⟩
    · rw [hget, if_pos (by omega), hi, Option.map_some]
    · rw [hget, if_pos hlt, hj, Option.map_some]

theorem username_usernamePart {name : Text} : ∀ c ∈ usernamePart name, isUsernameChar c = true := by
  intro c hc
  have hmem := (List.take_subset _ _) ((infix_trimmed _ _).subset hc)
  obtain ⟨d, -, rfl⟩ := List.mem_map.1 hmem
  split
  · assumption
  · decide

theorem length_usernamePart (name : Text) : (usernamePart name).length ≤ 20 :=
  (infix_trimmed _ _).length_le.trans (List.length_take_le _ _)

/-- What is one byte for each character is cut anywhere. -/
theorem truncate_of_ascii {t : Text} (h : ∀ c ∈ t, c.utf8Size = 1) (n : ℕ) : truncate t n = some (t.take n) := by
  induction t generalizing n with
  | nil => simp [truncate]
  | cons c t ih =>
    cases n with
    | zero => simp [truncate]
    | succ n =>
      have hc := h c List.mem_cons_self
      have ih := ih (fun d hd => h d (List.mem_cons_of_mem _ hd)) n
      simp [truncate, hc, ih]

/-! ## Reserved names -/

/-- A reserved name has letters only. -/
theorem reserved_letters {name : Text} (h : name ∈ usernameReserved) : ∀ c ∈ name, c.isAlpha = true := by
  simp only [usernameReserved, List.mem_cons, List.not_mem_nil, or_false] at h
  rcases h with rfl | rfl | rfl | rfl | rfl <;> simp

theorem length_reserved {name : Text} (h : name ∈ usernameReserved) : name.length ≤ 7 := by
  simp only [usernameReserved, List.mem_cons, List.not_mem_nil, or_false] at h
  rcases h with rfl | rfl | rfl | rfl | rfl <;> simp

/-- What has a digit or an underscore is not reserved. -/
theorem not_reserved_of_mem {name : Text} {c : Char} (hc : c ∈ name) (halpha : c.isAlpha = false) :
    name ∉ usernameReserved := by
  intro h
  simp [reserved_letters h c hc] at halpha

/-! ## Suffixes -/

theorem username_digits (n : ℕ) : ∀ c ∈ Nat.toDigits 10 n, isUsernameChar c = true ∧ c.isAlpha = false := by
  intro c hc
  obtain ⟨hlow, hhigh⟩ := toNat_of_isDigit (isDigit_toDigits n c hc)
  have hnat : c.val.toNat ≤ 57 := hhigh
  constructor
  · have hzero : '0' ≤ c := hlow
    have hnine : c ≤ '9' := hhigh
    simp [isUsernameChar, hzero, hnine]
  · simp only [Char.isAlpha, Char.isUpper, Char.isLower, Bool.or_eq_false_iff, Bool.and_eq_false_iff,
      decide_eq_false_iff_not, ge_iff_le, UInt32.le_iff_toNat_le]
    have hupper : 'A'.val.toNat = 65 := rfl
    have hlower : 'a'.val.toNat = 97 := rfl
    omega

/-- An accepted name that is short enough is accepted with a number behind it. -/
theorem validate_suffixed {name : Text} (h : ∀ c ∈ name, isUsernameChar c = true) (hlow : 3 ≤ name.length)
    (hhigh : name.length ≤ 21) {suffix : ℕ} (hsuffix : suffix ≤ 999) :
    validateUsername (name ++ Nat.toDigits 10 suffix) = .ok () := by
  have hlength : (Nat.toDigits 10 suffix).length ≤ 3 := Nat.toDigits_length 10 suffix 3 (by decide) (by omega)
  have hpos : 0 < (Nat.toDigits 10 suffix).length := Nat.length_toDigits_pos
  obtain ⟨digit, hdigit⟩ := List.exists_mem_of_length_pos hpos
  refine validateUsername_eq_ok.2 ⟨by simp; omega, by simp; omega, fun c hc => ?_, ?_⟩
  · rcases List.mem_append.1 hc with hc | hc
    · exact h c hc
    · exact (username_digits suffix c hc).1
  · exact not_reserved_of_mem (List.mem_append_right _ hdigit) (username_digits suffix digit hdigit).2

/-- **The names of first logins.**  The cut does not panic; and the name, and the name with any number that the callback
tries, is accepted exactly if the name that was preferred has such a span. -/
theorem registrable_iff (env : Env) (preferred : Text) :
    (∃ cut, truncate ((env.toLowercase preferred).map fun c => if isUsernameChar c then c else '_') 20 = some cut) ∧
    ((validateUsername (oidcBaseUsername env preferred) = .ok () ∧ ∀ suffix, 1 ≤ suffix → suffix ≤ 999 →
      validateUsername (oidcBaseUsername env preferred ++ Nat.toDigits 10 suffix) = .ok ()) ↔
      HasSpan (env.toLowercase preferred)) := by
  refine ⟨⟨_, truncate_of_ascii (fun c hc => ?_) 20⟩, ?_⟩
  · obtain ⟨d, -, rfl⟩ := List.mem_map.1 hc
    split
    · exact utf8Size_username (by assumption)
    · decide
  rw [oidcBaseUsername_eq, ← three_le_usernamePart_iff]
  have hpart := @username_usernamePart (env.toLowercase preferred)
  have hlength := length_usernamePart (env.toLowercase preferred)
  generalize usernamePart (env.toLowercase preferred) = part at *
  simp only
  constructor
  · rintro ⟨hbase, -⟩
    by_contra hshort
    rw [if_pos (not_le.1 hshort)] at hbase
    have hnot : ['u', 's', 'e', 'r', '-'] ++ part ∉ usernameReserved :=
      not_reserved_of_mem (c := '-') (by simp) (by decide)
    rw [if_neg hnot] at hbase
    have hdash := (validateUsername_eq_ok.1 hbase).2.2.1 '-' (by simp)
    exact absurd hdash (by decide)
  · intro hlong
    rw [if_neg (not_lt.2 hlong)]
    by_cases hreserved : part ∈ usernameReserved
    · rw [if_pos hreserved]
      have hshort := length_reserved hreserved
      have hchars : ∀ c ∈ part ++ ['_', 'u', 'w', 'u'], isUsernameChar c = true := by
        intro c hc
        rcases List.mem_append.1 hc with hc | hc
        · exact hpart c hc
        · simp only [List.mem_cons, List.not_mem_nil, or_false] at hc
          rcases hc with rfl | rfl | rfl | rfl <;> decide
      have hends : (part ++ ['_', 'u', 'w', 'u']).length = part.length + 4 := List.length_append
      refine ⟨validateUsername_eq_ok.2 ⟨by omega, by omega, hchars, ?_⟩, fun suffix _ hsuffix =>
        validate_suffixed hchars (by omega) (by omega) hsuffix⟩
      exact not_reserved_of_mem (c := '_') (by simp) (by decide)
    · rw [if_neg hreserved]
      exact ⟨validateUsername_eq_ok.2 ⟨hlong, by omega, hpart, hreserved⟩, fun suffix _ hsuffix =>
        validate_suffixed hpart hlong (by omega) hsuffix⟩

/-- `a` becomes `user-a`, which is not accepted. -/
theorem unregistrable : oidcBaseUsername .plain ['a'] = ['u', 's', 'e', 'r', '-', 'a'] ∧
    validateUsername (oidcBaseUsername .plain ['a']) = .error "username may only contain a-z, 0-9, _" := by
  decide

end Server
end Uwuubox
