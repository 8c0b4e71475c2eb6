import Uwuubox.Server.Words

/-!
# Sanitized file names

`sanitize_filename` cuts a name at a fixed byte, where a character need not begin.

* `truncate_eq_some` — what `String::truncate` returns: the prefix with that many bytes, if there is one.
* `SafeName` — what a name in a `Content-Disposition` header must be.
* `visiblePart`, `CutsCleanly` — the last component without control characters and leading dots, and whether it can be
  cut.
* `sanitize_safe_iff` — **the name is safe, and stays as it is, exactly if it can be cut**.
* `sanitize_panics` — a name that cannot.
-/

namespace Uwuubox
namespace Server

open Dedupe

/-! ## Lengths in bytes -/

@[simp] theorem utf8Len_nil : utf8Len [] = 0 := rfl

@[simp] theorem utf8Len_cons (c : Char) (t : Text) : utf8Len (c :: t) = c.utf8Size + utf8Len t := rfl

theorem utf8Len_eq_zero {t : Text} : utf8Len t = 0 ↔ t = [] := by
  cases t with
  | nil => simp
  | cons c cs =>
    have hpos := c.utf8Size_pos
    simp only [utf8Len_cons, List.cons_ne_nil, iff_false]
    omega

/-- What replaces characters by others of the same size keeps the length. -/
theorem utf8Len_map {f : Char → Char} (hf : ∀ c, (f c).utf8Size = c.utf8Size) (t : Text) :
    utf8Len (t.map f) = utf8Len t := by
  induction t with
  | nil => rfl
  | cons c cs ih => rw [List.map_cons, utf8Len_cons, utf8Len_cons, hf, ih]

/-- **What `String::truncate` leaves**: the prefix of that length, if there is one. -/
theorem truncate_eq_some {t p : Text} {n : ℕ} (h : n ≤ utf8Len t) :
    truncate t n = some p ↔ p <+: t ∧ utf8Len p = n := by
  induction t generalizing n p with
  | nil =>
    obtain rfl := Nat.le_zero.1 h
    simp only [truncate, Option.some.injEq, List.prefix_nil, utf8Len_eq_zero, and_self]
    exact eq_comm
  | cons c cs ih =>
    unfold truncate
    rw [utf8Len_cons] at h
    by_cases hzero : n = 0
    · subst hzero
      simp only [if_pos, Option.some.injEq, utf8Len_eq_zero]
      constructor
      · rintro rfl
        exact ⟨List.nil_prefix, rfl⟩
      · exact fun hp => hp.2.symm
    · rw [if_neg hzero]
      by_cases hfits : c.utf8Size ≤ n
      · rw [if_pos hfits, Option.map_eq_some_iff]
        have hrest : n - c.utf8Size ≤ utf8Len cs := by omega
        constructor
        · rintro ⟨q, hq, rfl⟩
          obtain ⟨hfront, hlength⟩ := (ih hrest).1 hq
          refine ⟨(List.prefix_cons_inj c).2 hfront, ?_⟩
          rw [utf8Len_cons, hlength]
          omega
        · rintro ⟨hfront, hlength⟩
          rcases List.prefix_cons_iff.1 hfront with rfl | ⟨q, rfl, hq⟩
          · exact absurd hlength.symm hzero
          · rw [utf8Len_cons] at hlength
            exact ⟨q, (ih hrest).2 ⟨hq, by omega⟩, rfl⟩
      · rw [if_neg hfits]
        constructor
        · nofun
        · rintro ⟨hfront, hlength⟩
          rcases List.prefix_cons_iff.1 hfront with rfl | ⟨q, rfl, -⟩
          · exact absurd hlength.symm hzero
          · rw [utf8Len_cons] at hlength
            omega

/-! ## The steps of `sanitize_filename` -/

/-- The replacement of quotes, backslashes and semicolons. -/
def underscore (c : Char) : Char := if c = '"' || c = '\'' || c = '\\' || c = ';' then '_' else c

/-- The last component of a name, without control characters and without leading dots. -/
def visiblePart (name : Text) : Text :=
  ((name.rtakeWhile fun c => c ≠ '/' && c ≠ '\\').filter fun c => !isControl c).dropWhile (· = '.')

theorem utf8Size_underscore (c : Char) : (underscore c).utf8Size = c.utf8Size := by
  unfold underscore
  split
  · rename_i h
    simp only [Bool.or_eq_true, decide_eq_true_eq] at h
    rcases h with ((rfl | rfl) | rfl) | rfl <;> rfl
  · rfl

theorem underscore_eq_dot {c : Char} : underscore c = '.' ↔ c = '.' := by
  unfold underscore
  split
  · rename_i h
    simp only [Bool.or_eq_true, decide_eq_true_eq] at h
    rcases h with ((rfl | rfl) | rfl) | rfl <;> decide
  · rfl

/-- What is left of a name before it is cut. -/
theorem sanitizeFilename_eq (name : Text) : sanitizeFilename name =
    let out := if visiblePart name = [] then downloadName else (visiblePart name).map underscore
    if utf8Len out > 128 then truncate out 128 else some out := by
  have hdots : (fun c => decide (c = '.')) ∘ underscore = fun c => decide (c = '.') := by
    funext c
    simp only [Function.comp_apply, underscore_eq_dot]
  unfold sanitizeFilename visiblePart
  simp only
  rw [show (fun c => if c = '"' || c = '\'' || c = '\\' || c = ';' then '_' else c) = underscore from rfl,
    List.dropWhile_map, hdots]
  simp only [List.isEmpty_iff, List.map_eq_nil_iff]

/-! ## Safe names -/

/-- A character that a header may have between its quotes. -/
def isPlain (c : Char) : Bool :=
  c ≠ '/' && c ≠ '\\' && !isControl c && c ≠ '"' && c ≠ '\'' && c ≠ ';'

/-- What a file name in a header must be. -/
structure SafeName (name : Text) : Prop where
  ne_nil : name ≠ []
  short : utf8Len name ≤ 128
  plain : ∀ c ∈ name, isPlain c = true
  noDot : name.head? ≠ some '.'

theorem isPlain_underscore {c : Char} (hslash : c ≠ '/') (hcontrol : isControl c = false) :
    isPlain (underscore c) = true := by
  unfold underscore
  split
  · decide
  · rename_i h
    simp only [Bool.or_eq_true, decide_eq_true_eq, not_or] at h
    obtain ⟨⟨⟨hquote, hsingle⟩, hback⟩, hsemi⟩ := h
    simp [isPlain, hslash, hback, hcontrol, hquote, hsingle, hsemi]

/-- What is kept of a name. -/
theorem mem_visiblePart {name : Text} {c : Char} (h : c ∈ visiblePart name) : c ≠ '/' ∧ isControl c = false := by
  have hmem := (List.dropWhile_sublist _).subset h
  obtain ⟨hbase, hcontrol⟩ := List.mem_filter.1 hmem
  have hslash := List.mem_rtakeWhile_imp hbase
  simp only [Bool.and_eq_true, decide_eq_true_eq] at hslash
  exact ⟨hslash.1, by simpa using hcontrol⟩

theorem head_visiblePart (name : Text) : (visiblePart name).head? ≠ some '.' := by
  intro h
  have hhead := List.head?_dropWhile_not (fun c => decide (c = '.'))
    ((name.rtakeWhile fun c => c ≠ '/' && c ≠ '\\').filter fun c => !isControl c)
  unfold visiblePart at h
  rw [h] at hhead
  simp at hhead

/-- A nonempty prefix of what is kept is safe, if it is short. -/
theorem safeName_prefix {name p : Text} (hp : p <+: (visiblePart name).map underscore) (hne : p ≠ [])
    (hshort : utf8Len p ≤ 128) : SafeName p where
  ne_nil := hne
  short := hshort
  plain c hc := by
    obtain ⟨d, hd, rfl⟩ := List.mem_map.1 (hp.subset hc)
    obtain ⟨hslash, hcontrol⟩ := mem_visiblePart hd
    exact isPlain_underscore hslash hcontrol
  noDot h := by
    have hhead : ((visiblePart name).map underscore).head? = some '.' := by
      obtain ⟨rest, rfl⟩ : ∃ rest, p = '.' :: rest := ⟨p.tail, (List.cons_head?_tail h).symm⟩
      obtain ⟨tail, htail⟩ := hp
      rw [← htail]
      rfl
    rw [List.head?_map, Option.map_eq_some_iff] at hhead
    obtain ⟨c, hc, hdot⟩ := hhead
    rw [underscore_eq_dot] at hdot
    exact head_visiblePart name (hdot ▸ hc)

theorem safeName_download : SafeName downloadName where
  ne_nil := by decide
  short := by decide
  plain := by simp [downloadName, isPlain, isControl]
  noDot := by simp [downloadName]

/-- A sanitized name is safe. -/
theorem safeName_of_sanitize {name out : Text} (h : sanitizeFilename name = some out) : SafeName out := by
  rw [sanitizeFilename_eq] at h
  by_cases hempty : visiblePart name = []
  · simp only [if_pos hempty] at h
    obtain rfl : downloadName = out := Option.some.inj h
    exact safeName_download
  · simp only [if_neg hempty] at h
    have hne : (visiblePart name).map underscore ≠ [] := by rwa [Ne, List.map_eq_nil_iff]
    split at h
    · rename_i hlong
      obtain ⟨hfirst, hlength⟩ := (truncate_eq_some hlong.le).1 h
      refine safeName_prefix hfirst ?_ hlength.le
      rintro rfl
      cases hlength
    · rename_i hshort
      obtain rfl := Option.some.inj h
      exact safeName_prefix (List.prefix_refl _) hne (not_lt.1 hshort)

/-- **A safe name stays as it is.** -/
theorem SafeName.sanitize {name : Text} (h : SafeName name) : sanitizeFilename name = some name := by
  have hplain : ∀ c ∈ name, c ≠ '/' ∧ c ≠ '\\' ∧ isControl c = false ∧ underscore c = c := by
    intro c hc
    have hc := h.plain c hc
    simp only [isPlain, Bool.and_eq_true, decide_eq_true_eq, Bool.not_eq_true'] at hc
    obtain ⟨⟨⟨⟨⟨hslash, hback⟩, hcontrol⟩, hquote⟩, hsingle⟩, hsemi⟩ := hc
    refine ⟨hslash, hback, hcontrol, if_neg ?_⟩
    simp [hquote, hsingle, hback, hsemi]
  have hvisible : visiblePart name = name := by
    unfold visiblePart
    rw [List.rtakeWhile_eq_self_iff.2 fun c hc => by simp [(hplain c hc).1, (hplain c hc).2.1],
      List.filter_eq_self.2 fun c hc => by simp [(hplain c hc).2.2.1]]
    cases hname : name with
    | nil => rfl
    | cons c cs =>
      have hdot : c ≠ '.' := by
        rintro rfl
        exact h.noDot (by rw [hname]; rfl)
      exact List.dropWhile_cons_of_neg (by simp [hdot])
  have hmap : name.map underscore = name :=
    (List.map_congr_left fun c hc => (hplain c hc).2.2.2).trans (List.map_id name)
  rw [sanitizeFilename_eq, hvisible]
  simp only [if_neg h.ne_nil, hmap]
  exact if_neg (not_lt.2 h.short)

/-- The text is short, or a character begins behind its first 128 bytes. -/
def CutsCleanly (t : Text) : Prop := utf8Len t ≤ 128 ∨ ∃ p, p <+: t ∧ utf8Len p = 128

theorem cutsCleanly_map {f : Char → Char} (hf : ∀ c, (f c).utf8Size = c.utf8Size) {t : Text} :
    CutsCleanly (t.map f) ↔ CutsCleanly t := by
  unfold CutsCleanly
  rw [utf8Len_map hf]
  refine or_congr_right ⟨?_, ?_⟩
  · rintro ⟨p, hp, hlength⟩
    obtain ⟨q, hq, rfl⟩ := List.prefix_map_iff.1 hp
    exact ⟨q, hq, (utf8Len_map hf q) ▸ hlength⟩
  · rintro ⟨p, hp, hlength⟩
    exact ⟨p.map f, hp.map f, (utf8Len_map hf p).trans hlength⟩

/-- **A sanitized name is safe and stays as it is** exactly if what is kept of it can be cut; otherwise it panics. -/
theorem sanitize_safe_iff (name : Text) :
    (∃ out, sanitizeFilename name = some out ∧ SafeName out ∧ sanitizeFilename out = some out) ↔
      CutsCleanly (visiblePart name) := by
  have hsafe : (∃ out, sanitizeFilename name = some out ∧ SafeName out ∧ sanitizeFilename out = some out) ↔
      ∃ out, sanitizeFilename name = some out :=
    exists_congr fun out => and_iff_left_of_imp fun h => ⟨safeName_of_sanitize h, (safeName_of_sanitize h).sanitize⟩
  rw [hsafe, sanitizeFilename_eq, ← cutsCleanly_map utf8Size_underscore]
  by_cases hempty : visiblePart name = []
  · have hcuts : CutsCleanly ((visiblePart name).map underscore) := by
      rw [hempty]
      exact .inl (Nat.zero_le _)
    simp only [if_pos hempty, hcuts, iff_true]
    exact ⟨downloadName, by decide⟩
  · simp only [if_neg hempty]
    by_cases hshort : utf8Len ((visiblePart name).map underscore) ≤ 128
    · rw [if_neg (not_lt.2 hshort)]
      exact iff_of_true ⟨_, rfl⟩ (.inl hshort)
    · have hlong := not_le.1 hshort
      rw [if_pos hlong]
      constructor
      · rintro ⟨out, hout⟩
        exact .inr ⟨out, (truncate_eq_some hlong.le).1 hout⟩
      · rintro (hle | ⟨p, hp, hlength⟩)
        · exact absurd hle hshort
        · exact ⟨p, (truncate_eq_some hlong.le).2 ⟨hp, hlength⟩⟩

/-- An `a` and 64 times `é`: 129 bytes, with a character across the cut. -/
theorem sanitize_panics : sanitizeFilename ('a' :: List.replicate 64 'é') = none := by decide

end Server
end Uwuubox
