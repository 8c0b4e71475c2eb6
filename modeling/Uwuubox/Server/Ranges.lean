import Uwuubox.Server.Words

/-!
# Range headers

`range::parse` against the grammar of a single range.

* `IsNumber` — a decimal number of any size.
* `ByteRange`, `Asks` — what a header asks for, with `a ≤ b` in `bytes=a-b`; `ByteRange.outcome` — what it then gets.
* `Specified` — the specification of the outcome.
* `parse_asks`, `parse_ne_invalid` — the parser follows the grammar, as far as the numbers fit 64 bits.
* `parse_specified_iff` — **the outcome is the specified one** exactly if no number of the range is too large.
* `parse_hugeEnd` — one that is.
-/

namespace Uwuubox
namespace Server

open Dedupe

/-! ## The specification -/

/-- The value of a string of digits. -/
def numeral (value : Text) : ℕ := value.foldl (fun n c => 10 * n + (c.toNat - '0'.toNat)) 0

/-- A decimal number of any size. -/
def IsNumber (value : Text) (n : ℕ) : Prop := value ≠ [] ∧ (∀ c ∈ value, c.isDigit = true) ∧ numeral value = n

/-- A single range. -/
inductive ByteRange where
  | between (first last : ℕ)
  | onwards (first : ℕ)
  | suffix (length : ℕ)

/-- What a header asks for: `bytes=a-b`, `bytes=a-` or `bytes=-n`. -/
inductive Asks (header : Text) : ByteRange → Prop
  | between {s t : Text} {a b : ℕ} (ha : IsNumber s a) (hb : IsNumber t b) (hle : a ≤ b)
      (h : trim header = bytesUnit ++ s ++ '-' :: t) : Asks header (.between a b)
  | onwards {s : Text} {a : ℕ} (ha : IsNumber s a) (h : trim header = bytesUnit ++ s ++ ['-']) :
      Asks header (.onwards a)
  | suffix {t : Text} {n : ℕ} (hn : IsNumber t n) (h : trim header = bytesUnit ++ '-' :: t) :
      Asks header (.suffix n)

/-- What is served of a resource. -/
def ByteRange.outcome (len : ℕ) : ByteRange → RangeOutcome
  | between a b => if a < len then .satisfiable a (min b (len - 1)) else .unsatisfiable
  | onwards a => if a < len then .satisfiable a (len - 1) else .unsatisfiable
  | suffix n => if n = 0 ∨ len = 0 then .unsatisfiable else .satisfiable (len - min n len) (len - 1)

/-- The specification: everything without a header, what is asked for with one, and nothing else. -/
def Specified (header : Option Text) (len : ℕ) (outcome : RangeOutcome) : Prop :=
  match header with
  | none => outcome = .full
  | some header => (∀ range, Asks header range → outcome = range.outcome len) ∧
      ((∀ range, ¬ Asks header range) → outcome = .invalid)

theorem ByteRange.outcome_ne_invalid (len : ℕ) (range : ByteRange) : range.outcome len ≠ .invalid := by
  cases range with
  | between a b | onwards a | suffix n =>
    simp only [outcome]
    split <;> simp

/-! ## Numbers -/

/-- `decimal` reads the numbers that fit 64 bits. -/
theorem decimal_eq_some {value : Text} {n : ℕ} : decimal value = some n ↔ IsNumber value n ∧ n < 2 ^ 64 := by
  have hdef : decimal value =
      if !value.isEmpty && value.all Char.isDigit then if numeral value < 2 ^ 64 then some (numeral value) else none
      else none := rfl
  rw [hdef]
  by_cases htest : (!value.isEmpty && value.all Char.isDigit) = true
  · rw [if_pos htest]
    rw [Bool.and_eq_true, Bool.not_eq_true', List.isEmpty_eq_false_iff, List.all_eq_true] at htest
    by_cases hfits : numeral value < 2 ^ 64
    · rw [if_pos hfits, Option.some.injEq]
      exact ⟨fun h => ⟨⟨htest.1, htest.2, h⟩, h ▸ hfits⟩, fun h => h.1.2.2⟩
    · rw [if_neg hfits]
      constructor
      · nofun
      · rintro ⟨⟨-, -, rfl⟩, hlt⟩
        exact absurd hlt hfits
  · rw [if_neg htest]
    constructor
    · nofun
    · rintro ⟨⟨hne, hdigits, -⟩, -⟩
      refine absurd ?_ htest
      rw [Bool.and_eq_true, Bool.not_eq_true', List.isEmpty_eq_false_iff, List.all_eq_true]
      exact ⟨hne, hdigits⟩

/-- A number has one value. -/
theorem IsNumber.decimal {value : Text} {n : ℕ} (h : IsNumber value n) :
    decimal value = if n < 2 ^ 64 then some n else none := by
  split
  · rename_i hlt
    exact decimal_eq_some.2 ⟨h, hlt⟩
  · rename_i hge
    rw [Option.eq_none_iff_forall_ne_some]
    intro m hm
    obtain ⟨hm, hlt⟩ := decimal_eq_some.1 hm
    exact hge (h.2.2.symm.trans hm.2.2 ▸ hlt)

/-- A digit is neither a dash, nor a comma, nor white space. -/
theorem of_isDigit {c : Char} (h : c.isDigit = true) : c ≠ '-' ∧ c ≠ ',' ∧ isWhitespace c = false := by
  have hrange := toNat_of_isDigit h
  refine ⟨?_, ?_, ?_⟩
  · rintro rfl
    exact absurd hrange.1 (by decide)
  · rintro rfl
    exact absurd hrange.1 (by decide)
  · simp only [isWhitespace, Bool.or_eq_false_iff, Bool.and_eq_false_iff, decide_eq_false_iff_not, beq_eq_false_iff_ne]
    omega

/-! ## The parser -/

theorem stripPrefix_eq_some {p t s : Text} : stripPrefix p t = some s ↔ t = p ++ s := by
  induction p generalizing t with
  | nil => exact ⟨fun h => Option.some.inj h, fun h => congrArg some h⟩
  | cons c cs ih =>
    cases t with
    | nil => exact ⟨nofun, nofun⟩
    | cons d ds =>
      unfold stripPrefix
      by_cases heq : c = d
      · subst heq
        rw [if_pos rfl, ih, List.cons_append, List.cons.injEq]
        exact (and_iff_right rfl).symm
      · rw [if_neg heq, List.cons_append, List.cons.injEq]
        exact ⟨nofun, fun h => absurd h.1.symm heq⟩

/-- The text behind `bytes=`, at its first dash. -/
def parseSpec (first last : Text) (len : ℕ) : RangeOutcome :=
  if first = [] then
    match decimal last with
    | none => .invalid
    | some suffixLen =>
      if suffixLen = 0 || len = 0 then .unsatisfiable else .satisfiable (len - suffixLen) (len - 1)
  else
    match decimal first with
    | none => .invalid
    | some start =>
      if last.isEmpty then if len = 0 || start ≥ len then .unsatisfiable else .satisfiable start (len - 1)
      else match decimal last with
        | none => .invalid
        | some stop =>
          if stop < start then .invalid
          else if len = 0 || start ≥ len then .unsatisfiable
          else .satisfiable start (min stop (len - 1))

/-- Where there is a dash, the text is split at the first. -/
theorem span_dash {first last : Text} (h : '-' ∉ first) :
    (first ++ '-' :: last).span (· ≠ '-') = (first, '-' :: last) := by
  have hall : ∀ c ∈ first, (fun c => decide (c ≠ '-')) c = true := by
    intro c hc
    exact decide_eq_true fun heq => h (heq ▸ hc)
  rw [List.span_eq_takeWhile_dropWhile, List.takeWhile_append_of_pos hall, List.dropWhile_append_of_pos hall]
  simp

/-- The outcome for a range of the right characters. -/
theorem parse_of_dash {header first last : Text} (h : trim header = bytesUnit ++ first ++ '-' :: last)
    (hdash : '-' ∉ first) (hclean : ∀ c ∈ first ++ '-' :: last, c ≠ ',' ∧ isWhitespace c = false) (len : ℕ) :
    Range.parse (some header) len = parseSpec first last len := by
  have hstrip : stripPrefix bytesUnit (trim header) = some (first ++ '-' :: last) :=
    stripPrefix_eq_some.2 (by rw [h, List.append_assoc])
  have htest : ((first ++ '-' :: last).isEmpty || (first ++ '-' :: last).contains ',' ||
      (first ++ '-' :: last).any isWhitespace) = false := by
    rw [Bool.or_eq_false_iff, Bool.or_eq_false_iff]
    refine ⟨⟨by simp, ?_⟩, List.any_eq_false.2 fun c hc => by simp [(hclean c hc).2]⟩
    rw [List.contains_eq_mem, decide_eq_false_iff_not]
    exact fun hmem => (hclean _ hmem).1 rfl
  unfold Range.parse
  simp only [hstrip, htest, span_dash hdash]
  cases first with
  | nil => rfl
  | cons c cs => rfl

/-- Otherwise the header is not accepted. -/
theorem parse_ne_invalid {header : Text} {len : ℕ} (h : Range.parse (some header) len ≠ .invalid) :
    ∃ first last, trim header = bytesUnit ++ first ++ '-' :: last ∧ '-' ∉ first ∧
      Range.parse (some header) len = parseSpec first last len := by
  unfold Range.parse at h ⊢
  simp only at h ⊢
  cases hstrip : stripPrefix bytesUnit (trim header) with
  | none => simp [hstrip] at h
  | some spec =>
    simp only [hstrip] at h ⊢
    by_cases htest : (spec.isEmpty || spec.contains ',' || spec.any isWhitespace) = true
    · rw [if_pos htest] at h
      exact absurd rfl h
    · rw [if_neg htest] at h ⊢
      have hspec := stripPrefix_eq_some.1 hstrip
      have hsplit := List.takeWhile_append_dropWhile (p := (· ≠ '-')) (l := spec)
      have hdash : '-' ∉ spec.takeWhile (· ≠ '-') := by
        intro hmem
        simpa using List.mem_takeWhile_imp hmem
      rw [List.span_eq_takeWhile_dropWhile] at h ⊢
      cases hdrop : spec.dropWhile (· ≠ '-') with
      | nil =>
        rw [hdrop] at h
        exact absurd rfl h
      | cons c last =>
        have hc : c = '-' := by
          have hhead := List.head?_dropWhile_not (fun c => decide (c ≠ '-')) spec
          rw [hdrop] at hhead
          simpa using hhead
        subst hc
        rw [hdrop] at hsplit
        refine ⟨spec.takeWhile (· ≠ '-'), last, ?_, hdash, ?_⟩
        · rw [hspec, List.append_assoc, hsplit]
        · cases spec.takeWhile (· ≠ '-') with
          | nil => rfl
          | cons d ds => rfl

/-! ## The parser and the grammar -/

/-- The numbers of a range fit 64 bits. -/
def ByteRange.Fits : ByteRange → Prop
  | between a b => a < 2 ^ 64 ∧ b < 2 ^ 64
  | onwards a => a < 2 ^ 64
  | suffix n => n < 2 ^ 64

instance : DecidablePred ByteRange.Fits
  | .between a b => inferInstanceAs (Decidable (a < 2 ^ 64 ∧ b < 2 ^ 64))
  | .onwards a => inferInstanceAs (Decidable (a < 2 ^ 64))
  | .suffix n => inferInstanceAs (Decidable (n < 2 ^ 64))

/-- What is asked for is answered, if the numbers fit, and refused otherwise. -/
theorem parse_asks {header : Text} {range : ByteRange} (h : Asks header range) (len : ℕ) :
    Range.parse (some header) len = if range.Fits then range.outcome len else .invalid := by
  have hnumber : ∀ {s : Text} {n : ℕ}, IsNumber s n → '-' ∉ s ∧ ∀ c ∈ s, c ≠ ',' ∧ isWhitespace c = false :=
    fun hs => ⟨fun hmem => (of_isDigit (hs.2.1 _ hmem)).1 rfl, fun c hc => (of_isDigit (hs.2.1 c hc)).2⟩
  have hdash : '-' ≠ ',' ∧ isWhitespace '-' = false := by decide
  cases h with
  | @between s t a b ha hb hle htrim =>
    rw [parse_of_dash htrim (hnumber ha).1 (fun c hc => ?_)]
    · unfold parseSpec
      rw [if_neg ha.1, ha.decimal, List.isEmpty_eq_false_iff.2 hb.1, hb.decimal]
      grind [ByteRange.Fits, ByteRange.outcome]
    · rcases List.mem_append.1 hc with hc | hc
      · exact (hnumber ha).2 c hc
      · rcases List.mem_cons.1 hc with rfl | hc
        · exact hdash
        · exact (hnumber hb).2 c hc
  | @onwards s a ha htrim =>
    rw [parse_of_dash htrim (hnumber ha).1 (fun c hc => ?_)]
    · unfold parseSpec
      rw [if_neg ha.1, ha.decimal]
      grind [ByteRange.Fits, ByteRange.outcome]
    · rcases List.mem_append.1 hc with hc | hc
      · exact (hnumber ha).2 c hc
      · rw [List.mem_singleton.1 hc]
        exact hdash
  | @suffix t n hn htrim =>
    rw [@parse_of_dash header [] t htrim List.not_mem_nil (fun c hc => ?_)]
    · unfold parseSpec
      rw [if_pos rfl, hn.decimal]
      grind [ByteRange.Fits, ByteRange.outcome]
    · rcases List.mem_cons.1 hc with rfl | hc
      · exact hdash
      · exact (hnumber hn).2 c hc

/-- What is accepted has been asked for. -/
theorem asks_of_parse {header : Text} {len : ℕ} (h : Range.parse (some header) len ≠ .invalid) :
    ∃ range, Asks header range := by
  obtain ⟨first, last, htrim, -, hparse⟩ := parse_ne_invalid h
  rw [hparse] at h
  unfold parseSpec at h
  split at h
  · rename_i hfirst
    subst hfirst
    cases hlast : decimal last with
    | none => simp [hlast] at h
    | some n => exact ⟨_, .suffix (decimal_eq_some.1 hlast).1 htrim⟩
  · cases hfirst : decimal first with
    | none => simp [hfirst] at h
    | some a =>
      simp only [hfirst] at h
      by_cases hempty : last.isEmpty = true
      · rw [List.isEmpty_iff.1 hempty] at htrim
        exact ⟨_, .onwards (decimal_eq_some.1 hfirst).1 htrim⟩
      · rw [if_neg hempty] at h
        cases hlast : decimal last with
        | none => simp [hlast] at h
        | some b =>
          simp only [hlast] at h
          by_cases hlt : b < a
          · simp [hlt] at h
          · exact ⟨_, .between (decimal_eq_some.1 hfirst).1 (decimal_eq_some.1 hlast).1 (not_lt.1 hlt) htrim⟩

/-- **The outcome is the specified one** exactly if the numbers that are asked for fit 64 bits. -/
theorem parse_specified_iff (header : Option Text) (len : ℕ) :
    Specified header len (Range.parse header len) ↔
      ∀ text, header = some text → ∀ range, Asks text range → range.Fits := by
  cases header with
  | none => exact iff_of_true rfl nofun
  | some text =>
    constructor
    · rintro ⟨hasked, -⟩ _ ⟨⟩ range hrange
      by_contra hfits
      have hinvalid := parse_asks hrange len
      rw [if_neg hfits] at hinvalid
      exact range.outcome_ne_invalid len ((hasked range hrange).symm.trans hinvalid)
    · intro hfits
      refine ⟨fun range hrange => ?_, fun hnone => ?_⟩
      · rw [parse_asks hrange, if_pos (hfits text rfl range hrange)]
      · by_contra hne
        obtain ⟨range, hrange⟩ := asks_of_parse hne
        exact hnone range hrange

/-- `bytes=0-` and a number of twenty digits. -/
def hugeEnd : Text := bytesUnit ++ '0' :: '-' :: '1' :: List.replicate 19 '9'

/-- **All ten bytes are asked for, and the header is refused.** -/
theorem parse_hugeEnd : ¬ Specified (some hugeEnd) 10 (Range.parse (some hugeEnd) 10) := by
  rintro ⟨hasked, -⟩
  have hzero : IsNumber ['0'] 0 := ⟨by decide, by simp, rfl⟩
  have hend : IsNumber ('1' :: List.replicate 19 '9') (2 * 10 ^ 19 - 1) := ⟨by decide, by simp, by decide⟩
  have hasks : Asks hugeEnd (.between 0 (2 * 10 ^ 19 - 1)) := .between hzero hend (Nat.zero_le _) (by decide)
  have hrefused : Range.parse (some hugeEnd) 10 = .invalid := by decide
  cases hrefused.symm.trans (hasked _ hasks)

end Server
end Uwuubox
