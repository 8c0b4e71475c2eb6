import Uwuubox.Server.Requests
import Uwuubox.Bytes.Utf8

/-!
# Sniffing a prefix

`upload_inner` sniffs the first 32 KiB of a file, and what is stored is the type of the whole.

* `sniffMime` — `sniff_mime`, with `infer` as a parameter.
* `ends_uploadPlan` — the type that an upload stores is that of the prefix.
* `IsText` — UTF-8 without NUL.
* `PrefixTells` — the rest is text where the prefix is, and the cut is not inside a character of a text.
* `stored_text_iff` — **the type is the right one** exactly if the prefix tells.
* `text_stored_as_binary`, `binary_stored_as_text` — a character across the cut, and a byte behind it.
-/

namespace Uwuubox
namespace Server

open Dedupe Storage Fallible

/-! ## The type of some bytes -/

/-- `std::str::from_utf8`. -/
def fromUtf8 (bytes : Bytes) : Option Text := Utf8.decode bytes

theorem fromUtf8_eq_some {bytes : Bytes} {t : Text} : fromUtf8 bytes = some t ↔ utf8 t = bytes := Utf8.decode_eq_some

/-- `sniff_mime`. -/
def sniffMime (infer : Bytes → Option Text) (bytes : Bytes) : Text :=
  if bytes.isEmpty then octetStream
  else match infer bytes with
    | some mime => mime
    | none => match fromUtf8 bytes with
      | some s => if s.contains '\x00' then octetStream else textPlain
      | none => octetStream

/-- UTF-8 without NUL. -/
def IsText (bytes : Bytes) : Prop := ∃ t : Text, utf8 t = bytes ∧ '\x00' ∉ t

/-- What `infer` does not recognise is text, or it is not. -/
theorem sniffMime_eq_textPlain {infer : Bytes → Option Text} {bytes : Bytes} (hinfer : infer bytes = none) :
    sniffMime infer bytes = textPlain ↔ bytes ≠ [] ∧ IsText bytes := by
  have hne : octetStream ≠ textPlain := by decide
  unfold sniffMime
  by_cases hempty : bytes = []
  · simp [hempty, hne]
  · rw [if_neg (by simpa using hempty), hinfer]
    simp only [ne_eq, hempty, not_false_eq_true, true_and]
    cases hdecode : fromUtf8 bytes with
    | none =>
      simp only [hne, false_iff]
      rintro ⟨t, ht, -⟩
      cases hdecode.symm.trans (fromUtf8_eq_some.2 ht)
    | some s =>
      have hs := fromUtf8_eq_some.1 hdecode
      by_cases hnul : '\x00' ∈ s
      · simp only [List.contains_eq_mem, hnul, decide_true, if_true, hne, false_iff]
        rintro ⟨t, ht, hclean⟩
        cases hdecode.symm.trans (fromUtf8_eq_some.2 ht)
        exact hclean hnul
      · simp only [List.contains_eq_mem, hnul, decide_false, Bool.false_eq_true, if_false, true_iff]
        exact ⟨s, hs, hnul⟩

/-! ## The type of an upload -/

/-- Whatever the form has, the type that goes with the bytes is that of their prefix. -/
theorem ends_uploadPlan {Γ : Type} {next : Γ → (op : Op) → op.Res → Γ → Prop} (env : Env) (cfg : InstanceConfig)
    (limits : EffectiveLimits) (user : Option User) (req : UploadRequest) (form : UploadForm) :
    Ends next (fun plan _ => plan.sniffed = env.sniffMime (plan.bytes.take sniffPrefix))
      (uploadPlan env cfg limits user req form) := by
  unfold uploadPlan
  refine .orThrow fun bytes _ => .reject fun _ => .check fun strip _ => .check fun stripped _ => .check fun _ _ =>
    .check fun visibility _ => .check fun burnAfterRead _ => .reject fun _ => .check fun hash _ =>
    .check fun requested _ => .skip fun expiresAt => .check fun scanStatus _ => .pure fun _ => rfl

/-! ## Prefixes of texts -/

theorem IsText.append {front rest : Bytes} (hfront : IsText front) (hrest : IsText rest) : IsText (front ++ rest) := by
  obtain ⟨p, rfl, hp⟩ := hfront
  obtain ⟨r, rfl, hr⟩ := hrest
  refine ⟨p ++ r, Utf8.encode_append p r, fun h => ?_⟩
  rcases List.mem_append.1 h with h | h
  · exact hp h
  · exact hr h

/-- What is left of a text behind a text is text. -/
theorem IsText.of_append {front rest : Bytes} (hfront : IsText front) (h : IsText (front ++ rest)) : IsText rest := by
  obtain ⟨p, rfl, -⟩ := hfront
  obtain ⟨t, ht, hnul⟩ := h
  obtain ⟨r, rfl, rfl⟩ := Utf8.encode_append_left ht.symm
  exact ⟨r, rfl, fun hr => hnul (List.mem_append_right _ hr)⟩

/-- A text cut in front of the first byte of a character. -/
theorem IsText.front {front rest : Bytes} (h : IsText (front ++ rest))
    (hrest : ∀ b, rest.head? = some b → b.IsUTF8FirstByte) : IsText front := by
  obtain ⟨t, ht, hnul⟩ := h
  obtain ⟨p, rfl⟩ := Utf8.exists_encode_prefix ht hrest
  obtain ⟨r, rfl, -⟩ := Utf8.encode_append_left ht.symm
  exact ⟨p, rfl, fun hp => hnul (List.mem_append_left _ hp)⟩

/-- The rest is text if the prefix is; and if the whole is text, a character begins behind the prefix. -/
def PrefixTells (bytes : Bytes) : Prop :=
  (IsText (bytes.take sniffPrefix) → IsText (bytes.drop sniffPrefix)) ∧
    (IsText bytes → ∀ b, bytes[sniffPrefix]? = some b → b.IsUTF8FirstByte)

/-- The prefix of a short file is the file. -/
theorem prefixTells_of_short {bytes : Bytes} (h : bytes.length ≤ sniffPrefix) : PrefixTells bytes := by
  refine ⟨fun _ => ?_, fun _ b hb => ?_⟩
  · rw [List.drop_eq_nil_of_le h]
    exact ⟨[], rfl, List.not_mem_nil⟩
  · rw [List.getElem?_eq_none h] at hb
    cases hb

theorem isText_take_iff (bytes : Bytes) :
    (IsText (bytes.take sniffPrefix) ↔ IsText bytes) ↔ PrefixTells bytes := by
  have hsplit : bytes.take sniffPrefix ++ bytes.drop sniffPrefix = bytes := List.take_append_drop _ _
  have hhead : (bytes.drop sniffPrefix).head? = bytes[sniffPrefix]? := List.head?_drop
  constructor
  · intro h
    refine ⟨fun hfront => ?_, fun hall b hb => ?_⟩
    · exact hfront.of_append (hsplit.symm ▸ h.1 hfront)
    · obtain ⟨r, hr, -⟩ : IsText (bytes.drop sniffPrefix) := (h.2 hall).of_append (hsplit.symm ▸ hall)
      refine Utf8.isFirstByte_head (t := r) ?_
      rw [show Utf8.encode r = bytes.drop sniffPrefix from hr, hhead]
      exact hb
  · rintro ⟨hrest, hcut⟩
    refine ⟨fun hfront => hsplit ▸ hfront.append (hrest hfront), fun hall => ?_⟩
    refine @IsText.front _ (bytes.drop sniffPrefix) (hsplit.symm ▸ hall) fun b hb => ?_
    exact hcut hall b (hhead ▸ hb)

/-- **The stored type says whether the content is text** exactly if its prefix tells, where `infer` does not recognise
it. -/
theorem stored_text_iff {infer : Bytes → Option Text} (hhead : ∀ bytes, infer bytes = infer (bytes.take sniffPrefix))
    {env : Env} (henv : env.sniffMime = sniffMime infer) {Γ : Type} {next : Γ → (op : Op) → op.Res → Γ → Prop}
    (cfg : InstanceConfig) (limits : EffectiveLimits) (user : Option User) (req : UploadRequest) (form : UploadForm) :
    Ends next (fun plan _ => infer plan.bytes = none →
      ((plan.sniffed = textPlain ↔ plan.bytes ≠ [] ∧ IsText plan.bytes) ↔ PrefixTells plan.bytes))
      (uploadPlan env cfg limits user req form) := by
  refine (ends_uploadPlan env cfg limits user req form).mono fun plan _ hsniffed hnone => ?_
  have hpos : 0 < sniffPrefix := by decide
  have hempty : plan.bytes.take sniffPrefix ≠ [] ↔ plan.bytes ≠ [] := by
    rw [Ne, List.take_eq_nil_iff]
    simp [hpos.ne']
  rw [hsniffed, henv, sniffMime_eq_textPlain (hhead plan.bytes ▸ hnone), hempty, ← isText_take_iff]
  by_cases hbytes : plan.bytes = []
  · simp [hbytes]
  · simp [hbytes]

/-! ## Prefixes that do not tell -/

/-- An instance whose `infer` recognises nothing. -/
def unrecognising : Env := { Env.plain with sniffMime := sniffMime fun _ => none }

/-- An upload of one field. -/
def oneFieldUpload (bytes : Bytes) : UploadRequest where
  fields := [.file none bytes]
  limiterAllows := true
  draws := fun _ =>
    ⟨List.replicate idLen 'a', List.length_replicate, fun _ h => List.eq_of_mem_replicate h ▸ by decide⟩
  frame := none
  salt := []
  deleteToken := []

/-- The plan of an upload of one field, on a new instance. -/
def oneFieldPlan (bytes : Bytes) : Handler UploadPlan :=
  uploadPlan unrecognising .default (.merge .default none none) none (oneFieldUpload bytes)
    ⟨none, some bytes, fun _ => none⟩

theorem stored_text_oneField : Ends (fun (_ : Unit) _ _ _ => True)
    (fun plan _ => (fun _ => none : Bytes → Option Text) plan.bytes = none →
      ((plan.sniffed = textPlain ↔ plan.bytes ≠ [] ∧ IsText plan.bytes) ↔ PrefixTells plan.bytes))
    (oneFieldPlan [104, 105]) :=
  @stored_text_iff (fun _ => none) (fun _ => rfl) unrecognising rfl _ _ .default (.merge .default none none) none
    (oneFieldUpload [104, 105]) ⟨none, some [104, 105], fun _ => none⟩

/-- What `infer` does not recognise is not refused. -/
theorem checkMime_unrecognised (front bytes : Bytes) :
    checkMime unrecognising .default (unrecognising.sniffMime front) bytes = .ok () := by
  have hmime : unrecognising.sniffMime front = octetStream ∨ unrecognising.sniffMime front = textPlain := by
    change sniffMime (fun _ => none) front = _ ∨ sniffMime (fun _ => none) front = _
    unfold sniffMime
    by_cases hempty : front.isEmpty = true
    · exact .inl (if_pos hempty)
    · rw [if_neg hempty]
      cases fromUtf8 front with
      | none => exact .inl rfl
      | some s =>
        dsimp only
        split
        · exact .inl rfl
        · exact .inr rfl
  rcases hmime with h | h
  · rw [h]
    rfl
  · rw [h]
    rfl

/-- The plan is made. -/
theorem exists_oneFieldPlan {bytes : Bytes} (hbytes : bytes ≠ []) {fin : UploadPlan → Unit → Prop}
    (h : Ends (fun _ _ _ _ => True) fin (oneFieldPlan bytes)) : ∃ plan, fin plan () ∧ plan.bytes = bytes ∧
      plan.sniffed = sniffMime (fun _ => none) (bytes.take sniffPrefix) := by
  have hplan := h ()
  unfold oneFieldPlan uploadPlan at hplan
  simp only [obeys_bind, obeys_orThrow, obeys_reject, obeys_check] at hplan
  have hfile := (hplan.2 bytes rfl).2 (by simpa using hbytes)
  have hmime := ((hfile.2 false rfl).2 (bytes, false) rfl).2 () (checkMime_unrecognised _ _)
  have hpassword := (((hmime.2 .unlisted rfl).2 false rfl).2 (by decide)).2 none rfl
  have hlifetime := hpassword.2 .default rfl
  unfold newExpiry lifetime at hlifetime
  simp only [obeys_bind, obeys_orThrow, obeys_check] at hlifetime
  have hexpires := (hlifetime.2 _ rfl).2 _ rfl
  unfold expiresAt at hexpires
  simp only [obeys_bind] at hexpires
  exact ⟨_, hexpires.2 (.ok (0 : ℤ)) () trivial, rfl, rfl⟩

/-- **The type is wrong** where the prefix is not text and the whole is, or the other way round. -/
theorem not_ends_oneFieldPlan {bytes : Bytes} (hbytes : bytes ≠ []) (hcut : ¬ PrefixTells bytes) :
    ¬ Ends (fun (_ : Unit) _ _ _ => True)
      (fun plan _ => plan.sniffed = textPlain ↔ plan.bytes ≠ [] ∧ IsText plan.bytes) (oneFieldPlan bytes) := by
  intro h
  obtain ⟨plan, htype, rfl, hhead⟩ := exists_oneFieldPlan hbytes h
  have hpos : sniffPrefix ≠ 0 := by decide
  have hsome : plan.bytes.take sniffPrefix ≠ [] := by
    rw [Ne, List.take_eq_nil_iff]
    exact not_or.2 ⟨hpos, hbytes⟩
  refine hcut ((isText_take_iff plan.bytes).1 ?_)
  rw [hhead, sniffMime_eq_textPlain rfl] at htype
  simpa only [hsome, hbytes, ne_eq, not_false_eq_true, true_and] using htype

/-- `a`, again and again. -/
def letters (n : ℕ) : Text := List.replicate n 'a'

theorem utf8_letters (n : ℕ) : utf8 (letters n) = List.replicate n 97 := by
  induction n with
  | zero => rfl
  | succ n ih =>
    rw [List.replicate_succ, ← ih]
    rfl

theorem isText_letters (n : ℕ) : IsText (List.replicate n 97) := by
  refine ⟨letters n, utf8_letters n, fun h => ?_⟩
  have := List.eq_of_mem_replicate h
  revert this
  decide

/-- 32767 letters and an `é`, whose second byte is behind the prefix. -/
def cutText : Bytes := List.replicate (sniffPrefix - 1) 97 ++ [0xC3, 0xA9]

/-- A prefix of letters, and a byte that is not in any text. -/
def lateByte : Bytes := List.replicate sniffPrefix 97 ++ [0xFF]

theorem isText_cutText : IsText cutText :=
  (isText_letters _).append ⟨['é'], by decide, by decide⟩

theorem text_stored_as_binary : ¬ Ends (fun (_ : Unit) _ _ _ => True)
    (fun plan _ => plan.sniffed = textPlain ↔ plan.bytes ≠ [] ∧ IsText plan.bytes) (oneFieldPlan cutText) := by
  refine not_ends_oneFieldPlan (List.append_ne_nil_of_right_ne_nil _ (by decide)) fun h => ?_
  have hbyte : cutText[sniffPrefix]? = some 0xA9 := by
    rw [cutText, List.getElem?_append_right (by rw [List.length_replicate]; exact Nat.sub_le _ _), List.length_replicate]
    rfl
  have hfirst := h.2 isText_cutText _ hbyte
  revert hfirst
  decide

theorem binary_stored_as_text : ¬ Ends (fun (_ : Unit) _ _ _ => True)
    (fun plan _ => plan.sniffed = textPlain ↔ plan.bytes ≠ [] ∧ IsText plan.bytes) (oneFieldPlan lateByte) := by
  refine not_ends_oneFieldPlan (List.append_ne_nil_of_right_ne_nil _ (by decide)) fun h => ?_
  have htake : lateByte.take sniffPrefix = List.replicate sniffPrefix 97 :=
    List.take_left' List.length_replicate
  have hdrop : lateByte.drop sniffPrefix = [0xFF] := List.drop_left' List.length_replicate
  obtain ⟨t, ht, -⟩ := hdrop ▸ h.1 (htake.symm ▸ isText_letters _)
  cases (fromUtf8_eq_some.2 ht).symm.trans (show fromUtf8 [0xFF] = none by decide)

end Server
end Uwuubox
