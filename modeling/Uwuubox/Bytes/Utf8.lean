import Mathlib

/-!
# UTF-8, cut in two

The UTF-8 of a string as a list of bytes, and what is left of it when it is cut at a byte.

* `Utf8.encode`, `Utf8.decode` — `decode_eq_some` says that they are inverse to each other.
* `encode_append_left` — what follows the encoding of a string in an encoding is one.
* `exists_encode_prefix` — **a cut between two characters leaves two encodings**: the byte behind it begins a character.
-/

namespace Utf8

/-- The bytes of a string. -/
def encode (t : List Char) : List UInt8 := t.flatMap String.utf8EncodeChar

/-- The string that is encoded, if one is. -/
def decode (bytes : List UInt8) : Option (List Char) := bytes.toByteArray.utf8Decode?.map Array.toList

@[simp] theorem encode_nil : encode [] = [] := rfl

@[simp] theorem encode_cons (c : Char) (t : List Char) : encode (c :: t) = String.utf8EncodeChar c ++ encode t := rfl

@[simp] theorem encode_append (s t : List Char) : encode (s ++ t) = encode s ++ encode t := List.flatMap_append

@[simp] theorem encode_eq_nil {t : List Char} : encode t = [] ↔ t = [] := by
  cases t with
  | nil => simp
  | cons c cs => simp

theorem toByteArray_encode (t : List Char) : (encode t).toByteArray = t.utf8Encode := rfl

/-- **Decoding is the inverse of encoding.** -/
theorem decode_eq_some {bytes : List UInt8} {t : List Char} : decode bytes = some t ↔ encode t = bytes := by
  unfold decode
  constructor
  · intro h
    obtain ⟨cs, hcs, rfl⟩ := Option.map_eq_some_iff.1 h
    have hsome : bytes.toByteArray.utf8Decode?.isSome := by simp [hcs]
    have hencode := ByteArray.utf8Encode_get_utf8Decode? (h := hsome)
    simp only [hcs, Option.get_some] at hencode
    rw [← toByteArray_encode] at hencode
    exact List.toByteArray_inj.1 hencode
  · rintro rfl
    rw [toByteArray_encode, List.utf8Decode?_utf8Encode]
    rfl

/-- The first character of an encoding. -/
theorem encodeChar_append_inj {c d : Char} {x y : List UInt8}
    (h : String.utf8EncodeChar c ++ x = String.utf8EncodeChar d ++ y) : c = d ∧ x = y := by
  have hbytes := congrArg List.toByteArray h
  rw [List.toByteArray_append, List.toByteArray_append] at hbytes
  have hchar := congrArg (fun b => ByteArray.utf8DecodeChar? b 0) hbytes
  simp only [ByteArray.utf8DecodeChar?_utf8EncodeChar_append, Option.some.injEq] at hchar
  subst hchar
  exact ⟨rfl, List.append_cancel_left h⟩

/-- What follows an encoding in another one is an encoding. -/
theorem encode_append_left {s t : List Char} {rest : List UInt8} (h : encode s ++ rest = encode t) :
    ∃ r, t = s ++ r ∧ encode r = rest := by
  induction s generalizing t with
  | nil => exact ⟨t, rfl, h.symm⟩
  | cons c cs ih =>
    cases t with
    | nil =>
      rw [encode_cons, encode_nil, List.append_assoc] at h
      exact absurd (List.append_eq_nil_iff.1 h).1 String.utf8EncodeChar_ne_nil
    | cons d ds =>
      rw [encode_cons, encode_cons, List.append_assoc] at h
      obtain ⟨rfl, htail⟩ := encodeChar_append_inj h
      obtain ⟨r, rfl, hr⟩ := ih htail
      exact ⟨r, rfl, hr⟩

/-- An encoding begins a character. -/
theorem isFirstByte_head {t : List Char} {b : UInt8} (h : (encode t).head? = some b) : b.IsUTF8FirstByte := by
  cases t with
  | nil => cases h
  | cons c cs =>
    have hlength : 0 < (String.utf8EncodeChar c).length := List.length_pos_of_ne_nil String.utf8EncodeChar_ne_nil
    rw [encode_cons, List.head?_append_of_ne_nil _ String.utf8EncodeChar_ne_nil, List.head?_eq_getElem?,
      List.getElem?_eq_getElem hlength] at h
    cases h
    exact UInt8.isUTF8FirstByte_getElem_utf8EncodeChar.2 rfl

/-- **A cut in front of a byte that begins a character** is one between two characters. -/
theorem exists_encode_prefix {t : List Char} {front rest : List UInt8} (h : encode t = front ++ rest)
    (hrest : ∀ b, rest.head? = some b → b.IsUTF8FirstByte) : ∃ p, encode p = front := by
  induction t generalizing front with
  | nil =>
    obtain ⟨rfl, -⟩ := List.append_eq_nil_iff.1 h.symm
    exact ⟨[], rfl⟩
  | cons c cs ih =>
    rcases List.append_eq_append_iff.1 h with ⟨front', rfl, hcs⟩ | ⟨middle, hc, rfl⟩
    · obtain ⟨p, rfl⟩ := ih hcs
      exact ⟨c :: p, rfl⟩
    · cases middle with
      | nil => exact ⟨[c], by rw [encode_cons, encode_nil, hc, List.append_nil, List.append_nil]⟩
      | cons b middle =>
        by_cases hfront : front = []
        · exact ⟨[], hfront.symm⟩
        · -- the cut lies inside the first character, and the byte behind it is not its first
          have hfirst := hrest b rfl
          have hlength : front.length < (String.utf8EncodeChar c).length := by
            rw [hc, List.length_append, List.length_cons]
            omega
          have hb : (String.utf8EncodeChar c)[front.length] = b := by
            simp only [hc, List.getElem_append_right (le_refl _), Nat.sub_self, List.getElem_cons_zero]
          rw [← hb, UInt8.isUTF8FirstByte_getElem_utf8EncodeChar, List.length_eq_zero_iff] at hfirst
          exact absurd hfirst hfront

end Utf8
