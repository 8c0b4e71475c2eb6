import Uwuubox.Crypt.Aead
import Uwuubox.Bytes.Pieces

/-!
# The two sealed object formats

`src/object_crypt.rs`: the whole-object format v1 (`MAGIC || nonce || ciphertext`)
and the chunked format v2,

```text
header: MAGIC_V2(4) || chunk_pt_len u32 BE(4) || base_nonce(16)
chunk i: seal(key, base16 || i u64 BE, pt[i*chunk_pt .. (i+1)*chunk_pt])
```

The functions of the source are here under its names, over an arbitrary cipher
`A`.  Fresh nonces are arguments: the source draws them at random.

* `isEncrypted`, `sealObject`, `openObject` — format v1; `openObject_sealObject` is the round trip.
* `isStreamSealed`, `streamHeader`, `parseStreamHeader`, `streamNonce`,
  `sealChunk`, `openChunk`, `streamChunkCount` — format v2;
  `parseStreamHeader_streamHeader` is the header round trip,
  `parseStreamHeader_ok` says what an accepted header looks like, and
  `streamNonce_inj` that chunk nonces of one object differ.
* `sealStream` — the object a plaintext has in format v2, by the layout above:
  what writer and reader are compared with.  `length_sealStream` is its length,
  `take_sealStream` its header and `read_sealStream` where its chunks lie.
-/

namespace Uwuubox
namespace ObjectCrypt

open Pieces

/-- A 256-bit key. -/
abbrev Key := Arr 32

/-- A 192-bit XChaCha20 nonce. -/
abbrev Nonce := Arr 24

/-- The random 128-bit base nonce of a v2 object. -/
abbrev Base := Arr 16

/-- XChaCha20-Poly1305, or any cipher of its shape. -/
abbrev Cipher := Aead Key Nonce

/-- `b"UWU1"`. -/
def magic : Bytes := [0x55, 0x57, 0x55, 0x31]

/-- `b"UWU2"`. -/
def magicV2 : Bytes := [0x55, 0x57, 0x55, 0x32]

def nonceLen : ℕ := 24

/-- `MAGIC + nonce + AEAD tag` overhead per stored v1 object. -/
def overhead : ℕ := 4 + nonceLen + Aead.tagLen

/-- Plaintext bytes per v2 chunk. -/
def streamChunkPt : ℕ := 8 * 1024 * 1024

/-- `MAGIC_V2 + chunk_pt_len + base_nonce` header length. -/
def streamHeaderLen : ℕ := 4 + 4 + 16

/-! ## Format v1 -/

def isEncrypted (bytes : Bytes) : Bool := 4 ≤ bytes.length && bytes.take 4 == magic

/-- Seal a whole object under a freshly drawn nonce. -/
def sealObject (A : Cipher) (key : Key) (nonce : Nonce) (plaintext : Bytes) : Bytes :=
  magic ++ nonce.val ++ A.encrypt key nonce plaintext

/-- Open a sealed object. -/
def openObject (A : Cipher) (key : Key) (sealed : Bytes) : Except String Bytes :=
  if h : isEncrypted sealed = false ∨ sealed.length < overhead then
    .error "object decrypt failed"
  else
    have hlen : 4 + 24 ≤ sealed.length := by
      have := not_lt.1 (not_or.1 h).2
      simp only [overhead, nonceLen, Aead.tagLen] at this
      omega
    match A.decrypt key (Arr.slice sealed 4 24 hlen) (sealed.drop (4 + nonceLen)) with
    | some pt => .ok pt
    | none => .error "object decrypt failed"

/-! ## Format v2 -/

def isStreamSealed (bytes : Bytes) : Bool := 4 ≤ bytes.length && bytes.take 4 == magicV2

def streamHeader (chunkPt : ℕ) (base : Base) : Bytes := magicV2 ++ toBeBytes 4 chunkPt ++ base.val

/-- Parse a v2 header: chunk size and base nonce. -/
def parseStreamHeader (header : Bytes) : Except String (ℕ × Base) :=
  if h : header.length < streamHeaderLen ∨ isStreamSealed header = false then
    .error "not a v2 stream object"
  else
    have hlen : 8 + 16 ≤ header.length := not_lt.1 (not_or.1 h).1
    let chunkPt := ofBeBytes ((header.drop 4).take 4)
    if chunkPt = 0 ∨ chunkPt > 64 * 1024 * 1024 then .error "bad v2 chunk size"
    else .ok (chunkPt, Arr.slice header 8 16 hlen)

/-- `base || index` as a nonce. -/
def streamNonce (base : Base) (index : ℕ) : Nonce :=
  ⟨base.val ++ toBeBytes 8 index, by simp [base.property]⟩

def sealChunk (A : Cipher) (key : Key) (base : Base) (index : ℕ) (plaintext : Bytes) : Bytes :=
  A.encrypt key (streamNonce base index) plaintext

def openChunk (A : Cipher) (key : Key) (base : Base) (index : ℕ) (sealed : Bytes) :
    Except String Bytes :=
  match A.decrypt key (streamNonce base index) sealed with
  | some pt => .ok pt
  | none => .error "stream chunk decrypt failed"

/-- Number of v2 chunks covering `ptLen` plaintext bytes. -/
def streamChunkCount (ptLen chunkPt : ℕ) : ℕ := pieceCount chunkPt ptLen

/-! ## Lengths and prefixes -/

theorem streamChunkPt_pos : 0 < streamChunkPt := by decide

@[simp] theorem length_streamHeader (c : ℕ) (base : Base) :
    (streamHeader c base).length = streamHeaderLen := by
  simp [streamHeader, magicV2, base.property, streamHeaderLen]

theorem take_streamHeader_append (c : ℕ) (base : Base) (rest : Bytes) :
    (streamHeader c base ++ rest).take 4 = magicV2 := by
  simp [streamHeader, magicV2]

theorem isStreamSealed_iff {bytes : Bytes} : isStreamSealed bytes = true ↔ bytes.take 4 = magicV2 := by
  simp only [isStreamSealed, Bool.and_eq_true, decide_eq_true_eq, beq_iff_eq, and_iff_right_iff_imp]
  intro h
  have hlen := congrArg List.length h
  simp only [List.length_take, magicV2, List.length_cons, List.length_nil] at hlen
  omega

theorem isEncrypted_iff {bytes : Bytes} : isEncrypted bytes = true ↔ bytes.take 4 = magic := by
  simp only [isEncrypted, Bool.and_eq_true, decide_eq_true_eq, beq_iff_eq, and_iff_right_iff_imp]
  intro h
  have hlen := congrArg List.length h
  simp only [List.length_take, magic, List.length_cons, List.length_nil] at hlen
  omega

/-- Both recognisers look at the first four bytes only. -/
@[simp] theorem isEncrypted_take (bytes : Bytes) : isEncrypted (bytes.take 4) = isEncrypted bytes := by
  rw [Bool.eq_iff_iff, isEncrypted_iff, isEncrypted_iff, List.take_take, min_self]

@[simp] theorem isStreamSealed_take (bytes : Bytes) :
    isStreamSealed (bytes.take 4) = isStreamSealed bytes := by
  rw [Bool.eq_iff_iff, isStreamSealed_iff, isStreamSealed_iff, List.take_take, min_self]

/-- No object is in both formats. -/
theorem not_isEncrypted_of_isStreamSealed {bytes : Bytes} (h : isStreamSealed bytes = true) :
    isEncrypted bytes = false := by
  rw [isStreamSealed_iff] at h
  rw [← Bool.not_eq_true, isEncrypted_iff, h]
  decide

theorem isEncrypted_sealObject (A : Cipher) (k : Key) (n : Nonce) (p : Bytes) :
    isEncrypted (sealObject A k n p) = true := by
  rw [isEncrypted_iff]
  simp [sealObject, magic]

theorem isStreamSealed_streamHeader (c : ℕ) (base : Base) (rest : Bytes) :
    isStreamSealed (streamHeader c base ++ rest) = true :=
  isStreamSealed_iff.2 (take_streamHeader_append c base rest)

/-! ## Round trips -/

theorem length_sealObject {A : Cipher} (hA : A.Sound) (k : Key) (n : Nonce) (p : Bytes) :
    (sealObject A k n p).length = overhead + p.length := by
  simp only [sealObject, magic, List.length_append, n.property, hA.length_encrypt, overhead,
    nonceLen, List.length_cons, List.length_nil]
  omega

/-- **Opening undoes sealing** in format v1. -/
theorem openObject_sealObject {A : Cipher} (hA : A.Sound) (k : Key) (n : Nonce) (p : Bytes) :
    openObject A k (sealObject A k n p) = .ok p := by
  have hlen := length_sealObject hA k n p
  have hnonce : ∀ h, Arr.slice (sealObject A k n p) 4 24 h = n := by
    intro h
    apply Subtype.ext
    simp [sealObject, magic, n.property]
  have hct : (sealObject A k n p).drop (4 + nonceLen) = A.encrypt k n p := by
    rw [sealObject]
    exact List.drop_left' (by simp [magic, n.property, nonceLen])
  rw [openObject, dif_neg (by rw [isEncrypted_sealObject, hlen]; simp)]
  simp only [hnonce, hct, hA.decrypt_encrypt]

/-- The header round trip, whatever follows the header. -/
theorem parseStreamHeader_streamHeader {c : ℕ} (hpos : 0 < c) (hle : c ≤ 64 * 1024 * 1024)
    (base : Base) : parseStreamHeader (streamHeader c base) = .ok (c, base) := by
  have hsealed : isStreamSealed (streamHeader c base) = true := by
    simpa using isStreamSealed_streamHeader c base []
  have hfield : ofBeBytes (((streamHeader c base).drop 4).take 4) = c := by
    have : ((streamHeader c base).drop 4).take 4 = toBeBytes 4 c := by simp [streamHeader, magicV2]
    rw [this, ofBeBytes_toBeBytes, Nat.mod_eq_of_lt (by omega)]
  have hbase : ∀ h, Arr.slice (streamHeader c base) 8 16 h = base := by
    intro h
    apply Subtype.ext
    simp [streamHeader, magicV2, base.property]
  rw [parseStreamHeader, dif_neg (by simp [hsealed])]
  simp only [hfield, hbase]
  rw [if_neg (by omega)]

/-- What an accepted header looks like. -/
theorem parseStreamHeader_ok {header : Bytes} {c : ℕ} {base : Base}
    (h : parseStreamHeader header = .ok (c, base)) :
    streamHeaderLen ≤ header.length ∧ isStreamSealed header = true ∧ 0 < c ∧
      c ≤ 64 * 1024 * 1024 ∧ c = ofBeBytes ((header.drop 4).take 4) ∧
      base.val = (header.drop 8).take 16 := by
  rw [parseStreamHeader] at h
  split at h
  · cases h
  · rename_i hok
    simp only at h
    split at h
    · cases h
    · rename_i hsize
      cases h
      simp only [not_or, not_lt, Bool.not_eq_false] at hok
      exact ⟨hok.1, hok.2, by omega, by omega, rfl, rfl⟩

/-- Chunk nonces of one object differ. -/
theorem streamNonce_inj {base : Base} {i j : ℕ} (hi : i < 2 ^ 64) (hj : j < 2 ^ 64)
    (h : streamNonce base i = streamNonce base j) : i = j := by
  have hval : base.val ++ toBeBytes 8 i = base.val ++ toBeBytes 8 j := congrArg Subtype.val h
  exact toBeBytes_inj (by norm_num; exact hi) (by norm_num; exact hj) (List.append_cancel_left hval)

/-- The base nonce is the first 16 bytes of every chunk nonce. -/
theorem take_streamNonce (base : Base) (i : ℕ) : (streamNonce base i).val.take 16 = base.val :=
  List.take_left' base.property

theorem openChunk_sealChunk {A : Cipher} (hA : A.Sound) (k : Key) (b : Base) (i : ℕ) (p : Bytes) :
    openChunk A k b i (sealChunk A k b i p) = .ok p := by
  simp [openChunk, sealChunk, hA.decrypt_encrypt]

@[simp] theorem length_sealChunk {A : Cipher} (hA : A.Sound) (k : Key) (b : Base) (i : ℕ)
    (p : Bytes) : (sealChunk A k b i p).length = p.length + Aead.tagLen :=
  hA.length_encrypt _ _ _

/-! ## The v2 object of a plaintext -/

/-- Chunk `i` of the v2 object of `p` with `c` plaintext bytes per chunk. -/
def sealedPiece (A : Cipher) (k : Key) (b : Base) (c : ℕ) (p : Bytes) (i : ℕ) : Bytes :=
  sealChunk A k b i (piece c i p)

/-- `header || chunk 0 || chunk 1 || …`, as the format comment lays it out. -/
def sealStream (A : Cipher) (k : Key) (b : Base) (c : ℕ) (p : Bytes) : Bytes :=
  streamHeader c b ++
    ((List.range (streamChunkCount p.length c)).map (sealedPiece A k b c p)).flatten

theorem take_sealStream (A : Cipher) (k : Key) (b : Base) (c : ℕ) (p : Bytes) :
    (sealStream A k b c p).take streamHeaderLen = streamHeader c b :=
  List.take_left' (length_streamHeader _ b)

theorem isStreamSealed_sealStream (A : Cipher) (k : Key) (b : Base) (c : ℕ) (p : Bytes) :
    isStreamSealed (sealStream A k b c p) = true :=
  isStreamSealed_streamHeader _ b _

section Layout

variable {A : Cipher} (hA : A.Sound) (k : Key) (b : Base) {c : ℕ} (hc : 0 < c) (p : Bytes)

include hA

theorem length_sealedPiece (i : ℕ) :
    (sealedPiece A k b c p i).length = (piece c i p).length + 16 :=
  length_sealChunk hA k b i _

include hc

/-- A v2 object is its plaintext, a header, and a tag for each chunk. -/
theorem length_sealStream :
    (sealStream A k b c p).length =
      streamHeaderLen + (p.length + streamChunkCount p.length c * 16) := by
  rw [sealStream, List.length_append, length_streamHeader,
    length_layout_add _ (length_sealedPiece hA k b p), streamChunkCount, flatten_pieces hc]

/-- **Chunk `i` lies at `24 + i * (c + 16)`**, and a read of up to `c + 16` bytes
there returns exactly it. -/
theorem read_sealStream {i : ℕ} (hi : i < streamChunkCount p.length c) :
    ((sealStream A k b c p).drop (streamHeaderLen + i * (c + 16))).take (c + 16) =
      sealedPiece A k b c p i := by
  have hfull : ∀ j, j + 1 < streamChunkCount p.length c →
      (sealedPiece A k b c p j).length = c + 16 := by
    intro j hj
    rw [length_sealedPiece hA, length_piece_of_succ_lt hc hj]
  rw [sealStream, ← List.drop_drop, List.drop_left' (length_streamHeader _ b)]
  refine read_layout (fun j hj => hfull j (by omega)) hi ?_
  by_cases hlast : i + 1 = streamChunkCount p.length c
  · right
    rw [length_sealedPiece hA, length_piece]
    exact ⟨hlast, by omega⟩
  · exact Or.inl (hfull i (by omega))

/-- A chunk lies inside the object. -/
theorem sealedPiece_fits {i : ℕ} (hi : i < streamChunkCount p.length c) :
    streamHeaderLen + i * (c + 16) + (sealedPiece A k b c p i).length ≤
      (sealStream A k b c p).length := by
  have hread := congrArg List.length (read_sealStream hA k b hc p hi)
  have hpos : 0 < (sealedPiece A k b c p i).length := by
    rw [length_sealedPiece hA]
    omega
  rw [List.length_take, List.length_drop] at hread
  omega

/-- An exact read of a chunk's own length returns it as well. -/
theorem read_sealStream_exact {i : ℕ} (hi : i < streamChunkCount p.length c) :
    ((sealStream A k b c p).drop (streamHeaderLen + i * (c + 16))).take
      ((piece c i p).length + 16) = sealedPiece A k b c p i := by
  have hlen : (sealedPiece A k b c p i).length = _ := length_sealedPiece hA k b p i
  have hread := read_sealStream hA k b hc p hi
  have hle : (sealedPiece A k b c p i).length ≤ c + 16 := by
    rw [hlen, length_piece]
    omega
  have htake := congrArg (List.take (sealedPiece A k b c p i).length) hread
  rwa [List.take_take, min_eq_left hle, List.take_length, hlen] at htake

end Layout

end ObjectCrypt
end Uwuubox
