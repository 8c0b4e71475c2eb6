import Uwuubox.Storage.Read

/-!
# Reading back what a writer stored

A writer stores a plaintext in one of three forms, and a reader that has the key
it was sealed under (any reader, for plaintext that does not look sealed) gets it
back.

* `StoredAs` — the forms: a v1 seal, a v2 stream, the bytes themselves.
* `Delivers faults target` — what a read has to do about faults: deliver a prefix of
  `target`, end without an error only after all of it, and, without faults,
  not end with one.
* `itemBytes_skipTake`, `getChunks_walk`, `spanChunks_walk` — the three loops.  Each is
  one induction, over the segments or chunks still to come.  The walks over
  chunks ask of each fetch only that it opens to nothing but the right piece
  (`FetchesChunk`), so they serve genuine and replaced objects alike.
* `getStreamProbed_sealed`, `getRangeStreamProbed_sealed` — the two streams of a sealed
  object, from the probe on.
* `getStream_storedAs` — **the full stream** delivers the plaintext and ends
  without an error, whatever the form and however a raw stream is cut.
* `getRangeStream_storedAs` — **a span** delivers exactly its bytes.
-/

namespace Uwuubox
namespace Storage

open ObjectCrypt Pieces

/-- How the plaintext `p` can lie in the store, with the key it is sealed under. -/
inductive StoredAs (A : Cipher) (p : Bytes) : Option Key → Bytes → Prop
  | v1 (k : Key) (nonce : Nonce) : StoredAs A p (some k) (sealObject A k nonce p)
  | v2 (k : Key) (base : Base) : StoredAs A p (some k) (sealStream A k base streamChunkPt p)
  | plain : StoredAs A p none p

/-- A reader configured with `reader` can read what was stored under `written`:
it has the key, or the object is plaintext without a magic prefix. -/
def CanRead (p : Bytes) : (written reader : Option Key) → Prop
  | some k, reader => reader = some k
  | none, _ => isEncrypted p = false ∧ isStreamSealed p = false

/-! ## Items of a stream -/

@[simp] theorem itemBytes_ok (segments : List Bytes) :
    itemBytes (segments.map .ok) = segments.flatten := by
  induction segments with
  | nil => rfl
  | cons seg segments ih => simp [itemBytes, ih]

@[simp] theorem itemsOk_ok (segments : List Bytes) : itemsOk (segments.map .ok) := by
  induction segments with
  | nil => trivial
  | cons seg segments ih => exact ih

/-! ## What a read delivers -/

/-- The items of a stream that is to deliver `target`. -/
structure DeliversItems (faults : Prop) (target : Bytes) (items : List Item) : Prop where
  isPrefix : itemBytes items <+: target
  all : itemsOk items → itemBytes items = target
  ok : ¬ faults → itemsOk items

/-- A read that is to deliver `target`. -/
def Delivers (faults : Prop) (target : Bytes) : Served → Prop
  | .error _ => faults
  | .ok items => DeliversItems faults target items

namespace DeliversItems

variable {faults : Prop} {target chunk : Bytes} {items : List Item}

theorem error (hf : faults) (target : Bytes) (e : StorageError) :
    DeliversItems faults target [.error e] where
  isPrefix := List.nil_prefix
  all h := h.elim
  ok h := absurd hf h

theorem nil (faults : Prop) : DeliversItems faults [] [] where
  isPrefix := List.nil_prefix
  all _ := rfl
  ok _ := trivial

theorem cons (h : DeliversItems faults target items) (chunk : Bytes) :
    DeliversItems faults (chunk ++ target) (.ok chunk :: items) where
  isPrefix := (List.prefix_append_right_inj chunk).2 h.isPrefix
  all hok := congrArg (chunk ++ ·) (h.all hok)
  ok := h.ok

theorem single (faults : Prop) (chunk : Bytes) : DeliversItems faults chunk [.ok chunk] := by
  have h := (nil faults).cons chunk
  rwa [List.append_nil] at h

end DeliversItems

/-- Without faults the read ends without an error, after all of `target`. -/
theorem Delivers.complete {target : Bytes} {s : Served} (h : Delivers False target s) :
    endsOk s ∧ emitted s = target := by
  cases s with
  | error e => exact h.elim
  | ok items => exact ⟨h.ok not_false, h.all (h.ok not_false)⟩

/-- With faults or without, it delivers a prefix. -/
theorem Delivers.isPrefix_emitted {faults : Prop} {target : Bytes} {s : Served}
    (h : Delivers faults target s) : emitted s <+: target := by
  cases s with
  | error e => exact List.nil_prefix
  | ok items => exact h.isPrefix

/-! ## The three loops -/

/-- How a raw stream ends: at its end, or with an error. -/
def StreamEnd (tail : List Item) : Prop := tail = [] ∨ ∃ e, tail = [.error e]

/-- **Skipping and taking over any segmentation** delivers what the segments have of the
span. -/
theorem itemBytes_skipTake (segments : List Bytes) {tail : List Item} (htail : StreamEnd tail)
    (skip take : ℕ) : itemBytes (skipTake (segments.map .ok ++ tail) skip take) =
      (segments.flatten.drop skip).take take := by
  induction segments generalizing skip take with
  | nil =>
    rw [List.map_nil, List.nil_append, List.flatten_nil, List.drop_nil, List.take_nil]
    rcases htail with rfl | ⟨e, rfl⟩ <;> rw [skipTake] <;> split <;> rfl
  | cons seg segments ih =>
    rw [List.map_cons, List.cons_append, List.flatten_cons, skipTake]
    by_cases htake : take = 0
    · rw [if_pos htake, htake, List.take_zero]
      rfl
    rw [if_neg htake]
    simp only
    by_cases hskip : skip ≥ seg.length
    · -- the segment lies before the span
      rw [if_pos hskip, ih, List.drop_append, List.drop_eq_nil_of_le hskip, List.nil_append]
    · rw [if_neg hskip, itemBytes, ih, List.drop_zero, List.drop_append_of_le_length (by omega),
        List.take_append, List.length_drop, List.drop_take]
      congr 1
      · rw [List.take_eq_take_iff, List.length_drop]
        omega
      · congr 1
        omega

/-- Over segments that hold the span it ends without an error. -/
theorem itemsOk_skipTake (segments : List Bytes) {skip take : ℕ}
    (h : skip + take ≤ segments.flatten.length) :
    itemsOk (skipTake (segments.map .ok) skip take) := by
  induction segments generalizing skip take with
  | nil =>
    rw [List.flatten_nil, List.length_nil] at h
    rw [List.map_nil, skipTake, if_pos (by omega)]
    trivial
  | cons seg segments ih =>
    rw [List.flatten_cons, List.length_append] at h
    rw [List.map_cons, skipTake]
    split
    · trivial
    simp only
    split
    · exact ih (by omega)
    · exact ih (by omega)

variable {A : Cipher} {be : Backend} {objs : Objects} {key : SafeKey} {k : Key} {base : Base}
  {p : Bytes} {c : ℕ} {faults : Prop}

/-- A genuine v2 object fits: its chunks are large, so the tags add little. -/
theorem sealStream_fits (hA : A.Sound) (hc : 1024 ≤ c) (hp : p.length < 2 ^ 63) :
    (sealStream A k base c p).length ≤ u64Size := by
  have hpos : 0 < c := by omega
  have hsmall : streamChunkCount p.length c * 1024 ≤ p.length + 1024 := by
    by_contra hbig
    obtain ⟨n, hn⟩ : ∃ n, streamChunkCount p.length c = n + 1 :=
      ⟨streamChunkCount p.length c - 1, by omega⟩
    have hlast : n * c < p.length :=
      (lt_pieceCount_iff hpos n p.length).1 (by rw [← streamChunkCount, hn]; omega)
    have hmul : n * 1024 ≤ n * c := Nat.mul_le_mul_left n hc
    omega
  rw [length_sealStream hA k base hpos]
  simp only [streamHeaderLen, u64Size]
  omega

/-- A fetch for chunk `i` that opens to nothing but `pt`, and, without faults, does. -/
structure FetchesChunk (A : Cipher) (k : Key) (base : Base) (faults : Prop) (i : ℕ) (pt : Bytes)
    (r : Except StorageError Bytes) : Prop where
  sound : ∀ sealed pt', r = .ok sealed → openChunk A k base i sealed = .ok pt' → pt' = pt
  complete : ¬ faults → ∃ sealed, r = .ok sealed ∧ sealed.length = pt.length + 16 ∧
    openChunk A k base i sealed = .ok pt

/-- **The v2 walk of the full stream**, from chunk `i` on: if each fetch opens to nothing but
the piece it is for, the pieces are delivered. -/
theorem getChunks_walk {ok : (op : Fetch) → op.Res → Prop} (hc : 0 < c)
    (hfetch : ∀ i < streamChunkCount p.length c, ∀ r,
      ok (.getRange key (streamHeaderLen + i * (c + 16)) ((piece c i p).length + 16)) r →
      FetchesChunk A k base faults i (piece c i p) r) (m : ℕ) :
    ∀ i off, i + m = streamChunkCount p.length c →
      (0 < m → off = streamHeaderLen + i * (c + 16)) →
      (getChunks A key k base c m i off (p.length - i * c)).Post ok
        (DeliversItems faults (p.drop (i * c))) := by
  induction m with
  | zero =>
    intro i off hi _
    have hend : p.length ≤ i * c := by
      rw [Nat.add_zero] at hi
      rw [hi]
      exact length_le_pieceCount_mul hc _
    rw [List.drop_eq_nil_of_le hend]
    exact .nil faults
  | succ m ih =>
    intro i off hi hoff
    have hpiece : min (p.length - i * c) c = (piece c i p).length := by
      rw [length_piece, min_comm]
    unfold getChunks
    rw [Prog.post_perform_bind, hpiece]
    intro r hr
    rw [hoff (by omega)] at hr
    obtain ⟨hsound, hcomplete⟩ := hfetch i (by omega) r hr
    by_cases hopens : ∃ sealed pt, r = .ok sealed ∧ sealed.length = (piece c i p).length + 16 ∧
        openChunk A k base i sealed = .ok pt
    · obtain ⟨sealed, pt, rfl, hlen, hopen⟩ := hopens
      obtain rfl := hsound sealed pt rfl hopen
      simp only [hlen, hopen, ne_eq, not_true_eq_false, if_false]
      rw [Prog.post_bind]
      have hnext : p.length - i * c - (piece c i p).length = p.length - (i + 1) * c := by
        rw [length_piece, Nat.succ_mul]
        omega
      have hsplit : p.drop (i * c) = piece c i p ++ p.drop ((i + 1) * c) := by
        rw [Nat.succ_mul, ← List.drop_drop]
        exact (List.take_append_drop c _).symm
      rw [hnext, hsplit]
      refine (ih (i + 1) _ (by omega) ?_).mono (fun _ _ h => h) fun items h => h.cons _
      -- another chunk follows, so this one is full
      intro hm
      have hfull : (piece c i p).length = c :=
        length_piece_of_succ_lt hc (by rw [← streamChunkCount]; omega)
      rw [hfull, hoff (by omega), Nat.succ_mul]
      omega
    · have hf : faults := by
        by_contra hno
        obtain ⟨sealed, rfl, hlen, hopen⟩ := hcomplete hno
        exact hopens ⟨sealed, _, rfl, hlen, hopen⟩
      cases r with
      | error e => exact .error hf _ e
      | ok sealed =>
        simp only
        split
        · exact .error hf _ _
        · rename_i hlen
          cases hopen : openChunk A k base i sealed with
          | error e => exact .error hf _ _
          | ok pt => exact absurd ⟨sealed, pt, rfl, not_not.1 hlen, hopen⟩ hopens

/-- **The v2 walk of a span**: `remaining` bytes from `trim` into chunk `i` on, covered by the
`m` chunks to come. -/
theorem spanChunks_walk {ok : (op : Fetch) → op.Res → Prop} (hc : 0 < c)
    (hfetch : ∀ i < streamChunkCount p.length c, ∀ r,
      ok (.getRangeRelaxed key ((streamHeaderLen + i * (c + 16)) % u64Size) (c + 16)) r →
      FetchesChunk A k base faults i (piece c i p) r) (m : ℕ) :
    ∀ i trim remaining, 0 < remaining → trim < c → i * c + trim + remaining ≤ p.length →
      trim + remaining ≤ m * c →
      (spanChunks A key k base c m i trim remaining).Post ok
        (DeliversItems faults ((p.drop (i * c + trim)).take remaining)) := by
  induction m with
  | zero => intro i trim remaining hrem _ _ hcover; omega
  | succ m ih =>
    intro i trim remaining hrem htrim hin hcover
    have hlt : i < streamChunkCount p.length c := (lt_pieceCount_iff hc i _).2 (by omega)
    unfold spanChunks
    rw [Prog.post_perform_bind]
    intro r hr
    obtain ⟨hsound, hcomplete⟩ := hfetch i hlt r hr
    by_cases hopens : ∃ sealed pt, r = .ok sealed ∧ sealed ≠ [] ∧
        openChunk A k base i sealed = .ok pt
    · obtain ⟨sealed, pt, rfl, hne, hopen⟩ := hopens
      obtain rfl := hsound sealed pt rfl hopen
      have hlen : trim < (piece c i p).length := by
        rw [length_piece]
        omega
      simp only [List.isEmpty_iff, hne, hopen, if_false]
      rw [if_neg (by omega)]
      -- what this chunk gives of the span
      set q := min remaining ((piece c i p).drop trim).length with hq
      have hq' : q = min remaining (min c (p.length - i * c) - trim) := by
        rw [hq, List.length_drop, length_piece]
      have hgive : ((piece c i p).drop trim).take q = (p.drop (i * c + trim)).take q := by
        rw [piece, List.drop_take, List.drop_drop, List.take_take, min_eq_left (by omega)]
      rw [hgive]
      by_cases hdone : remaining - q = 0
      · have hqr : q = remaining := by omega
        rw [if_pos hdone, hqr]
        exact .single faults _
      · rw [if_neg hdone, Prog.post_bind]
        have hall : q = c - trim := by omega
        have hstart : (i + 1) * c + 0 = i * c + trim + q := by
          rw [Nat.succ_mul]
          omega
        rw [take_split p (show q ≤ remaining by omega), ← hstart]
        refine (ih (i + 1) 0 (remaining - q) (by omega) hc ?_ ?_).mono (fun _ _ h => h)
          fun items h => h.cons _
        · rw [Nat.succ_mul]
          omega
        · rw [Nat.succ_mul] at hcover
          omega
    · have hf : faults := by
        by_contra hno
        obtain ⟨sealed, rfl, hlen, hopen⟩ := hcomplete hno
        refine hopens ⟨sealed, _, rfl, ?_, hopen⟩
        rw [← List.length_pos_iff, hlen]
        omega
      cases r with
      | error e => exact .error hf _ e
      | ok sealed =>
        simp only [List.isEmpty_iff]
        split
        · exact .error hf _ _
        · rename_i hne
          cases hopen : openChunk A k base i sealed with
          | error e => exact .error hf _ _
          | ok pt => exact absurd ⟨sealed, pt, rfl, hne, hopen⟩ hopens

/-! ### On a genuine object -/

/-- An answer that is the genuine chunk, or a fault. -/
theorem fetchesChunk_sealedPiece (hA : A.Sound) {i : ℕ} {r : Except StorageError Bytes}
    (h : r = .ok (sealedPiece A k base c p i) ∨ faults ∧ ∃ e, r = .error e) :
    FetchesChunk A k base faults i (piece c i p) r := by
  have hopen : openChunk A k base i (sealedPiece A k base c p i) = .ok (piece c i p) :=
    openChunk_sealChunk hA k base i _
  rcases h with rfl | ⟨hf, e, rfl⟩
  · constructor
    · rintro sealed pt hsealed hpt
      cases hsealed
      rw [hopen] at hpt
      cases hpt
      rfl
    · exact fun _ => ⟨_, rfl, length_sealedPiece hA k base p i, hopen⟩
  · constructor
    · rintro sealed pt hsealed
      cases hsealed
    · exact fun hno => absurd hf hno

theorem getChunks_delivers (hA : A.Sound) (hc : 0 < c)
    (hfits : (sealStream A k base c p).length ≤ u64Size)
    (ho : objs key = some (sealStream A k base c p)) :
    (getChunks A key k base c (streamChunkCount p.length c) 0 streamHeaderLen p.length).Post
      (Fetch.Outcomes faults be objs) (DeliversItems faults p) := by
  have hwalk := @getChunks_walk A key k base p c faults (Fetch.Outcomes faults be objs) hc
    (fun i hi r hr => ?_) (streamChunkCount p.length c) 0 streamHeaderLen (Nat.zero_add _)
    (fun _ => by rw [Nat.zero_mul, Nat.add_zero])
  · rwa [Nat.zero_mul, Nat.sub_zero, List.drop_zero] at hwalk
  · have hin := sealedPiece_fits hA k base hc p hi
    rw [length_sealedPiece hA] at hin
    have hread := read_sealStream_exact hA k base hc p hi
    rw [Fetch.Outcomes, rawGetRange_of_le ho hin hfits, hread] at hr
    exact fetchesChunk_sealedPiece hA hr

theorem spanChunks_delivers (hA : A.Sound) (hc : 1024 ≤ c) (hp : p.length < 2 ^ 63)
    (hc' : c ≤ 64 * 1024 * 1024) (ho : objs key = some (sealStream A k base c p))
    {m i trim remaining : ℕ} (hrem : 0 < remaining) (htrim : trim < c)
    (hin : i * c + trim + remaining ≤ p.length) (hcover : trim + remaining ≤ m * c) :
    (spanChunks A key k base c m i trim remaining).Post (Fetch.Outcomes faults be objs)
      (DeliversItems faults ((p.drop (i * c + trim)).take remaining)) := by
  have hpos : 0 < c := by omega
  refine spanChunks_walk hpos (fun i hi r hr => ?_) m i trim remaining hrem htrim hin hcover
  have hip := (lt_pieceCount_iff hpos i p.length).1 hi
  have hbound : streamHeaderLen + i * (c + 16) + (c + 16) ≤ u64Size := by
    have : i * 1024 ≤ i * c := Nat.mul_le_mul_left i hc
    rw [Nat.mul_add]
    unfold streamHeaderLen u64Size
    omega
  have hfits := sealedPiece_fits hA k base hpos p hi
  rw [length_sealedPiece hA] at hfits
  rw [Nat.mod_eq_of_lt (by omega), Fetch.Outcomes,
    rawGetRangeRelaxed_of_lt ho (by omega) (by omega) hbound, read_sealStream hA k base hpos p hi] at hr
  exact fetchesChunk_sealedPiece hA hr

/-! ## The reads of the store -/

theorem streamChunkPt_le : streamChunkPt ≤ 64 * 1024 * 1024 := by decide

theorem le_streamChunkPt : 1024 ≤ streamChunkPt := by decide

/-- What a stored form looks like to the four-byte probe. -/
theorem StoredAs.probe (hA : A.Sound) {written : Option Key} {obj : Bytes}
    (h : StoredAs A p written obj) (hp : p.length < 2 ^ 63) :
    obj.length ≤ u64Size ∧ (written.isSome → 4 ≤ obj.length) := by
  cases h with
  | v1 k nonce =>
    rw [length_sealObject hA]
    simp only [overhead, nonceLen, Aead.tagLen, u64Size]
    omega
  | v2 k base =>
    refine ⟨sealStream_fits hA le_streamChunkPt hp, fun _ => ?_⟩
    rw [length_sealStream hA k base streamChunkPt_pos, streamHeaderLen]
    omega
  | plain =>
    refine ⟨?_, fun h => by simp at h⟩
    simp only [u64Size]
    omega

/-- Opening what is not a v2 object. -/
theorem decryptIfNeeded_v1 (hA : A.Sound) (k : Key) (nonce : Nonce) :
    decryptIfNeeded A (some k) (sealObject A k nonce p) = .ok p := by
  rw [decryptIfNeeded, isEncrypted_sealObject]
  simp [openObject_sealObject hA]

theorem decryptIfNeeded_plain (h : isEncrypted p = false) (reader : Option Key) :
    decryptIfNeeded A reader p = .ok p := by
  simp [decryptIfNeeded, h]

/-- A raw stream of plaintext delivers it. -/
theorem rawStream_plain (ho : objs key = some p) :
    (rawStream key).Post (Fetch.Answers be objs)
      (fun items => itemsOk items ∧ itemBytes items = p) := by
  intro items h
  simp only [Fetch.Answers, ho] at h
  obtain ⟨segments, rfl, rfl⟩ := h
  exact ⟨itemsOk_ok _, itemBytes_ok _⟩

/-- A raw span of plaintext delivers it, by one fetch or by skip and take. -/
theorem rawSpanStream_plain (ho : objs key = some p) (hfits : p.length ≤ u64Size)
    {ptOffset len : ℕ} (hin : ptOffset + len ≤ p.length) :
    (rawSpanStream key ptOffset len).Post (Fetch.Answers be objs)
      (fun s => endsOk s ∧ emitted s = (p.drop ptOffset).take len) := by
  rw [rawSpanStream]
  by_cases hsmall : len ≤ spanSingleMax
  · rw [if_pos hsmall, Prog.post_perform_bind]
    rintro r rfl
    rw [rawGetRange_of_le ho hin hfits]
    exact ⟨trivial, List.append_nil _⟩
  · rw [if_neg hsmall, Prog.post_bind]
    intro items h
    simp only [Fetch.Answers, ho] at h
    obtain ⟨segments, rfl, rfl⟩ := h
    have hbytes := itemBytes_skipTake segments (.inl rfl) ptOffset len
    rw [List.append_nil] at hbytes
    exact ⟨itemsOk_skipTake segments hin, hbytes⟩

/-- The probe of a plaintext too short for it. -/
theorem probe_short (ho : objs key = some p) (hshort : ¬ 4 ≤ p.length) :
    ∃ msg, rawGetRange be objs key 0 4 = .error (.backend msg) :=
  rawGetRange_of_gt ho (by omega) (by omega)

/-- The header of a genuine v2 object. -/
theorem rawGetRange_header (hA : A.Sound) (hc : 0 < c)
    (hfits : (sealStream A k base c p).length ≤ u64Size)
    (ho : objs key = some (sealStream A k base c p)) :
    rawGetRange be objs key 0 streamHeaderLen = .ok (streamHeader c base) := by
  have hlen := length_sealStream hA k base hc p
  rw [rawGetRange_of_le ho (by omega) hfits, List.drop_zero, take_sealStream]

/-- A v1 object is not taken for a v2 object. -/
theorem isStreamSealed_sealObject (k : Key) (nonce : Nonce) :
    isStreamSealed (sealObject A k nonce p) = false := by
  by_contra hv2
  have hv1 := not_isEncrypted_of_isStreamSealed (Bool.not_eq_false _ ▸ hv2)
  rw [isEncrypted_sealObject] at hv1
  cases hv1

/-- A sealed object carries one of the two magics. -/
theorem StoredAs.magic {obj : Bytes} (h : StoredAs A p (some k) obj) :
    (isEncrypted obj || isStreamSealed obj) = true := by
  cases h with
  | v1 k nonce => simp [isEncrypted_sealObject]
  | v2 k base => simp [isStreamSealed_sealStream]

/-! ### The full stream -/

/-- On a working backend the probe is what the object has there. -/
theorem post_getStream {store : Store} {ptLen : ℕ} {Q : Served → Prop} :
    (getStream A store key ptLen).Post (Fetch.Answers be objs) Q ↔
      (getStreamProbed A store key ptLen (rawGetRange be objs key 0 4)).Post
        (Fetch.Answers be objs) Q := by
  unfold getStream
  rw [Prog.post_perform_bind]
  exact forall_eq

/-- With the key, the full stream of a v2 object is the walk over its chunks. -/
theorem post_getStream_v2 {store : Store} {o : Bytes} {ptLen : ℕ} {Q : Served → Prop}
    (hkey : store.encryptionKey = some k) (ho : objs key = some o) (hfits : o.length ≤ u64Size)
    (hv2 : isStreamSealed o = true) (hlen : streamHeaderLen ≤ o.length)
    (hparse : parseStreamHeader (o.take streamHeaderLen) = .ok (c, base)) :
    (getStream A store key ptLen).Post (Fetch.Answers be objs) Q ↔
      (getChunks A key k base c (streamChunkCount ptLen c) 0 streamHeaderLen ptLen).Post
        (Fetch.Answers be objs) (fun items => Q (.ok items)) := by
  have hfour : 4 ≤ o.length := by
    unfold streamHeaderLen at hlen
    omega
  have hheader : rawGetRange be objs key 0 streamHeaderLen = .ok (o.take streamHeaderLen) := by
    rw [rawGetRange_of_le ho (by omega) hfits, List.drop_zero]
  rw [post_getStream, rawGetRange_probe ho hfour hfits]
  simp only [getStreamProbed, hkey, isStreamSealed_take, hv2, Bool.not_true, Bool.false_eq_true,
    if_false]
  rw [Prog.post_perform_bind]
  show (∀ r, r = rawGetRange be objs key 0 streamHeaderLen → _) ↔ _
  rw [forall_eq, hheader]
  simp only [hparse]
  exact Prog.post_bind _ _

theorem post_getStream_sealStream (hA : A.Sound) (hc : 0 < c) (hc' : c ≤ 64 * 1024 * 1024)
    {store : Store} {ptLen : ℕ} {Q : Served → Prop} (hkey : store.encryptionKey = some k)
    (hfits : (sealStream A k base c p).length ≤ u64Size)
    (ho : objs key = some (sealStream A k base c p)) :
    (getStream A store key ptLen).Post (Fetch.Answers be objs) Q ↔
      (getChunks A key k base c (streamChunkCount ptLen c) 0 streamHeaderLen ptLen).Post
        (Fetch.Answers be objs) (fun items => Q (.ok items)) := by
  refine post_getStream_v2 hkey ho hfits (isStreamSealed_sealStream A k base c p) ?_ ?_
  · rw [length_sealStream hA k base hc]
    omega
  · rw [take_sealStream]
    exact parseStreamHeader_streamHeader hc hc' base

/-- **From a good probe on, the full stream of a sealed object** delivers the plaintext,
as far as no fetch fails. -/
theorem getStreamProbed_sealed (hA : A.Sound) {store : Store} {obj : Bytes}
    (hkey : store.encryptionKey = some k) (h : StoredAs A p (some k) obj)
    (ho : objs key = some obj) (hp : p.length < 2 ^ 63) :
    (getStreamProbed A store key p.length (.ok (obj.take 4))).Post
      (Fetch.Outcomes faults be objs) (Delivers faults p) := by
  obtain ⟨hfits, -⟩ := h.probe hA hp
  unfold getStreamProbed
  cases h with
  | v1 k nonce =>
    simp only [hkey, isStreamSealed_take, isStreamSealed_sealObject, Bool.not_false, if_true]
    rw [Prog.post_perform_bind]
    rintro r (rfl | ⟨hf, e, rfl⟩)
    · simp only [rawGet, ho, decryptIfNeeded_v1 hA]
      exact .single faults p
    · exact hf
  | v2 k base =>
    have hv2 := isStreamSealed_sealStream A k base streamChunkPt p
    have hparse := parseStreamHeader_streamHeader streamChunkPt_pos streamChunkPt_le base
    simp only [hkey, isStreamSealed_take, hv2, Bool.not_true, Bool.false_eq_true, if_false]
    rw [Prog.post_perform_bind]
    rintro r (rfl | ⟨hf, e, rfl⟩)
    · rw [rawGetRange_header hA streamChunkPt_pos hfits ho]
      simp only [hparse]
      rw [Prog.post_bind]
      exact getChunks_delivers hA streamChunkPt_pos hfits ho
    · exact hf

/-- **The full stream delivers the plaintext** and ends without an error, for every
stored form, every reader that can read it and every answer of the backend. -/
theorem getStream_storedAs (hA : A.Sound) {store : Store} {written : Option Key} {obj : Bytes}
    (h : StoredAs A p written obj) (hread : CanRead p written store.encryptionKey)
    (ho : objs key = some obj) (hp : p.length < 2 ^ 63) :
    (getStream A store key p.length).Post (Fetch.Answers be objs)
      (fun s => endsOk s ∧ emitted s = p) := by
  obtain ⟨hfits, hfour⟩ := h.probe hA hp
  rw [post_getStream]
  cases written with
  | some k =>
    rw [rawGetRange_probe ho (hfour rfl) hfits]
    exact (getStreamProbed_sealed hA hread h ho hp).mono (fun _ _ => Fetch.Answers.outcomes False)
      fun _ hs => hs.complete
  | none =>
    cases h
    obtain ⟨hv1, hv2⟩ := hread
    unfold getStreamProbed
    by_cases hshort : 4 ≤ p.length
    · rw [rawGetRange_probe ho hshort hfits]
      cases store.encryptionKey with
      | none =>
        simp only [isStreamSealed_take, isEncrypted_take, hv1, hv2, Bool.or_false,
          Bool.false_eq_true, if_false]
        rw [Prog.post_bind]
        exact rawStream_plain ho
      | some k =>
        simp only [isStreamSealed_take, hv2, Bool.not_false, if_true]
        rw [Prog.post_perform_bind]
        rintro r rfl
        simp only [rawGet, ho, decryptIfNeeded_plain hv1]
        exact ⟨trivial, List.append_nil _⟩
    · obtain ⟨msg, hprobe⟩ := @probe_short be _ _ _ ho hshort
      rw [hprobe]
      simp only
      rw [Prog.post_bind]
      exact rawStream_plain ho

/-! ### A span -/

theorem post_getRangeStream {store : Store} {ptOffset len : ℕ} (hlen : 0 < len)
    {Q : Served → Prop} :
    (getRangeStream A store key ptOffset len).Post (Fetch.Answers be objs) Q ↔
      (getRangeStreamProbed A store key ptOffset len (rawGetRange be objs key 0 4)).Post
        (Fetch.Answers be objs) Q := by
  unfold getRangeStream
  rw [if_neg (by omega), Prog.post_perform_bind]
  exact forall_eq

/-- The chunks up to the one of the last byte cover the span. -/
theorem span_cover (hc : 0 < c) (ptOffset : ℕ) {len : ℕ} (hlen : 0 < len) :
    ptOffset % c + len ≤ ((ptOffset + (len - 1)) / c + 1 - ptOffset / c) * c := by
  have hsplit : ptOffset / c * c + ptOffset % c = ptOffset := Nat.div_add_mod' ptOffset c
  have hlast : ptOffset + (len - 1) < ((ptOffset + (len - 1)) / c + 1) * c :=
    Nat.lt_mul_of_div_lt (Nat.lt_succ_self _) hc
  rw [Nat.sub_mul]
  omega

/-- A span of a genuine v2 object. -/
theorem v2SpanStream_delivers (hA : A.Sound) (hc : 1024 ≤ c) (hp : p.length < 2 ^ 63)
    (hc' : c ≤ 64 * 1024 * 1024) (ho : objs key = some (sealStream A k base c p))
    {ptOffset len : ℕ} (hlen : 0 < len) (hin : ptOffset + len ≤ p.length) :
    (v2SpanStream A key k ptOffset len).Post (Fetch.Outcomes faults be objs)
      (Delivers faults ((p.drop ptOffset).take len)) := by
  have hpos : 0 < c := by omega
  have hparse := parseStreamHeader_streamHeader hpos hc' base
  have hadd : checkedAdd ptOffset (len - 1) = some (ptOffset + (len - 1)) := by
    rw [checkedAdd, if_pos]
    simp only [u64Size]
    omega
  have hsplit : ptOffset / c * c + ptOffset % c = ptOffset := Nat.div_add_mod' ptOffset c
  have hcover := span_cover hpos ptOffset hlen
  unfold v2SpanStream
  rw [Prog.post_perform_bind]
  rintro r (rfl | ⟨hf, e, rfl⟩)
  · rw [rawGetRange_header hA hpos (sealStream_fits hA hc hp) ho]
    simp only [hparse, hadd]
    rw [Prog.post_bind]
    have hwalk : Prog.Post (Fetch.Outcomes faults be objs) _ _ :=
      spanChunks_delivers hA hc hp hc' ho hlen (Nat.mod_lt ptOffset hpos)
        (show ptOffset / c * c + ptOffset % c + len ≤ p.length by omega) hcover
    rw [hsplit] at hwalk
    exact hwalk
  · exact hf

theorem slicePlaintext_of_le (hp : p.length < 2 ^ 63) {ptOffset len : ℕ}
    (hin : ptOffset + len ≤ p.length) :
    slicePlaintext p ptOffset len = .ok ((p.drop ptOffset).take len) := by
  have hadd : checkedAdd ptOffset len = some (ptOffset + len) := by
    rw [checkedAdd, if_pos]
    simp only [u64Size]
    omega
  simp only [slicePlaintext, hadd]
  rw [if_neg (by omega), List.drop_take, Nat.add_sub_cancel_left]

/-- **From a good probe on, a span of a sealed object** is delivered as far as no fetch
fails. -/
theorem getRangeStreamProbed_sealed (hA : A.Sound) {store : Store} {obj : Bytes}
    (hkey : store.encryptionKey = some k) (h : StoredAs A p (some k) obj)
    (ho : objs key = some obj) (hp : p.length < 2 ^ 63) {ptOffset len : ℕ} (hlen : 0 < len)
    (hin : ptOffset + len ≤ p.length) :
    (getRangeStreamProbed A store key ptOffset len (.ok (obj.take 4))).Post
      (Fetch.Outcomes faults be objs) (Delivers faults ((p.drop ptOffset).take len)) := by
  unfold getRangeStreamProbed
  cases h with
  | v1 k nonce =>
    simp only [hkey, isStreamSealed_take, isStreamSealed_sealObject, isEncrypted_take,
      isEncrypted_sealObject, Bool.false_eq_true, if_false, if_true]
    rw [Prog.post_perform_bind]
    rintro r (rfl | ⟨hf, e, rfl⟩)
    · simp only [rawGet, ho, decryptIfNeeded_v1 hA, slicePlaintext_of_le hp hin]
      exact .single faults _
    · exact hf
  | v2 k base =>
    have hv2 := isStreamSealed_sealStream A k base streamChunkPt p
    simp only [hkey, isStreamSealed_take, hv2, if_true]
    exact v2SpanStream_delivers hA le_streamChunkPt hp streamChunkPt_le ho hlen hin

/-- **A span is delivered exactly**, under the same conditions. -/
theorem getRangeStream_storedAs (hA : A.Sound) {store : Store} {written : Option Key}
    {obj : Bytes} (h : StoredAs A p written obj)
    (hread : CanRead p written store.encryptionKey) (ho : objs key = some obj)
    (hp : p.length < 2 ^ 63) {ptOffset len : ℕ} (hlen : 0 < len)
    (hin : ptOffset + len ≤ p.length) :
    (getRangeStream A store key ptOffset len).Post (Fetch.Answers be objs)
      (fun s => endsOk s ∧ emitted s = (p.drop ptOffset).take len) := by
  obtain ⟨hfits, hfour⟩ := h.probe hA hp
  rw [post_getRangeStream hlen]
  cases written with
  | some k =>
    rw [rawGetRange_probe ho (hfour rfl) hfits]
    exact (getRangeStreamProbed_sealed hA hread h ho hp hlen hin).mono
      (fun _ _ => Fetch.Answers.outcomes False) fun _ hs => hs.complete
  | none =>
    cases h
    obtain ⟨hv1, hv2⟩ := hread
    have hraw : Prog.Post (Fetch.Answers be objs) _ _ := rawSpanStream_plain ho hfits hin
    unfold getRangeStreamProbed
    by_cases hshort : 4 ≤ p.length
    · rw [rawGetRange_probe ho hshort hfits]
      cases store.encryptionKey with
      | none =>
        simp only [isStreamSealed_take, isEncrypted_take, hv1, hv2, Bool.or_false,
          Bool.false_eq_true, if_false]
        exact hraw
      | some k =>
        simp only [isStreamSealed_take, isEncrypted_take, hv1, hv2, Bool.false_eq_true, if_false]
        exact hraw
    · obtain ⟨msg, hprobe⟩ := @probe_short be _ _ _ ho hshort
      rw [hprobe]
      exact hraw

end Storage
end Uwuubox
