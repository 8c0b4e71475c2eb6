import Uwuubox.Storage.RoundTrip

/-!
# Replaced v2 objects

Somebody who can write to the object store, but has no key, replaces a v2 object by
bytes of their choice that carry the same base nonce.  Under an ideal cipher only the
chunks that were sealed for this object open, each under its own index; what is
left to an attacker is where a reader looks for them, which the
unauthenticated chunk size in the header decides.

* `SealedBy` — what was sealed under the key and this base nonce: the chunks of the object.
* `openChunk_authentic` — a chunk that opens is the genuine chunk of that index.
* `getChunks_authentic` — the full walk: chunk 0 has the expected length only
  if the chunk size makes no difference.
* `getStream_tamper` — **the full stream** delivers a prefix, and ends well only after
  all of the plaintext.
* `v2SpanStream_tamper_iff` — **a span** does so too, unless the header has another chunk
  size and leads to a genuine chunk in the place of another.
-/

namespace Uwuubox
namespace Storage

open ObjectCrypt Pieces

/-- The entries of a seal log. -/
abbrev SealLog := List (Key × Nonce × Bytes)

/-- What has been sealed under `k` with this base nonce are the chunks of the v2 object of
`p`; the base nonce has been drawn for it alone. -/
structure SealedBy (log : SealLog) (k : Key) (base : Base) (c : ℕ) (p : Bytes) : Prop where
  chunks : ∀ i < streamChunkCount p.length c, (k, streamNonce base i, piece c i p) ∈ log
  only : ∀ n m, (k, n, m) ∈ log → n.val.take 16 = base.val →
    ∃ i < streamChunkCount p.length c, n = streamNonce base i ∧ m = piece c i p

/-- The log of one call of `put_file`. -/
def sealLog (k : Key) (base : Base) (c : ℕ) (p : Bytes) : SealLog :=
  (List.range (streamChunkCount p.length c)).map fun i => (k, streamNonce base i, piece c i p)

theorem sealedBy_sealLog (k : Key) (base : Base) (c : ℕ) (p : Bytes) :
    SealedBy (sealLog k base c p) k base c p where
  chunks i hi := List.mem_map.2 ⟨i, List.mem_range.2 hi, rfl⟩
  only n m hmem _ := by
    obtain ⟨i, hi, heq⟩ := List.mem_map.1 hmem
    cases heq
    exact ⟨i, List.mem_range.1 hi, rfl, rfl⟩

section Walks

variable {A : Cipher} {log : SealLog} {k : Key} {base : Base} {c d : ℕ} {p : Bytes}
  {key : SafeKey} (hA : A.Ideal log) (hlog : SealedBy log k base c p) (hp : p.length < 2 ^ 63)
  (hc : 0 < c)

include hA hlog

/-- A genuine chunk opens. -/
theorem openChunk_genuine {i : ℕ} (hi : i < streamChunkCount p.length c) :
    openChunk A k base i (sealedPiece A k base c p i) = .ok (piece c i p) := by
  unfold openChunk sealedPiece sealChunk
  rw [hA.opens _ _ _ (hlog.chunks i hi)]

include hp hc

/-- **A chunk that opens is the genuine chunk of that index.** -/
theorem openChunk_authentic {i : ℕ} (hi : i < 2 ^ 64) {sealed pt : Bytes}
    (h : openChunk A k base i sealed = .ok pt) :
    i < streamChunkCount p.length c ∧ pt = piece c i p ∧
      sealed = sealedPiece A k base c p i := by
  unfold openChunk at h
  split at h
  · rename_i pt' hdec
    cases h
    obtain ⟨hmem, rfl⟩ := hA.produced _ _ _ _ hdec
    obtain ⟨j, hj, hnonce, rfl⟩ := hlog.only _ _ hmem (take_streamNonce base i)
    have hjp := (lt_pieceCount_iff hc j p.length).1 hj
    have hj64 : j < 2 ^ 64 := by
      have := Nat.le_mul_of_pos_right j hc
      omega
    obtain rfl := streamNonce_inj hi hj64 hnonce
    exact ⟨hj, rfl, rfl⟩
  · cases h

/-- Whatever a fetch for chunk `i` comes back with, it opens to nothing but the piece. -/
theorem fetchesChunk_authentic {i : ℕ} (hi : i < 2 ^ 64) (r : Except StorageError Bytes) :
    FetchesChunk A k base True i (piece c i p) r where
  sound _ _ _ hopen := (openChunk_authentic hA hlog hp hc hi hopen).2.1
  complete h := absurd trivial h

/-- **The walk of the full stream**, for any chunk size `d` in the header: the first chunk
opens only if `d` cuts `p` like `c` does. -/
theorem getChunks_authentic {ok : (op : Fetch) → op.Res → Prop} (hd : 0 < d) :
    (getChunks A key k base d (streamChunkCount p.length d) 0 streamHeaderLen p.length).Post ok
      (DeliversItems True p) := by
  by_cases hsame : d = c ∨ (p.length ≤ c ∧ p.length ≤ d)
  · have hwalk := @getChunks_walk A key k base p d True ok hd (fun i hi r _ => ?_)
      (streamChunkCount p.length d) 0 streamHeaderLen (Nat.zero_add _)
      (fun _ => by rw [Nat.zero_mul, Nat.add_zero])
    · rwa [Nat.zero_mul, Nat.sub_zero, List.drop_zero] at hwalk
    · have hin := (lt_pieceCount_iff hd i p.length).1 hi
      have hi64 : i < 2 ^ 64 := by
        have := Nat.le_mul_of_pos_right i hd
        omega
      have hpiece : piece c i p = piece d i p := by
        rcases hsame with rfl | ⟨hlec, hled⟩
        · rfl
        · -- there is one piece, all of `p`
          obtain rfl : i = 0 := by
            by_contra hne
            have := Nat.le_mul_of_pos_left d (Nat.pos_of_ne_zero hne)
            omega
          rw [piece, piece, Nat.zero_mul, Nat.zero_mul, List.drop_zero,
            List.take_of_length_le hlec, List.take_of_length_le hled]
      rw [← hpiece]
      exact fetchesChunk_authentic hA hlog hp hc hi64 r
  · obtain ⟨hne, hlong⟩ := not_or.1 hsame
    obtain ⟨m, hm⟩ : ∃ m, streamChunkCount p.length d = m + 1 := by
      have hpos : 0 < streamChunkCount p.length d := (lt_pieceCount_iff hd 0 _).2 (by omega)
      exact ⟨streamChunkCount p.length d - 1, by omega⟩
    rw [hm, getChunks, Prog.post_perform_bind]
    rintro r -
    cases r with
    | error e => exact .error trivial _ e
    | ok sealed =>
      simp only
      split
      · exact .error trivial _ _
      rename_i hlen
      cases hopen : openChunk A k base 0 sealed with
      | error e => exact .error trivial _ _
      | ok pt =>
        -- chunk 0 as it was sealed does not have the length `d` makes it have
        obtain ⟨-, rfl, rfl⟩ := openChunk_authentic hA hlog hp hc (by norm_num) hopen
        rw [not_not, sealedPiece, sealChunk, hA.length_encrypt, length_piece, Aead.tagLen] at hlen
        omega

/-- **The walk of a span under the genuine chunk size**: every chunk that opens is the one the
walk is at. -/
theorem spanChunks_authentic {ok : (op : Fetch) → op.Res → Prop} {ptOffset len : ℕ}
    (hlen : 0 < len) (hin : ptOffset + len ≤ p.length) :
    (spanChunks A key k base c ((ptOffset + (len - 1)) / c + 1 - ptOffset / c) (ptOffset / c)
      (ptOffset % c) len).Post ok (DeliversItems True ((p.drop ptOffset).take len)) := by
  have hsplit : ptOffset / c * c + ptOffset % c = ptOffset := Nat.div_add_mod' ptOffset c
  have hwalk := @spanChunks_walk A key k base p c True ok hc (fun i hi r _ => ?_)
    ((ptOffset + (len - 1)) / c + 1 - ptOffset / c) (ptOffset / c) (ptOffset % c) len hlen
    (Nat.mod_lt _ hc) (by omega) (span_cover hc ptOffset hlen)
  · rwa [hsplit] at hwalk
  · have hip := (lt_pieceCount_iff hc i p.length).1 hi
    have := Nat.le_mul_of_pos_right i hc
    exact fetchesChunk_authentic hA hlog hp hc (by omega) r

/-! ### A span under another chunk size -/

omit hA hlog hp hc in
/-- A walk whose next fetch does not open ends there. -/
theorem spanChunks_fails {ok : (op : Fetch) → op.Res → Prop} {m i trim remaining : ℕ}
    (h : ∀ r, ok (.getRangeRelaxed key ((streamHeaderLen + i * (d + 16)) % u64Size) (d + 16)) r →
      ∀ sealed pt, r = .ok sealed → sealed ≠ [] → openChunk A k base i sealed ≠ .ok pt) :
    (spanChunks A key k base d (m + 1) i trim remaining).Post ok
      (fun items => ∃ e, items = [.error e]) := by
  unfold spanChunks
  rw [Prog.post_perform_bind]
  intro r hr
  cases r with
  | error e => exact ⟨e, rfl⟩
  | ok sealed =>
    simp only [List.isEmpty_iff]
    split
    · exact ⟨_, rfl⟩
    · rename_i hne
      cases hopen : openChunk A k base i sealed with
      | error e => exact ⟨_, rfl⟩
      | ok pt => exact absurd hopen (h _ hr sealed pt rfl hne)

/-- What the object has where chunk `i` lies if chunks hold `d` bytes. -/
def sealedAt (o : Bytes) (d i : ℕ) : Bytes :=
  (o.drop ((streamHeaderLen + i * (d + 16)) % u64Size)).take (d + 16)

variable {be : Backend} {objs : Objects} {o : Bytes} (hfits : o.length < 2 ^ 63)
  (hd' : d ≤ 64 * 1024 * 1024) (ho : objs key = some o)

omit hA hlog hp hc in
include ho in
/-- A fetch that returns anything returns what the object has there. -/
theorem answers_sealedAt {i : ℕ} {r : Except StorageError Bytes}
    (hr : Fetch.Answers be objs
      (.getRangeRelaxed key ((streamHeaderLen + i * (d + 16)) % u64Size) (d + 16)) r)
    {sealed : Bytes} (hok : r = .ok sealed) : sealed = sealedAt o d i := by
  subst hok
  exact rawGetRangeRelaxed_ok ho (by omega) hr.symm

include hfits hd'

/-- **Behind a genuine chunk that was found under another chunk size no chunk opens**: either
it fills the place, and is the last one, or the object ends with it. -/
theorem not_opens_after {q : ℕ} (hdc : d ≠ c) (hq : q < streamChunkCount p.length c)
    (hat : sealedAt o d q = sealedPiece A k base c p q) (pt : Bytes)
    (hne : sealedAt o d (q + 1) ≠ []) :
    openChunk A k base (q + 1) (sealedAt o d (q + 1)) ≠ .ok pt := by
  intro hopen
  have hqp := (lt_pieceCount_iff hc q p.length).1 hq
  have hq64 : q + 1 < 2 ^ 64 := by
    have := Nat.le_mul_of_pos_right q hc
    omega
  obtain ⟨hq', -, -⟩ := openChunk_authentic hA hlog hp hc hq64 hopen
  -- so chunk `q` is full, and it lies in the object as a whole
  have hfull : (piece c q p).length = c := length_piece_of_succ_lt hc hq'
  have hlen := congrArg List.length hat
  have hlen' := List.length_pos_of_ne_nil hne
  rw [sealedPiece, sealChunk, hA.length_encrypt, hfull, Aead.tagLen, sealedAt, List.length_take,
    List.length_drop] at hlen
  rw [sealedAt, List.length_take, List.length_drop] at hlen'
  set off := (streamHeaderLen + q * (d + 16)) % u64Size with hoff
  have hnext : (streamHeaderLen + (q + 1) * (d + 16)) % u64Size = off + (d + 16) := by
    rw [Nat.succ_mul, ← Nat.add_assoc, Nat.add_mod, ← hoff, Nat.mod_eq_of_lt]
    · rw [Nat.mod_eq_of_lt (show d + 16 < u64Size by unfold u64Size; omega)]
    · rw [Nat.mod_eq_of_lt (show d + 16 < u64Size by unfold u64Size; omega)]
      unfold u64Size
      omega
  rw [hnext] at hlen'
  omega

include ho

/-- A walk from the chunk behind it on delivers nothing. -/
theorem spanChunks_after {q : ℕ} (hdc : d ≠ c) (hq : q < streamChunkCount p.length c)
    (hat : sealedAt o d q = sealedPiece A k base c p q) (m trim remaining : ℕ) :
    (spanChunks A key k base d m (q + 1) trim remaining).Post (Fetch.Answers be objs)
      (fun items => (m = 0 ∧ items = []) ∨ (0 < m ∧ ∃ e, items = [.error e])) := by
  cases m with
  | zero => exact .inl ⟨rfl, rfl⟩
  | succ m =>
    refine (spanChunks_fails fun r hr sealed pt hok hne => ?_).mono (fun _ _ h => h)
      fun items h => .inr ⟨Nat.succ_pos m, h⟩
    obtain rfl := answers_sealedAt ho hr hok
    exact not_opens_after hA hlog hp hc hfits hd' hdc hq hat pt hne

/-- **A span under another chunk size** delivers what the first chunk that is found gives
of it, and nothing after it. -/
theorem spanChunks_displaced_iff {q trim remaining m : ℕ} {target : Bytes} (hdc : d ≠ c)
    (hq64 : q < 2 ^ 63) (hrem : 0 < remaining) (htarget : target.length = remaining) :
    (spanChunks A key k base d (m + 1) q trim remaining).Post (Fetch.Answers be objs)
        (DeliversItems True target) ↔
      (q < streamChunkCount p.length c → sealedAt o d q = sealedPiece A k base c p q →
        ((piece c q p).drop trim).take remaining <+: target ∧
          ((((piece c q p).drop trim).take remaining).length = remaining ∨ 0 < m)) := by
  refine Prog.Post.iff (fun op => ⟨_, Fetch.answers_answer be objs op⟩) ?_
  by_cases hfound : q < streamChunkCount p.length c ∧
      sealedAt o d q = sealedPiece A k base c p q
  · obtain ⟨hq, hat⟩ := hfound
    have hne : sealedAt o d q ≠ [] := by
      rw [hat, ← List.length_pos_iff, sealedPiece, sealChunk, hA.length_encrypt, Aead.tagLen]
      omega
    have hopen := openChunk_genuine hA hlog hq
    rw [← hat] at hopen
    have hread : rawGetRangeRelaxed be objs key ((streamHeaderLen + q * (d + 16)) % u64Size)
        (d + 16) = .ok (sealedAt o d q) := by
      have hin := List.length_pos_of_ne_nil hne
      rw [sealedAt, List.length_take, List.length_drop] at hin
      refine rawGetRangeRelaxed_of_lt ho (by omega) (by omega) ?_
      unfold u64Size at hin ⊢
      omega
    have hafter := fun t rem =>
      @spanChunks_after A log k base c d p key hA hlog hp hc be objs o hfits hd' ho q hdc hq hat m t rem
    unfold spanChunks
    rw [Prog.post_perform_bind]
    rintro r rfl
    rw [hread]
    simp only [List.isEmpty_iff, hne, hopen, if_false]
    by_cases hskip : trim > 0 ∧ trim ≥ (piece c q p).length
    · -- the chunk lies before the span
      rw [if_pos hskip, List.drop_eq_nil_of_le hskip.2, List.take_nil]
      refine (hafter _ _).mono (fun _ _ h => h) ?_
      rintro items (⟨rfl, rfl⟩ | ⟨hm, e, rfl⟩)
      · refine iff_of_false (fun h => ?_) (fun h => ?_)
        · have hnil : [] = target := h.all trivial
          rw [← hnil, List.length_nil] at htarget
          omega
        · have := (h hq hat).2
          rw [List.length_nil] at this
          omega
      · exact iff_of_true (.error trivial _ e) fun _ _ => ⟨List.nil_prefix, .inr hm⟩
    · rw [if_neg hskip]
      set pt := (piece c q p).drop trim with hpt
      have htake : pt.take (min remaining pt.length) = pt.take remaining := by
        rw [List.take_eq_take_iff]
        omega
      have hlen : (pt.take remaining).length = min remaining pt.length := List.length_take
      rw [htake]
      by_cases hdone : remaining - min remaining pt.length = 0
      · rw [if_pos hdone]
        constructor
        · intro h _ _
          exact ⟨List.append_nil (pt.take remaining) ▸ h.isPrefix, .inl (by omega)⟩
        · intro h
          have heq := (h hq hat).1.eq_of_length (by omega)
          rw [heq]
          exact .single True target
      · rw [if_neg hdone, Prog.post_bind]
        refine (hafter _ _).mono (fun _ _ h => h) ?_
        rintro items (⟨rfl, rfl⟩ | ⟨hm, e, rfl⟩)
        · refine iff_of_false (fun h => ?_) (fun h => ?_)
          · have hall := congrArg List.length (h.all trivial)
            rw [itemBytes, itemBytes, List.append_nil] at hall
            omega
          · have := (h hq hat).2
            omega
        · constructor
          · intro h _ _
            exact ⟨List.append_nil (pt.take remaining) ▸ h.isPrefix, .inr hm⟩
          · intro h
            refine ⟨?_, fun hok => hok.elim, fun hno => absurd trivial hno⟩
            rw [itemBytes, itemBytes, itemBytes, List.append_nil]
            exact (h hq hat).1
  · have hfails : (spanChunks A key k base d (m + 1) q trim remaining).Post
        (Fetch.Answers be objs) (fun items => ∃ e, items = [.error e]) := by
      refine spanChunks_fails fun r hr sealed pt hok hne hopen => hfound ?_
      obtain rfl := answers_sealedAt ho hr hok
      obtain ⟨hq, -, hat⟩ := openChunk_authentic hA hlog hp hc (by omega) hopen
      exact ⟨hq, hat⟩
    refine hfails.mono (fun _ _ h => h) ?_
    rintro items ⟨e, rfl⟩
    exact iff_of_true (.error trivial _ e) fun hq hat => absurd ⟨hq, hat⟩ hfound

end Walks

/-! ## The two reads -/

/-- The demand of `Delivers` when anything may be a fault. -/
theorem delivers_true_iff {target : Bytes} {s : Served} :
    Delivers True target s ↔ emitted s <+: target ∧ (endsOk s → emitted s = target) := by
  cases s with
  | error e => exact iff_of_true trivial ⟨List.nil_prefix, fun h => h.elim⟩
  | ok items =>
    constructor
    · intro h
      exact ⟨h.isPrefix, h.all⟩
    · rintro ⟨hpre, hall⟩
      exact ⟨hpre, hall, fun h => absurd trivial h⟩

/-- A header that is accepted, with the base nonce where the object has it. -/
theorem base_of_parse {o : Bytes} {d : ℕ} {base base' : Base}
    (hbase : (o.drop 8).take 16 = base.val)
    (h : parseStreamHeader (o.take streamHeaderLen) = .ok (d, base')) :
    base' = base ∧ 0 < d ∧ d ≤ 64 * 1024 * 1024 := by
  obtain ⟨-, -, hpos, hle, -, hval⟩ := parseStreamHeader_ok h
  refine ⟨Subtype.ext ?_, hpos, hle⟩
  rw [hval, List.drop_take, List.take_take, ← hbase]
  rfl

/-- An object with the magic has the four bytes of the probe. -/
theorem four_le_of_isStreamSealed {o : Bytes} (h : isStreamSealed o = true) : 4 ≤ o.length := by
  unfold isStreamSealed at h
  rw [Bool.and_eq_true, decide_eq_true_eq] at h
  exact h.1

/-- A v2 object whose header cannot be read or is not accepted gives an error. -/
theorem getStream_rejected {A : Cipher} {store : Store} {key : SafeKey} {k : Key} {be : Backend}
    {objs : Objects} {o : Bytes} (ptLen : ℕ) (hkey : store.encryptionKey = some k)
    (ho : objs key = some o) (hfits : o.length ≤ u64Size) (hmagic : isStreamSealed o = true)
    (hreject : ∀ header, rawGetRange be objs key 0 streamHeaderLen = .ok header →
      ∃ e, parseStreamHeader header = .error e) :
    (getStream A store key ptLen).Post (Fetch.Answers be objs) (fun s => ∃ e, s = .error e) := by
  rw [post_getStream, rawGetRange_probe ho (four_le_of_isStreamSealed hmagic) hfits]
  simp only [getStreamProbed, hkey, isStreamSealed_take, hmagic, Bool.not_true,
    Bool.false_eq_true, if_false]
  rw [Prog.post_perform_bind]
  rintro r rfl
  cases hread : rawGetRange be objs key 0 streamHeaderLen with
  | error e => exact ⟨e, rfl⟩
  | ok header =>
    obtain ⟨e, he⟩ := hreject header hread
    simp only [he]
    exact ⟨_, rfl⟩

/-- **Tampering with a v2 object.**  Whatever is stored in its place, with the magic and, if
there is a whole header, the base nonce: the full stream delivers a prefix of the
plaintext, and ends without an error only after all of it. -/
theorem getStream_tamper {A : Cipher} {log : SealLog} (hA : A.Ideal log) (be : Backend) (k : Key)
    (base : Base) (key : SafeKey) (p : Content)
    (hlog : SealedBy log k base streamChunkPt p.bytes) (objs : Objects) (o : Content)
    (ho : objs key = some o.bytes) (hmagic : isStreamSealed o.bytes = true)
    (hbase : streamHeaderLen ≤ o.bytes.length → (o.bytes.drop 8).take 16 = base.val) :
    (getStream A ⟨be, some k⟩ key p.bytes.length).Post (Fetch.Answers be objs)
      (fun s => emitted s <+: p.bytes ∧ (endsOk s → emitted s = p.bytes)) := by
  simp only [← delivers_true_iff]
  have hfits : o.bytes.length ≤ u64Size := o.fits.le.trans (by unfold u64Size; norm_num)
  have hrejected : ∀ s : Served, (∃ e, s = .error e) → Delivers True p.bytes s := by
    rintro s ⟨e, rfl⟩
    trivial
  by_cases hheader : streamHeaderLen ≤ o.bytes.length
  · cases hparse : parseStreamHeader (o.bytes.take streamHeaderLen) with
    | error e =>
      refine (getStream_rejected _ rfl ho hfits hmagic fun header hread => ?_).mono
        (fun _ _ h => h) hrejected
      obtain ⟨-, rfl⟩ := rawGetRange_ok ho (by decide) hread
      exact ⟨e, hparse⟩
    | ok header =>
      obtain ⟨d, base'⟩ := header
      obtain ⟨rfl, hd, hd'⟩ := base_of_parse (hbase hheader) hparse
      rw [post_getStream_v2 rfl ho hfits hmagic hheader hparse]
      exact getChunks_authentic hA hlog p.fits streamChunkPt_pos hd
  · refine (getStream_rejected _ rfl ho hfits hmagic fun header hread => ?_).mono
      (fun _ _ h => h) hrejected
    exact absurd (rawGetRange_ok ho (by decide) hread).1 (by omega)

/-! ### A content of two chunks -/

/-- The cipher that has sealed the two chunks, and nothing else. -/
def sealer : Cipher := Aead.recorded (sealLog zeroKey zeroBase streamChunkPt twoChunks.bytes)

theorem sealer_ideal : sealer.Ideal (sealLog zeroKey zeroBase streamChunkPt twoChunks.bytes) :=
  Aead.recorded_ideal _

/-- Some of the sealed chunks behind a header that announces chunks of `c` bytes. -/
def behindHeader (c : ℕ) (chunks : List ℕ) : Bytes :=
  streamHeader c zeroBase ++
    (chunks.map (sealedPiece sealer zeroKey zeroBase streamChunkPt twoChunks.bytes)).flatten

theorem length_behindHeader_le (c : ℕ) (chunks : List ℕ) :
    (behindHeader c chunks).length ≤ streamHeaderLen + chunks.length * (streamChunkPt + 16) := by
  have hpieces : (chunks.map (sealedPiece sealer zeroKey zeroBase streamChunkPt
      twoChunks.bytes)).flatten.length ≤ chunks.length * (streamChunkPt + 16) := by
    induction chunks with
    | nil => exact Nat.zero_le _
    | cons i chunks ih =>
      have hpiece : (sealedPiece sealer zeroKey zeroBase streamChunkPt twoChunks.bytes i).length ≤
          streamChunkPt + 16 := by
        rw [sealedPiece, sealChunk, sealer_ideal.length_encrypt, length_piece]
        exact Nat.add_le_add_right (Nat.min_le_left _ _) _
      rw [List.map_cons, List.flatten_cons, List.length_append, List.length_cons, Nat.succ_mul]
      omega
  rw [behindHeader, List.length_append, length_streamHeader]
  omega

theorem base_behindHeader (c : ℕ) (chunks : List ℕ) :
    ((behindHeader c chunks).drop 8).take 16 = zeroBase.val := by
  rw [behindHeader, streamHeader, List.append_assoc, List.drop_left' (by simp [magicV2])]
  exact List.take_left' zeroBase.property

theorem take_behindHeader (c : ℕ) (chunks : List ℕ) :
    (behindHeader c chunks).take streamHeaderLen = streamHeader c zeroBase :=
  List.take_left' (length_streamHeader c zeroBase)

/-- At most two of the chunks, as an object. -/
def forged (c : ℕ) (chunks : List ℕ) (h : chunks.length ≤ 2) : Content where
  bytes := behindHeader c chunks
  fits := by
    have hlen := length_behindHeader_le c chunks
    have hmul := Nat.mul_le_mul_right (streamChunkPt + 16) h
    have hc := streamChunkPt_le
    have hheader : streamHeaderLen = 24 := rfl
    omega

/-- The two chunks in the wrong order. -/
def swappedChunks : Content := forged streamChunkPt [1, 0] (le_refl 2)

theorem getStream_tamper_swapped :
    (getStream sealer ⟨.s3, some zeroKey⟩ fileA twoChunks.bytes.length).Post
      (Fetch.Answers .s3 (Function.update emptyWorld.objects fileA (some swappedChunks.bytes)))
      (fun s => emitted s <+: twoChunks.bytes ∧ (endsOk s → emitted s = twoChunks.bytes)) :=
  getStream_tamper sealer_ideal .s3 zeroKey zeroBase fileA twoChunks
    (sealedBy_sealLog zeroKey zeroBase streamChunkPt twoChunks.bytes) _ swappedChunks
    (Function.update_self fileA (some swappedChunks.bytes) emptyWorld.objects)
    (isStreamSealed_streamHeader _ _ _) fun _ => base_behindHeader _ _

/-- The span stream of a v2 object, from its header on. -/
theorem post_v2SpanStream {A : Cipher} {key : SafeKey} {k : Key} {be : Backend} {objs : Objects}
    {o : Bytes} (ho : objs key = some o) (hfits : o.length ≤ u64Size)
    (hheader : streamHeaderLen ≤ o.length) {ptOffset len : ℕ} (hspan : ptOffset + len < 2 ^ 63)
    {d : ℕ} {base : Base} (hparse : parseStreamHeader (o.take streamHeaderLen) = .ok (d, base))
    {Q : Served → Prop} :
    (v2SpanStream A key k ptOffset len).Post (Fetch.Answers be objs) Q ↔
      (spanChunks A key k base d ((ptOffset + (len - 1)) / d + 1 - ptOffset / d) (ptOffset / d)
        (ptOffset % d) len).Post (Fetch.Answers be objs) (fun items => Q (.ok items)) := by
  have hread : rawGetRange be objs key 0 streamHeaderLen = .ok (o.take streamHeaderLen) := by
    rw [rawGetRange_of_le ho (by omega) hfits, List.drop_zero]
  have hadd : checkedAdd ptOffset (len - 1) = some (ptOffset + (len - 1)) := by
    rw [checkedAdd, if_pos]
    unfold u64Size
    omega
  unfold v2SpanStream
  rw [Prog.post_perform_bind]
  show (∀ r, r = rawGetRange be objs key 0 streamHeaderLen → _) ↔ _
  rw [forall_eq, hread]
  simp only [hparse, hadd]
  exact Prog.post_bind _ _

/-- **Tampering with a span.**  Under the header's chunk size `d` the walk looks for chunk
`ptOffset / d`.  The span is safe exactly when `d` is the chunk size the object was sealed
with, or that chunk is not where the walk looks for it, or what it gives there is a
beginning of the span that does not end the walk too soon. -/
theorem v2SpanStream_tamper_iff {A : Cipher} {log : SealLog} (hA : A.Ideal log) (be : Backend)
    (k : Key) (base : Base) (key : SafeKey) (p : Content)
    (hlog : SealedBy log k base streamChunkPt p.bytes) (objs : Objects) (o : Content)
    (ho : objs key = some o.bytes) (hheader : streamHeaderLen ≤ o.bytes.length)
    (hbase : (o.bytes.drop 8).take 16 = base.val) (ptOffset len : ℕ) (hlen : 0 < len)
    (hin : ptOffset + len ≤ p.bytes.length) :
    (v2SpanStream A key k ptOffset len).Post (Fetch.Answers be objs)
        (fun s => emitted s <+: (p.bytes.drop ptOffset).take len ∧
          (endsOk s → emitted s = (p.bytes.drop ptOffset).take len)) ↔
      ∀ d, parseStreamHeader (o.bytes.take streamHeaderLen) = .ok (d, base) →
        d ≠ streamChunkPt → ptOffset / d < streamChunkCount p.bytes.length streamChunkPt →
        sealedAt o.bytes d (ptOffset / d) =
          sealedPiece A k base streamChunkPt p.bytes (ptOffset / d) →
        ((piece streamChunkPt (ptOffset / d) p.bytes).drop (ptOffset % d)).take len <+:
            (p.bytes.drop ptOffset).take len ∧
          ((((piece streamChunkPt (ptOffset / d) p.bytes).drop (ptOffset % d)).take len).length =
            len ∨ ptOffset / d < (ptOffset + (len - 1)) / d) := by
  simp only [← delivers_true_iff]
  have hfits : o.bytes.length ≤ u64Size := o.fits.le.trans (by unfold u64Size; norm_num)
  have hp := p.fits
  cases hparse : parseStreamHeader (o.bytes.take streamHeaderLen) with
  | error e =>
    refine iff_of_true ?_ fun d hd => by cases hd
    unfold v2SpanStream
    rw [Prog.post_perform_bind]
    rintro r rfl
    rw [rawGetRange_of_le ho (by omega) hfits, List.drop_zero]
    simp only [hparse]
    trivial
  | ok header =>
    obtain ⟨d, base'⟩ := header
    obtain ⟨rfl, hd, hd'⟩ := base_of_parse hbase hparse
    rw [post_v2SpanStream ho hfits hheader (by omega) hparse]
    have hle : ptOffset / d ≤ ptOffset := Nat.div_le_self ptOffset d
    have hlast : ptOffset / d ≤ (ptOffset + (len - 1)) / d :=
      Nat.div_le_div_right (Nat.le_add_right _ _)
    by_cases hdc : d = streamChunkPt
    · subst hdc
      refine iff_of_true ?_ fun d hd hne => absurd (by cases hd; rfl) hne
      exact spanChunks_authentic hA hlog hp hd hlen hin
    · obtain ⟨m, hm⟩ := Nat.exists_eq_add_of_le hlast
      rw [show (ptOffset + (len - 1)) / d + 1 - ptOffset / d = m + 1 by omega]
      have hspan : ((p.bytes.drop ptOffset).take len).length = len := by
        rw [List.length_take, List.length_drop]
        omega
      show (spanChunks A key k base' d (m + 1) (ptOffset / d) (ptOffset % d) len).Post
        (Fetch.Answers be objs) (DeliversItems True _) ↔ _
      rw [spanChunks_displaced_iff hA hlog hp streamChunkPt_pos o.fits hd' ho hdc (by omega) hlen
        hspan]
      have hmore : ptOffset / d < (ptOffset + (len - 1)) / d ↔ 0 < m := by omega
      constructor
      · intro h d' hd' _ hq hat
        cases hd'
        rw [hmore]
        exact h hq hat
      · intro h hq hat
        rw [← hmore]
        exact h d rfl hdc hq hat

/-- The first chunk, behind a header that announces chunks of twice its size. -/
def stretchedChunk : Content := forged (2 * streamChunkPt) [0] (by decide)

/-- A span in both chunks of the object with the chunks swapped, and a span in the first chunk behind
the header that announces larger ones. -/
theorem v2SpanStream_tamper_iff_twoChunks :
    (v2SpanStream sealer fileA zeroKey (streamChunkPt - 1) 2).Post
      (Fetch.Answers .s3 (Function.update emptyWorld.objects fileA (some swappedChunks.bytes)))
      (fun s => emitted s <+: (twoChunks.bytes.drop (streamChunkPt - 1)).take 2 ∧
        (endsOk s → emitted s = (twoChunks.bytes.drop (streamChunkPt - 1)).take 2)) ∧
    (v2SpanStream sealer fileA zeroKey 0 2).Post
      (Fetch.Answers .s3 (Function.update emptyWorld.objects fileA (some stretchedChunk.bytes)))
      (fun s => emitted s <+: (twoChunks.bytes.drop 0).take 2 ∧
        (endsOk s → emitted s = (twoChunks.bytes.drop 0).take 2)) := by
  have hc := le_streamChunkPt
  have hlen := length_twoChunks
  have hlog := sealedBy_sealLog zeroKey zeroBase streamChunkPt twoChunks.bytes
  have hheader : ∀ c chunks, streamHeaderLen ≤ (behindHeader c chunks).length := fun c chunks => by
    rw [behindHeader, List.length_append, length_streamHeader]
    exact Nat.le_add_right _ _
  constructor
  · refine (v2SpanStream_tamper_iff sealer_ideal .s3 zeroKey zeroBase fileA twoChunks hlog _ swappedChunks
      (Function.update_self fileA (some swappedChunks.bytes) emptyWorld.objects) (hheader _ _)
      (base_behindHeader _ _) (streamChunkPt - 1) 2 (by decide) (by omega)).2 ?_
    intro d hparse hne
    -- the header is the genuine one
    rw [swappedChunks, forged, take_behindHeader,
      parseStreamHeader_streamHeader streamChunkPt_pos streamChunkPt_le] at hparse
    cases hparse
    exact absurd rfl hne
  · refine (v2SpanStream_tamper_iff sealer_ideal .s3 zeroKey zeroBase fileA twoChunks hlog _
      stretchedChunk (Function.update_self fileA (some stretchedChunk.bytes) emptyWorld.objects)
      (hheader _ _) (base_behindHeader _ _) 0 2 (by decide) (by omega)).2 ?_
    intro d _ _ _ _
    have hpiece : ((piece streamChunkPt (0 / d) twoChunks.bytes).drop (0 % d)).take 2 =
        (twoChunks.bytes.drop 0).take 2 := by
      rw [Nat.zero_div, Nat.zero_mod, piece, Nat.zero_mul, List.drop_zero, List.drop_zero,
        List.take_take, Nat.min_eq_left (by omega)]
    have htake : ((twoChunks.bytes.drop 0).take 2).length = 2 := by
      rw [List.length_take, List.length_drop]
      omega
    rw [hpiece]
    exact ⟨List.prefix_refl _, .inl htake⟩

theorem drop_zerosAndOne {c : ℕ} (hc : 1 < c) : ((zerosAndOne c).drop 1).take 1 = [0] := by
  obtain ⟨n, rfl⟩ := Nat.exists_eq_add_of_lt hc
  rw [zerosAndOne, show 1 + n + 1 = n + 1 + 1 by omega, List.replicate_succ, List.replicate_succ]
  rfl

theorem piece_zerosAndOne {c : ℕ} (hc : 0 < c) : piece c 1 (zerosAndOne c) = [1] := by
  unfold piece zerosAndOne
  rw [Nat.one_mul, List.drop_left' (List.length_replicate)]
  exact List.take_of_length_le hc

/-- The last chunk of `zerosAndOne` where chunks of one byte would have it. -/
def movedChunk : Content :=
  ⟨streamHeader 1 zeroBase ++ List.replicate 17 0 ++ (1 :: List.replicate 16 0), by decide⟩

/-- From the moved chunk, a span of the second byte reads a one. -/
theorem not_spanChunks_movedChunk {c : ℕ} (hc : 1 < c) (hc' : c ≤ 64 * 1024 * 1024) {A : Cipher}
    {log : SealLog} (hA : A.Ideal log)
    (hlog : SealedBy log zeroKey zeroBase c (zerosAndOne c))
    (henc : ∀ k n p, A.encrypt k n p = p ++ List.replicate 16 0) {key : SafeKey} {objs : Objects}
    (ho : objs key = some movedChunk.bytes) :
    ¬ (spanChunks A key zeroKey zeroBase 1 1 1 0 1).Post (Fetch.Answers .s3 objs)
      (DeliversItems True (((zerosAndOne c).drop 1).take 1)) := by
  have hlen := length_zerosAndOne c
  have hcount : 1 < streamChunkCount (zerosAndOne c).length c :=
    (lt_pieceCount_iff (by omega) 1 _).2 (by omega)
  have hat : sealedAt movedChunk.bytes 1 1 = sealedPiece A zeroKey zeroBase c (zerosAndOne c) 1 := by
    rw [sealedPiece, sealChunk, henc, piece_zerosAndOne (by omega)]
    decide
  rw [drop_zerosAndOne hc, spanChunks_displaced_iff hA hlog (by omega) (by omega) movedChunk.fits
    (by decide) ho (by omega) (by decide) Nat.one_pos rfl, piece_zerosAndOne (by omega)]
  intro h
  exact absurd (h hcount hat).1 (by decide)

/-- The second byte of the file is a zero; from the moved chunk a span of that byte reads a
one, and ends without an error. -/
theorem v2SpanStream_movedChunk : ∃ (p : Content) (A : Cipher) (log : SealLog) (objs : Objects),
    A.Ideal log ∧ SealedBy log zeroKey zeroBase streamChunkPt p.bytes ∧
    objs fileA = some movedChunk.bytes ∧ isStreamSealed movedChunk.bytes = true ∧
    streamHeaderLen ≤ movedChunk.bytes.length ∧
    (movedChunk.bytes.drop 8).take 16 = zeroBase.val ∧ 1 + 1 ≤ p.bytes.length ∧
    ¬ (v2SpanStream A fileA zeroKey 1 1).Post (Fetch.Answers .s3 objs)
      (fun s => emitted s <+: (p.bytes.drop 1).take 1 ∧
        (endsOk s → emitted s = (p.bytes.drop 1).take 1)) := by
  have hc := le_streamChunkPt
  have hlen := length_twoChunks
  have hlog := sealedBy_sealLog zeroKey zeroBase streamChunkPt twoChunks.bytes
  have ho := Function.update_self fileA (some movedChunk.bytes) emptyWorld.objects
  refine ⟨twoChunks, sealer, _, _, sealer_ideal, hlog, ho, by decide, by decide, by decide, by omega,
    fun hpost => ?_⟩
  simp only [← delivers_true_iff] at hpost
  rw [post_v2SpanStream ho (by decide) (by decide) (by decide)
    (show parseStreamHeader (movedChunk.bytes.take streamHeaderLen) = .ok (1, zeroBase) by decide)]
    at hpost
  exact not_spanChunks_movedChunk (by omega) streamChunkPt_le sealer_ideal hlog (fun _ _ _ => rfl) ho hpost

end Storage
end Uwuubox
