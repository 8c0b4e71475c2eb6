import Uwuubox.Storage.PutFile
import Uwuubox.Storage.ReadBack

/-!
# Writers against readers

Two writers (`put`, `put_file`) store a plaintext in two formats, and three reads
(`get`, `get_stream`, `get_range_stream`) have to make the same bytes of what they find.

* `Writer` — a writer with what it draws at random; `Writer.Holds` says that it is
  given the plaintext `p`, `Writer.write` runs it.
* `Writer.stored` — a successful write leaves one of the forms of `StoredAs`.
* `putFile_roundtrip` — **what `put_file` stores and `get_stream` delivers**, part by part
  and chunk by chunk.
* `getRangeStream_written` — **every span** of what a writer stored.
* `get_written_iff` — the buffered read: it knows format v1 only, so it
  agrees with the stream exactly for what was not written by `put_file` under a key.
-/

namespace Uwuubox
namespace Storage

open ObjectCrypt Pieces

/-- The two writers, each with the nonce it draws. -/
inductive Writer where
  | put (nonce : Nonce)
  /-- `put_file` of a spool file. -/
  | putFile (base : Base) (spool : Spool)

/-- The writer is given `p`: as its buffer, or as a spool file whose reads return
`p`, cut anywhere, and then the end of the file. -/
def Writer.Holds (p : Bytes) : Writer → Prop
  | .put _ => True
  | .putFile _ spool => spool.bytes = p ∧ spool.failure = none

/-- Run the writer on `p`. -/
def Writer.write (A : Cipher) (store : Store) (key : SafeKey) (p : Bytes) :
    Writer → Write (Except StorageError Unit)
  | .put nonce => Storage.put A store key nonce p
  | .putFile base spool => Storage.putFile A store key base (.ok spool) p.length

/-- The object a writer leaves of `p`. -/
def Writer.object (A : Cipher) (encryptionKey : Option Key) (p : Bytes) : Writer → Bytes
  | .put nonce =>
    match encryptionKey with
    | some k => sealObject A k nonce p
    | none => p
  | .putFile base _ => framed A encryptionKey base streamChunkPt p

variable {A : Cipher} {store : Store} {key : SafeKey} {p : Bytes} {writer : Writer}
  {faults : Prop} {w w' : World}

/-- A writer publishes its object, or fails and changes nothing. -/
theorem Writer.attempts (hw : writer.Holds p) :
    ∃ good, Attempts faults (writer.write A store key p) good ∧ ∀ w, (good w).objects =
      Function.update w.objects key (some (writer.object A store.encryptionKey p)) := by
  cases writer with
  | put nonce =>
    exact ⟨_, attempts_rawPut store.backend key _, fun w => objects_written w store.backend key _⟩
  | putFile base spool =>
    obtain ⟨rfl, hend⟩ := hw
    obtain ⟨good, hgood, heffect⟩ := @attempts_putFile A store key base spool faults hend
    exact ⟨good, hgood, fun w => (heffect w).1⟩

/-- The object is one of the forms a reader knows. -/
theorem Writer.storedAs (A : Cipher) (encryptionKey : Option Key) (p : Bytes) (writer : Writer) :
    StoredAs A p encryptionKey (writer.object A encryptionKey p) := by
  cases writer with
  | put nonce =>
    cases encryptionKey with
    | some k => exact .v1 k nonce
    | none => exact .plain
  | putFile base spool =>
    cases encryptionKey with
    | some k => exact .v2 k base
    | none => exact .plain

/-- **A successful write** leaves the object of the writer. -/
theorem Writer.stored (hw : writer.Holds p)
    (hrun : (writer.write A store key p).Runs (exec faults) w (.ok ()) w') :
    w'.objects key = some (writer.object A store.encryptionKey p) := by
  obtain ⟨good, hgood, heffect⟩ := @Writer.attempts A store key p writer faults hw
  rcases hgood.outcome hrun with ⟨-, rfl⟩ | ⟨-, ⟨e, he⟩, -⟩
  · rw [heffect, Function.update_self]
  · cases he

/-- A writer can succeed from every state. -/
theorem Writer.exists_run (A : Cipher) (store : Store) (key : SafeKey) (hw : writer.Holds p)
    (faults : Prop) (w : World) :
    ∃ w', (writer.write A store key p).Runs (exec faults) w (.ok ()) w' := by
  obtain ⟨good, hgood, -⟩ := @Writer.attempts A store key p writer faults hw
  exact ⟨good w, hgood.possible w⟩

/-! ## Small instances

One byte, and a content of two chunks, under a zero key, for the witnesses below. -/

def zeroKey : Key := ⟨List.replicate 32 0, rfl⟩

def zeroBase : Base := ⟨List.replicate 16 0, rfl⟩

def zeroNonce : Nonce := ⟨List.replicate 24 0, rfl⟩

def fileA : SafeKey := ⟨['f', 'i', 'l', 'e', 's', '/', 'a'], by decide⟩

def oneByte : Content := ⟨[7], by decide⟩

/-- A spool file that is read in one go. -/
def oneByteSpool : Spool := ⟨[⟨[7], by decide⟩], none⟩

/-- `c` zeros and a one. -/
def zerosAndOne (c : ℕ) : Bytes := List.replicate c 0 ++ [1]

theorem length_zerosAndOne (c : ℕ) : (zerosAndOne c).length = c + 1 := by
  rw [zerosAndOne, List.length_append, List.length_replicate, List.length_singleton]

theorem zerosAndOne_ne_nil (c : ℕ) : zerosAndOne c ≠ [] :=
  List.append_ne_nil_of_right_ne_nil _ (List.cons_ne_nil _ _)

/-- It ends in a zero and the one. -/
theorem drop_pred_zerosAndOne {c : ℕ} (hc : 0 < c) : (zerosAndOne c).drop (c - 1) = [0, 1] := by
  obtain ⟨n, rfl⟩ := Nat.exists_eq_add_of_lt hc
  have hsplit : zerosAndOne (0 + n + 1) = List.replicate n 0 ++ [0, 1] := by
    rw [zerosAndOne, Nat.zero_add, List.replicate_succ', List.append_assoc]
    rfl
  rw [hsplit]
  exact List.drop_left' (by rw [List.length_replicate]; omega)

/-- It begins with neither magic. -/
theorem take_zerosAndOne {c : ℕ} (hc : 4 ≤ c) : (zerosAndOne c).take 4 = [0, 0, 0, 0] := by
  rw [zerosAndOne, List.take_append_of_le_length (by rw [List.length_replicate]; exact hc),
    List.take_replicate, Nat.min_eq_left hc]
  rfl

/-- A content of two chunks. -/
def twoChunks : Content where
  bytes := zerosAndOne streamChunkPt
  fits := by
    have := streamChunkPt_le
    rw [length_zerosAndOne]
    omega

theorem length_twoChunks : twoChunks.bytes.length = streamChunkPt + 1 := length_zerosAndOne _

/-- A spool file that is read in one go, of two chunks. -/
def twoChunksSpool : Spool := ⟨[⟨zerosAndOne streamChunkPt, zerosAndOne_ne_nil _⟩], none⟩

theorem holds_twoChunksSpool : (Writer.putFile zeroBase twoChunksSpool).Holds twoChunks.bytes :=
  ⟨List.append_nil _, rfl⟩

theorem streamChunkCount_twoChunks : streamChunkCount twoChunks.bytes.length streamChunkPt = 2 := by
  have hc := le_streamChunkPt
  rw [length_twoChunks, streamChunkCount, pieceCount, Nat.add_mod_left, Nat.mod_eq_of_lt (by omega),
    if_pos Nat.one_pos, Nat.add_div_left _ (by omega), Nat.div_eq_of_lt (by omega)]

def emptyWorld : World := ⟨fun _ => none, [], []⟩

/-! ## The full stream -/

/-- The parts of a multipart upload under a key: the header is fused onto the first
chunk. -/
def sealedParts (A : Cipher) (k : Key) (base : Base) (p : Bytes) : List Bytes :=
  (List.range (streamChunkCount p.length streamChunkPt)).map fun i =>
    (if i = 0 then streamHeader streamChunkPt base else []) ++
      sealedPiece A k base streamChunkPt p i

theorem sealedParts_eq (A : Cipher) (k : Key) (base : Base) (p : Bytes) :
    sealedParts A k base p =
      (List.range (pieceCount streamChunkPt p.length)).map
        (sentPart A (some k) base streamChunkPt p) := rfl

/-- No part but the last is smaller than a chunk. -/
theorem le_length_dropLast_sealedParts (hA : A.Sound) (k : Key) (base : Base) (p : Bytes) :
    ∀ part ∈ (sealedParts A k base p).dropLast, streamChunkPt ≤ part.length := by
  intro part hpart
  rw [sealedParts_eq, ← List.map_dropLast, List.mem_map] at hpart
  obtain ⟨i, hi, rfl⟩ := hpart
  apply le_length_sentPart A (some k) base streamChunkPt_pos p hA
  rw [List.dropLast_eq_take, List.length_range, List.take_range, List.mem_range] at hi
  omega

/-- **The v2 round trip.**  Whatever the key, the base nonce, the content and the way
its reads are cut: a call of `put_file` without faults exists and returns `Ok`; what
it stores is header and chunks, end to end; a multipart upload got the header with
the first chunk, and no part but the last is smaller than a chunk; and `get_stream`
delivers the content. -/
theorem putFile_roundtrip (hA : A.Sound) (b : Backend) (k : Key) (key : SafeKey) (base : Base)
    (p : Content) (reads : List ReadBytes) (hreads : readBytes reads = p.bytes)
    (hpos : 0 < p.bytes.length) (w : World) :
    let write := putFile A ⟨b, some k⟩ key base (.ok ⟨reads, none⟩) p.bytes.length
    (∃ w', write.Runs (exec False) w (.ok ()) w') ∧
      ∀ r w', write.Runs (exec False) w r w' →
        r = .ok () ∧
        w'.objects key = some (sealStream A k base streamChunkPt p.bytes) ∧
        (w'.multiparts = w.multiparts ∨
          w'.multiparts = (key, sealedParts A k base p.bytes) :: w.multiparts) ∧
        (∀ part ∈ (sealedParts A k base p.bytes).dropLast, streamChunkPt ≤ part.length) ∧
        (getStream A ⟨b, some k⟩ key p.bytes.length).Post (Fetch.Answers b w'.objects)
          (fun s => endsOk s ∧ emitted s = p.bytes) := by
  obtain ⟨bytes, fits⟩ := p
  obtain rfl : readBytes reads = bytes := hreads
  intro write
  obtain ⟨good, hgood, heffect⟩ :=
    @attempts_putFile A ⟨b, some k⟩ key base ⟨reads, none⟩ False rfl
  refine ⟨⟨good w, hgood.possible w⟩, ?_⟩
  intro r w' hrun
  obtain ⟨rfl, rfl⟩ | ⟨hfalse, -⟩ := hgood.outcome hrun
  · have hobj : (good w).objects key =
        some (sealStream A k base streamChunkPt (readBytes reads)) := by
      rw [(heffect w).1]
      exact Function.update_self _ _ _
    refine ⟨rfl, hobj, (heffect w).2, ?_, getStream_storedAs hA (.v2 k base) rfl hobj fits⟩
    exact le_length_dropLast_sealedParts hA k base _
  · exact hfalse.elim

theorem putFile_roundtrip_twoChunks : ∃ w',
    (putFile Aead.tagged ⟨.s3, some zeroKey⟩ fileA zeroBase (.ok twoChunksSpool)
      twoChunks.bytes.length).Runs (exec False) emptyWorld (.ok ()) w' ∧
    w'.objects fileA =
      some (sealStream Aead.tagged zeroKey zeroBase streamChunkPt twoChunks.bytes) ∧
    (sealedParts Aead.tagged zeroKey zeroBase twoChunks.bytes).length = 2 ∧
    (getStream Aead.tagged ⟨.s3, some zeroKey⟩ fileA twoChunks.bytes.length).Post
      (Fetch.Answers .s3 w'.objects) (fun s => endsOk s ∧ emitted s = twoChunks.bytes) := by
  have hpos : 0 < twoChunks.bytes.length := by
    rw [length_twoChunks]
    exact Nat.succ_pos _
  obtain ⟨⟨w', hrun⟩, hall⟩ := putFile_roundtrip Aead.tagged_sound .s3 zeroKey fileA zeroBase twoChunks
    twoChunksSpool.reads holds_twoChunksSpool.1 hpos emptyWorld
  obtain ⟨-, hobj, -, -, hread⟩ := hall _ w' hrun
  refine ⟨w', hrun, hobj, ?_, hread⟩
  rw [sealedParts, List.length_map, List.length_range, streamChunkCount_twoChunks]

/-! ## Spans -/

/-- **Ranged reads agree with full reads.**  Whatever a writer stored, every reader
that can read it gets exactly the bytes of the span, for every span and every way the
backend cuts its raw stream. -/
theorem getRangeStream_written (hA : A.Sound) (store : Store) (key : SafeKey) (p : Content)
    (writer : Writer) (hw : writer.Holds p.bytes) {w w' : World}
    (hrun : (writer.write A store key p.bytes).Runs (exec True) w (.ok ()) w')
    (reader : Option Key) (hread : CanRead p.bytes store.encryptionKey reader)
    (ptOffset len : ℕ) (hlen : 0 < len) (hin : ptOffset + len ≤ p.bytes.length) :
    (getRangeStream A ⟨store.backend, reader⟩ key ptOffset len).Post
      (Fetch.Answers store.backend w'.objects)
      (fun s => endsOk s ∧ emitted s = (p.bytes.drop ptOffset).take len) :=
  getRangeStream_storedAs hA (writer.storedAs A store.encryptionKey p.bytes) hread
    (writer.stored hw hrun) p.fits hlen hin

/-- The span lies in both chunks. -/
theorem getRangeStream_written_twoChunks : ∃ w',
    ((Writer.putFile zeroBase twoChunksSpool).write Aead.tagged ⟨.localFs, some zeroKey⟩ fileA
      twoChunks.bytes).Runs (exec True) emptyWorld (.ok ()) w' ∧
    (getRangeStream Aead.tagged ⟨.localFs, some zeroKey⟩ fileA (streamChunkPt - 1) 2).Post
      (Fetch.Answers .localFs w'.objects) (fun s => endsOk s ∧ emitted s = [0, 1]) := by
  have hc := streamChunkPt_pos
  obtain ⟨w', hrun⟩ := Writer.exists_run Aead.tagged ⟨.localFs, some zeroKey⟩ fileA
    holds_twoChunksSpool True emptyWorld
  have hread := getRangeStream_written Aead.tagged_sound ⟨.localFs, some zeroKey⟩ fileA twoChunks
    (.putFile zeroBase twoChunksSpool) holds_twoChunksSpool hrun (some zeroKey) rfl (streamChunkPt - 1)
    2 (by decide) (by rw [length_twoChunks]; omega)
  rw [show twoChunks.bytes.drop (streamChunkPt - 1) = [0, 1] from drop_pred_zerosAndOne hc] at hread
  exact ⟨w', hrun, hread⟩

/-! ## The buffered read -/

/-- `get` has one answer to give. -/
theorem post_get_iff {be : Backend} {objs : Objects} {obj : Bytes} (ho : objs key = some obj)
    (Q : Except StorageError Bytes → Prop) :
    (get A store key).Post (Fetch.Answers be objs) Q ↔
      Q (decryptIfNeeded A store.encryptionKey obj) := by
  unfold get
  rw [Prog.post_perform_bind]
  constructor
  · intro h
    have := h (rawGet objs key) rfl
    rwa [rawGet, ho] at this
  · rintro h r rfl
    rwa [rawGet, ho]

/-- A v2 object passes through `decrypt_if_needed` as it is. -/
theorem decryptIfNeeded_sealStream (reader : Option Key) (k : Key) (base : Base) (c : ℕ)
    (p : Bytes) :
    decryptIfNeeded A reader (sealStream A k base c p) = .ok (sealStream A k base c p) := by
  apply decryptIfNeeded_plain
  exact not_isEncrypted_of_isStreamSealed (isStreamSealed_sealStream A k base c p)

/-- The buffered read and the stream both return the content. -/
def ReadsBack (A : Cipher) (store : Store) (key : SafeKey) (objs : Objects) (p : Bytes) : Prop :=
  (get A store key).Post (Fetch.Answers store.backend objs) (· = .ok p) ∧
    (getStream A store key p.length).Post (Fetch.Answers store.backend objs)
      (fun s => endsOk s ∧ emitted s = p)

/-- `get` returns a v2 object as it is stored, which is longer than the content. -/
theorem not_readsBack_sealStream (hA : A.Sound) {objs : Objects} {k : Key} {base : Base}
    (ho : objs key = some (sealStream A k base streamChunkPt p)) :
    ¬ ReadsBack A store key objs p := by
  rintro ⟨hget, -⟩
  rw [post_get_iff ho, decryptIfNeeded_sealStream, Except.ok.injEq] at hget
  have hlen := length_sealStream hA k base streamChunkPt_pos p
  rw [hget, streamHeaderLen] at hlen
  omega

/-- **When `get` returns what was written**: exactly when no key is set or the writer was
`put`.  What `put_file` seals is in format v2, which `get` does not open. -/
theorem get_written_iff (hA : A.Sound) (store : Store) (key : SafeKey) (p : Content)
    (hplain : store.encryptionKey = none →
      isEncrypted p.bytes = false ∧ isStreamSealed p.bytes = false)
    (writer : Writer) (hw : writer.Holds p.bytes) :
    (∀ w w', (writer.write A store key p.bytes).Runs (exec True) w (.ok ()) w' →
        ReadsBack A store key w'.objects p.bytes) ↔
      (store.encryptionKey = none ∨ ∃ nonce, writer = .put nonce) := by
  constructor
  · intro h
    by_contra hnot
    obtain ⟨hkey, hput⟩ := not_or.1 hnot
    obtain ⟨k, hk⟩ := Option.ne_none_iff_exists'.1 hkey
    cases writer with
    | put nonce => exact hput ⟨nonce, rfl⟩
    | putFile base spool =>
      obtain ⟨w', hrun⟩ := Writer.exists_run A store key hw True emptyWorld
      have hobj := Writer.stored hw hrun
      simp only [Writer.object, hk, framed] at hobj
      exact not_readsBack_sealStream hA hobj (h _ w' hrun)
  · intro h w w' hrun
    have hobj := Writer.stored hw hrun
    have hread : CanRead p.bytes store.encryptionKey store.encryptionKey := by
      cases hk : store.encryptionKey with
      | none => exact hplain hk
      | some k => rfl
    refine ⟨(post_get_iff hobj _).2 ?_, getStream_storedAs hA
      (writer.storedAs A store.encryptionKey p.bytes) hread hobj p.fits⟩
    cases hk : store.encryptionKey with
    | none =>
      have hraw : writer.object A none p.bytes = p.bytes := by cases writer <;> rfl
      rw [hraw]
      exact decryptIfNeeded_plain (hplain hk).1 none
    | some k =>
      obtain hnone | ⟨nonce, rfl⟩ := h
      · rw [hk] at hnone
        cases hnone
      · exact decryptIfNeeded_v1 hA k nonce

theorem get_written_iff_twoChunks : ∃ w',
    ((Writer.putFile zeroBase twoChunksSpool).write Aead.tagged ⟨.localFs, none⟩ fileA
      twoChunks.bytes).Runs (exec True) emptyWorld (.ok ()) w' ∧
    ReadsBack Aead.tagged ⟨.localFs, none⟩ fileA w'.objects twoChunks.bytes := by
  have hc := le_streamChunkPt
  have htake : twoChunks.bytes.take 4 = [0, 0, 0, 0] := take_zerosAndOne (by omega)
  have hv1 : isEncrypted twoChunks.bytes = false := by
    rw [← Bool.not_eq_true, isEncrypted_iff, htake]
    decide
  have hv2 : isStreamSealed twoChunks.bytes = false := by
    rw [← Bool.not_eq_true, isStreamSealed_iff, htake]
    decide
  obtain ⟨w', hrun⟩ := Writer.exists_run Aead.tagged ⟨.localFs, none⟩ fileA holds_twoChunksSpool True
    emptyWorld
  exact ⟨w', hrun, (get_written_iff Aead.tagged_sound ⟨.localFs, none⟩ fileA twoChunks
    (fun _ => ⟨hv1, hv2⟩) (.putFile zeroBase twoChunksSpool) holds_twoChunksSpool).2 (.inl rfl) _ w'
    hrun⟩

/-- One byte stored by `put_file` under a key does not come back through `get`. -/
theorem get_putFile_oneByte : ∃ w',
    ((Writer.putFile zeroBase oneByteSpool).write Aead.tagged ⟨.localFs, some zeroKey⟩ fileA
      [7]).Runs (exec False) emptyWorld (.ok ()) w' ∧
    ¬ ReadsBack Aead.tagged ⟨.localFs, some zeroKey⟩ fileA w'.objects [7] := by
  have hholds : (Writer.putFile zeroBase oneByteSpool).Holds [7] := ⟨rfl, rfl⟩
  obtain ⟨w', hrun⟩ :=
    Writer.exists_run Aead.tagged ⟨.localFs, some zeroKey⟩ fileA hholds False emptyWorld
  exact ⟨w', hrun, not_readsBack_sealStream Aead.tagged_sound (Writer.stored hholds hrun)⟩

end Storage
end Uwuubox
