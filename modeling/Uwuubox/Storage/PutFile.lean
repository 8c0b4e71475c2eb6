import Uwuubox.Storage.Write

/-!
# What `put_file` does

`Store::put_file` takes one of three ways, by how many pieces the pump sends: none, one,
or more.  This file says what each leaves behind, in terms of the bytes that
could be read from the spool file.

* `framed` — the object of a plaintext: the plaintext itself, or its v2 form.
  `frame_pieces` says that the header and the first `m` pieces the pump sends are
  the object of the plaintext these pieces cover.
* `putFile_zero`, `putFile_one`, `putFile_many` — the three ways.
* `attempts_putFile` — **a spool file that is read to its end** is published as a
  whole, or the call fails and changes nothing.
-/

namespace Uwuubox
namespace Storage

open ObjectCrypt Pieces

/-- The object `put_file` makes of `p` when nothing fails. -/
def framed (A : Cipher) (encryptionKey : Option Key) (base : Base) (c : ℕ) (p : Bytes) : Bytes :=
  match encryptionKey with
  | some k => sealStream A k base c p
  | none => p

/-- Part `i` as it leaves `put_file`: the header is fused onto the first piece. -/
def sentPart (A : Cipher) (encryptionKey : Option Key) (base : Base) (c : ℕ) (p : Bytes) (i : ℕ) :
    Bytes :=
  (if i = 0 then framingHeader encryptionKey base c else []) ++
    pumpPiece A (encryptionKey.map (·, base)) i (piece c i p)

theorem sentPart_zero (A : Cipher) (ek : Option Key) (base : Base) (c : ℕ) (p : Bytes) :
    sentPart A ek base c p 0 =
      framingHeader ek base c ++ pumpPiece A (ek.map (·, base)) 0 (piece c 0 p) := by
  rw [sentPart, if_pos rfl]

theorem sentPart_succ (A : Cipher) (ek : Option Key) (base : Base) (c : ℕ) (p : Bytes) (i : ℕ) :
    sentPart A ek base c p (i + 1) = pumpPiece A (ek.map (·, base)) (i + 1) (piece c (i + 1) p) := by
  rw [sentPart, if_neg (Nat.succ_ne_zero i), List.nil_append]

section Framing

variable (A : Cipher) (ek : Option Key) (base : Base) {c : ℕ} (hc : 0 < c) (p : Bytes)

include hc

/-- **The header and the first `m` pieces** are the object of what they cover. -/
theorem frame_pieces {m : ℕ} (hm : m ≤ pieceCount c p.length) :
    framingHeader ek base c ++
        ((List.range m).map fun i => pumpPiece A (ek.map (·, base)) i (piece c i p)).flatten =
      framed A ek base c (p.take (m * c)) := by
  cases ek with
  | none => exact flatten_take_pieces c m p
  | some k =>
    have hcount : streamChunkCount (p.take (m * c)).length c = m := pieceCount_take hc hm
    rw [framed, sealStream, hcount]
    refine congrArg (fun chunks => streamHeader c base ++ List.flatten chunks) ?_
    refine List.map_congr_left fun i hi => ?_
    rw [sealedPiece, piece_take (List.mem_range.1 hi)]
    rfl

theorem flatten_sentParts {m : ℕ} (hpos : 0 < m) (hm : m ≤ pieceCount c p.length) :
    ((List.range m).map (sentPart A ek base c p)).flatten =
      framed A ek base c (p.take (m * c)) := by
  rw [← frame_pieces A ek base hc p hm]
  obtain ⟨m, rfl⟩ : ∃ t, m = t + 1 := ⟨m - 1, by omega⟩
  rw [List.range_succ_eq_map]
  simp [sentPart, Function.comp_def]

/-- The header never makes a part of its own, and every part but the last holds a full
piece. -/
theorem le_length_sentPart (hA : A.Sound) {i : ℕ} (hi : i + 1 < pieceCount c p.length) :
    c ≤ (sentPart A ek base c p i).length := by
  have hfull : (piece c i p).length = c := length_piece_of_succ_lt hc hi
  rw [sentPart, List.length_append]
  cases ek with
  | none => simp [pumpPiece, hfull]
  | some k => simp only [Option.map_some, pumpPiece, length_sealChunk hA, hfull]; omega

end Framing

/-! ## The three ways -/

section Ways

variable (A : Cipher) (store : Store) (key : SafeKey) (base : Base) (spool : Spool) (ptLen : ℕ)

/-- The number of pieces the pump sends. -/
def Spool.sent (spool : Spool) : ℕ := sentCount streamChunkPt spool.bytes.length spool.failure

/-- What the pump returns. -/
def Spool.pumped (spool : Spool) : Except StorageError ℕ :=
  match spool.failure with
  | none => .ok spool.sent
  | some e => .error (.backend e)

theorem Spool.sent_le (spool : Spool) :
    spool.sent ≤ pieceCount streamChunkPt spool.bytes.length := by
  unfold Spool.sent sentCount pieceCount
  cases spool.failure with
  | none => rfl
  | some e =>
    show spool.bytes.length / streamChunkPt ≤ _
    split <;> omega

theorem putFile_zero (h : spool.sent = 0) :
    putFile A store key base (.ok spool) ptLen =
      if ptLen = 0 then
        rawPut store.backend key (framingHeader store.encryptionKey base streamChunkPt)
      else pure (.error (.backend "upload spool vanished")) := by
  rw [Spool.sent] at h
  rw [putFile]
  simp only [pump_spec A _ streamChunkPt_pos, h, List.range_zero, List.map_nil]

theorem putFile_one (h : spool.sent = 1) :
    putFile A store key base (.ok spool) ptLen =
      rawPut store.backend key
        (framed A store.encryptionKey base streamChunkPt (spool.bytes.take streamChunkPt)) := by
  have hframe := frame_pieces A store.encryptionKey base streamChunkPt_pos spool.bytes
    spool.sent_le
  rw [h, Nat.one_mul] at hframe
  rw [← hframe]
  rw [Spool.sent] at h
  rw [putFile]
  simp only [pump_spec A _ streamChunkPt_pos, h, List.range_one, List.map_cons, List.map_nil,
    List.flatten_singleton]

theorem putFile_many (h : 2 ≤ spool.sent) :
    putFile A store key base (.ok spool) ptLen =
      consumeAndJoin store.backend key
        ((List.range spool.sent).map
          (sentPart A store.encryptionKey base streamChunkPt spool.bytes)) spool.pumped := by
  obtain ⟨m, hm⟩ : ∃ m, spool.sent = m + 2 := ⟨spool.sent - 2, by omega⟩
  have hrange : List.range (m + 2) = 0 :: 1 :: (List.range m).map (· + 2) := by
    rw [List.range_succ_eq_map, List.range_succ_eq_map]
    simp [Function.comp_def]
  have hrest : (fun i => pumpPiece A (store.encryptionKey.map (·, base)) i
      (piece streamChunkPt i spool.bytes)) ∘ (· + 2) =
      sentPart A store.encryptionKey base streamChunkPt spool.bytes ∘ (· + 2) :=
    funext fun i => (sentPart_succ A store.encryptionKey base streamChunkPt spool.bytes (i + 1)).symm
  rw [Spool.pumped, hm, hrange, putFile]
  rw [Spool.sent] at hm
  simp only [pump_spec A _ streamChunkPt_pos, hm, hrange, List.map_cons, List.map_map, hrest]
  refine congrArg₂ (consumeAndJoin store.backend key) ?_ rfl
  rw [sentPart_zero, sentPart_succ A store.encryptionKey base streamChunkPt spool.bytes 0]

theorem Spool.parts_ne_nil {spool : Spool} (h : 2 ≤ spool.sent) (f : ℕ → Bytes) :
    (List.range spool.sent).map f ≠ [] := by
  rw [Ne, List.map_eq_nil_iff, List.range_eq_nil]
  omega

/-- All of a file that is read to its end is sent. -/
theorem Spool.take_sent {spool : Spool} (h : spool.failure = none) :
    spool.bytes.take (spool.sent * streamChunkPt) = spool.bytes := by
  refine List.take_of_length_le ?_
  rw [Spool.sent, h]
  exact length_le_pieceCount_mul streamChunkPt_pos _

/-- **A spool file that is read to its end is published as a whole**, or the call fails
and changes nothing.  A multipart upload gets the pieces as its parts. -/
theorem attempts_putFile {faults : Prop} (h : spool.failure = none) :
    ∃ good, Attempts faults (putFile A store key base (.ok spool) spool.bytes.length) good ∧
      ∀ w, (good w).objects = Function.update w.objects key
          (some (framed A store.encryptionKey base streamChunkPt spool.bytes)) ∧
        ((good w).multiparts = w.multiparts ∨
          (good w).multiparts = (key, (List.range spool.sent).map
            (sentPart A store.encryptionKey base streamChunkPt spool.bytes)) :: w.multiparts) := by
  have hall := spool.take_sent h
  have hframe := frame_pieces A store.encryptionKey base streamChunkPt_pos spool.bytes spool.sent_le
  rw [hall] at hframe
  rcases Nat.lt_or_ge spool.sent 2 with hfew | hmany
  · obtain hzero | hone : spool.sent = 0 ∨ spool.sent = 1 := by omega
    · have hempty : spool.bytes = [] := by
        rw [hzero, Nat.zero_mul] at hall
        exact hall.symm
      rw [hzero, List.range_zero, List.map_nil, List.flatten_nil, List.append_nil] at hframe
      rw [putFile_zero A store key base spool _ hzero, hempty, if_pos List.length_nil, hframe, hempty]
      exact ⟨_, attempts_rawPut _ _ _, fun w =>
        ⟨objects_written _ _ _ _, .inl (multiparts_written _ _ _ _)⟩⟩
    · rw [hone, Nat.one_mul] at hall
      rw [putFile_one A store key base spool _ hone, hall]
      exact ⟨_, attempts_rawPut _ _ _, fun w =>
        ⟨objects_written _ _ _ _, .inl (multiparts_written _ _ _ _)⟩⟩
  · have hflat := flatten_sentParts A store.encryptionKey base streamChunkPt_pos spool.bytes
      (by omega) spool.sent_le
    rw [hall] at hflat
    have hpumped : spool.pumped = .ok spool.sent := by rw [Spool.pumped, h]
    rw [putFile_many A store key base spool _ hmany, hpumped]
    refine ⟨_, attempts_consumeAndJoin _ _ (Spool.parts_ne_nil hmany _) (by omega), fun w => ?_⟩
    rw [objects_consumed, hflat]
    refine ⟨rfl, ?_⟩
    cases store.backend with
    | localFs => exact .inl rfl
    | s3 => exact .inr rfl

end Ways

end Storage
end Uwuubox
