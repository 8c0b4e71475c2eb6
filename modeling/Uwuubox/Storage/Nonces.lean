import Uwuubox.Storage.Spool

/-!
# The nonces of the chunks

Every chunk that `put_file` stores is sealed under a nonce of its own: the base of the file, and the
index that the pump counts.

* `sealCalls` — the calls of `seal_chunk` in the loop of the pump, until the channel is closed.
* `pumpLoop_sealed` — what the pump sends, up to the first piece that the channel does not take, is what they return.
* `indices_sealCalls` — their indices are consecutive, and not more than the file has chunks.
* `PutFile`, `nonces` — a call of `put_file`, and the nonces that it uses.
* `nonces_never_reused` — **no nonce is used twice**, whatever the calls do and in whatever order.
-/

namespace Uwuubox
namespace Storage

open ObjectCrypt Pieces

/-! ## The calls of `seal_chunk` -/

/-- The index and the plaintext of every `seal_chunk` in the loop of the pump.  A piece is sealed before it is
sent; `sends` says whether the channel takes it. -/
def sealCalls (sends : ℕ → Bool) (c index : ℕ) (reads : List ReadBytes) (failure : Option String) :
    List (ℕ × Bytes) :=
  match _h : fill reads failure c with
  | .error _ => []
  | .ok (buf, rest) =>
    if _hbuf : buf = [] then []
    else if sends index = false then [(index, buf)]
    else if buf.length < c then [(index, buf)]
    else (index, buf) :: sealCalls sends c (index + 1) rest failure
termination_by (readBytes reads).length
decreasing_by
  obtain ⟨hbuf', hrest⟩ := fill_ok _h
  have hpos := List.length_pos_of_ne_nil _hbuf
  rw [hbuf', List.length_take] at hpos
  rw [hrest, List.length_drop]
  omega

theorem sealCalls_of_error {sends : ℕ → Bool} {c index : ℕ} {reads : List ReadBytes} {failure : Option String}
    {e : StorageError} (h : fill reads failure c = .error e) : sealCalls sends c index reads failure = [] := by
  rw [sealCalls]
  split <;> simp_all

theorem sealCalls_of_ok {sends : ℕ → Bool} {c index : ℕ} {reads rest : List ReadBytes} {failure : Option String}
    {buf : Bytes} (h : fill reads failure c = .ok (buf, rest)) :
    sealCalls sends c index reads failure =
      if buf = [] then []
      else if sends index = false ∨ buf.length < c then [(index, buf)]
      else (index, buf) :: sealCalls sends c (index + 1) rest failure := by
  rw [sealCalls]
  split
  · simp_all
  · rename_i buf' rest' h'
    obtain ⟨rfl, rfl⟩ := Prod.mk.inj (Except.ok.inj (h.symm.trans h'))
    by_cases hbuf : buf = []
    · rw [dif_pos hbuf, if_pos hbuf]
    · rw [dif_neg hbuf, if_neg hbuf]
      by_cases hsend : sends index = false
      · rw [if_pos hsend, if_pos (.inl hsend)]
      · rw [if_neg hsend]
        by_cases hshort : buf.length < c
        · rw [if_pos hshort, if_pos (.inr hshort)]
        · rw [if_neg hshort, if_neg (not_or.2 ⟨hsend, hshort⟩)]

/-- The pieces that are tried, up to the first that the channel does not take. -/
def tried {α : Type} (sends : ℕ → Bool) : ℕ → List α → List α
  | _, [] => []
  | index, piece :: pieces => if sends index = false then [piece] else piece :: tried sends (index + 1) pieces

/-- A channel that stays open takes all of them. -/
theorem tried_open {α : Type} (index : ℕ) (pieces : List α) : tried (fun _ => true) index pieces = pieces := by
  induction pieces generalizing index with
  | nil => rfl
  | cons piece pieces ih => rw [tried, if_neg Bool.noConfusion, ih]

/-- **What the pump tries to send** is what these calls return, whatever the channel takes. -/
theorem pumpLoop_sealed (A : Cipher) (k : Key) (base : Base) (sends : ℕ → Bool) {c : ℕ} (hc : 0 < c)
    (failure : Option String) (n index pieces : ℕ) (reads : List ReadBytes) (hn : (readBytes reads).length = n) :
    tried sends index (pumpLoop A (some (k, base)) c index pieces reads failure).1 =
      (sealCalls sends c index reads failure).map fun call => sealChunk A k base call.1 call.2 := by
  induction n using Nat.strong_induction_on generalizing index pieces reads with
  | _ n ih =>
    cases hfill : fill reads failure c with
    | error e => rw [pumpLoop_of_error hfill, sealCalls_of_error hfill, List.map_nil, tried]
    | ok read =>
      obtain ⟨buf, rest⟩ := read
      rw [pumpLoop_of_ok hfill, sealCalls_of_ok hfill]
      by_cases hbuf : buf = []
      · rw [if_pos hbuf, if_pos hbuf, List.map_nil, tried]
      · rw [if_neg hbuf, if_neg hbuf]
        by_cases hshort : buf.length < c
        · -- the last piece, whether it is taken or not
          rw [if_pos hshort, if_pos (.inr hshort), tried, tried, ite_self]
          rfl
        · rw [if_neg hshort, tried]
          by_cases hclosed : sends index = false
          · rw [if_pos hclosed, if_pos (.inl hclosed)]
            rfl
          · rw [if_neg hclosed, if_neg (not_or.2 ⟨hclosed, hshort⟩)]
            obtain ⟨hbuf', hrest⟩ := fill_ok hfill
            have hlength : (readBytes rest).length = n - c := by rw [hrest, List.length_drop, hn]
            have hfull : c ≤ n := by
              rw [hbuf', List.length_take, hn] at hshort
              omega
            rw [List.map_cons, ← ih (n - c) (by omega) (index + 1) (pieces + 1) rest hlength]
            rfl

/-- **The indices are consecutive**, and there are no more of them than the file has chunks. -/
theorem indices_sealCalls (sends : ℕ → Bool) {c : ℕ} (hc : 0 < c) (failure : Option String) (n index : ℕ)
    (reads : List ReadBytes) (hn : (readBytes reads).length = n) :
    ∃ m ≤ pieceCount c n, (sealCalls sends c index reads failure).map Prod.fst = List.range' index m := by
  induction n using Nat.strong_induction_on generalizing index reads with
  | _ n ih =>
    cases hfill : fill reads failure c with
    | error e => exact ⟨0, Nat.zero_le _, by rw [sealCalls_of_error hfill]; rfl⟩
    | ok read =>
      obtain ⟨buf, rest⟩ := read
      obtain ⟨hbuf', hrest⟩ := fill_ok hfill
      rw [sealCalls_of_ok hfill]
      by_cases hbuf : buf = []
      · exact ⟨0, Nat.zero_le _, by rw [if_pos hbuf]; rfl⟩
      · rw [if_neg hbuf]
        have hpos : 0 < n := by
          have := List.length_pos_of_ne_nil hbuf
          rw [hbuf', List.length_take] at this
          omega
        have hone : 1 ≤ pieceCount c n := (lt_pieceCount_iff hc 0 n).2 (by omega)
        by_cases hstop : sends index = false ∨ buf.length < c
        · exact ⟨1, hone, by rw [if_pos hstop]; rfl⟩
        · rw [if_neg hstop]
          have hlength : (readBytes rest).length = n - c := by rw [hrest, List.length_drop, hn]
          have hfull : c ≤ n := by
            have := (not_or.1 hstop).2
            rw [hbuf', List.length_take, hn] at this
            omega
          obtain ⟨m, hm, hindices⟩ := ih (n - c) (by omega) (index + 1) rest hlength
          refine ⟨m + 1, ?_, ?_⟩
          · rw [pieceCount_step hc hpos, min_eq_right hfull]
            omega
          · rw [List.map_cons, hindices]
            rfl

/-! ## The calls of `put_file` -/

/-- A call of `put_file`: the base that it draws, the spool file as it is read, and when its channel is closed. -/
structure PutFile where
  base : Base
  spool : Except String Spool
  sends : ℕ → Bool

namespace PutFile

/-- Its calls of `seal_chunk`. -/
def sealed (call : PutFile) : List (ℕ × Bytes) :=
  match call.spool with
  | .error _ => []
  | .ok spool => sealCalls call.sends streamChunkPt 0 spool.reads spool.failure

/-- How many chunks the file has. -/
def chunks (call : PutFile) : ℕ :=
  match call.spool with
  | .error _ => 0
  | .ok spool => streamChunkCount spool.bytes.length streamChunkPt

/-- The nonces of its chunks. -/
def nonces (call : PutFile) : List Nonce := call.sealed.map fun sealed => streamNonce call.base sealed.1

/-- What the pump of the call tries to send is what `seal_chunk` returns. -/
theorem pump_sealed (A : Cipher) (k : Key) (call : PutFile) :
    tried call.sends 0 (pump A (some (k, call.base)) streamChunkPt call.spool).1 =
      call.sealed.map fun sealed => sealChunk A k call.base sealed.1 sealed.2 := by
  unfold pump sealed
  cases call.spool with
  | error e => rfl
  | ok spool => exact pumpLoop_sealed A k call.base call.sends streamChunkPt_pos spool.failure _ 0 0 spool.reads rfl

/-- Where its channel stays open, it sends all of that. -/
theorem pump_sealed_open (A : Cipher) (k : Key) (call : PutFile) (hsends : call.sends = fun _ => true) :
    (pump A (some (k, call.base)) streamChunkPt call.spool).1 =
      call.sealed.map fun sealed => sealChunk A k call.base sealed.1 sealed.2 := by
  rw [← pump_sealed, hsends, tried_open]

/-- The nonces are those of the first chunks of the file. -/
theorem nonces_eq (call : PutFile) : ∃ m ≤ call.chunks, call.nonces = (List.range m).map (streamNonce call.base) := by
  unfold nonces sealed chunks
  cases call.spool with
  | error e => exact ⟨0, Nat.zero_le _, rfl⟩
  | ok spool =>
    obtain ⟨m, hm, hindices⟩ :=
      indices_sealCalls call.sends streamChunkPt_pos spool.failure _ 0 spool.reads rfl
    refine ⟨m, hm, ?_⟩
    rw [List.range_eq_range', ← hindices, List.map_map]
    rfl

/-- Every nonce of a call begins with its base. -/
theorem base_of_mem_nonces {call : PutFile} {nonce : Nonce} (h : nonce ∈ call.nonces) :
    nonce.val.take 16 = call.base.val := by
  obtain ⟨sealed, -, rfl⟩ := List.mem_map.1 h
  exact take_streamNonce call.base sealed.1

/-- **One call does not use a nonce twice.** -/
theorem nodup_nonces {call : PutFile} (h : call.chunks < 2 ^ 64) : call.nonces.Nodup := by
  obtain ⟨m, hm, hnonces⟩ := call.nonces_eq
  rw [hnonces]
  refine List.Nodup.map_on (fun i hi j hj heq => ?_) List.nodup_range
  have hi := List.mem_range.1 hi
  have hj := List.mem_range.1 hj
  exact streamNonce_inj (by omega) (by omega) heq

/-- **No nonce is used twice**: the calls of `seal_chunk` that have been made by any calls of `put_file` with different
bases, in whatever order, have different nonces. -/
theorem nonces_never_reused {calls : List PutFile} (hbases : (calls.map base).Nodup)
    (hchunks : ∀ call ∈ calls, call.chunks < 2 ^ 64) {used : List Nonce} (hused : used.Subperm (calls.flatMap nonces)) :
    used.Nodup := by
  have hall : (calls.flatMap nonces).Nodup := by
    refine List.nodup_flatMap.2 ⟨fun call hcall => nodup_nonces (hchunks call hcall), ?_⟩
    refine (List.pairwise_map.1 hbases).imp fun {call call'} hne nonce h h' => hne (Subtype.ext ?_)
    exact (base_of_mem_nonces h).symm.trans (base_of_mem_nonces h')
  obtain ⟨sent, hperm, hsublist⟩ := hused
  exact hperm.nodup_iff.1 (hsublist.nodup hall)

/-- A file of one byte that is read in one go, under a base of equal bytes. -/
def oneByte (b : UInt8) (sends : ℕ → Bool) : PutFile where
  base := ⟨List.replicate 16 b, List.length_replicate⟩
  spool := .ok ⟨[⟨[b], List.cons_ne_nil _ _⟩], none⟩
  sends := sends

theorem nonces_never_reused_oneByte :
    ((oneByte 2 fun _ => false).nonces ++ (oneByte 1 fun _ => true).nonces).Nodup := by
  refine @nonces_never_reused [oneByte 1 fun _ => true, oneByte 2 fun _ => false] (by decide) (fun call hcall => ?_) _ ?_
  · rcases List.mem_pair.1 hcall with rfl | rfl
    · decide
    · decide
  · rw [List.flatMap_cons, List.flatMap_singleton]
    exact List.perm_append_comm.subperm

end PutFile

end Storage
end Uwuubox
