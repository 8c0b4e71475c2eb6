import Uwuubox.Storage.RoundTrip

/-!
# `put_file` when reading the spool file fails

The pump reports a failing read in its own result only; the uploader sees a closed
channel, as at the end of the file.  What becomes of the error depends on how many
pieces had been sent.

* `ReadsOf` — a spool file of the content `p` whose reads may fail anywhere.
* `Decodes` — the object decodes to `p` under the key setting it was written with.
* `putFile_ok_iff` — **success means the whole file is stored**, unless the reads fail in
  the second piece: the single-piece branch drops the result of the pump.
* `putFile_error_iff` — **failure publishes nothing**, unless the reads fail after the
  second piece: the consumer has committed before the result of the pump is looked at.
-/

namespace Uwuubox
namespace Storage

open ObjectCrypt Pieces

/-- A spool file of the content `p`: it fails to open, or its reads return `p`, or they
fail after some of it. -/
def ReadsOf (p : Bytes) : Except String Spool → Prop
  | .error _ => True
  | .ok spool =>
    match spool.failure with
    | none => spool.bytes = p
    | some _ => spool.bytes <+: p

/-- The object at `key` decodes to `p` under the writer's own key setting. -/
def Decodes (A : Cipher) (store : Store) (key : SafeKey) (objs : Objects) (p : Bytes) : Prop :=
  match store.encryptionKey with
  | none => objs key = some p
  | some _ => (getStream A store key p.length).Post (Fetch.Answers store.backend objs)
      (fun s => endsOk s ∧ emitted s = p)

variable {A : Cipher} {store : Store} {key : SafeKey} {base : Base} {objs : Objects} {p : Bytes}

theorem decodes_framed (hA : A.Sound) (hp : p.length < 2 ^ 63)
    (ho : objs key = some (framed A store.encryptionKey base streamChunkPt p)) :
    Decodes A store key objs p := by
  unfold Decodes
  cases hk : store.encryptionKey with
  | none =>
    rw [hk] at ho
    exact ho
  | some k =>
    rw [hk] at ho
    exact getStream_storedAs hA (.v2 k base) hk ho hp

/-- A walk that ends without an error has found all the chunks it was to read. -/
theorem getChunks_covers {be : Backend} {k : Key} {c : ℕ} (hc : 0 < c) {o : Bytes}
    (ho : objs key = some o) (m : ℕ) :
    ∀ i off remaining, m = pieceCount c remaining →
      (getChunks A key k base c m i off remaining).Post (Fetch.Answers be objs)
        (fun items => itemsOk items → 0 < m → off + (remaining + m * 16) ≤ o.length) := by
  induction m with
  | zero =>
    intro i off remaining _ _ hpos
    exact absurd hpos (lt_irrefl 0)
  | succ m ih =>
    intro i off remaining hm
    have hrem : 0 < remaining := by
      have := (lt_pieceCount_iff hc 0 remaining).1 (by omega)
      omega
    have hnext : m = pieceCount c (remaining - min remaining c) := by
      rw [pieceCount_step hc hrem] at hm
      omega
    unfold getChunks
    rw [Prog.post_perform_bind]
    rintro r rfl
    cases hr : rawGetRange be objs key off (min remaining c + 16) with
    | error e => exact fun h => h.elim
    | ok sealed =>
      obtain ⟨hin, rfl⟩ := rawGetRange_ok ho (by omega) hr
      simp only
      split
      · exact fun h => h.elim
      · cases openChunk A k base i ((o.drop off).take (min remaining c + 16)) with
        | error e => exact fun h => h.elim
        | ok pt =>
          simp only
          rw [Prog.post_bind]
          refine (ih (i + 1) _ _ hnext).mono (fun _ _ h => h) ?_
          intro items hrest hok _
          rcases Nat.eq_zero_or_pos m with rfl | hpos
          · -- the last chunk holds all that remains
            have hlast := length_le_pieceCount_mul hc remaining
            rw [← hm] at hlast
            omega
          · have := hrest hok hpos
            rw [Nat.succ_mul]
            omega

/-- The stream of an object that holds less than the content does not end well. -/
theorem not_decodes_framed_of_lt (hA : A.Sound) {q : Bytes} (hq : q.length < p.length)
    (hqfits : q.length < 2 ^ 63)
    (ho : objs key = some (framed A store.encryptionKey base streamChunkPt q)) :
    ¬ Decodes A store key objs p := by
  unfold Decodes
  cases hk : store.encryptionKey with
  | none =>
    rw [hk] at ho
    intro h
    have heq : q = p := Option.some.inj (ho.symm.trans h)
    rw [heq] at hq
    exact lt_irrefl _ hq
  | some k =>
    rw [hk, framed] at ho
    show ¬ (getStream A store key p.length).Post (Fetch.Answers store.backend objs) _
    intro hread
    have hfits : (sealStream A k base streamChunkPt q).length ≤ u64Size :=
      sealStream_fits hA le_streamChunkPt hqfits
    rw [post_getStream_sealStream hA streamChunkPt_pos streamChunkPt_le hk hfits ho] at hread
    have hcovers := @getChunks_covers A key base objs store.backend k _ streamChunkPt_pos _ ho
      (streamChunkCount p.length streamChunkPt) 0 streamHeaderLen p.length rfl
    obtain ⟨items, ⟨hok, -⟩, hcover⟩ :=
      (hread.and hcovers).exists fun op => ⟨_, Fetch.answers_answer store.backend objs op⟩
    have hpos : 0 < streamChunkCount p.length streamChunkPt :=
      (lt_pieceCount_iff streamChunkPt_pos 0 _).2 (by omega)
    have hlen := hcover hok hpos
    have hmono : streamChunkCount q.length streamChunkPt ≤ streamChunkCount p.length streamChunkPt :=
      pieceCount_mono streamChunkPt_pos hq.le
    rw [length_sealStream hA k base streamChunkPt_pos] at hlen
    omega

/-! ## When success means that the file is stored -/

/-- A file of which nothing is sent: the call fails, or stores the object of the empty
content. -/
theorem putFile_nothing {spool : Except String Spool}
    (h : (pump A (store.encryptionKey.map (·, base)) streamChunkPt spool).1 = []) (ptLen : ℕ) :
    putFile A store key base spool ptLen =
      if ptLen = 0 then
        rawPut store.backend key (framed A store.encryptionKey base streamChunkPt [])
      else pure (.error (.backend "upload spool vanished")) := by
  have hframe := frame_pieces A store.encryptionKey base streamChunkPt_pos [] (Nat.zero_le _)
  rw [List.range_zero, List.map_nil, List.flatten_nil, List.append_nil, List.take_nil] at hframe
  rw [← hframe]
  unfold putFile
  simp only [h]

/-- Before a failing read only full pieces are sent. -/
theorem Spool.sent_of_failure {sp : Spool} (hf : sp.failure ≠ none) :
    sp.sent = sp.bytes.length / streamChunkPt := by
  unfold Spool.sent
  cases h : sp.failure with
  | none => exact absurd h hf
  | some e => rfl

theorem Spool.pumped_of_failure {sp : Spool} (hf : sp.failure ≠ none) :
    ∃ e, sp.pumped = .error e := by
  unfold Spool.pumped
  cases h : sp.failure with
  | none => exact absurd h hf
  | some e => exact ⟨_, rfl⟩

/-- How the reading of a spool file of `p` can go: to its end, without a piece being
sent, or to a failure after at least one piece. -/
theorem ReadsOf.cases {spool : Except String Spool} (h : ReadsOf p spool) :
    (∃ sp, spool = .ok sp ∧ sp.failure = none ∧ sp.bytes = p) ∨
    (pump A (store.encryptionKey.map (·, base)) streamChunkPt spool).1 = [] ∨
    ∃ sp, spool = .ok sp ∧ sp.failure ≠ none ∧ sp.bytes <+: p ∧ 1 ≤ sp.sent := by
  cases spool with
  | error e => exact .inr (.inl rfl)
  | ok sp =>
    unfold ReadsOf at h
    cases hf : sp.failure with
    | none =>
      simp only [hf] at h
      exact .inl ⟨sp, rfl, hf, h⟩
    | some e =>
      simp only [hf] at h
      by_cases hzero : sp.sent = 0
      · refine .inr (.inl ?_)
        rw [pump_spec A _ streamChunkPt_pos]
        show (List.range sp.sent).map _ = []
        rw [hzero]
        rfl
      · exact .inr (.inr ⟨sp, rfl, by simp [hf], h, by omega⟩)

/-- A read that fails in the second piece goes unnoticed: the first piece is stored as
the whole file. -/
theorem exists_truncated (hA : A.Sound) {sp : Spool} (hf : sp.failure ≠ none)
    (hone : streamChunkPt ≤ sp.bytes.length) (htwo : sp.bytes.length < 2 * streamChunkPt)
    (hlong : streamChunkPt < p.length) (hp : p.length < 2 ^ 63) (faults : Prop) (w : World) :
    ∃ w', (putFile A store key base (.ok sp) p.length).Runs (exec faults) w (.ok ()) w' ∧
      ¬ Decodes A store key w'.objects p := by
  have hsent : sp.sent = 1 := by
    rw [Spool.sent_of_failure hf]
    exact Nat.div_eq_of_lt_le (by omega) (by omega)
  have hq : (sp.bytes.take streamChunkPt).length = streamChunkPt := by
    rw [List.length_take, min_eq_left hone]
  rw [putFile_one A store key base sp p.length hsent]
  refine ⟨_, (attempts_rawPut store.backend key _).possible w, ?_⟩
  have hobj := congrFun (objects_written w store.backend key
    (framed A store.encryptionKey base streamChunkPt (sp.bytes.take streamChunkPt))) key
  rw [Function.update_self] at hobj
  exact not_decodes_framed_of_lt hA (by omega) (by omega) hobj

/-- **When success means that the whole file is stored.**  `put_file` can return `Ok`
without having stored all of the file exactly when a read fails after one full piece
and before the second is complete, in a file of more than one piece. -/
theorem putFile_ok_iff (hA : A.Sound) (store : Store) (key : SafeKey) (base : Base) (p : Content)
    (spool : Except String Spool) (hspool : ReadsOf p.bytes spool) (w : World) :
    (∀ w', (putFile A store key base spool p.bytes.length).Runs (exec True) w (.ok ()) w' →
        Decodes A store key w'.objects p.bytes) ↔
      ∀ sp, spool = .ok sp → sp.failure ≠ none → streamChunkPt ≤ sp.bytes.length →
        sp.bytes.length < 2 * streamChunkPt → p.bytes.length ≤ streamChunkPt := by
  constructor
  · rintro h sp rfl hf hone htwo
    by_contra hlong
    obtain ⟨w', hrun, hnot⟩ := @exists_truncated A store key base p.bytes hA sp hf hone htwo
      (not_le.1 hlong) p.fits True w
    exact hnot (h w' hrun)
  · intro h w' hrun
    rcases @ReadsOf.cases A store base p.bytes spool hspool with
      ⟨sp, rfl, hf, hbytes⟩ | hnil | ⟨sp, rfl, hf, hpre, hpos⟩
    · -- read to the end
      obtain ⟨good, hgood, heffect⟩ := @attempts_putFile A store key base sp True hf
      rw [hbytes] at hgood heffect
      rcases hgood.outcome hrun with ⟨-, rfl⟩ | ⟨-, ⟨e, he⟩, -⟩
      · apply decodes_framed hA p.fits
        rw [(heffect w).1, Function.update_self]
      · cases he
    · rw [putFile_nothing hnil] at hrun
      split at hrun
      · rename_i hempty
        rw [List.eq_nil_of_length_eq_zero hempty]
        rcases (attempts_rawPut _ _ _).outcome hrun with ⟨-, rfl⟩ | ⟨-, ⟨e, he⟩, -⟩
        · apply decodes_framed hA (by decide)
          rw [objects_written, Function.update_self]
        · cases he
      · cases hrun.1
    · rcases Nat.lt_or_ge sp.sent 2 with hone | hmany
      · -- the only piece is the whole file
        have hsent : sp.sent = 1 := by omega
        rw [Spool.sent_of_failure hf] at hsent
        have hlong : streamChunkPt ≤ sp.bytes.length := by
          by_contra hshort
          rw [Nat.div_eq_of_lt (not_le.1 hshort)] at hsent
          omega
        have hshort : sp.bytes.length < 2 * streamChunkPt := by
          apply Nat.lt_mul_of_div_lt _ streamChunkPt_pos
          omega
        have hall := h sp rfl hf hlong hshort
        have hbytes : sp.bytes = p.bytes := hpre.eq_of_length_le (hall.trans hlong)
        rw [putFile_one A store key base sp _ (by omega), hbytes, List.take_of_length_le hall] at hrun
        rcases (attempts_rawPut _ _ _).outcome hrun with ⟨-, rfl⟩ | ⟨-, ⟨e, he⟩, -⟩
        · apply decodes_framed hA p.fits
          rw [objects_written, Function.update_self]
        · cases he
      · -- the error of the pump is returned
        obtain ⟨e, hpumped⟩ := Spool.pumped_of_failure hf
        rw [putFile_many A store key base sp _ hmany, hpumped] at hrun
        obtain ⟨⟨e', he⟩, -⟩ := runs_consumeAndJoin_error hrun
        cases he

/-- A spool file whose reads return `n` zero bytes, in one go, and then fail. -/
def failingSpool (n : ℕ) (hn : 0 < n) : Spool where
  reads := [⟨List.replicate n 0, by
    rw [← List.length_pos_iff, List.length_replicate]
    exact hn⟩]
  failure := some "Input/output error"

/-- `n` zero bytes. -/
def zeros (n : ℕ) (hn : n < 2 ^ 63) : Content where
  bytes := List.replicate n 0
  fits := by rwa [List.length_replicate]

theorem succ_streamChunkPt_lt : streamChunkPt + 1 < 2 ^ 63 := by
  have := streamChunkPt_le
  omega

theorem two_streamChunkPt_pos : 0 < 2 * streamChunkPt := by
  have := streamChunkPt_pos
  omega

theorem two_streamChunkPt_lt : 2 * streamChunkPt < 2 ^ 63 := by
  have := streamChunkPt_le
  omega

theorem bytes_failingSpool (n : ℕ) (hn : 0 < n) :
    (failingSpool n hn).bytes = List.replicate n 0 :=
  List.append_nil _

/-- Such a spool file is one of a longer file of zeros. -/
theorem readsOf_failingSpool {n m : ℕ} (hn : 0 < n) (h : n ≤ m) :
    ReadsOf (List.replicate m 0) (.ok (failingSpool n hn)) := by
  show (failingSpool n hn).bytes <+: List.replicate m 0
  rw [bytes_failingSpool]
  exact (List.prefix_replicate_iff).2 ⟨by simpa using h, by simp⟩

theorem putFile_ok_iff_oneByte : ∃ w',
    (putFile Aead.tagged ⟨.s3, none⟩ fileA zeroBase (.ok oneByteSpool) oneByte.bytes.length).Runs
      (exec True) emptyWorld (.ok ()) w' ∧
    Decodes Aead.tagged ⟨.s3, none⟩ fileA w'.objects oneByte.bytes := by
  have hholds : (Writer.putFile zeroBase oneByteSpool).Holds oneByte.bytes := ⟨rfl, rfl⟩
  obtain ⟨w', hrun⟩ := Writer.exists_run Aead.tagged ⟨.s3, none⟩ fileA hholds True emptyWorld
  refine ⟨w', hrun, (putFile_ok_iff Aead.tagged_sound ⟨.s3, none⟩ fileA zeroBase oneByte
    (.ok oneByteSpool) rfl emptyWorld).2 ?_ w' hrun⟩
  rintro sp hsp hf
  cases hsp
  exact absurd rfl hf

/-- A file of one piece and one byte, read up to the end of the first piece. -/
theorem putFile_ok_truncated :
    ReadsOf (zeros (streamChunkPt + 1) succ_streamChunkPt_lt).bytes
      (.ok (failingSpool streamChunkPt streamChunkPt_pos)) ∧
    ∃ w', (putFile Aead.tagged ⟨.localFs, none⟩ fileA zeroBase
        (.ok (failingSpool streamChunkPt streamChunkPt_pos))
        (zeros (streamChunkPt + 1) succ_streamChunkPt_lt).bytes.length).Runs (exec False) emptyWorld
        (.ok ()) w' ∧
      ¬ Decodes Aead.tagged ⟨.localFs, none⟩ fileA w'.objects
        (zeros (streamChunkPt + 1) succ_streamChunkPt_lt).bytes := by
  have hlen := congrArg List.length (bytes_failingSpool streamChunkPt streamChunkPt_pos)
  rw [List.length_replicate] at hlen
  have hpos := streamChunkPt_pos
  have hp : (zeros (streamChunkPt + 1) succ_streamChunkPt_lt).bytes.length = streamChunkPt + 1 :=
    List.length_replicate
  refine ⟨readsOf_failingSpool streamChunkPt_pos (Nat.le_succ _), ?_⟩
  apply exists_truncated Aead.tagged_sound _ (by omega) (by omega) (by omega) (Content.fits _)
  exact Option.some_ne_none _

/-! ## When failure means that nothing is published -/

/-- What the consumer has committed when a read fails after the second full piece. -/
theorem exists_published (A : Cipher) (store : Store) (key : SafeKey) (base : Base) {sp : Spool}
    (hf : sp.failure ≠ none) (htwo : 2 * streamChunkPt ≤ sp.bytes.length) (ptLen : ℕ)
    (faults : Prop) (w : World) :
    ∃ e w', (putFile A store key base (.ok sp) ptLen).Runs (exec faults) w (.error e) w' ∧
      w'.objects key = some (framed A store.encryptionKey base streamChunkPt
        (sp.bytes.take (sp.bytes.length / streamChunkPt * streamChunkPt))) := by
  have hmany : 2 ≤ sp.sent := by
    rw [Spool.sent_of_failure hf]
    exact (Nat.le_div_iff_mul_le streamChunkPt_pos).2 htwo
  obtain ⟨e, hpumped⟩ := Spool.pumped_of_failure hf
  rw [putFile_many A store key base sp ptLen hmany, hpumped]
  refine ⟨e, _, runs_consumeAndJoin_of_error store.backend key (Spool.parts_ne_nil hmany _) e w, ?_⟩
  rw [objects_consumed, Function.update_self, flatten_sentParts A _ base streamChunkPt_pos sp.bytes
    (by omega) sp.sent_le, Spool.sent_of_failure hf]

/-- **When failure publishes nothing.**  `put_file` can return an error with another object
at the key than before exactly when a read fails after the second full piece: then
the pieces sent have been committed, and only an object that was already equal
to them is as it was. -/
theorem putFile_error_iff (A : Cipher) (store : Store) (key : SafeKey) (base : Base) (p : Content)
    (spool : Except String Spool) (hspool : ReadsOf p.bytes spool) (w : World) :
    (∀ e w', (putFile A store key base spool p.bytes.length).Runs (exec True) w (.error e) w' →
        w'.objects key = w.objects key) ↔
      ∀ sp, spool = .ok sp → sp.failure ≠ none → 2 * streamChunkPt ≤ sp.bytes.length →
        w.objects key = some (framed A store.encryptionKey base streamChunkPt
          (sp.bytes.take (sp.bytes.length / streamChunkPt * streamChunkPt))) := by
  constructor
  · rintro h sp rfl hf htwo
    obtain ⟨e, w', hrun, hobj⟩ :=
      exists_published A store key base hf htwo p.bytes.length True w
    rw [← h e w' hrun, hobj]
  · intro h e w' hrun
    have hkeep : ∀ {prog : Write (Except StorageError Unit)} {good : World → World},
        Attempts True prog good → prog.Runs (exec True) w (.error e) w' →
        w'.objects key = w.objects key := by
      intro prog good hprog hrun
      rcases hprog.outcome hrun with ⟨he, -⟩ | ⟨-, -, hobj, -⟩
      · cases he
      · rw [hobj]
    rcases @ReadsOf.cases A store base p.bytes spool hspool with
      ⟨sp, rfl, hf, hbytes⟩ | hnil | ⟨sp, rfl, hf, -, hpos⟩
    · obtain ⟨good, hgood, -⟩ := @attempts_putFile A store key base sp True hf
      rw [hbytes] at hgood
      exact hkeep hgood hrun
    · rw [putFile_nothing hnil] at hrun
      split at hrun
      · exact hkeep (attempts_rawPut _ _ _) hrun
      · rw [hrun.2]
    · rcases Nat.lt_or_ge sp.sent 2 with hone | hmany
      · rw [putFile_one A store key base sp _ (by omega)] at hrun
        exact hkeep (attempts_rawPut _ _ _) hrun
      · obtain ⟨e', hpumped⟩ := Spool.pumped_of_failure hf
        rw [putFile_many A store key base sp _ hmany, hpumped] at hrun
        obtain ⟨-, out, hout⟩ := runs_consumeAndJoin_error hrun
        rcases (attempts_consume _ _ (Spool.parts_ne_nil hmany _)).outcome hout with
          ⟨-, rfl⟩ | ⟨-, -, hobj, -⟩
        · -- the consumer has committed
          have htwo : 2 * streamChunkPt ≤ sp.bytes.length := by
            rw [Spool.sent_of_failure hf] at hmany
            exact (Nat.le_div_iff_mul_le streamChunkPt_pos).1 hmany
          rw [objects_consumed, Function.update_self, h sp rfl hf htwo, flatten_sentParts A _ base
            streamChunkPt_pos sp.bytes (by omega) sp.sent_le, Spool.sent_of_failure hf]
        · rw [hobj]

theorem putFile_error_iff_unopened : ∃ e w',
    (putFile Aead.tagged ⟨.s3, none⟩ fileA zeroBase (.error "No such file or directory")
      oneByte.bytes.length).Runs (exec True) emptyWorld (.error e) w' ∧
    w'.objects fileA = emptyWorld.objects fileA := by
  have hrun : (putFile Aead.tagged ⟨.s3, none⟩ fileA zeroBase (.error "No such file or directory")
      oneByte.bytes.length).Runs (exec True) emptyWorld
      (.error (.backend "upload spool vanished")) emptyWorld := ⟨rfl, rfl⟩
  refine ⟨_, _, hrun, (putFile_error_iff Aead.tagged ⟨.s3, none⟩ fileA zeroBase oneByte
    (.error "No such file or directory") trivial emptyWorld).2 ?_ _ _ hrun⟩
  intro sp hsp
  cases hsp

/-- A file of two pieces, in which the read that would meet its end fails. -/
theorem putFile_error_published :
    ReadsOf (zeros (2 * streamChunkPt) two_streamChunkPt_lt).bytes
      (.ok (failingSpool (2 * streamChunkPt) two_streamChunkPt_pos)) ∧
    ∃ e w', (putFile Aead.tagged ⟨.localFs, none⟩ fileA zeroBase
        (.ok (failingSpool (2 * streamChunkPt) two_streamChunkPt_pos))
        (zeros (2 * streamChunkPt) two_streamChunkPt_lt).bytes.length).Runs (exec False) emptyWorld
        (.error e) w' ∧
      w'.objects fileA ≠ emptyWorld.objects fileA := by
  have hlen := congrArg List.length (bytes_failingSpool (2 * streamChunkPt) two_streamChunkPt_pos)
  rw [List.length_replicate] at hlen
  obtain ⟨e, w', hrun, hobj⟩ := @exists_published Aead.tagged ⟨.localFs, none⟩ fileA zeroBase
    (failingSpool (2 * streamChunkPt) two_streamChunkPt_pos) (Option.some_ne_none _) hlen.ge
    (zeros (2 * streamChunkPt) two_streamChunkPt_lt).bytes.length False emptyWorld
  refine ⟨readsOf_failingSpool two_streamChunkPt_pos le_rfl, e, w', hrun, ?_⟩
  rw [hobj]
  exact Option.some_ne_none _

end Storage
end Uwuubox
