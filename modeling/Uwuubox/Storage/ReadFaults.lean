import Uwuubox.Storage.RoundTrip

/-!
# Reads of sealed objects when fetches fail

Each fetch of a read may fail on its own.  A run is given by its answers: `ans i op` is
what fetch number `i`, if it is `op`, returns.

* `Permitted` — what a reader may be given of `target`: a prefix with the key,
  nothing without one.
* `getStream_failsClosed_iff`, `getRangeStream_failsClosed_iff` — the two streams give out
  no more, unless the four-byte probe fails with a backend error: it is taken
  for a sign that the object is short, and the stored bytes are served as they are.
* `failsClosed_iff` — **both reads**, for every object a writer sealed.
-/

namespace Uwuubox
namespace Storage

open ObjectCrypt Pieces

/-- What a reader may be given of `target`. -/
def Permitted (reader : Option Key) (target bytes : Bytes) : Prop :=
  match reader with
  | some _ => bytes <+: target
  | none => bytes = []

theorem permitted_nil (reader : Option Key) (target : Bytes) : Permitted reader target [] := by
  cases reader with
  | none => rfl
  | some k => exact List.nil_prefix

/-- The answers of a run. -/
abbrev FetchRun := ℕ → (op : Fetch) → op.Res

/-- Every answer is the truth or an error. -/
def FetchRun.Truthful (b : Backend) (objs : Objects) (ans : FetchRun) : Prop :=
  ∀ i op, Fetch.Outcomes True b objs op (ans i op)

/-- What the backend hands over when a span is fetched raw as fetch number 1. -/
def FetchRun.rawSpan (ans : FetchRun) (key : SafeKey) (ptOffset len : ℕ) : Bytes :=
  if len ≤ spanSingleMax then
    match ans 1 (.getRange key ptOffset len) with
    | .ok bytes => bytes
    | .error _ => []
  else ((itemBytes (ans 1 (.stream key))).drop ptOffset).take len

variable {A : Cipher} {b : Backend} {objs : Objects} {key : SafeKey} {k : Key} {p obj : Bytes}
  {ans : FetchRun}

/-- A raw stream is segments and an end. -/
theorem FetchRun.Truthful.stream (h : ans.Truthful b objs) (i : ℕ) (key : SafeKey) :
    ∃ (segments : List Bytes) (tail : List Item), StreamEnd tail ∧
      ans i (.stream key) = segments.map .ok ++ tail := by
  rcases h i (.stream key) with hans | ⟨-, segments, e, -, hans⟩
  · unfold Fetch.Answers at hans
    cases ho : objs key with
    | none =>
      simp only [ho] at hans
      exact ⟨[], _, .inr ⟨_, rfl⟩, hans⟩
    | some o =>
      simp only [ho] at hans
      obtain ⟨segments, -, hans⟩ := hans
      exact ⟨segments, [], .inl rfl, hans.trans (List.append_nil _).symm⟩
  · exact ⟨segments, _, .inr ⟨e, rfl⟩, hans⟩

theorem itemBytes_append (segments : List Bytes) {tail : List Item} (htail : StreamEnd tail) :
    itemBytes (segments.map .ok ++ tail) = segments.flatten := by
  induction segments with
  | nil => rcases htail with rfl | ⟨e, rfl⟩ <;> rfl
  | cons seg segments ih => exact congrArg (seg ++ ·) ih

/-- The raw span stream gives out what the backend hands over. -/
theorem emitted_rawSpanStream (h : ans.Truthful b objs) (ptOffset len : ℕ) :
    emitted ((rawSpanStream key ptOffset len).run ans 1).1 = ans.rawSpan key ptOffset len := by
  unfold rawSpanStream FetchRun.rawSpan
  by_cases hsmall : len ≤ spanSingleMax
  · rw [if_pos hsmall, if_pos hsmall, Prog.run_bind]
    have hrange : (Prog.perform (Fetch.getRange key ptOffset len)).run ans 1 = (ans 1 (.getRange key ptOffset len), 2) :=
      rfl
    rw [hrange]
    cases ans 1 (.getRange key ptOffset len) with
    | error e => rfl
    | ok bytes => exact List.append_nil bytes
  · rw [if_neg hsmall, if_neg hsmall, Prog.run_bind]
    show itemBytes (skipTake (ans 1 (.stream key)) ptOffset len) = _
    obtain ⟨segments, tail, htail, hans⟩ := h.stream 1 key
    rw [hans, itemBytes_skipTake segments htail, itemBytes_append segments htail]

/-! ## From the probe on -/

/-- A probe that returned is the beginning of the object. -/
theorem FetchRun.Truthful.probe (h : ans.Truthful b objs) (ho : objs key = some obj)
    {probe : Bytes} (hok : ans 0 (.getRange key 0 4) = .ok probe) : probe = obj.take 4 := by
  rcases h 0 (.getRange key 0 4) with heq | ⟨-, e, he⟩
  · rw [hok] at heq
    rw [(rawGetRange_ok ho (by decide) heq.symm).2, List.drop_zero]
  · rw [hok] at he
    cases he

theorem run_getStream (store : Store) (ptLen : ℕ) :
    (getStream A store key ptLen).run ans 0 =
      (getStreamProbed A store key ptLen (ans 0 (.getRange key 0 4))).run ans 1 := rfl

theorem run_getRangeStream (store : Store) (ptOffset : ℕ) {len : ℕ} (hlen : 0 < len) :
    (getRangeStream A store key ptOffset len).run ans 0 =
      (getRangeStreamProbed A store key ptOffset len (ans 0 (.getRange key 0 4))).run ans 1 := by
  unfold getRangeStream
  rw [if_neg (by omega)]
  rfl

section Sealed

variable (hA : A.Sound) (h : ans.Truthful b objs) (hobj : StoredAs A p (some k) obj)
  (ho : objs key = some obj) (hp : p.length < 2 ^ 63) {reader : Option Key}
  (hreader : reader = some k ∨ reader = none)

include hA h hobj ho hp hreader

/-- **The full stream gives out no more than is permitted**, unless the probe fails with a
backend error and the stored bytes, served as they are, are more than that. -/
theorem getStream_failsClosed_iff :
    Permitted reader p (emitted ((getStream A ⟨b, reader⟩ key p.length).run ans 0).1) ↔
      ∀ msg, ans 0 (.getRange key 0 4) = .error (.backend msg) →
        Permitted reader p (itemBytes (ans 1 (.stream key))) := by
  rw [run_getStream]
  cases hprobe : ans 0 (.getRange key 0 4) with
  | ok probe =>
    rw [h.probe ho hprobe]
    refine iff_of_true ?_ fun msg hmsg => by cases hmsg
    rcases hreader with rfl | rfl
    · exact ((getStreamProbed_sealed hA rfl hobj ho hp).run h 1).isPrefix_emitted
    · simp only [getStreamProbed, isEncrypted_take, isStreamSealed_take, hobj.magic, if_true]
      rfl
  | error e =>
    cases e with
    | notFound missing =>
      exact iff_of_true (permitted_nil reader p) fun msg hmsg => by cases hmsg
    | backend msg => exact ⟨fun hraw _ _ => hraw, fun hraw => hraw msg rfl⟩

/-- **A span gives out no more than is permitted**, with the same exception. -/
theorem getRangeStream_failsClosed_iff {ptOffset len : ℕ} (hlen : 0 < len)
    (hin : ptOffset + len ≤ p.length) :
    Permitted reader ((p.drop ptOffset).take len)
        (emitted ((getRangeStream A ⟨b, reader⟩ key ptOffset len).run ans 0).1) ↔
      ∀ msg, ans 0 (.getRange key 0 4) = .error (.backend msg) →
        Permitted reader ((p.drop ptOffset).take len) (ans.rawSpan key ptOffset len) := by
  rw [run_getRangeStream _ _ hlen]
  cases hprobe : ans 0 (.getRange key 0 4) with
  | ok probe =>
    rw [h.probe ho hprobe]
    refine iff_of_true ?_ fun msg hmsg => by cases hmsg
    rcases hreader with rfl | rfl
    · exact ((getRangeStreamProbed_sealed hA rfl hobj ho hp hlen hin).run h 1).isPrefix_emitted
    · simp only [getRangeStreamProbed, isEncrypted_take, isStreamSealed_take, hobj.magic, if_true]
      exact permitted_nil none _
  | error e =>
    cases e with
    | notFound missing =>
      exact iff_of_true (permitted_nil reader _) fun msg hmsg => by cases hmsg
    | backend msg =>
      show Permitted reader _ (emitted ((rawSpanStream key ptOffset len).run ans 1).1) ↔ _
      rw [emitted_rawSpanStream h]
      exact ⟨fun hraw _ _ => hraw, fun hraw => hraw msg rfl⟩

end Sealed

/-- **When reads of sealed objects fail closed.**  For everything a writer stored under a
key, both streams, both settings of the reader, and every sequence of truthful
answers and errors: no more is given out than permitted, exactly when the probe does
not fail with a backend error or the raw bytes fetched after that are harmless. -/
theorem failsClosed_iff (hA : A.Sound) (b : Backend) (k : Key) (key : SafeKey) (p : Content)
    (writer : Writer) (hw : writer.Holds p.bytes) {w w' : World}
    (hrun : (writer.write A ⟨b, some k⟩ key p.bytes).Runs (exec True) w (.ok ()) w')
    (reader : Option Key) (hreader : reader = some k ∨ reader = none) (ans : FetchRun)
    (hans : ans.Truthful b w'.objects) :
    (Permitted reader p.bytes
        (emitted ((getStream A ⟨b, reader⟩ key p.bytes.length).run ans 0).1) ↔
      ∀ msg, ans 0 (.getRange key 0 4) = .error (.backend msg) →
        Permitted reader p.bytes (itemBytes (ans 1 (.stream key)))) ∧
    ∀ ptOffset len, 0 < len → ptOffset + len ≤ p.bytes.length →
      (Permitted reader ((p.bytes.drop ptOffset).take len)
          (emitted ((getRangeStream A ⟨b, reader⟩ key ptOffset len).run ans 0).1) ↔
        ∀ msg, ans 0 (.getRange key 0 4) = .error (.backend msg) →
          Permitted reader ((p.bytes.drop ptOffset).take len) (ans.rawSpan key ptOffset len)) := by
  have hobj := writer.stored hw hrun
  have hstored := writer.storedAs A (some k) p.bytes
  exact ⟨getStream_failsClosed_iff hA hans hstored hobj p.fits hreader,
    fun ptOffset len hlen hin =>
      getRangeStream_failsClosed_iff hA hans hstored hobj p.fits hreader hlen hin⟩

/-- The run in which the first fetch times out and every other is answered. -/
def timeoutFirst (b : Backend) (objs : Objects) : FetchRun := fun i op =>
  if i = 0 then
    match op with
    | .get _ => .error (.backend "operation timed out")
    | .getRange _ _ _ => .error (.backend "operation timed out")
    | .getRangeRelaxed _ _ _ => .error (.backend "operation timed out")
    | .stream _ => [.error (.backend "operation timed out")]
  else Fetch.answer b objs op

theorem truthful_timeoutFirst (b : Backend) (objs : Objects) :
    (timeoutFirst b objs).Truthful b objs := by
  intro i op
  unfold timeoutFirst
  split
  · cases op with
    | stream key => exact .inr ⟨trivial, [], _, List.nil_prefix, rfl⟩
    | _ => exact .inr ⟨trivial, _, rfl⟩
  · exact (Fetch.answers_answer b objs op).outcomes True

theorem failsClosed_iff_oneByte : ∃ w',
    ((Writer.put zeroNonce).write Aead.tagged ⟨.s3, some zeroKey⟩ fileA oneByte.bytes).Runs
      (exec True) emptyWorld (.ok ()) w' ∧
    Permitted none oneByte.bytes
      (emitted ((getStream Aead.tagged ⟨.s3, none⟩ fileA oneByte.bytes.length).run
        (fun _ => Fetch.answer .s3 w'.objects) 0).1) := by
  have hholds : (Writer.put zeroNonce).Holds oneByte.bytes := trivial
  obtain ⟨w', hrun⟩ := Writer.exists_run Aead.tagged ⟨.s3, some zeroKey⟩ fileA hholds True emptyWorld
  refine ⟨w', hrun, (failsClosed_iff Aead.tagged_sound .s3 zeroKey fileA oneByte (.put zeroNonce)
    hholds hrun none (.inr rfl) _
    fun _ op => (Fetch.answers_answer .s3 w'.objects op).outcomes True).1.2 ?_⟩
  intro msg hmsg
  obtain ⟨hfits, hfour⟩ := ((Writer.put zeroNonce).storedAs Aead.tagged (some zeroKey)
    oneByte.bytes).probe Aead.tagged_sound oneByte.fits
  have hprobe : rawGetRange .s3 w'.objects fileA 0 4 = .ok _ :=
    rawGetRange_probe (Writer.stored hholds hrun) (hfour rfl) hfits
  cases hprobe.symm.trans hmsg

/-- A sealed byte, read without the key: when the probe times out the sealed object is
given out. -/
theorem getStream_timeout_leaks : ∃ w',
    ((Writer.putFile zeroBase oneByteSpool).write Aead.tagged ⟨.s3, some zeroKey⟩ fileA
      oneByte.bytes).Runs (exec False) emptyWorld (.ok ()) w' ∧
    (timeoutFirst .s3 w'.objects).Truthful .s3 w'.objects ∧
    ¬ Permitted none oneByte.bytes
      (emitted ((getStream Aead.tagged ⟨.s3, none⟩ fileA oneByte.bytes.length).run
        (timeoutFirst .s3 w'.objects) 0).1) := by
  have hholds : (Writer.putFile zeroBase oneByteSpool).Holds oneByte.bytes := ⟨rfl, rfl⟩
  obtain ⟨w', hrun⟩ :=
    Writer.exists_run Aead.tagged ⟨.s3, some zeroKey⟩ fileA hholds False emptyWorld
  have hobj := Writer.stored hholds hrun
  refine ⟨w', hrun, truthful_timeoutFirst _ _, ?_⟩
  show itemBytes (Fetch.answer .s3 w'.objects (.stream fileA)) ≠ []
  simp only [Fetch.answer, hobj]
  intro hnil
  have hempty := (List.append_eq_nil_iff.1 hnil).1
  have hv2 := isStreamSealed_sealStream Aead.tagged zeroKey zeroBase streamChunkPt oneByte.bytes
  rw [show sealStream Aead.tagged zeroKey zeroBase streamChunkPt oneByte.bytes = [] from hempty] at hv2
  cases hv2

end Storage
end Uwuubox
