import Uwuubox.Storage.RoundTrip

/-!
# Objects written without a key

An object that is written without an encryption key is the plaintext itself.  The readers
tell it from a sealed object by its first four bytes, so a plaintext that begins like a sealed
object is taken for one.

* `Unmarked` — the bytes begin with neither magic prefix.
* `Legible` — every read of a store, with whatever key it is configured, returns the plaintext
  and its spans.
* `legible_written_iff` — **what a store without a key writes stays legible exactly if it is
  unmarked.**
-/

namespace Uwuubox
namespace Storage

open ObjectCrypt

/-- The bytes look like no sealed object. -/
def Unmarked (p : Bytes) : Prop := isEncrypted p = false ∧ isStreamSealed p = false

/-- The three reads of one store return `p` and every span of it. -/
structure ReadsPlain (A : Cipher) (store : Store) (key : SafeKey) (objs : Objects) (p : Bytes) :
    Prop where
  whole : ReadsBack A store key objs p
  span : ∀ offset len, offset + len ≤ p.length →
    (getRangeStream A store key offset len).Post (Fetch.Answers store.backend objs)
      (fun s => endsOk s ∧ emitted s = (p.drop offset).take len)

/-- Every store over the same objects, with no key or with any, reads `p`. -/
def Legible (A : Cipher) (backend : Backend) (key : SafeKey) (objs : Objects) (p : Bytes) : Prop :=
  ∀ reader : Option Key, ReadsPlain A ⟨backend, reader⟩ key objs p

variable {A : Cipher} {backend : Backend} {key : SafeKey} {objs : Objects} {p : Bytes}

/-- Without a key the object of either writer is the plaintext. -/
theorem Writer.object_none (A : Cipher) (p : Bytes) (writer : Writer) :
    writer.object A none p = p := by
  cases writer <;> rfl

/-! ## Unmarked objects -/

theorem readsPlain_of_unmarked (hA : A.Sound) (hp : Unmarked p) (hfits : p.length < 2 ^ 63)
    (ho : objs key = some p) (reader : Option Key) : ReadsPlain A ⟨backend, reader⟩ key objs p where
  whole := by
    refine ⟨?_, getStream_storedAs hA .plain hp ho hfits⟩
    rw [post_get_iff ho]
    exact decryptIfNeeded_plain hp.1 reader
  span offset len hin := by
    cases len with
    | zero =>
      -- an empty span is answered without looking at the object
      exact ⟨trivial, (List.take_zero).symm⟩
    | succ len => exact getRangeStream_storedAs hA .plain hp ho hfits (Nat.succ_pos len) hin

/-! ## Marked objects

Already the store that wrote the object, still without a key, does not read it back. -/

/-- `get` takes it for a v1 object, and has no key to open it. -/
theorem not_readsBack_of_isEncrypted (hp : isEncrypted p = true) (ho : objs key = some p) :
    ¬ ReadsBack A ⟨backend, none⟩ key objs p := by
  rintro ⟨hget, -⟩
  rw [post_get_iff ho] at hget
  simp [decryptIfNeeded, hp] at hget

/-- `get_stream` takes it for a v2 object, and has no key to open it. -/
theorem not_readsBack_of_isStreamSealed (hp : isStreamSealed p = true) (hfits : p.length < 2 ^ 63)
    (ho : objs key = some p) : ¬ ReadsBack A ⟨backend, none⟩ key objs p := by
  rintro ⟨-, hstream⟩
  have hfour : 4 ≤ p.length := by
    simp only [isStreamSealed, Bool.and_eq_true, decide_eq_true_eq] at hp
    exact hp.1
  have hsize : p.length ≤ u64Size := by
    unfold u64Size
    omega
  rw [post_getStream, rawGetRange_probe ho hfour hsize] at hstream
  simp [getStreamProbed, hp, endsOk] at hstream

theorem unmarked_of_readsPlain (h : ReadsPlain A ⟨backend, none⟩ key objs p)
    (hfits : p.length < 2 ^ 63) (ho : objs key = some p) : Unmarked p := by
  constructor
  · by_contra hmarked
    exact not_readsBack_of_isEncrypted (by simpa using hmarked) ho h.whole
  · by_contra hmarked
    exact not_readsBack_of_isStreamSealed (by simpa using hmarked) hfits ho h.whole

/-! ## What a store without a key writes -/

/-- **Objects written without a key stay legible exactly if they are unmarked.**  Whatever
`put` or `put_file` stored through a store without a key, every store over the same objects, with
no key or any, returns it from `get`, `get_stream` and `get_range_stream` exactly if it begins
with neither magic prefix. -/
theorem legible_written_iff (hA : A.Sound) (backend : Backend) (key : SafeKey) (p : Content)
    (writer : Writer) (hw : writer.Holds p.bytes) :
    (∀ w w', (writer.write A ⟨backend, none⟩ key p.bytes).Runs (exec True) w (.ok ()) w' →
        Legible A backend key w'.objects p.bytes) ↔ Unmarked p.bytes := by
  have hstored : ∀ {w w'}, (writer.write A ⟨backend, none⟩ key p.bytes).Runs (exec True) w (.ok ())
      w' → w'.objects key = some p.bytes := by
    intro w w' hrun
    have hobj := Writer.stored hw hrun
    rwa [Writer.object_none] at hobj
  constructor
  · intro h
    obtain ⟨w', hrun⟩ := Writer.exists_run A ⟨backend, none⟩ key hw True emptyWorld
    exact unmarked_of_readsPlain (h _ w' hrun none) p.fits (hstored hrun)
  · intro hp w w' hrun reader
    exact readsPlain_of_unmarked hA hp p.fits (hstored hrun) reader

theorem legible_written_iff_oneByte : ∃ w',
    ((Writer.put zeroNonce).write Aead.tagged ⟨.localFs, none⟩ fileA [7]).Runs (exec True)
      emptyWorld (.ok ()) w' ∧
    Legible Aead.tagged .localFs fileA w'.objects [7] := by
  obtain ⟨w', hrun⟩ := Writer.exists_run Aead.tagged ⟨.localFs, none⟩ fileA
    (show (Writer.put zeroNonce).Holds [7] from trivial) True emptyWorld
  exact ⟨w', hrun, (legible_written_iff Aead.tagged_sound .localFs fileA oneByte (.put zeroNonce)
    trivial).2 ⟨rfl, rfl⟩ _ w' hrun⟩

/-- A text file that begins with `UWU1` is stored, and does not read back. -/
theorem not_legible_uwu1 : ∃ w',
    ((Writer.put zeroNonce).write Aead.tagged ⟨.localFs, none⟩ fileA magic).Runs (exec False)
      emptyWorld (.ok ()) w' ∧
    ¬ Legible Aead.tagged .localFs fileA w'.objects magic := by
  have hholds : (Writer.put zeroNonce).Holds magic := trivial
  obtain ⟨w', hrun⟩ :=
    Writer.exists_run Aead.tagged ⟨.localFs, none⟩ fileA hholds False emptyWorld
  refine ⟨w', hrun, fun h => ?_⟩
  exact not_readsBack_of_isEncrypted rfl (Writer.stored hholds hrun) (h none).whole

end Storage
end Uwuubox
