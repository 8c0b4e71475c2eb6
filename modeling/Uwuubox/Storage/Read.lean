import Uwuubox.Storage.Fetch

/-!
# The read paths of the store

`src/storage.rs`, from `get` to `slice_plaintext`, as programs over fetches.
A stream is modelled by everything a consumer that drains it receives: the list
of its items, an error being the last one.

* `get` with `decryptIfNeeded` — the whole object in one buffer.
* `getStream` — the full plaintext stream; `getChunks` is its v2 chunk walk.
* `getRangeStream` — a plaintext span, through `rawSpanStream` (one ranged fetch,
  or `skipTake` over the raw stream), `v2SpanStream` with its walk `spanChunks`,
  or `slicePlaintext`.
* `emitted`, `endsOk` — the bytes a read delivers before it ends, and whether it
  ends without an error.
-/

namespace Uwuubox
namespace Storage

open ObjectCrypt

/-- A read: a program that fetches. -/
abbrev Read (α : Type) := Prog Fetch Fetch.Res α

/-- A read that returns a stream: an error, or the items of the stream. -/
abbrev Served := Except StorageError (List Item)

/-- Plaintext spans at or below this use one ranged fetch. -/
def spanSingleMax : ℕ := 32 * 1024 * 1024

/-- The error of a sealed object read without a key. -/
def keyUnset : StorageError :=
  .backend "object is encrypted but UWUU_STORAGE_ENCRYPTION_KEY is unset"

/-! ## What a read delivers -/

/-- The bytes of the items of a stream. -/
def itemBytes : List Item → Bytes
  | [] => []
  | .ok bytes :: items => bytes ++ itemBytes items
  | .error _ :: items => itemBytes items

/-- The bytes a read delivers. -/
def emitted : Served → Bytes
  | .error _ => []
  | .ok items => itemBytes items

/-- The stream has no error item. -/
def itemsOk : List Item → Prop
  | [] => True
  | .ok _ :: items => itemsOk items
  | .error _ :: _ => False

/-- The read returned a stream and the stream ends without an error item. -/
def endsOk : Served → Prop
  | .error _ => False
  | .ok items => itemsOk items

/-! ## Opening a whole object -/

/-- Open sealed objects; pass legacy plaintext through. -/
def decryptIfNeeded (A : Cipher) (key : Option Key) (raw : Bytes) : Except StorageError Bytes :=
  if !isEncrypted raw then .ok raw
  else match key with
    | none => .error keyUnset
    | some k =>
      match openObject A k raw with
      | .ok pt => .ok pt
      | .error e => .error (.backend e)

/-- Slice already-decrypted plaintext by plaintext offsets. -/
def slicePlaintext (pt : Bytes) (offset len : ℕ) : Except StorageError Bytes :=
  match checkedAdd offset len with
  | none => .error (.backend "requested range overflow")
  | some last =>
    if last > pt.length ∨ offset > pt.length then
      .error (.backend
        s!"short ranged read: expected {len} bytes at offset {offset}, object holds {pt.length}")
    else .ok ((pt.take last).drop offset)

/-- `Store::get`. -/
def get (A : Cipher) (store : Store) (key : SafeKey) : Read (Except StorageError Bytes) := do
  match ← Prog.perform (Fetch.get key) with
  | .error e => pure (.error e)
  | .ok raw => pure (decryptIfNeeded A store.encryptionKey raw)

/-! ## The full stream -/

/-- `raw_stream`: the stored bytes as they are. -/
def rawStream (key : SafeKey) : Read (List Item) := Prog.perform (Fetch.stream key)

/-- The v2 chunk walk of `get_stream`: `count` chunks from `index` on, the next one
at offset `off`, with `remaining` plaintext bytes to go. -/
def getChunks (A : Cipher) (key : SafeKey) (k : Key) (base : Base) (chunkPt : ℕ) :
    (count index off remaining : ℕ) → Read (List Item)
  | 0, _, _, _ => pure []
  | count + 1, index, off, remaining => do
    let ptHere := min remaining chunkPt
    let sealedLen := ptHere + 16
    match ← Prog.perform (Fetch.getRange key off sealedLen) with
    | .error e => pure [.error e]
    | .ok sealed =>
      if sealed.length ≠ sealedLen then pure [.error (.backend "truncated stream object")]
      else match openChunk A k base index sealed with
        | .error e => pure [.error (.backend e)]
        | .ok pt => do
          let rest ← getChunks A key k base chunkPt count (index + 1) (off + sealedLen)
            (remaining - ptHere)
          pure (.ok pt :: rest)

/-- `get_stream` after its four-byte probe. -/
def getStreamProbed (A : Cipher) (store : Store) (key : SafeKey) (ptLen : ℕ) :
    (probe : Except StorageError Bytes) → Read Served
  | .error (.notFound missing) => pure (.error (.notFound missing))
  -- taken for an object shorter than the probe, whatever the error was
  | .error (.backend _) => do
    let items ← rawStream key
    pure (.ok items)
  | .ok probe =>
    match store.encryptionKey with
    | none =>
      if isEncrypted probe || isStreamSealed probe then pure (.error keyUnset)
      else do
        let items ← rawStream key
        pure (.ok items)
    | some k =>
      if !isStreamSealed probe then do
        match ← Prog.perform (Fetch.get key) with
        | .error e => pure (.error e)
        | .ok raw =>
          match decryptIfNeeded A (some k) raw with
          | .error e => pure (.error e)
          | .ok pt => pure (.ok [.ok pt])
      else do
        match ← Prog.perform (Fetch.getRange key 0 streamHeaderLen) with
        | .error e => pure (.error e)
        | .ok header =>
          match parseStreamHeader header with
          | .error e => pure (.error (.backend e))
          | .ok (chunkPt, base) => do
            let items ← getChunks A key k base chunkPt (streamChunkCount ptLen chunkPt) 0
              streamHeaderLen ptLen
            pure (.ok items)

/-- `Store::get_stream`: the plaintext stream of an object whose plaintext is
`ptLen` bytes long according to the database. -/
def getStream (A : Cipher) (store : Store) (key : SafeKey) (ptLen : ℕ) : Read Served := do
  let probe ← Prog.perform (Fetch.getRange key 0 4)
  getStreamProbed A store key ptLen probe

/-! ## Spans -/

/-- The pump of a large raw span: drop `skip` bytes, deliver `take`. -/
def skipTake : List Item → (skip take : ℕ) → List Item
  | [], _, take => if take = 0 then [] else [.error (.backend "truncated span")]
  | item :: items, skip, take =>
    if take = 0 then []
    else match item with
      | .error e => [.error e]
      | .ok chunk =>
        if skip ≥ chunk.length then skipTake items (skip - chunk.length) take
        else
          let last := min (skip + take) chunk.length
          .ok ((chunk.take last).drop skip) :: skipTake items 0 (take - (last - skip))

/-- `raw_span_stream`: a span of the stored bytes as they are. -/
def rawSpanStream (key : SafeKey) (offset len : ℕ) : Read Served :=
  if len ≤ spanSingleMax then do
    match ← Prog.perform (Fetch.getRange key offset len) with
    | .error e => pure (.error e)
    | .ok bytes => pure (.ok [.ok bytes])
  else do
    let items ← rawStream key
    pure (.ok (skipTake items offset len))

/-- The walk of `v2_span_stream` over `count` covering chunks from `index` on, with
`trim` plaintext bytes to drop and `remaining` to deliver.  Offsets are computed
in `u64`. -/
def spanChunks (A : Cipher) (key : SafeKey) (k : Key) (base : Base) (chunkPt : ℕ) :
    (count index trim remaining : ℕ) → Read (List Item)
  | 0, _, _, _ => pure []
  | count + 1, index, trim, remaining => do
    let sealedWant := chunkPt + 16
    let off := (streamHeaderLen + index * sealedWant) % u64Size
    match ← Prog.perform (Fetch.getRangeRelaxed key off sealedWant) with
    | .error e => pure [.error e]
    | .ok sealed =>
      if sealed.isEmpty then pure [.error (.backend "truncated stream object")]
      else match openChunk A k base index sealed with
        | .error e => pure [.error (.backend e)]
        | .ok pt =>
          if trim > 0 ∧ trim ≥ pt.length then
            spanChunks A key k base chunkPt count (index + 1) (trim - pt.length) remaining
          else do
            let pt := pt.drop trim
            let take := min remaining pt.length
            if remaining - take = 0 then pure [.ok (pt.take take)]
            else do
              let rest ← spanChunks A key k base chunkPt count (index + 1) 0 (remaining - take)
              pure (.ok (pt.take take) :: rest)

/-- `v2_span_stream`: a plaintext span of a v2 object. -/
def v2SpanStream (A : Cipher) (key : SafeKey) (k : Key) (ptOffset len : ℕ) : Read Served := do
  match ← Prog.perform (Fetch.getRange key 0 streamHeaderLen) with
  | .error e => pure (.error e)
  | .ok header =>
    match parseStreamHeader header with
    | .error e => pure (.error (.backend e))
    | .ok (chunkPt, base) =>
      match checkedAdd ptOffset (len - 1) with
      | none => pure (.error (.backend "range overflow"))
      | some last => do
        let first := ptOffset / chunkPt
        let items ← spanChunks A key k base chunkPt (last / chunkPt + 1 - first) first
          (ptOffset % chunkPt) len
        pure (.ok items)

/-- `get_range_stream` after its four-byte probe. -/
def getRangeStreamProbed (A : Cipher) (store : Store) (key : SafeKey) (ptOffset len : ℕ) :
    (probe : Except StorageError Bytes) → Read Served
  | .error (.notFound missing) => pure (.error (.notFound missing))
  | .error (.backend _) => rawSpanStream key ptOffset len
  | .ok probe =>
    match store.encryptionKey with
    | none =>
      if isEncrypted probe || isStreamSealed probe then pure (.error keyUnset)
      else rawSpanStream key ptOffset len
    | some k =>
      if isStreamSealed probe then v2SpanStream A key k ptOffset len
      else if isEncrypted probe then do
        match ← Prog.perform (Fetch.get key) with
        | .error e => pure (.error e)
        | .ok raw =>
          match decryptIfNeeded A (some k) raw with
          | .error e => pure (.error e)
          | .ok pt =>
            match slicePlaintext pt ptOffset len with
            | .error e => pure (.error e)
            | .ok pt => pure (.ok [.ok pt])
      else rawSpanStream key ptOffset len

/-- `Store::get_range_stream`: the plaintext span from `ptOffset` on of length `len`. -/
def getRangeStream (A : Cipher) (store : Store) (key : SafeKey) (ptOffset len : ℕ) :
    Read Served :=
  if len = 0 then pure (.ok [])
  else do
    let probe ← Prog.perform (Fetch.getRange key 0 4)
    getRangeStreamProbed A store key ptOffset len probe

end Storage
end Uwuubox
