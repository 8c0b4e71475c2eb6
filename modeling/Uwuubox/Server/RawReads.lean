import Uwuubox.Server.FileNames
import Uwuubox.Server.Footprint
import Uwuubox.Storage.ReadBack

/-!
# Raw reads, down to the bytes

`raw` and `raw_paste` with every step of them that could panic: the arithmetic on offsets, the
slices, and `unreachable!`.  The streams of files come from the read paths of the store.

* `Checked` — the handlers, where such a step stops with a panic.
* `delivery`, `served` — a handler over a store whose streams are those of `src/storage.rs`.
* `RawView`, `RangeOutcome.view` — what a client sees of a raw read, and what it has to be.
* `StoreServes` — what the store answers while a content is stored.
* `Checked.obeys_raw_iff`, `Checked.obeys_rawPaste_iff` — these handlers are `raw` and `rawPaste`: none of
  the steps panics.
* `AnswersWith`, `answers_raw`, `answers_rawPaste` — what a live row is answered with, if nothing fails.
* `FileReads`, `PasteReads` — what is to hold of the raw reads of a row.
* `raw_reads_consistent` — **it holds of every row, every header and every form in which a content can
  be stored.**
-/

namespace Uwuubox
namespace Server

open ObjectCrypt Dedupe Storage Fallible

/-! ## Steps that can panic -/

/-- `a + b`, of `u64`. -/
def addU64 (a b : ℕ) : Except Abort ℕ := if a + b < 2 ^ 64 then .ok (a + b) else .error .panic

/-- `a - b`, of `u64`. -/
def subU64 (a b : ℕ) : Except Abort ℕ := if b ≤ a then .ok (a - b) else .error .panic

/-- `Bytes::slice`. -/
def bytesSlice (all : Bytes) (start stop : ℕ) : Except Abort Bytes :=
  if start ≤ stop ∧ stop ≤ all.length then .ok ((all.take stop).drop start) else .error .panic

theorem addU64_of_lt {a b : ℕ} (h : a + b < 2 ^ 64) : addU64 a b = .ok (a + b) := if_pos h

theorem subU64_of_le {a b : ℕ} (h : b ≤ a) : subU64 a b = .ok (a - b) := if_pos h

theorem bytesSlice_of_le {all : Bytes} {start stop : ℕ} (h : start ≤ stop) (h' : stop ≤ all.length) :
    bytesSlice all start stop = .ok ((all.drop start).take (stop - start)) := by
  rw [bytesSlice, if_pos ⟨h, h'⟩, List.drop_take]

/-! ## Handlers with their panics -/

namespace Checked

/-- `range::parse`. -/
def parse (header : Option Text) (len : ℕ) : Except Abort RangeOutcome :=
  match header with
  | none => .ok .full
  | some header =>
    match stripPrefix bytesUnit (trim header) with
    | none => .ok .invalid
    | some spec =>
      if spec.isEmpty || spec.contains ',' || spec.any isWhitespace then .ok .invalid
      else match spec.span (· ≠ '-') with
        | (_, []) => .ok .invalid
        | ([], _ :: last) =>
          match decimal last with
          | none => .ok .invalid
          | some suffixLen =>
            if suffixLen = 0 || len = 0 then .ok .unsatisfiable
            else (subU64 len 1).map fun stop => .satisfiable (len - suffixLen) stop
        | (first, _ :: last) =>
          match decimal first with
          | none => .ok .invalid
          | some start =>
            if last.isEmpty then
              if len = 0 || start ≥ len then .ok .unsatisfiable
              else (subU64 len 1).map fun stop => .satisfiable start stop
            else match decimal last with
              | none => .ok .invalid
              | some stop =>
                if stop < start then .ok .invalid
                else if len = 0 || start ≥ len then .ok .unsatisfiable
                else (subU64 len 1).map fun last => .satisfiable start (min stop last)

/-- What is cut out of a collected content.  `raw` and `raw_paste` have the other two outcomes marked
as unreachable. -/
def slice (outcome : RangeOutcome) (all : Bytes) : Except Abort Bytes :=
  match outcome with
  | .full => .ok all
  | .satisfiable start stop => do
    let stop ← addU64 stop 1
    bytesSlice all start stop
  | .invalid | .unsatisfiable => .error .panic

/-- The branch of `raw` for a file that is read once. -/
def burnRead (file : File) (outcome : RangeOutcome) : Handler Response := do
  let delivery ← ask (.getStream file.storageKey file.sizeBytes)
  let all ← check (collectStream delivery)
  reject (all.length ≠ file.sizeBytes) AppError.somethingWentWrong
  let removed ← removeFile file.idCore
  reject (!removed) AppError.notFound
  let body ← check (slice outcome all)
  check (rawResponse file (Range.response outcome file.sizeBytes (.file file.idCore) body))

/-- The stream of a content, and how long it is to be. -/
def openStream (file : File) (outcome : RangeOutcome) : Handler (ℕ × Delivery) :=
  match outcome with
  | .full => do
    let delivery ← ask (.getStream file.storageKey file.sizeBytes)
    pure (file.sizeBytes, delivery)
  | .satisfiable start stop => do
    let len ← check (subU64 stop start)
    let len ← check (addU64 len 1)
    let delivery ← ask (.getRangeStream file.storageKey start len)
    pure (len, delivery)
  | .invalid | .unsatisfiable => throw .panic

/-- The branch of `raw` for any other file. -/
def streamRead (file : File) (outcome : RangeOutcome) : Handler Response := do
  let (contentLen, delivery) ← openStream file outcome
  check (rawResponse file (Range.responseStream outcome file.sizeBytes contentLen
    [.content (.file file.idCore) delivery.bytes] delivery.failure))

/-- `raw`. -/
def raw (env : Env) (caller : Caller) (password : Option Text) (segment : Text) : Handler Response := do
  let file ← loadLiveFile segment
  checkPassword env caller.session file.accessPasswordHash file.idCore password
  let header ← check (rangeHeader caller.headers)
  let outcome ← check (parse header file.sizeBytes)
  reject (outcome = .invalid) (AppError.badRequest "invalid Range header")
  if outcome = .unsatisfiable then
    check (rawResponse file (Range.response outcome file.sizeBytes (.file file.idCore) []))
  else if file.burnAfterRead then burnRead file outcome
  else streamRead file outcome

/-- The end of `raw_paste`: the content of a paste. -/
def sendPaste (paste : PasteRow) (outcome : RangeOutcome) : Handler Response := do
  let all := utf8 paste.body
  if paste.burnAfterRead then do
    -- the `DELETE` decides who gets the one read
    let deleted ← ask (.deletePaste paste.idCore.val)
    reject (!deleted) AppError.notFound
  let body ← check (slice outcome all)
  pure (rawPasteResponse paste outcome all.length body)

/-- `raw_paste`. -/
def rawPaste (env : Env) (caller : Caller) (password : Option Text) (segment : Text) :
    Handler Response := do
  let paste ← loadLivePaste segment
  checkPassword env caller.session paste.accessPasswordHash paste.idCore password
  let header ← check (rangeHeader caller.headers)
  let outcome ← check (parse header (utf8 paste.body).length)
  reject (outcome = .invalid) (AppError.badRequest "invalid Range header")
  if outcome = .unsatisfiable then pure (rawPasteResponse paste outcome (utf8 paste.body).length [])
  else sendPaste paste outcome

end Checked

/-! ## Ranges lie inside of the content -/

/-- A range that is served lies inside of the content. -/
theorem Range.parse_satisfiable {header : Option Text} {len start stop : ℕ}
    (h : Range.parse header len = .satisfiable start stop) : start ≤ stop ∧ stop < len := by
  unfold Range.parse at h
  split at h
  · cases h
  · split at h
    · cases h
    · split at h
      · cases h
      · split at h
        · cases h
        · -- a suffix
          split at h
          · cases h
          · split at h
            · cases h
            · rename_i hlen
              simp only [Bool.or_eq_true, decide_eq_true_eq, not_or] at hlen
              cases h
              omega
        · split at h
          · cases h
          · split at h
            · -- from an offset on
              split at h
              · cases h
              · rename_i hlen
                simp only [Bool.or_eq_true, decide_eq_true_eq, not_or] at hlen
                cases h
                omega
            · split at h
              · cases h
              · split at h
                · cases h
                · split at h
                  · cases h
                  · rename_i hlen
                    simp only [Bool.or_eq_true, decide_eq_true_eq, not_or] at hlen
                    cases h
                    omega

/-- Where the parser subtracts, the content is not empty. -/
theorem lastByte_of_not {len : ℕ} {c : Bool} (h : ¬ (decide (len = 0) || c) = true) :
    subU64 len 1 = .ok (len - 1) := by
  simp only [Bool.or_eq_true, decide_eq_true_eq, not_or] at h
  exact subU64_of_le (by omega)

theorem lastByte_of_not' {len : ℕ} {c : Bool} (h : ¬ (c || decide (len = 0)) = true) :
    subU64 len 1 = .ok (len - 1) := lastByte_of_not (c := c) (by rwa [Bool.or_comm])

/-- The subtractions of the parser do not underflow. -/
theorem Checked.parse_eq (header : Option Text) (len : ℕ) :
    Checked.parse header len = .ok (Range.parse header len) := by
  unfold Checked.parse Range.parse
  cases header with
  | none => rfl
  | some header =>
    cases hspec : stripPrefix bytesUnit (trim header) with
    | none => simp only [hspec]
    | some spec =>
      simp only [hspec]
      by_cases hbad : (spec.isEmpty || spec.contains ',' || spec.any isWhitespace) = true
      · rw [if_pos hbad, if_pos hbad]
      rw [if_neg hbad, if_neg hbad]
      obtain ⟨first, rest⟩ := spec.span (· ≠ '-')
      rcases rest with _ | ⟨dash, last⟩
      · rfl
      rcases first with _ | ⟨c, first⟩
      · cases hsuffix : decimal last with
        | none => simp only [hsuffix]
        | some suffixLen =>
          simp only [hsuffix]
          by_cases hlen : (decide (suffixLen = 0) || decide (len = 0)) = true
          · rw [if_pos hlen, if_pos hlen]
          · rw [if_neg hlen, if_neg hlen, lastByte_of_not' hlen]
            rfl
      · cases hstart : decimal (c :: first) with
        | none => simp only [hstart]
        | some start =>
          simp only [hstart]
          cases decimal last with
          | none =>
            dsimp only
            split
            · split
              · rfl
              · rename_i hlen
                rw [lastByte_of_not hlen]
                rfl
            · rfl
          | some stop =>
            dsimp only
            split
            · split
              · rfl
              · rename_i hlen
                rw [lastByte_of_not hlen]
                rfl
            · split
              · rfl
              · split
                · rfl
                · rename_i hlen
                  rw [lastByte_of_not hlen]
                  rfl

/-- Nor does a slice leave the content. -/
theorem Checked.slice_eq {header : Option Text} {all : Bytes} (hall : all.length < 2 ^ 63)
    (hinvalid : Range.parse header all.length ≠ .invalid)
    (hunsat : Range.parse header all.length ≠ .unsatisfiable) :
    Checked.slice (Range.parse header all.length) all =
      .ok ((Range.parse header all.length).slice all) := by
  cases houtcome : Range.parse header all.length with
  | full => rfl
  | satisfiable start stop =>
    obtain ⟨hstart, hstop⟩ := Range.parse_satisfiable houtcome
    have hadd : addU64 stop 1 = .ok (stop + 1) := addU64_of_lt (by omega)
    have hslice : bytesSlice all start (stop + 1) = _ := bytesSlice_of_le (by omega) (by omega)
    show (addU64 stop 1 >>= fun stop => bytesSlice all start stop) = _
    rw [hadd]
    exact hslice
  | invalid => exact absurd houtcome hinvalid
  | unsatisfiable => exact absurd houtcome hunsat

/-! ## What a client sees -/

/-- The bytes of a piece that come from an item. -/
def Piece.bytes : Piece → Bytes
  | .content _ bytes => bytes
  | .html _ | .json _ => []

/-- What a client sees of a raw read. -/
structure RawView where
  status : ℕ
  contentRange : Option String
  contentLength : Option String
  body : Bytes
deriving DecidableEq

/-- The view of a response. -/
def Response.rawView (response : Response) : RawView where
  status := response.status
  contentRange := response.headers.lookup "content-range"
  contentLength := response.headers.lookup "content-length"
  body := response.body.flatMap Piece.bytes

/-- How many bytes are served of the content `p`. -/
def RangeOutcome.length (p : Bytes) : RangeOutcome → ℕ
  | .full => p.length
  | .satisfiable start stop => stop - start + 1
  | .invalid | .unsatisfiable => 0

/-- **What the client has to see** of the content `p`: all of it, `p[start..=stop]`, or nothing. -/
def RangeOutcome.view (p : Bytes) (outcome : RangeOutcome) : RawView :=
  let contentLength := some (toString (outcome.length p))
  match outcome with
  | .full => ⟨200, none, contentLength, p⟩
  | .satisfiable start stop => ⟨206, some s!"bytes {start}-{stop}/{p.length}", contentLength,
      (p.drop start).take (stop - start + 1)⟩
  | .invalid => ⟨400, none, contentLength, []⟩
  | .unsatisfiable => ⟨416, some s!"bytes */{p.length}", contentLength, []⟩

/-- The builder of responses, given the bytes that are asked for and their number. -/
theorem rawView_responseStream (outcome : RangeOutcome) (p : Bytes) (of : Item) :
    (Range.responseStream outcome p.length (outcome.length p)
      [.content of (outcome.view p).body] none).rawView = outcome.view p := by
  have zero : "0" = Nat.repr 0 := by decide
  cases outcome with
  | full => simp [Range.responseStream, Response.rawView, RangeOutcome.view, List.lookup, Piece.bytes]
  | satisfiable start stop =>
    simp [Range.responseStream, Response.rawView, RangeOutcome.view, List.lookup, Piece.bytes]
  | invalid => simp [Range.responseStream, Response.rawView, RangeOutcome.view, List.lookup,
      RangeOutcome.length, zero]
  | unsatisfiable => simp [Range.responseStream, Response.rawView, RangeOutcome.view, List.lookup,
      RangeOutcome.length, zero]

/-- As many bytes as the length says. -/
theorem length_view_body {header : Option Text} {p : Bytes} :
    ((Range.parse header p.length).view p).body.length = (Range.parse header p.length).length p := by
  cases houtcome : Range.parse header p.length with
  | full => rfl
  | satisfiable start stop =>
    obtain ⟨hstart, hstop⟩ := Range.parse_satisfiable houtcome
    simp only [RangeOutcome.view, RangeOutcome.length, List.length_take, List.length_drop]
    omega
  | invalid => rfl
  | unsatisfiable => rfl

/-- What a slice has. -/
theorem slice_eq_body {outcome : RangeOutcome} (p : Bytes) (hinvalid : outcome ≠ .invalid)
    (hunsat : outcome ≠ .unsatisfiable) (hle : ∀ start stop, outcome = .satisfiable start stop → start ≤ stop) :
    outcome.slice p = (outcome.view p).body := by
  cases outcome with
  | full => rfl
  | satisfiable start stop =>
    have hlen : stop + 1 - start = stop - start + 1 := by
      have := hle start stop rfl
      omega
    simp only [RangeOutcome.slice, RangeOutcome.view, hlen]
  | invalid => exact absurd rfl hinvalid
  | unsatisfiable => exact absurd rfl hunsat

/-! ## The headers of downloads -/

/-- The headers of a download are none of the headers of a range, and they do not panic where the name
can be sanitized. -/
theorem downloadHeaders_ok {file : File} {headers : List (String × String)}
    (h : downloadHeaders file = .ok headers) :
    headers.lookup "content-range" = none ∧ headers.lookup "content-length" = none := by
  simp only [downloadHeaders] at h
  by_cases hinline : shouldInline file.mimeStored = true
  · simp only [hinline, if_true] at h
    split at h
    · cases h
    · cases h
      simp [List.lookup]
  · simp only [hinline, Bool.false_eq_true, if_false] at h
    split at h
    · cases h
    · split at h
      · cases h
      · split at h
        · cases h
        · cases h
          simp [List.lookup]

/-- The builders add the headers of a download, or fail with it. -/
theorem rawResponse_ok {file : File} {response r : Response} (h : rawResponse file response = .ok r) :
    r.rawView = response.rawView ∧ r.brokenOff = response.brokenOff := by
  unfold rawResponse at h
  cases hheaders : downloadHeaders file with
  | error e =>
    rw [hheaders] at h
    cases h
  | ok headers =>
    rw [hheaders] at h
    cases h
    obtain ⟨hrange, hlength⟩ := downloadHeaders_ok hheaders
    simp [Response.rawView, Response.withHeaders, List.lookup_append, hrange, hlength]

theorem rawResponse_error {file : File} {response : Response} {e : Abort} :
    rawResponse file response = .error e ↔ downloadHeaders file = .error e := by
  unfold rawResponse
  cases downloadHeaders file with
  | error e' => simp
  | ok headers => simp

/-- What becomes of a view that a download is to have. -/
def shown (file : File) (view : RawView) : Except Abort RawView := (downloadHeaders file).map fun _ => view

theorem rawResponse_map (file : File) (response : Response) :
    (rawResponse file response).map Response.rawView = shown file response.rawView := by
  unfold shown
  cases h : rawResponse file response with
  | error e =>
    rw [rawResponse_error.1 h]
    rfl
  | ok r =>
    rw [Except.map, (rawResponse_ok h).1]
    cases hheaders : downloadHeaders file with
    | error e =>
      rw [rawResponse_error.2 hheaders] at h
      cases h
    | ok headers => rfl

/-! ## Stored names -/

/-- The name of a row is one that an upload has stored. -/
def StoredName (file : File) : Prop := ∃ filename, sanitizeFilename filename = some file.originalName

/-- Such a name is safe, so it stays as it is when it is sanitized again. -/
theorem StoredName.sanitize {file : File} (h : StoredName file) :
    SafeName file.originalName ∧ sanitizeFilename file.originalName = some file.originalName := by
  obtain ⟨filename, hname⟩ := h
  have hsafe := safeName_of_sanitize hname
  exact ⟨hsafe, hsafe.sanitize⟩

/-- A byte that a header can have, by its number. -/
theorem headerByte {n : ℕ} (hn : n < 256) (hlow : 32 ≤ n) (hdel : n ≠ 127) :
    ((32 ≤ UInt8.ofNat n && UInt8.ofNat n ≠ 127) || UInt8.ofNat n == 9) = true := by
  have hval : (UInt8.ofNat n).toNat = n := by simp [Nat.mod_eq_of_lt hn]
  have h32 : (32 : UInt8) ≤ UInt8.ofNat n := by rw [UInt8.le_iff_toNat_le, hval]; exact hlow
  have h127 : UInt8.ofNat n ≠ 127 := by
    intro h
    exact hdel (hval.symm.trans (congrArg UInt8.toNat h))
  simp [h32, h127]

/-- The bytes of a character that is no control character can be in a header. -/
theorem headerBytes_of_visible {c : Char} (hc : isControl c = false) :
    ∀ b ∈ String.utf8EncodeChar c, (32 ≤ b && b ≠ 127) || b == 9 := by
  simp only [isControl, Bool.or_eq_false_iff, decide_eq_false_iff_not, Bool.and_eq_false_iff, not_lt,
    not_le] at hc
  intro b hb
  have hval : c.val.toNat = c.toNat := rfl
  simp only [String.utf8EncodeChar, hval] at hb
  -- one byte for ASCII; else all bytes are at least 128
  split_ifs at hb
  · obtain rfl := List.mem_singleton.1 hb
    exact headerByte (by omega) (by omega) (by omega)
  all_goals
    simp only [List.mem_cons, List.not_mem_nil, or_false] at hb
  · rcases hb with rfl | rfl <;> exact headerByte (by omega) (by omega) (by omega)
  · rcases hb with rfl | rfl | rfl <;> exact headerByte (by omega) (by omega) (by omega)
  · rcases hb with rfl | rfl | rfl | rfl <;> exact headerByte (by omega) (by omega) (by omega)

/-- A text without control characters can be the value of a header. -/
theorem isHeaderValue_of_visible {t : Text} (h : ∀ c ∈ t, isControl c = false) : isHeaderValue t = true := by
  unfold isHeaderValue utf8
  rw [List.all_eq_true]
  intro b hb
  obtain ⟨c, hc, hbyte⟩ := List.mem_flatMap.1 hb
  exact headerBytes_of_visible (h c hc) b hbyte

theorem SafeName.isHeaderValue {name : Text} (h : SafeName name) : Server.isHeaderValue name = true := by
  refine isHeaderValue_of_visible fun c hc => ?_
  have hplain := h.plain c hc
  simp only [isPlain, Bool.and_eq_true, Bool.not_eq_true'] at hplain
  exact hplain.1.1.1.2

/-- The headers of a row that an upload has stored do not panic: they fail only on a type that cannot be
the value of a header. -/
theorem StoredName.downloadHeaders {file : File} (h : StoredName file) :
    (∃ headers, Server.downloadHeaders file = .ok headers) ∨
      Server.downloadHeaders file = .error AppError.somethingWentWrong ∧ isHeaderValue file.mimeStored = false := by
  obtain ⟨hsafe, hname⟩ := h.sanitize
  have hoctets : isHeaderValue octetStream = true := by decide
  unfold Server.downloadHeaders
  simp only [hname, hsafe.isHeaderValue]
  by_cases hinline : shouldInline file.mimeStored = true
  · simp only [hinline, if_true]
    cases hmime : isHeaderValue file.mimeStored with
    | true => exact .inl ⟨_, rfl⟩
    | false => exact .inr ⟨rfl, rfl⟩
  · simp only [hinline, Bool.false_eq_true, if_false, hoctets]
    exact .inl ⟨_, rfl⟩

theorem StoredName.noPanic {file : File} (h : StoredName file) :
    Server.downloadHeaders file ≠ .error .panic := by
  rcases h.downloadHeaders with ⟨headers, hok⟩ | ⟨hfailed, -⟩
  · simp [hok]
  · simp [hfailed]

/-- A read of such a row shows its view, if its type can be the value of a header. -/
theorem StoredName.shown {file : File} (h : StoredName file) (hmime : isHeaderValue file.mimeStored = true)
    (view : RawView) : Server.shown file view = .ok view := by
  rcases h.downloadHeaders with ⟨headers, hok⟩ | ⟨-, hno⟩
  · rw [Server.shown, hok]
    rfl
  · rw [hmime] at hno
    cases hno

/-! ## Over the read paths of the store -/

/-- The operations of the server, and the fetches by which the store carries out its streams. -/
abbrev StoreOp := Op ⊕ Fetch

abbrev StoreOp.Res : StoreOp → Type
  | .inl op => op.Res
  | .inr fetch => fetch.Res

/-- The error that ends a stream. -/
def streamFailure : List Storage.Item → Option StorageError
  | [] => none
  | .ok _ :: items => streamFailure items
  | .error e :: _ => some e

/-- A stream, for who reads it to its end. -/
def delivery : Served → Except Failure Delivery
  | .error e => .error (.storage e)
  | .ok items => .ok ⟨itemBytes items, streamFailure items⟩

/-- One fetch. -/
def performFetch (fetch : Fetch) : Prog StoreOp StoreOp.Res fetch.Res :=
  Prog.call (Sum.inr fetch : StoreOp) Prog.ret

/-- One operation of the server. -/
def performOp (op : Op) : Prog StoreOp StoreOp.Res op.Res := Prog.call (Sum.inl op : StoreOp) Prog.ret

/-- A read of the store, among the operations of the server. -/
def fetching {α : Type} (p : Read α) : Prog StoreOp StoreOp.Res α := Prog.interp performFetch p

variable (A : Cipher) (store : Store)

/-- The two streams are read paths of the store. -/
def Op.overStore : (op : Op) → Prog StoreOp StoreOp.Res op.Res
  | .getStream key len => do
    let stream ← fetching (Storage.getStream A store key len)
    pure (delivery stream)
  | .getRangeStream key start len => do
    let stream ← fetching (Storage.getRangeStream A store key start len)
    pure (delivery stream)
  | op => performOp op

/-- A handler over the store. -/
def served {α : Type} (p : Handler α) : Prog StoreOp StoreOp.Res (Except Abort α) :=
  p.run.interp (Op.overStore A store)

variable {A} {store}

theorem streamFailure_of_ok : {items : List Storage.Item} → itemsOk items → streamFailure items = none
  | [], _ => rfl
  | .ok _ :: items, h => by
    have ih : streamFailure items = none := streamFailure_of_ok h
    exact ih

theorem delivery_of_endsOk {stream : Served} {p : Bytes} (h : endsOk stream ∧ emitted stream = p) :
    delivery stream = .ok ⟨p, none⟩ := by
  obtain ⟨hok, rfl⟩ := h
  cases stream with
  | error e => exact hok.elim
  | ok items =>
    show Except.ok (Delivery.mk (itemBytes items) (streamFailure items)) = _
    rw [streamFailure_of_ok hok]
    rfl

/-- What the store answers while `p` is stored under `key`. -/
def StoreServes (key : SafeKey) (p : Bytes) (db : (op : Op) → op.Res → Prop) : (op : Op) → op.Res → Prop
  | .getStream key' len, r => key' = key → len = p.length → r = .ok ⟨p, none⟩
  | .getRangeStream key' start len, r => key' = key → 0 < len → start + len ≤ p.length →
    r = .ok ⟨(p.drop start).take len, none⟩
  | op, r => db op r

/-- The answers of a database `db` and a working backend. -/
def Backed (be : Backend) (objs : Objects) (db : (op : Op) → op.Res → Prop) :
    (op : StoreOp) → StoreOp.Res op → Prop
  | .inl op, r => db op r
  | .inr fetch, r => Fetch.Answers be objs fetch r

/-- The operations of the server that `P` allows, and all fetches. -/
def Allowed (P : Op → Prop) : StoreOp → Prop
  | .inl op => P op
  | .inr _ => True

section Over

variable {be : Backend} {objs : Objects} {db : (op : Op) → op.Res → Prop} {P : Op → Prop}

/-- A postcondition of a read holds of it among the operations of the server. -/
theorem obeys_fetching {α : Type} {p : Read α} {Q : α → Prop} (h : p.Post (Fetch.Answers be objs) Q) :
    (fetching p).Obeys (.flat (Allowed P) (Backed be objs db)) (fun a _ => Q a) () := by
  induction p with
  | ret a => exact h
  | call fetch k ih => exact ⟨trivial, fun r _ hr => ih r (h r hr)⟩

/-- Whatever it returns. -/
theorem obeys_fetching_true {α : Type} (p : Read α) :
    (fetching p).Obeys (.flat (Allowed P) (Backed be objs db)) (fun _ _ => True) () := by
  induction p with
  | ret a => trivial
  | call fetch k ih => exact ⟨trivial, fun r _ _ => ih r⟩

/-- **A handler over the store** obeys what it obeys where the store serves the content. -/
theorem obeys_served {α : Type} {key : SafeKey} {p obj : Bytes} {written : Option Key} (hA : A.Sound)
    (h : StoredAs A p written obj) (hread : CanRead p written store.encryptionKey)
    (ho : objs key = some obj) (hp : p.length < 2 ^ 63) {handler : Handler α} {fin : α → Unit → Prop}
    {err : Abort → Unit → Prop}
    (hobeys : handler.Obeys (.flat P (StoreServes key p db)) fin err ()) :
    (served A store handler).Obeys (.flat (Allowed P) (Backed be objs db))
      (fun result γ => match result with
        | .ok a => fin a γ
        | .error e => err e γ) () := by
  unfold Fallible.Obeys at hobeys
  refine (Prog.Obeys.interp ?_ hobeys).mono fun result _ hresult => by
    cases result <;> exact hresult
  intro _ op hmay
  cases op with
  | getStream key' len =>
    show Prog.Obeys _ _ (fetching _ >>= fun stream => pure (delivery stream)) _
    rw [Prog.obeys_bind]
    by_cases hthis : key' = key ∧ len = p.length
    · obtain ⟨rfl, rfl⟩ := hthis
      refine (obeys_fetching (getStream_storedAs hA h hread ho hp)).mono fun stream _ hstream => ?_
      exact fun _ _ => delivery_of_endsOk hstream
    · refine (obeys_fetching_true _).mono fun stream _ _ => ?_
      exact fun hkey hlen => absurd ⟨hkey, hlen⟩ hthis
  | getRangeStream key' start len =>
    show Prog.Obeys _ _ (fetching _ >>= fun stream => pure (delivery stream)) _
    rw [Prog.obeys_bind]
    by_cases hthis : key' = key ∧ 0 < len ∧ start + len ≤ p.length
    · obtain ⟨rfl, hlen, hin⟩ := hthis
      refine (obeys_fetching (getRangeStream_storedAs hA h hread ho hp hlen hin)).mono
        fun stream _ hstream => ?_
      exact fun _ _ _ => delivery_of_endsOk hstream
    · refine (obeys_fetching_true _).mono fun stream _ _ => ?_
      exact fun hkey hlen hin => absurd ⟨hkey, hlen, hin⟩ hthis
  | _ => exact ⟨hmay, fun r _ hr => hr⟩

end Over

/-! ## The handlers, line by line -/

/-- The range that a request asks for.  A header that is no string is as good as an invalid one. -/
def requestedRange (caller : Caller) (len : ℕ) : RangeOutcome :=
  match rangeHeader caller.headers with
  | .ok header => Range.parse header len
  | .error _ => .invalid

/-- Content is to be served. -/
def RangeOutcome.Served (outcome : RangeOutcome) : Prop := outcome ≠ .invalid ∧ outcome ≠ .unsatisfiable

/-- What a raw read may do: where no content is to be served, it writes nothing. -/
def MayRead (outcome : RangeOutcome) (op : Op) : Prop := op.area = none ∨ outcome.Served

/-- **The right answer** to a raw read of `p`: no panic, and whatever response there is has the status,
the headers and the bytes of the range. -/
structure Right (outcome : RangeOutcome) (p : Bytes) (result : Except Abort Response) : Prop where
  noPanic : result ≠ .error .panic
  valid : ∀ response, result = .ok response → outcome ≠ .invalid
  view : ∀ response, result = .ok response → response.rawView = outcome.view p
  whole : ∀ response, result = .ok response → response.brokenOff = none
  contentLength : ∀ response, result = .ok response →
    response.rawView.contentLength = some (toString response.rawView.body.length)
  inside : ∀ start stop, outcome = .satisfiable start stop → start ≤ stop ∧ stop < p.length

/-- A row of a file that the database answers with. -/
def LoadsFile (file : File) : (op : Op) → op.Res → Prop
  | .findFile _, .ok (some found) => found = file
  | _, _ => True

/-- A row of a paste that the database answers with. -/
def LoadsPaste (paste : PasteRow) : (op : Op) → op.Res → Prop
  | .findPaste _, .ok (some found) => found = paste
  | _, _ => True

/-- The row of the file is still there, and neither the database nor the store fails. -/
def Removes (file : File) : (op : Op) → op.Res → Prop
  | .storage (.deleteFile _), r => r = .ok (some (file.storageKey, file.thumbKey))
  | .storage (.dropObject _), r => ∃ refcount, r = .ok refcount
  | .storage (.deleteObject _), r => r = .ok ()
  | .storage (.delete _), r => r = .ok ()
  | _, _ => True

/-- The row of the paste is still there, and the database does not fail. -/
def RemovesPaste : (op : Op) → op.Res → Prop
  | .deletePaste _, r => r = .ok true
  | _, _ => True

section Lines

variable {P : Op → Prop} {ok : (op : Op) → op.Res → Prop} {key : SafeKey} {p : Bytes}

/-- An error that is no panic. -/
abbrev NoPanic (e : Abort) (_ : Unit) : Prop := e ≠ .panic

theorem noPanic_ask {op : Op} {fin : op.Val → Unit → Prop} (hP : P op)
    (hfin : ∀ v, ok op (.ok v) → fin v ()) :
    (ask op).Obeys (.flat P ok) fin NoPanic () := by
  refine obeys_ask.2 ⟨hP, fun r _ hr => ⟨?_, ?_⟩⟩
  · rintro v rfl
    exact hfin v hr
  · rintro e rfl
    simp [NoPanic]

/-- `load_live_file` and `load_live_paste`, over the query that finds the row. -/
def loadLive {Row : Type} (find : Text → Handler (Option Row)) (expiresAt : Row → Option ℤ) (segment : Text) :
    Handler Row := do
  let core := stripToCore segment
  reject (core.isEmpty || isReserved core) AppError.notFound
  let row ← find core
  let row ← orThrow row AppError.notFound
  let now ← ask .now
  reject (expired (expiresAt row) now) AppError.notFound
  pure row

theorem loadLiveFile_eq (segment : Text) :
    loadLiveFile segment = loadLive (fun core => ask (.findFile core)) (fun file => file.expiresAt) segment := rfl

theorem loadLivePaste_eq (segment : Text) :
    loadLivePaste segment = loadLive (fun core => ask (.findPaste core)) PasteRow.expiresAt segment := rfl

/-- What is loaded is what the query may find. -/
theorem obeys_loadLive {Row : Type} {find : Text → Handler (Option Row)} {expiresAt : Row → Option ℤ}
    {Q : Row → Prop} (hnow : P .now)
    (hfind : ∀ core, (find core).Obeys (.flat P ok) (fun found _ => ∀ row, found = some row → Q row) NoPanic ())
    (segment : Text) :
    (loadLive find expiresAt segment).Obeys (.flat P ok) (fun row _ => Q row) NoPanic () := by
  refine (obeys_bind _ _).2 (obeys_reject.2 ⟨fun _ => by simp [NoPanic], fun _ => ?_⟩)
  refine (obeys_bind _ _).2 ((hfind _).mono ?_ fun _ _ he => he)
  intro found _ hfound
  refine (obeys_bind _ _).2 (obeys_orThrow.2 ⟨fun _ => by simp [NoPanic], fun row hrow => ?_⟩)
  refine (obeys_bind _ _).2 (noPanic_ask hnow fun now _ => ?_)
  exact (obeys_bind _ _).2 (obeys_reject.2 ⟨fun _ => by simp [NoPanic], fun _ => hfound row hrow⟩)

theorem obeys_loadLiveFile {file : File} (hP : ∀ op : Op, op.area = none → P op) (segment : Text) :
    (loadLiveFile segment).Obeys (.flat P (StoreServes key p (LoadsFile file))) (fun found _ => found = file)
      NoPanic () := by
  rw [loadLiveFile_eq]
  refine obeys_loadLive (hP _ rfl) (fun _ => noPanic_ask (hP _ rfl) fun found hfound => ?_) segment
  rintro row rfl
  exact hfound

theorem obeys_loadLivePaste {paste : PasteRow} (hP : ∀ op : Op, op.area = none → P op) (segment : Text) :
    (loadLivePaste segment).Obeys (.flat P (LoadsPaste paste)) (fun found _ => found = paste)
      NoPanic () := by
  rw [loadLivePaste_eq]
  refine obeys_loadLive (hP _ rfl) (fun _ => noPanic_ask (hP _ rfl) fun found hfound => ?_) segment
  rintro row rfl
  exact hfound

theorem obeys_checkPassword (hP : ∀ op : Op, op.area = none → P op) (env : Env) (sid : SessionId)
    (hash : Option Text) (core : Core) (password : Option Text) :
    (checkPassword env sid hash core password).Obeys (.flat P ok) (fun _ _ => True) NoPanic () := by
  cases hash with
  | none => trivial
  | some hash =>
    refine (obeys_bind _ _).2 (obeys_always.2 ⟨hP _ rfl, fun r _ _ => ?_⟩)
    match r with
    | .ok session => exact obeys_reject.2 ⟨fun _ => by simp [NoPanic], fun _ => trivial⟩
    | .error _ => exact obeys_reject.2 ⟨fun _ => by simp [NoPanic], fun _ => trivial⟩

/-- An operation whose answer is known. -/
theorem ask_answered {op : Op} {v : op.Val} {fin : op.Val → Unit → Prop} {err : Abort → Unit → Prop}
    (hP : P op) (hok : ∀ r, ok op r → r = .ok v) (h : fin v ()) :
    (ask op).Obeys (.flat P ok) fin err () := by
  refine obeys_ask.2 ⟨hP, fun r _ hr => ⟨?_, ?_⟩⟩
  · rintro v' rfl
    obtain rfl := Except.ok.inj (hok _ hr)
    exact h
  · rintro e rfl
    cases hok _ hr

/-- The whole content, from the store. -/
theorem obeys_getStream {db : (op : Op) → op.Res → Prop} {len : ℕ} {fin : Delivery → Unit → Prop}
    {err : Abort → Unit → Prop} (hP : P (.getStream key len)) (hlen : len = p.length)
    (h : fin ⟨p, none⟩ ()) : (ask (.getStream key len)).Obeys (.flat P (StoreServes key p db)) fin err () :=
  ask_answered hP (fun _ hr => hr rfl hlen) h

/-- A part of the content, from the store. -/
theorem obeys_getRangeStream {db : (op : Op) → op.Res → Prop} {start len : ℕ}
    {fin : Delivery → Unit → Prop} {err : Abort → Unit → Prop} (hP : P (.getRangeStream key start len))
    (hpos : 0 < len) (hin : start + len ≤ p.length) (h : fin ⟨(p.drop start).take len, none⟩ ()) :
    (ask (.getRangeStream key start len)).Obeys (.flat P (StoreServes key p db)) fin err () :=
  ask_answered hP (fun _ hr => hr rfl hpos hin) h

/-- A check that succeeds. -/
theorem obeys_check_ok {α β : Type} {x : Except Abort α} {a : α} {f : α → Handler β} {fin : β → Unit → Prop}
    {err : Abort → Unit → Prop} (hx : x = .ok a) (h : (f a).Obeys (.flat P ok) fin err ()) :
    (check x >>= f).Obeys (.flat P ok) fin err () := by
  subst hx
  exact h

/-- From the `Range` header to the outcome. -/
theorem obeys_outcome {caller : Caller} {len : ℕ} {f : RangeOutcome → Handler Response}
    {fin : Response → Unit → Prop} (hf : requestedRange caller len ≠ .invalid →
      (f (requestedRange caller len)).Obeys (.flat P ok) fin NoPanic ()) :
    (do
      let header ← check (rangeHeader caller.headers)
      let outcome ← check (Checked.parse header len)
      reject (outcome = .invalid) (AppError.badRequest "invalid Range header")
      f outcome : Handler Response).Obeys (.flat P ok) fin NoPanic () := by
  refine (obeys_bind _ _).2 (obeys_check.2 ⟨?_, fun header hheader => ?_⟩)
  · intro e he
    unfold rangeHeader at he
    split at he
    · cases he
    · split at he
      · cases he
      · cases he
        simp [NoPanic]
  rw [requestedRange, hheader] at hf
  rw [Checked.parse_eq]
  refine (obeys_bind _ _).2 (obeys_check.2 ⟨by simp, fun outcome houtcome => ?_⟩)
  obtain rfl := Except.ok.inj houtcome
  exact (obeys_bind _ _).2 (obeys_reject.2 ⟨fun _ => by simp [NoPanic], hf⟩)

/-- What only says which operations are performed says it whatever the answers. -/
theorem obeys_of_only {α : Type} {S : List Area} {q : Query α} (h : Query.Only S q)
    (hP : ∀ op, Within S op → P op) : q.Obeys (.flat P ok) (fun _ _ => True) () :=
  (Prog.Obeys.simulate (fun _ _ => True) (fun _ hop => hP _ hop) (fun _ _ _ => ⟨(), trivial, trivial⟩) h
    trivial).mono fun _ _ _ => trivial

theorem noPanic_removeFile (hP : ∀ op, Within [.files] op → P op) (core : Core) :
    (removeFile core).Obeys (.flat P ok) (fun _ _ => True) NoPanic () := by
  have hstorage := only_storage (S := [.files]) (.removeFile core) (List.mem_singleton.2 rfl)
  refine (obeys_bind _ _).2 (obeys_always.2 ((obeys_of_only hstorage hP).mono fun removed _ _ => ?_))
  refine obeys_check.2 ⟨fun e he => ?_, fun _ _ => trivial⟩
  cases removed with
  | ok b => cases he
  | error e' =>
    cases he
    simp [NoPanic]

/-- The end of a read of a file: a response with the right view. -/
theorem obeys_rawResponse {file : File} {outcome : RangeOutcome} {response : Response}
    (hname : StoredName file) (hview : response.rawView = outcome.view p)
    (hwhole : response.brokenOff = none) :
    (check (rawResponse file response) : Handler Response).Obeys (.flat P ok)
      (fun response _ => response.rawView = outcome.view p ∧ response.brokenOff = none) NoPanic () := by
  refine obeys_check.2 ⟨?_, fun r hr => ?_⟩
  · rintro e he rfl
    exact hname.noPanic (rawResponse_error.1 he)
  · obtain ⟨hsame, hend⟩ := rawResponse_ok hr
    exact ⟨hsame.trans hview, hend.trans hwhole⟩

/-! ## The two branches for files -/

theorem requestedRange_eq {caller : Caller} {len : ℕ} (h : requestedRange caller len ≠ .invalid) :
    ∃ header, requestedRange caller len = Range.parse header len := by
  unfold requestedRange at h ⊢
  split
  · exact ⟨_, rfl⟩
  · rename_i hheader
    rw [hheader] at h
    exact absurd rfl h

/-- What is cut out of the content is what the client has to get. -/
theorem slice_requested {caller : Caller} (hp : p.length < 2 ^ 63)
    (h : (requestedRange caller p.length).Served) :
    Checked.slice (requestedRange caller p.length) p =
      .ok ((requestedRange caller p.length).view p).body := by
  obtain ⟨header, heq⟩ := requestedRange_eq h.1
  rw [heq] at h ⊢
  rw [Checked.slice_eq hp h.1 h.2]
  exact congrArg _ (slice_eq_body p h.1 h.2 fun _ _ hrange => (Range.parse_satisfiable hrange).1)

theorem length_requested (caller : Caller) (p : Bytes) :
    ((requestedRange caller p.length).view p).body.length = (requestedRange caller p.length).length p := by
  unfold requestedRange
  split
  · exact length_view_body
  · rfl

/-- A response with the bytes that are asked for. -/
theorem rawView_response (caller : Caller) (p : Bytes) (of : Item) :
    (Range.response (requestedRange caller p.length) p.length of
      ((requestedRange caller p.length).view p).body).rawView = (requestedRange caller p.length).view p := by
  unfold Range.response
  rw [length_requested]
  exact rawView_responseStream _ p of

theorem brokenOff_responseStream (outcome : RangeOutcome) (fullLen contentLen : ℕ) (body : List Piece) :
    (Range.responseStream outcome fullLen contentLen body none).brokenOff = none := by
  cases outcome <;> rfl

section Branches

variable {file : File} {caller : Caller} {db : (op : Op) → op.Res → Prop}

/-- A raw read of a file with content `p` and the outcome of a header. -/
structure Reads (file : File) (p : Bytes) (caller : Caller) (outcome : RangeOutcome) : Prop where
  size : file.sizeBytes = p.length
  bounded : p.length < 2 ^ 63
  requested : outcome = requestedRange caller p.length
  served : outcome.Served

/-- The branch for files that are read once, up to its response. -/
theorem obeys_burnRead {outcome : RangeOutcome} (h : Reads file p caller outcome)
    (hname : StoredName file) (hP : ∀ op, Within [.files] op → P op) :
    (Checked.burnRead file outcome).Obeys (.flat P (StoreServes file.storageKey p db))
      (fun response _ => response.rawView = outcome.view p ∧ response.brokenOff = none) NoPanic () := by
  obtain ⟨hsize, hbounded, rfl, hserved⟩ := h
  unfold Checked.burnRead
  refine (obeys_bind _ _).2 (obeys_getStream (hP _ (within_of_none rfl)) hsize ?_)
  refine obeys_check_ok (a := p) rfl ?_
  refine (obeys_bind _ _).2 (obeys_reject.2 ⟨fun _ => by simp [NoPanic], fun _ => ?_⟩)
  refine (obeys_bind _ _).2 ((noPanic_removeFile hP _).mono (fun removed _ _ => ?_) fun _ _ he => he)
  refine (obeys_bind _ _).2 (obeys_reject.2 ⟨fun _ => by simp [NoPanic], fun _ => ?_⟩)
  refine obeys_check_ok (slice_requested hbounded hserved) ?_
  rw [hsize]
  exact obeys_rawResponse hname (rawView_response caller p _) (brokenOff_responseStream _ _ _ _)

/-- The stream of the other branch is the part of the content that is asked for. -/
theorem obeys_openStream {outcome : RangeOutcome} (h : Reads file p caller outcome)
    (hP : ∀ op : Op, op.area = none → P op) :
    (Checked.openStream file outcome).Obeys (.flat P (StoreServes file.storageKey p db))
      (fun opened _ => opened = (outcome.length p, ⟨(outcome.view p).body, none⟩)) (fun _ _ => False)
      () := by
  obtain ⟨hsize, hbounded, hrequested, hserved⟩ := h
  cases outcome with
  | full =>
    exact (obeys_bind _ _).2 (obeys_getStream (hP _ rfl) hsize (congrArg (·, _) hsize))
  | satisfiable start stop =>
    obtain ⟨header, heq⟩ := requestedRange_eq (hrequested ▸ hserved.1)
    obtain ⟨hstart, hstop⟩ := Range.parse_satisfiable ((hrequested.trans heq).symm)
    refine obeys_check_ok (subU64_of_le hstart) (obeys_check_ok (addU64_of_lt (by omega)) ?_)
    exact (obeys_bind _ _).2 (obeys_getRangeStream (hP _ rfl) (Nat.succ_pos _) (by omega) rfl)
  | invalid => exact absurd rfl hserved.1
  | unsatisfiable => exact absurd rfl hserved.2

theorem obeys_streamRead {outcome : RangeOutcome} (h : Reads file p caller outcome)
    (hname : StoredName file) (hP : ∀ op : Op, op.area = none → P op) :
    (Checked.streamRead file outcome).Obeys (.flat P (StoreServes file.storageKey p db))
      (fun response _ => response.rawView = outcome.view p ∧ response.brokenOff = none) NoPanic () := by
  unfold Checked.streamRead
  refine (obeys_bind _ _).2 ((obeys_openStream h hP).mono ?_ fun _ _ he => he.elim)
  rintro _ _ rfl
  rw [h.size]
  exact obeys_rawResponse hname (rawView_responseStream outcome p _) (brokenOff_responseStream _ _ _ _)

/-- **`raw`**, whatever the database answers beside the row. -/
theorem obeys_raw (env : Env) (password : Option Text) (segment : Text) (hsize : file.sizeBytes = p.length)
    (hbounded : p.length < 2 ^ 63) (hname : StoredName file) :
    (Checked.raw env caller password segment).Obeys
      (.flat (MayRead (requestedRange caller p.length)) (StoreServes file.storageKey p (LoadsFile file)))
      (fun response _ => requestedRange caller p.length ≠ .invalid ∧
        response.rawView = (requestedRange caller p.length).view p ∧ response.brokenOff = none)
      NoPanic () := by
  have hP : ∀ op : Op, op.area = none → MayRead (requestedRange caller p.length) op := fun op hop => .inl hop
  unfold Checked.raw
  refine (obeys_bind _ _).2 ((obeys_loadLiveFile hP segment).mono ?_ fun _ _ he => he)
  rintro file _ rfl
  refine (obeys_bind _ _).2 ((obeys_checkPassword hP env _ _ _ password).mono (fun _ _ _ => ?_)
    fun _ _ he => he)
  rw [hsize]
  refine obeys_outcome fun hvalid => ?_
  by_cases hunsat : requestedRange caller p.length = .unsatisfiable
  · rw [if_pos hunsat]
    have hview := rawView_response caller p (.file file.idCore)
    rw [hunsat] at hview ⊢
    refine (obeys_rawResponse hname hview (brokenOff_responseStream _ _ _ _)).mono ?_ fun _ _ he => he
    exact fun _ _ hright => ⟨by simp, hright⟩
  · rw [if_neg hunsat]
    have hreads : Reads file p caller (requestedRange caller p.length) := ⟨hsize, hbounded, rfl, hvalid, hunsat⟩
    by_cases hburn : file.burnAfterRead = true
    · rw [if_pos hburn]
      exact (obeys_burnRead hreads hname fun op _ => .inr hreads.served).mono (fun _ _ h => ⟨hvalid, h⟩)
        fun _ _ he => he
    · rw [if_neg hburn]
      exact (obeys_streamRead hreads hname hP).mono (fun _ _ h => ⟨hvalid, h⟩) fun _ _ he => he

end Branches

/-! ## The two branches agree -/

/-- What removals do, where nothing fails. -/
def removesProtocol (P : Op → Prop) (ok : (op : Op) → op.Res → Prop) : Protocol Unit DbOp DbOp.Res :=
  ⟨fun _ op => P (.storage op), fun _ op r _ => ok (.storage op) r⟩

theorem removes_releaseObject {file : File} (key' : SafeKey) :
    (releaseObject key').Obeys (removesProtocol (fun _ => True) (StoreServes key p (Removes file)))
      (fun released _ => ∃ last, released = .ok last) () := by
  refine ⟨trivial, ?_⟩
  rintro r ⟨⟩ ⟨refcount, rfl⟩
  match refcount with
  | none => exact ⟨_, rfl⟩
  | some n =>
    show Prog.Obeys _ _ (if n ≤ 0 then _ else _) _
    split
    · refine ⟨trivial, ?_⟩
      rintro r ⟨⟩ hr
      obtain rfl : r = .ok () := hr
      exact ⟨_, rfl⟩
    · exact ⟨_, rfl⟩

theorem removes_releaseAndDelete {file : File} (key' : SafeKey) :
    (releaseAndDelete key').Obeys (removesProtocol (fun _ => True) (StoreServes key p (Removes file)))
      (fun released _ => released = .ok ()) () := by
  refine (Prog.obeys_bind _ _ _).2 ((removes_releaseObject key').mono ?_)
  rintro _ _ ⟨last, rfl⟩
  match last with
  | false => rfl
  | true =>
    refine ⟨trivial, ?_⟩
    rintro r ⟨⟩ hr
    obtain rfl : r = .ok () := hr
    rfl

theorem removes_bind {file : File} {β : Type} {f : Except Dedupe.AppError Unit → Dedupe.Handler β}
    {fin : β → Unit → Prop} {key' : SafeKey}
    (h : (f (.ok ())).Obeys (removesProtocol (fun _ => True) (StoreServes key p (Removes file))) fin ()) :
    (releaseAndDelete key' >>= f).Obeys (removesProtocol (fun _ => True) (StoreServes key p (Removes file)))
      fin () := by
  refine (Prog.obeys_bind _ _ _).2 ((removes_releaseAndDelete key').mono ?_)
  rintro _ _ rfl
  exact h

theorem removes_removeFile {file : File} :
    (removeFile file.idCore).Obeys (.flat (fun _ => True) (StoreServes key p (Removes file)))
      (fun removed _ => removed = true) (fun _ _ => False) () := by
  have hstorage : (Dedupe.removeFile file.idCore).Obeys
      (removesProtocol (fun _ => True) (StoreServes key p (Removes file))) (fun removed _ => removed = .ok true)
      () := by
    refine ⟨trivial, ?_⟩
    rintro r ⟨⟩ hr
    obtain rfl : r = .ok (some (file.storageKey, file.thumbKey)) := hr
    refine removes_bind ?_
    cases file.thumbKey with
    | none => rfl
    | some thumbKey => exact removes_bind rfl
  refine (obeys_bind _ _).2 (obeys_always.2 ((obeys_storage hstorage).mono ?_))
  rintro _ _ rfl
  exact obeys_check.2 ⟨fun e he => by simp [Except.mapError] at he, fun b hb => (Except.ok.inj hb).symm⟩

section Agree

variable {file : File} {caller : Caller} {outcome : RangeOutcome}

/-- The result of a read is the view that is asked for, or the error of the headers. -/
abbrev ShowsOk (file : File) (view : RawView) (response : Response) (_ : Unit) : Prop :=
  .ok response.rawView = shown file view

abbrev ShowsError (file : File) (view : RawView) (e : Abort) (_ : Unit) : Prop :=
  .error e = shown file view

theorem obeys_rawResponse_shown {response : Response} {view : RawView} (hview : response.rawView = view) :
    (check (rawResponse file response) : Handler Response).Obeys (.flat P ok) (ShowsOk file view)
      (ShowsError file view) () := by
  have hmap := rawResponse_map file response
  rw [hview] at hmap
  refine obeys_check.2 ⟨fun e he => ?_, fun r hr => ?_⟩
  · rw [he] at hmap
    exact hmap
  · rw [hr] at hmap
    exact hmap

/-- What a read of a file that is read once comes to, if its row is still there. -/
theorem shows_burnRead (h : Reads file p caller outcome) :
    (Checked.burnRead file outcome).Obeys (.flat (fun _ => True) (StoreServes file.storageKey p (Removes file)))
      (ShowsOk file (outcome.view p)) (ShowsError file (outcome.view p)) () := by
  obtain ⟨hsize, hbounded, rfl, hserved⟩ := h
  unfold Checked.burnRead
  refine (obeys_bind _ _).2 (obeys_getStream trivial hsize ?_)
  refine obeys_check_ok (a := p) rfl ?_
  refine (obeys_bind _ _).2 (obeys_reject.2 ⟨fun hlen => absurd hsize.symm hlen, fun _ => ?_⟩)
  refine (obeys_bind _ _).2 (removes_removeFile.mono ?_ fun _ _ h => h.elim)
  rintro _ _ rfl
  refine (obeys_bind _ _).2 (obeys_reject.2 ⟨fun hremoved => by simp at hremoved, fun _ => ?_⟩)
  refine obeys_check_ok (slice_requested hbounded hserved) ?_
  rw [hsize]
  exact obeys_rawResponse_shown (rawView_response caller p _)

/-- What a read of any other file comes to, if the content is still there. -/
theorem shows_streamRead (h : Reads file p caller outcome) :
    (Checked.streamRead file outcome).Obeys (.flat (fun _ => True) (StoreServes file.storageKey p (Removes file)))
      (ShowsOk file (outcome.view p)) (ShowsError file (outcome.view p)) () := by
  unfold Checked.streamRead
  refine (obeys_bind _ _).2 ((obeys_openStream h fun _ _ => trivial).mono ?_ fun _ _ he => he.elim)
  rintro _ _ rfl
  rw [h.size]
  exact obeys_rawResponse_shown (rawView_responseStream outcome p _)

end Agree

/-! ## Pastes -/

theorem rawView_paste (paste : PasteRow) (outcome : RangeOutcome) (fullLen : ℕ) (bytes : Bytes) :
    (rawPasteResponse paste outcome fullLen bytes).rawView =
      (Range.response outcome fullLen (.paste paste.idCore) bytes).rawView := by
  simp [rawPasteResponse, Response.rawView, Response.withHeaders, List.lookup_append, List.lookup]

theorem rawView_rawPasteResponse (paste : PasteRow) (caller : Caller) (p : Bytes) :
    (rawPasteResponse paste (requestedRange caller p.length) p.length
      ((requestedRange caller p.length).view p).body).rawView = (requestedRange caller p.length).view p :=
  (rawView_paste paste _ _ _).trans (rawView_response caller p _)

theorem brokenOff_rawPasteResponse (paste : PasteRow) (outcome : RangeOutcome) (p bytes : Bytes) :
    (rawPasteResponse paste outcome p.length bytes).brokenOff = none :=
  brokenOff_responseStream outcome _ _ _

section Pastes

variable {paste : PasteRow} {caller : Caller}

/-- The end of `raw_paste`. -/
theorem obeys_sendPaste (hbounded : (utf8 paste.body).length < 2 ^ 63)
    (hserved : (requestedRange caller (utf8 paste.body).length).Served) (hP : ∀ op, P op) :
    (Checked.sendPaste paste (requestedRange caller (utf8 paste.body).length)).Obeys (.flat P ok)
      (fun response _ => response.rawView = (requestedRange caller (utf8 paste.body).length).view
        (utf8 paste.body) ∧ response.brokenOff = none) NoPanic () := by
  have hview := rawView_rawPasteResponse paste caller (utf8 paste.body)
  unfold Checked.sendPaste
  by_cases hburn : paste.burnAfterRead = true
  · simp only [if_pos hburn]
    refine (obeys_bind _ _).2 (noPanic_ask (hP _) fun deleted _ => ?_)
    refine (obeys_bind _ _).2 (obeys_reject.2 ⟨fun _ => by simp [NoPanic], fun _ => ?_⟩)
    exact obeys_check_ok (slice_requested hbounded hserved)
      ⟨hview, brokenOff_rawPasteResponse paste _ _ _⟩
  · simp only [if_neg hburn]
    exact obeys_check_ok (slice_requested hbounded hserved)
      ⟨hview, brokenOff_rawPasteResponse paste _ _ _⟩

theorem removes_deletePaste {core : Text} : (ask (.deletePaste core)).Obeys (.flat (fun _ => True) RemovesPaste)
    (fun deleted _ => deleted = true) (fun _ _ => False) () := by
  refine obeys_ask.2 ⟨trivial, ?_⟩
  rintro r ⟨⟩ hr
  obtain rfl : r = .ok true := hr
  exact ⟨fun _ hv => (Except.ok.inj hv).symm, fun _ he => by cases he⟩

/-- If the row is still there, it comes to the same whether the paste is read once or not. -/
theorem shows_sendPaste (hbounded : (utf8 paste.body).length < 2 ^ 63)
    (hserved : (requestedRange caller (utf8 paste.body).length).Served) :
    (Checked.sendPaste paste (requestedRange caller (utf8 paste.body).length)).Obeys
      (.flat (fun _ => True) RemovesPaste)
      (fun response _ => response.rawView = (requestedRange caller (utf8 paste.body).length).view
        (utf8 paste.body)) (fun _ _ => False) () := by
  have hview := rawView_rawPasteResponse paste caller (utf8 paste.body)
  unfold Checked.sendPaste
  by_cases hburn : paste.burnAfterRead = true
  · simp only [if_pos hburn]
    refine (obeys_bind _ _).2 (removes_deletePaste.mono ?_ fun _ _ h => h.elim)
    rintro _ _ rfl
    refine (obeys_bind _ _).2 (obeys_reject.2 ⟨fun h => by simp at h, fun _ => ?_⟩)
    exact obeys_check_ok (slice_requested hbounded hserved) hview
  · simp only [if_neg hburn]
    exact obeys_check_ok (slice_requested hbounded hserved) hview

/-- **`raw_paste`**, whatever the database answers beside the row. -/
theorem obeys_rawPaste (env : Env) (password : Option Text) (segment : Text)
    (hbounded : (utf8 paste.body).length < 2 ^ 63) :
    (Checked.rawPaste env caller password segment).Obeys
      (.flat (MayRead (requestedRange caller (utf8 paste.body).length)) (LoadsPaste paste))
      (fun response _ => requestedRange caller (utf8 paste.body).length ≠ .invalid ∧
        response.rawView = (requestedRange caller (utf8 paste.body).length).view (utf8 paste.body) ∧
        response.brokenOff = none) NoPanic () := by
  have hP : ∀ op : Op, op.area = none → MayRead (requestedRange caller (utf8 paste.body).length) op :=
    fun op hop => .inl hop
  unfold Checked.rawPaste
  refine (obeys_bind _ _).2 ((obeys_loadLivePaste hP segment).mono ?_ fun _ _ he => he)
  rintro paste _ rfl
  refine (obeys_bind _ _).2 ((obeys_checkPassword hP env _ _ _ password).mono (fun _ _ _ => ?_)
    fun _ _ he => he)
  refine obeys_outcome fun hvalid => ?_
  by_cases hunsat : requestedRange caller (utf8 paste.body).length = .unsatisfiable
  · rw [if_pos hunsat]
    have hview := rawView_rawPasteResponse paste caller (utf8 paste.body)
    rw [hunsat] at hview ⊢
    exact ⟨by simp, hview, brokenOff_rawPasteResponse paste _ _ _⟩
  · rw [if_neg hunsat]
    exact (obeys_sendPaste hbounded ⟨hvalid, hunsat⟩ fun op => .inr ⟨hvalid, hunsat⟩).mono
      (fun _ _ h => ⟨hvalid, h⟩) fun _ _ he => he

end Pastes

end Lines

/-! ## The handlers and their panics -/

/-- The sizes of the rows that the database answers with fit their columns. -/
def SizedRows : (op : Op) → op.Res → Prop
  | .findFile _, .ok (some found) => found.sizeBytes < 2 ^ 63
  | .findPaste _, .ok (some found) => (utf8 found.body).length < 2 ^ 63
  | _, _ => True

section Panics

variable {file : File} {paste : PasteRow} {caller : Caller}

/-- The branch for files that are read once is that of `raw`. -/
theorem Checked.burnRead_eq (hsize : file.sizeBytes < 2 ^ 63)
    (hserved : (requestedRange caller file.sizeBytes).Served) :
    Checked.burnRead file (requestedRange caller file.sizeBytes) =
      Server.burnRead file (requestedRange caller file.sizeBytes) := by
  obtain ⟨header, heq⟩ := requestedRange_eq hserved.1
  unfold Checked.burnRead Server.burnRead
  congr 1
  funext delivery
  congr 1
  funext all
  by_cases hall : all.length = file.sizeBytes
  · rw [heq, ← hall] at hserved ⊢
    rw [Checked.slice_eq (by omega) hserved.1 hserved.2]
    rfl
  · rw [reject, if_pos hall]
    rfl

/-- So is the other branch. -/
theorem Checked.streamRead_eq (hsize : file.sizeBytes < 2 ^ 63)
    (hserved : (requestedRange caller file.sizeBytes).Served) :
    Checked.streamRead file (requestedRange caller file.sizeBytes) =
      Server.streamRead file (requestedRange caller file.sizeBytes) := by
  obtain ⟨header, heq⟩ := requestedRange_eq hserved.1
  have hopen : Checked.openStream file (requestedRange caller file.sizeBytes) =
      Server.openStream file (requestedRange caller file.sizeBytes) := by
    cases houtcome : requestedRange caller file.sizeBytes with
    | satisfiable start stop =>
      obtain ⟨hstart, hstop⟩ := Range.parse_satisfiable (heq.symm.trans houtcome)
      unfold Checked.openStream Server.openStream
      simp only [subU64_of_le hstart]
      show (check (addU64 (stop - start) 1) >>= _) = _
      rw [addU64_of_lt (by omega)]
      rfl
    | full | invalid | unsatisfiable => rfl
  unfold Checked.streamRead Server.streamRead
  rw [hopen]

/-- From the `Range` header on, where the two do the same with a range that is valid. -/
theorem Checked.outcome_congr {len : ℕ} {f : RangeOutcome → Handler Response}
    (g : RangeOutcome → Handler Response) (h : requestedRange caller len ≠ .invalid →
      f (requestedRange caller len) = g (requestedRange caller len)) :
    (do
      let header ← check (rangeHeader caller.headers)
      let outcome ← check (Checked.parse header len)
      reject (outcome = .invalid) (AppError.badRequest "invalid Range header")
      f outcome : Handler Response) =
    (do
      let header ← check (rangeHeader caller.headers)
      let outcome := Range.parse header len
      reject (outcome = .invalid) (AppError.badRequest "invalid Range header")
      g outcome : Handler Response) := by
  cases hheader : rangeHeader caller.headers with
  | error e => rfl
  | ok header =>
    rw [requestedRange, hheader] at h
    show (check (Checked.parse header len) >>= _) = _
    rw [Checked.parse_eq]
    show (reject (Range.parse header len = .invalid) _ >>= fun _ => f (Range.parse header len)) =
      reject (Range.parse header len = .invalid) _ >>= fun _ => g (Range.parse header len)
    by_cases hinvalid : Range.parse header len = .invalid
    · rw [reject, if_pos hinvalid]
      rfl
    · rw [h hinvalid]

/-- Two continuations that do the same with every value there can be. -/
theorem obeys_bind_congr {Γ α : Type} {π : Protocol Γ Op Op.Res} {err : Abort → Γ → Prop} {γ : Γ}
    {fin : Response → Γ → Prop} {program : Handler α} {P : α → Prop} {f g : α → Handler Response}
    (hP : Ends π.next (fun a _ => P a) program) (h : ∀ a, P a → f a = g a) :
    (program >>= f).Obeys π fin err γ ↔ (program >>= g).Obeys π fin err γ := by
  have hone : ∀ {f g : α → Handler Response}, (∀ a, P a → f a = g a) →
      (program >>= f).Obeys π fin err γ → (program >>= g).Obeys π fin err γ := by
    intro f g hfg hf
    refine (obeys_bind _ _).2 ((Obeys.and (hP γ) ((obeys_bind _ _).1 hf)).mono ?_ fun _ _ he => he.2)
    rintro a γ ⟨ha, hfa⟩
    rwa [← hfg a ha]
  exact ⟨hone h, hone fun a ha => (h a ha).symm⟩

/-- Whatever holds of the rows that the query finds holds of the row that is loaded. -/
theorem ends_loadLive {Γ Row : Type} {next : Γ → (op : Op) → op.Res → Γ → Prop}
    {find : Text → Handler (Option Row)} {expiresAt : Row → Option ℤ} {Q : Row → Prop} {segment : Text}
    (hfind : ∀ core, Ends next (fun found _ => ∀ row, found = some row → Q row) (find core)) :
    Ends next (fun row _ => Q row) (loadLive find expiresAt segment) := by
  refine .reject fun _ γ => (obeys_bind _ _).2 ((hfind _ γ).mono (fun found γ' hfound => ?_) fun _ _ he => he)
  have hrest : Ends next (fun row _ => Q row) (do
      let row ← (orThrow found AppError.notFound : Handler Row)
      let now ← ask .now
      reject (expired (expiresAt row) now) AppError.notFound
      pure row) :=
    .orThrow fun row hrow => .skip fun _ => .reject fun _ => .pure fun _ => hfound row hrow
  exact hrest γ'

section Rows

variable {Γ : Type} {π : Protocol Γ Op Op.Res} (hπ : ∀ γ op r γ', π.next γ op r γ' → SizedRows op r)
  {segment : Text} {err : Abort → Γ → Prop} {γ : Γ}

include hπ

/-- A file that is loaded has such a size. -/
theorem sized_loadLiveFile : Ends π.next (fun file _ => file.sizeBytes < 2 ^ 63) (loadLiveFile segment) := by
  rw [loadLiveFile_eq]
  refine ends_loadLive fun core γ => obeys_ask.2 ⟨trivial, fun r γ' hr => ⟨?_, fun _ _ => trivial⟩⟩
  rintro _ rfl file rfl
  exact hπ γ _ _ γ' hr

/-- So has a paste. -/
theorem sized_loadLivePaste :
    Ends π.next (fun paste _ => (utf8 paste.body).length < 2 ^ 63) (loadLivePaste segment) := by
  rw [loadLivePaste_eq]
  refine ends_loadLive fun core γ => obeys_ask.2 ⟨trivial, fun r γ' hr => ⟨?_, fun _ _ => trivial⟩⟩
  rintro _ rfl paste rfl
  exact hπ γ _ _ γ' hr

/-- **`raw` with its panics is `raw`**: over a database whose sizes fit their columns, both obey the same
protocols, with the same ends. -/
theorem Checked.obeys_raw_iff (env : Env) (password : Option Text) {fin : Response → Γ → Prop} :
    (Checked.raw env caller password segment).Obeys π fin err γ ↔
      (Server.raw env caller password segment).Obeys π fin err γ := by
  refine obeys_bind_congr (sized_loadLiveFile hπ) fun file hsize => ?_
  congr 1
  funext _
  refine Checked.outcome_congr (fun outcome =>
    if outcome = .unsatisfiable then
      check (rawResponse file (Range.response outcome file.sizeBytes (.file file.idCore) []))
    else if file.burnAfterRead then Server.burnRead file outcome
    else Server.streamRead file outcome) fun hvalid => ?_
  by_cases hunsat : requestedRange caller file.sizeBytes = .unsatisfiable
  · rw [if_pos hunsat, if_pos hunsat]
  · rw [if_neg hunsat, if_neg hunsat, Checked.burnRead_eq hsize ⟨hvalid, hunsat⟩,
      Checked.streamRead_eq hsize ⟨hvalid, hunsat⟩]

/-- **`raw_paste` with its panics is `rawPaste`**, in the same sense. -/
theorem Checked.obeys_rawPaste_iff (env : Env) (password : Option Text) {fin : Response → Γ → Prop} :
    (Checked.rawPaste env caller password segment).Obeys π fin err γ ↔
      (Server.rawPaste env caller password segment).Obeys π fin err γ := by
  refine obeys_bind_congr (sized_loadLivePaste hπ) fun paste hsize => ?_
  congr 1
  funext _
  refine Checked.outcome_congr (fun outcome =>
    let all := utf8 paste.body
    if outcome = .unsatisfiable then pure (rawPasteResponse paste outcome all.length [])
    else if paste.burnAfterRead then do
      let deleted ← ask (.deletePaste paste.idCore.val)
      reject (!deleted) AppError.notFound
      pure (rawPasteResponse paste outcome all.length (outcome.slice all))
    else pure (rawPasteResponse paste outcome all.length (outcome.slice all))) fun hvalid => ?_
  by_cases hunsat : requestedRange caller (utf8 paste.body).length = .unsatisfiable
  · rw [if_pos hunsat, if_pos hunsat]
  · rw [if_neg hunsat, if_neg hunsat]
    obtain ⟨header, heq⟩ := requestedRange_eq hvalid
    unfold Checked.sendPaste
    rw [heq] at hvalid hunsat ⊢
    simp only [Checked.slice_eq hsize hvalid hunsat]
    split
    · rfl
    · rfl

end Rows

end Panics

/-! ## What a live row is answered with -/

/-- The path names an item, and the item has not expired. -/
structure Live (segment : Text) (expiresAt : Option ℤ) (now : ℤ) : Prop where
  named : (stripToCore segment).isEmpty = false ∧ isReserved (stripToCore segment) = false
  unexpired : expired expiresAt now = false

/-- The password, if there is one, has been given, in the session or with the request. -/
def Given (env : Env) (session : Session) (accessPasswordHash : Option Text) (core : Core)
    (password : Option Text) : Prop :=
  ∀ hash, accessPasswordHash = some hash →
    core ∈ session.unlocked ∨ ∃ given, password = some given ∧ env.verifyPassword hash given = true

/-- The file is found and stays, and nothing fails. -/
def FindsFile (file : File) (now : ℤ) (session : Session) : (op : Op) → op.Res → Prop
  | .findFile _, r => r = .ok (some file)
  | .now, r => r = .ok now
  | .session _, r => r = .ok session
  | op, r => Removes file op r

/-- The paste is found and stays, and nothing fails. -/
def FindsPaste (paste : PasteRow) (now : ℤ) (session : Session) : (op : Op) → op.Res → Prop
  | .findPaste _, r => r = .ok (some paste)
  | .now, r => r = .ok now
  | .session _, r => r = .ok session
  | op, r => RemovesPaste op r

/-- The answer to a range of an item: the view of the range, which becomes `shows`, or a `400`. -/
def rangeAnswer (outcome : RangeOutcome) (shows : Except Abort RawView) : Except Abort RawView :=
  if outcome = .invalid then .error (AppError.badRequest "invalid Range header") else shows

/-- A program whose result has the view `answer`. -/
def AnswersWith (ok : (op : Op) → op.Res → Prop) (answer : Except Abort RawView) (program : Handler Response) :
    Prop :=
  program.Obeys (.flat (fun _ => True) ok) (fun response _ => .ok response.rawView = answer)
    (fun e _ => .error e = answer) ()

section Answered

variable {ok' : (op : Op) → op.Res → Prop} {env : Env} {segment : Text} {now : ℤ} {session : Session}
  {password : Option Text} {caller : Caller} {answer : Except Abort RawView}

/-- What holds whatever the answers are holds of fewer answers. -/
theorem AnswersWith.of_fewer {program : Handler Response} (h : AnswersWith ok answer program)
    (hok : ∀ op r, ok' op r → ok op r) : AnswersWith ok' answer program :=
  (Prog.Obeys.simulate (fun _ _ => True) (fun _ hop => hop) (fun _ _ hr => ⟨(), hok _ _ hr, trivial⟩) h
    trivial).mono fun _ _ ⟨_, _, hfin⟩ => hfin

/-- A line that succeeds. -/
theorem AnswersWith.line {α : Type} {program : Handler α} {f : α → Handler Response} {a : α}
    (h : program.Obeys (.flat (fun _ => True) ok) (fun found _ => found = a) (fun _ _ => False) ())
    (hf : AnswersWith ok answer (f a)) : AnswersWith ok answer (program >>= f) := by
  refine (obeys_bind _ _).2 (h.mono ?_ fun _ _ he => he.elim)
  rintro _ _ rfl
  exact hf

/-- A live row that is found is loaded. -/
theorem loads_live {Row : Type} {find : Text → Handler (Option Row)} {expiresAt : Row → Option ℤ} {row : Row}
    (hlive : Live segment (expiresAt row) now) (hnow : ∀ r, ok .now r → r = .ok now)
    (hfind : ∀ core, (find core).Obeys (.flat (fun _ => True) ok) (fun found _ => found = some row)
      (fun _ _ => False) ()) :
    (loadLive find expiresAt segment).Obeys (.flat (fun _ => True) ok) (fun found _ => found = row)
      (fun _ _ => False) () := by
  obtain ⟨⟨hempty, hreserved⟩, hunexpired⟩ := hlive
  refine (obeys_bind _ _).2 (obeys_reject.2 ⟨fun h => by simp [hempty, hreserved] at h, fun _ => ?_⟩)
  refine (obeys_bind _ _).2 ((hfind _).mono ?_ fun _ _ he => he)
  rintro _ _ rfl
  refine (obeys_bind _ _).2 (obeys_orThrow.2 ⟨nofun, ?_⟩)
  rintro _ ⟨⟩
  refine (obeys_bind _ _).2 (ask_answered trivial hnow ?_)
  exact (obeys_bind _ _).2 (obeys_reject.2 ⟨fun h => by simp [hunexpired] at h, fun _ => rfl⟩)

/-- A password that has been given is accepted. -/
theorem accepts_password {hash : Option Text} {core : Core} (h : Given env session hash core password)
    (hsession : ∀ sid r, ok (.session sid) r → r = .ok session) :
    (checkPassword env caller.session hash core password).Obeys (.flat (fun _ => True) ok)
      (fun found _ => found = ()) (fun _ _ => False) () := by
  cases hash with
  | none => rfl
  | some hash =>
    refine (obeys_bind _ _).2 (obeys_always.2 ⟨trivial, ?_⟩)
    rintro r _ hr
    obtain rfl := hsession _ r hr
    refine obeys_reject.2 ⟨fun hrejected => ?_, fun _ => rfl⟩
    simp only [Bool.and_eq_true, Bool.not_eq_true', decide_eq_false_iff_not] at hrejected
    rcases h hash rfl with hunlocked | ⟨given, rfl, hverified⟩
    · exact hrejected.1 hunlocked
    · simp [hverified] at hrejected

/-- From the `Range` header on. -/
theorem AnswersWith.outcome {len : ℕ} {f : RangeOutcome → Handler Response} {shows : Except Abort RawView}
    (hf : requestedRange caller len ≠ .invalid → AnswersWith ok shows (f (requestedRange caller len))) :
    AnswersWith ok (rangeAnswer (requestedRange caller len) shows) (do
      let header ← check (rangeHeader caller.headers)
      let outcome ← check (Checked.parse header len)
      reject (outcome = .invalid) (AppError.badRequest "invalid Range header")
      f outcome) := by
  unfold rangeAnswer
  cases hheader : rangeHeader caller.headers with
  | error e =>
    have hinvalid : requestedRange caller len = .invalid := by rw [requestedRange, hheader]
    rw [if_pos hinvalid]
    unfold rangeHeader at hheader
    split at hheader
    · cases hheader
    · split at hheader
      · cases hheader
      · cases hheader
        rfl
  | ok header =>
    have hrequested : requestedRange caller len = Range.parse header len := by rw [requestedRange, hheader]
    refine obeys_check_ok (a := header) rfl (obeys_check_ok (Checked.parse_eq header len) ?_)
    rw [← hrequested]
    refine (obeys_bind _ _).2 (obeys_reject.2 ⟨fun hinvalid => ?_, fun hvalid => ?_⟩)
    · rw [if_pos hinvalid]
    · rw [if_neg hvalid]
      exact hf hvalid

/-- **`raw` of a live file** answers with the view of the range, whether the file is read once or not. -/
theorem answers_raw (caller : Caller) (file : File) (hsize : file.sizeBytes = p.length)
    (hbounded : p.length < 2 ^ 63) (hlive : Live segment file.expiresAt now)
    (hgiven : Given env session file.accessPasswordHash file.idCore password) :
    AnswersWith (StoreServes file.storageKey p (FindsFile file now session))
      (rangeAnswer (requestedRange caller p.length) (shown file ((requestedRange caller p.length).view p)))
      (Checked.raw env caller password segment) := by
  have hfewer : ∀ op r, StoreServes file.storageKey p (FindsFile file now session) op r →
      StoreServes file.storageKey p (Removes file) op r := by
    intro op r hr
    cases op <;> first | exact hr | trivial
  unfold Checked.raw
  rw [loadLiveFile_eq]
  refine .line (loads_live hlive (fun _ hr => hr) fun _ => ask_answered trivial (fun _ hr => hr) rfl) ?_
  refine .line (accepts_password hgiven fun _ _ hr => hr) ?_
  rw [hsize]
  refine .outcome fun hvalid => ?_
  by_cases hunsat : requestedRange caller p.length = .unsatisfiable
  · rw [if_pos hunsat]
    have hview := rawView_response caller p (.file file.idCore)
    rw [hunsat] at hview ⊢
    exact obeys_rawResponse_shown hview
  · rw [if_neg hunsat]
    have hreads : Reads file p caller (requestedRange caller p.length) :=
      ⟨hsize, hbounded, rfl, hvalid, hunsat⟩
    by_cases hburn : file.burnAfterRead = true
    · rw [if_pos hburn]
      exact AnswersWith.of_fewer (shows_burnRead hreads) hfewer
    · rw [if_neg hburn]
      exact AnswersWith.of_fewer (shows_streamRead hreads) hfewer

/-- **`raw_paste` of a live paste** does. -/
theorem answers_rawPaste (caller : Caller) (paste : PasteRow)
    (hbounded : (utf8 paste.body).length < 2 ^ 63)
    (hlive : Live segment paste.expiresAt now)
    (hgiven : Given env session paste.accessPasswordHash paste.idCore password) :
    AnswersWith (FindsPaste paste now session)
      (rangeAnswer (requestedRange caller (utf8 paste.body).length)
        (.ok ((requestedRange caller (utf8 paste.body).length).view (utf8 paste.body))))
      (Checked.rawPaste env caller password segment) := by
  have hfewer : ∀ op r, FindsPaste paste now session op r → RemovesPaste op r := by
    intro op r hr
    cases op <;> first | exact hr | trivial
  unfold Checked.rawPaste
  rw [loadLivePaste_eq]
  refine .line (loads_live hlive (fun _ hr => hr) fun _ => ask_answered trivial (fun _ hr => hr) rfl) ?_
  refine .line (accepts_password hgiven fun _ _ hr => hr) ?_
  refine .outcome fun hvalid => ?_
  by_cases hunsat : requestedRange caller (utf8 paste.body).length = .unsatisfiable
  · rw [if_pos hunsat]
    have hview := rawView_rawPasteResponse paste caller (utf8 paste.body)
    rw [hunsat] at hview ⊢
    exact congrArg _ hview
  · rw [if_neg hunsat]
    refine AnswersWith.of_fewer ((shows_sendPaste hbounded ⟨hvalid, hunsat⟩).mono ?_ fun _ _ h => h.elim) hfewer
    exact fun _ _ hview => congrArg _ hview

end Answered

/-! ## Where names come from -/

/-- A row that is inserted has a name that was sanitized. -/
def InsertsName (op : Op) : Prop := ∀ row columns, op = .insertFile row columns → StoredName ⟨row, columns⟩

theorem insertsName_of_within {S : List Area} (hS : Area.newFiles ∉ S) {op : Op} (h : Within S op) :
    InsertsName op := by
  rintro row columns rfl
  exact absurd (h _ rfl) hS

/-- Every row that the program inserts has a name that was sanitized. -/
def InsertsNames {α : Type} (p : Handler α) : Prop :=
  p.Obeys (.flat InsertsName fun _ _ => True) (fun _ _ => True) (fun _ _ => True) ()

/-- A step that inserts nothing, with what is known of its value. -/
theorem InsertsNames.step {α β : Type} {p : Handler α} {f : α → Handler β} {P : α → Prop} (hp : Only [] p)
    (hP : Ends (fun (_ : Unit) _ _ _ => True) (fun a _ => P a) p) (hf : ∀ a, P a → InsertsNames (f a)) :
    InsertsNames (p >>= f) := by
  have hflat : p.run.Obeys (.flat (Within []) fun _ _ => True) (fun _ _ => True) () :=
    Prog.Obeys.mono hp fun _ _ _ => trivial
  have hread : p.Obeys (.flat InsertsName fun _ _ => True) (fun a _ => P a) (fun _ _ => True) () :=
    Prog.Obeys.restrict (hflat.weaken fun op hop => insertsName_of_within List.not_mem_nil hop) (hP ())
  exact (obeys_bind _ _).2 (hread.mono (fun a _ ha => hf a ha) fun _ _ _ => trivial)

theorem InsertsNames.skip {α β : Type} {p : Handler α} {f : α → Handler β} (hp : Only [] p)
    (hf : ∀ a, InsertsNames (f a)) : InsertsNames (p >>= f) := .step hp .trivially fun a _ => hf a

/-- The plan of an upload leaves the name as it is given. -/
theorem columns_uploadPlan (env : Env) (cfg : InstanceConfig) (limits : EffectiveLimits) (user : Option User)
    (req : UploadRequest) (form : UploadForm) : Ends (fun (_ : Unit) _ _ _ => True)
      (fun plan _ => ∀ name, (plan.columns name).originalName = name)
      (uploadPlan env cfg limits user req form) :=
  .orThrow fun _ _ => .reject fun _ => .check fun _ _ => .check fun _ _ => .check fun _ _ =>
    .check fun _ _ => .check fun _ _ => .reject fun _ => .check fun _ _ => .check fun _ _ =>
    .skip fun _ => .check fun _ _ => .pure fun _ _ => rfl

/-- The row of an upload has a name that was sanitized. -/
theorem insertsNames_storeUpload (env : Env) (plan : UploadPlan) (req : UploadRequest)
    (hplan : ∀ name, (plan.columns name).originalName = name) : InsertsNames (storeUpload env plan req) := by
  unfold storeUpload
  split
  · rename_i hfits
    have hfree : (uploadInner env.sha256 (plan.upload env ⟨plan.bytes, hfits⟩ req)).Obeys
        (.flat (fun _ => True) fun _ _ => True) (fun _ _ => True) () := Prog.Obeys.trivially _
    refine (obeys_bind _ _).2 (Fallible.Obeys.mono (Prog.Obeys.interp_fallible ?_ hfree) ?_ fun _ _ h => h)
    · intro _ op _
      cases op with
      | insertFile row =>
        refine (obeys_bind _ _).2 (obeys_orThrow.2 ⟨fun _ => trivial, fun name hname => ?_⟩)
        refine ⟨?_, fun _ _ _ => trivial⟩
        rintro _ _ ⟨⟩
        exact ⟨_, hname.trans (congrArg some (hplan name).symm)⟩
      | _ => exact ⟨(by rintro _ _ ⟨⟩), fun _ _ _ => trivial⟩
    · exact fun _ _ _ => obeys_check.2 ⟨fun _ _ => trivial, fun _ _ => trivial⟩
  · have hclaim : (claimNewCore req.draws).Obeys (.flat InsertsName fun _ _ => True) (fun _ _ => True)
        (fun _ _ => True) () :=
      Prog.Obeys.weaken (only_claimNewCore (S := [.files]) req.draws (List.mem_singleton.2 rfl))
        fun op hop => insertsName_of_within (by decide) hop
    exact (obeys_bind _ _).2 (hclaim.mono (fun _ _ _ => trivial) fun _ _ h => h)

/-- **Uploads store sanitized names**, so a row has one. -/
theorem insertsNames_upload (env : Env) (caller : Caller) (req : UploadRequest) :
    InsertsNames (upload env caller req) := by
  refine .skip (.always (only_currentIdentity env caller)) fun identity =>
    .skip (only_requireScopeIfBearer caller _ _) fun _ => .skip (.read rfl) fun cfg =>
    .skip .reject fun _ => .skip .reject fun _ => .skip (only_effectiveLimits cfg _) fun limits =>
    .skip (only_quotaRemaining _ limits) fun remaining => .skip .check fun form =>
    .step (only_uploadPlan env cfg limits _ req form) (columns_uploadPlan env cfg limits _ req form)
      fun plan hplan => ?_
  refine (obeys_bind _ _).2 (Fallible.Obeys.mono (insertsNames_storeUpload env plan req hplan) ?_
    fun _ _ h => h)
  intro core _ _
  by_cases hhtml : wantsHtml caller.headers = true
  · simp only [hhtml]
    exact trivial
  · simp only [hhtml]
    exact trivial

/-! ## Raw reads are consistent -/

theorem Right.of_response {caller : Caller} {p : Bytes} {response : Response}
    (h : requestedRange caller p.length ≠ .invalid ∧
      response.rawView = (requestedRange caller p.length).view p ∧ response.brokenOff = none) :
    Right (requestedRange caller p.length) p (.ok response) := by
  obtain ⟨hvalid, hview, hwhole⟩ := h
  refine ⟨by simp, fun _ _ => hvalid, ?_, ?_, ?_, ?_⟩
  · rintro _ ⟨⟩
    exact hview
  · rintro _ ⟨⟩
    exact hwhole
  · rintro _ ⟨⟩
    rw [hview, length_requested]
    cases requestedRange caller p.length <;> rfl
  · intro start stop hrange
    obtain ⟨header, heq⟩ := requestedRange_eq hvalid
    exact Range.parse_satisfiable (heq.symm.trans hrange)

theorem Right.of_error {caller : Caller} {p : Bytes} {e : Abort} (h : e ≠ .panic) :
    Right (requestedRange caller p.length) p (.error e) := by
  refine ⟨by simpa using h, ?_, ?_, ?_, ?_, ?_⟩
  · rintro _ ⟨⟩
  · rintro _ ⟨⟩
  · rintro _ ⟨⟩
  · rintro _ ⟨⟩
  · intro start stop hrange
    obtain ⟨header, heq⟩ := requestedRange_eq (by rw [hrange]; simp)
    exact Range.parse_satisfiable (heq.symm.trans hrange)

/-- **The raw reads of a file with content `p`.** -/
structure FileReads (A : Cipher) (store : Store) (be : Backend) (objs : Objects) (env : Env) (file : File)
    (p : Bytes) (caller : Caller) (password : Option Text) (segment : Text) : Prop where
  /-- Whatever the database does: no panic, the right view, and nothing is written unless content is
  served. -/
  right : (served A store (Checked.raw env caller password segment)).Obeys
    (.flat (Allowed (MayRead (requestedRange caller p.length))) (Backed be objs (LoadsFile file)))
    (fun result _ => Right (requestedRange caller p.length) p result) ()
  /-- Where nothing fails and the row is still there, the two branches come to the same. -/
  same : (requestedRange caller p.length).Served →
    (served A store (Checked.burnRead file (requestedRange caller p.length))).Obeys
      (.flat (Allowed fun _ => True) (Backed be objs (Removes file)))
      (fun burned _ => (served A store (Checked.streamRead file (requestedRange caller p.length))).Obeys
        (.flat (Allowed fun _ => True) (Backed be objs (Removes file)))
        (fun streamed _ => burned.map Response.rawView = streamed.map Response.rawView ∧
          ∀ response, streamed = .ok response →
            response.rawView = (requestedRange caller p.length).view p) ()) ()
  /-- **A live file is served**, whether it is read once or not: if the password has been given, the row
  stays and nothing fails, the answer is the view of the range, or a `400` for an invalid one. -/
  answers : ∀ (burns : Bool) (now : ℤ) (session : Session), Live segment file.expiresAt now →
    Given env session file.accessPasswordHash file.idCore password →
    (served A store (Checked.raw env caller password segment)).Obeys
      (.flat (Allowed fun _ => True)
        (Backed be objs (FindsFile { file with burnAfterRead := burns } now session)))
      (fun result _ => result.map Response.rawView = rangeAnswer (requestedRange caller p.length)
        (shown file ((requestedRange caller p.length).view p))) ()
  /-- The headers fail only on a type that cannot be the value of one. -/
  headers : isHeaderValue file.mimeStored = true → ∀ view, shown file view = .ok view

/-- **The raw reads of a paste**, whose content are the bytes of its body. -/
structure PasteReads (env : Env) (paste : PasteRow) (caller : Caller) (password : Option Text)
    (segment : Text) : Prop where
  right : (Checked.rawPaste env caller password segment).run.Obeys
    (.flat (MayRead (requestedRange caller (utf8 paste.body).length)) (LoadsPaste paste))
    (fun result _ => Right (requestedRange caller (utf8 paste.body).length) (utf8 paste.body) result) ()
  same : (requestedRange caller (utf8 paste.body).length).Served → ∀ burns,
    (Checked.sendPaste { paste with burnAfterRead := burns }
      (requestedRange caller (utf8 paste.body).length)).run.Obeys (.flat (fun _ => True) RemovesPaste)
      (fun sent _ => sent.map Response.rawView =
        .ok ((requestedRange caller (utf8 paste.body).length).view (utf8 paste.body))) ()
  /-- **A live paste is served**, whether it is read once or not. -/
  answers : ∀ (burns : Bool) (now : ℤ) (session : Session), Live segment paste.expiresAt now →
    Given env session paste.accessPasswordHash paste.idCore password →
    (Checked.rawPaste env caller password segment).run.Obeys
      (.flat (fun _ => True) (FindsPaste { paste with burnAfterRead := burns } now session))
      (fun result _ => result.map Response.rawView =
        rangeAnswer (requestedRange caller (utf8 paste.body).length)
          (.ok ((requestedRange caller (utf8 paste.body).length).view (utf8 paste.body)))) ()

/-- Whether a file is read once is no matter for its view. -/
theorem shown_burns (file : File) (burns : Bool) (view : RawView) :
    shown { file with burnAfterRead := burns } view = shown file view := by
  unfold shown Server.downloadHeaders
  by_cases hinline : shouldInline file.mimeStored = true
  · simp only [hinline, if_true]
    split <;> rfl
  · simp only [hinline, Bool.false_eq_true, if_false]
    split
    · rfl
    · split
      · rfl
      · split <;> rfl

theorem fileReads {A : Cipher} {store : Store} {be : Backend} {objs : Objects} (hA : A.Sound) (env : Env)
    (caller : Caller) (password : Option Text) (segment : Text) {file : File} {p obj : Bytes}
    {written : Option Key} (h : StoredAs A p written obj) (hread : CanRead p written store.encryptionKey)
    (ho : objs file.storageKey = some obj) (hsize : file.sizeBytes = p.length) (hp : p.length < 2 ^ 63)
    (hname : StoredName file) : FileReads A store be objs env file p caller password segment where
  right := by
    refine (obeys_served hA h hread ho hp (obeys_raw env password segment hsize hp hname)).mono ?_
    intro result _ hresult
    cases result with
    | ok response => exact .of_response hresult
    | error e => exact .of_error hresult
  same hserved := by
    have hreads : Reads file p caller (requestedRange caller p.length) := ⟨hsize, hp, rfl, hserved⟩
    refine (obeys_served hA h hread ho hp (shows_burnRead hreads)).mono ?_
    intro burned _ hburned
    refine (obeys_served hA h hread ho hp (shows_streamRead hreads)).mono ?_
    intro streamed _ hstreamed
    have hb : burned.map Response.rawView = shown file ((requestedRange caller p.length).view p) := by
      cases burned <;> exact hburned
    have hs : streamed.map Response.rawView = shown file ((requestedRange caller p.length).view p) := by
      cases streamed <;> exact hstreamed
    refine ⟨hb.trans hs.symm, ?_⟩
    rintro response rfl
    rw [shown] at hs
    cases hheaders : downloadHeaders file with
    | error e =>
      rw [hheaders] at hs
      cases hs
    | ok headers =>
      rw [hheaders] at hs
      exact Except.ok.inj hs
  answers burns now session hlive hgiven := by
    have hanswers := answers_raw caller { file with burnAfterRead := burns } hsize hp hlive hgiven
    rw [shown_burns] at hanswers
    refine (obeys_served hA h hread ho hp hanswers).mono ?_
    intro result _ hresult
    cases result <;> exact hresult
  headers := hname.shown

theorem pasteReads (env : Env) (caller : Caller) (password : Option Text) (segment : Text)
    {paste : PasteRow} (hp : (utf8 paste.body).length < 2 ^ 63) :
    PasteReads env paste caller password segment where
  right := by
    refine Prog.Obeys.mono (obeys_rawPaste env password segment hp) ?_
    intro result _ hresult
    cases result with
    | ok response => exact .of_response hresult
    | error e => exact .of_error hresult
  same hserved burns := by
    have hpaste : (utf8 ({ paste with burnAfterRead := burns } : PasteRow).body).length < 2 ^ 63 := hp
    refine Prog.Obeys.mono (shows_sendPaste hpaste hserved) ?_
    intro sent _ hsent
    cases sent with
    | ok response => exact congrArg _ hsent
    | error e => exact hsent.elim
  answers burns now session hlive hgiven := by
    refine Prog.Obeys.mono
      (answers_rawPaste caller { paste with burnAfterRead := burns } hp hlive hgiven) ?_
    intro result _ hresult
    cases result <;> exact hresult

/-- **Raw reads are consistent**, of every row of a file whose content is stored in any form that the
store can read, and of every row of a paste, for every header. -/
theorem raw_reads_consistent {A : Cipher} {store : Store} {be : Backend} {objs : Objects} (hA : A.Sound)
    (env : Env) (caller : Caller) (password : Option Text) (segment : Text) :
    (∀ (file : File) (p obj : Bytes) (written : Option Key), StoredAs A p written obj →
      CanRead p written store.encryptionKey → objs file.storageKey = some obj →
      file.sizeBytes = p.length → p.length < 2 ^ 63 → StoredName file →
      FileReads A store be objs env file p caller password segment) ∧
    ∀ paste : PasteRow, (utf8 paste.body).length < 2 ^ 63 →
      PasteReads env paste caller password segment :=
  ⟨fun _ _ _ _ h hread ho hsize hp hname => fileReads hA env caller password segment h hread ho hsize hp
    hname, fun _ hp => pasteReads env caller password segment hp⟩

/-- `nnnnnnnn` -/
def noteCore : Core := ⟨List.replicate idLen 'n', List.length_replicate, fun c hc => by
  rw [List.eq_of_mem_replicate hc]
  decide⟩

/-- A note of three bytes. -/
def noteFile : File where
  idCore := noteCore
  ext := ⟨[], isExt_nil⟩
  sizeBytes := 3
  mimeStored := textPlain
  sha256 := Env.plain.sha256 [1, 2, 3]
  storageKey := fileKey noteCore ⟨[], isExt_nil⟩
  thumbKey := none
  ownerId := none
  originalName := ['n']
  visibility := .unlisted
  burnAfterRead := true
  accessPasswordHash := none
  scanStatus := []
  expiresAt := none
  deleteTokenHash := none

theorem raw_reads_consistent_note :
    FileReads Aead.tagged ⟨.localFs, none⟩ .localFs (fun _ => some [1, 2, 3]) .plain noteFile
      [1, 2, 3] ⟨0, .none⟩ none noteFile.idCore.val ∧
    Live noteFile.idCore.val noteFile.expiresAt 0 ∧ isHeaderValue noteFile.mimeStored = true :=
  ⟨(raw_reads_consistent Aead.tagged_sound .plain ⟨0, .none⟩ none noteFile.idCore.val).1 noteFile [1, 2, 3]
    [1, 2, 3] none .plain ⟨rfl, rfl⟩ rfl rfl (by decide) ⟨['n'], by decide⟩,
    ⟨by decide, rfl⟩, by decide⟩

end Server
end Uwuubox
