import Uwuubox.Prog.Basic
import Uwuubox.Storage.Multipart
import Uwuubox.Storage.Spool

/-!
# The write paths of the store

`LocalStore::put`, `LocalStore::stream_write`, `Store::put` and `Store::put_file` of
`src/storage.rs`, as programs over what they ask of the file system, of S3, and of
the tasks they start.

* `WriteOp`, `World`, `exec` — the operations and what they do.  A fault is an
  operation that reports an error; it leaves the visible objects alone.
* `rawPut`, `streamWrite`, `multipartUpload`, `put`, `putFile` — the writers.  Fresh
  nonces are arguments.
* `Attempts faults p good` — `p` either succeeds, with the effect `good`, or, where
  faults are possible, returns an error and has changed no object.  It composes
  (`Attempts.andThen`), and `attempts_rawPut` and `attempts_consume` are built that way.
* `attempts_consumeAndJoin`, `runs_consumeAndJoin_error` — the same for a consumer
  whose pump has succeeded, and what is left of it when the pump has failed.
-/

open Relation

namespace Uwuubox
namespace Storage

open ObjectCrypt Pieces

/-- A single request to the file system or to S3. -/
inductive Request where
  | createDirAll (key : SafeKey)
  | createTmp
  | writeAll (part : Bytes)
  /-- `tokio::fs::write` to the temporary file. -/
  | writeTmp (bytes : Bytes)
  | setPermissions
  | rename (key : SafeKey)
  | putObject (key : SafeKey) (bytes : Bytes)
  | createMultipart (key : SafeKey)

/-- What a write asks of its surroundings. -/
inductive WriteOp where
  | request (req : Request)
  /-- `multipart_upload` after the upload has been created. -/
  | multipart (key : SafeKey) (parts : List Bytes)
  /-- Await the pump, whose own result is `own`.  A consumer that has not drained the
  channel may have cut it off. -/
  | joinPump (drained : Bool) (own : Except StorageError ℕ)

abbrev WriteOp.Res : WriteOp → Type
  | .request _ => Except StorageError Unit
  | .multipart _ _ => Except StorageError Unit
  | .joinPump _ _ => Except StorageError ℕ

/-- A write: a program over these operations. -/
abbrev Write (α : Type) := Prog WriteOp WriteOp.Res α

def request (req : Request) : Write (Except StorageError Unit) := Prog.perform (WriteOp.request req)

/-- The `?` of the source. -/
def andThen {α β : Type} (p : Write (Except StorageError α)) (f : α → Write (Except StorageError β)) :
    Write (Except StorageError β) := do
  match ← p with
  | .error e => pure (.error e)
  | .ok a => f a

/-! ## The writers -/

/-- `LocalStore::put`: a temporary sibling and a rename. -/
def LocalStore.put (key : SafeKey) (bytes : Bytes) : Write (Except StorageError Unit) :=
  andThen (request (.createDirAll key)) fun () =>
  andThen (request (.writeTmp bytes)) fun () =>
  andThen (request .setPermissions) fun () =>
  request (.rename key)

/-- `raw_put`. -/
def rawPut (b : Backend) (key : SafeKey) (bytes : Bytes) : Write (Except StorageError Unit) :=
  match b with
  | .localFs => LocalStore.put key bytes
  | .s3 => request (.putObject key bytes)

/-- The write loop of `stream_write`. -/
def writeParts : List Bytes → Write (Except StorageError Unit)
  | [] => pure (.ok ())
  | part :: parts => andThen (request (.writeAll part)) fun () => writeParts parts

/-- `LocalStore::stream_write` on the parts its channel delivers. -/
def LocalStore.streamWrite (key : SafeKey) (parts : List Bytes) : Write (Except StorageError Unit) :=
  andThen (request (.createDirAll key)) fun () =>
  andThen (request .createTmp) fun () =>
  andThen (writeParts parts) fun () =>
  andThen (request .setPermissions) fun () =>
  request (.rename key)

/-- `S3Store::multipart_upload` on the parts its channel delivers. -/
def S3Store.multipartUpload (key : SafeKey) (parts : List Bytes) : Write (Except StorageError Unit) :=
  andThen (request (.createMultipart key)) fun () =>
  Prog.perform (WriteOp.multipart key parts)

/-- The consumer `put_file` hands its parts to. -/
def consume (b : Backend) (key : SafeKey) (parts : List Bytes) : Write (Except StorageError Unit) :=
  match b with
  | .localFs => LocalStore.streamWrite key parts
  | .s3 => S3Store.multipartUpload key parts

/-- `Store::put`. -/
def put (A : Cipher) (store : Store) (key : SafeKey) (nonce : Nonce) (bytes : Bytes) :
    Write (Except StorageError Unit) :=
  rawPut store.backend key <|
    match store.encryptionKey with
    | some k => sealObject A k nonce bytes
    | none => bytes

/-- The header in front of the first piece: none without a key. -/
def framingHeader (encryptionKey : Option Key) (base : Base) (c : ℕ) : Bytes :=
  match encryptionKey with
  | some _ => streamHeader c base
  | none => []

/-- The outcome of the multi-piece branch, given those of the consumer and of the
pump. -/
def joined (out : Except StorageError Unit) : (pumped : Except StorageError ℕ) →
    Except StorageError Unit
  | .error e => .error e
  | .ok n => if n = 0 then .error (.backend "upload spool vanished") else out

/-- The end of the multi-piece branch: the consumer runs to its end, and only then is
the result of the pump looked at. -/
def consumeAndJoin (b : Backend) (key : SafeKey) (parts : List Bytes)
    (pumped : Except StorageError ℕ) : Write (Except StorageError Unit) := do
  let out ← consume b key parts
  let pumped ← Prog.perform (WriteOp.joinPump out.isOk pumped)
  pure (joined out pumped)

/-- `Store::put_file`. -/
def putFile (A : Cipher) (store : Store) (key : SafeKey) (base : Base)
    (spool : Except String Spool) (ptLen : ℕ) : Write (Except StorageError Unit) :=
  let header := framingHeader store.encryptionKey base streamChunkPt
  let pumped := pump A (store.encryptionKey.map (·, base)) streamChunkPt spool
  match pumped.1 with
  | [] =>
    if ptLen = 0 then rawPut store.backend key header
    else pure (.error (.backend "upload spool vanished"))
  -- single piece: the result of the pump is awaited and dropped
  | [first] => rawPut store.backend key (header ++ first)
  | first :: second :: rest =>
    consumeAndJoin store.backend key ((header ++ first) :: second :: rest) pumped.2

/-! ## What the operations do -/

/-- What the writes of one request see and leave behind. -/
structure World where
  objects : Objects
  /-- The temporary file being written. -/
  tmp : Bytes
  /-- The multipart uploads completed so far, with the bodies of their parts. -/
  multiparts : List (SafeKey × List Bytes)

/-- Publish an object. -/
def World.publish (w : World) (key : SafeKey) (obj : Bytes) : World :=
  { w with objects := Function.update w.objects key (some obj) }

/-- What a returned multipart upload has done to the bucket. -/
def World.afterMultipart (w : World) (key : SafeKey) (m : Multipart) : World :=
  match m.completed with
  | none => w
  | some ps =>
    let bodies := ps.map UploadedPart.body
    { w.publish key bodies.flatten with multiparts := (key, bodies) :: w.multiparts }

/-- An operation that does `good` or fails.  A failed write may leave anything in the
temporary file. -/
def attempt (faults : Prop) (w good : World) (r : Except StorageError Unit) (w' : World) : Prop :=
  (r = .ok () ∧ w' = good) ∨
    (faults ∧ (∃ e, r = .error e) ∧ w'.objects = w.objects ∧ w'.multiparts = w.multiparts)

/-- The effect of a request that succeeds. -/
def Request.effect (w : World) : Request → World
  | .createDirAll _ => w
  | .createTmp => { w with tmp := [] }
  | .writeAll part => { w with tmp := w.tmp ++ part }
  | .writeTmp bytes => { w with tmp := bytes }
  | .setPermissions => w
  | .rename key => w.publish key w.tmp
  | .putObject key bytes => w.publish key bytes
  | .createMultipart _ => w

/-- The possible answers to an operation, and what it leaves behind. -/
def exec (faults : Prop) (w : World) : (op : WriteOp) → op.Res → World → Prop
  | .request req, r, w' => attempt faults w (req.effect w) r w'
  | .multipart key parts, r, w' =>
    ∃ m, Multipart.Reachable faults parts m ∧ m.result = some r ∧ w' = w.afterMultipart key m
  | .joinPump drained own, r, w' =>
    w' = w ∧ (r = own ∨ (drained = false ∧ r = .error (.backend "upload consumer went away")))

/-! ## Writers that succeed or change nothing -/

/-- `p` does `good`, or fails and has changed no object. -/
structure Attempts (faults : Prop) (p : Write (Except StorageError Unit)) (good : World → World) : Prop where
  outcome : ∀ {w r w'}, p.Runs (exec faults) w r w' → attempt faults w (good w) r w'
  possible : ∀ w, p.Runs (exec faults) w (.ok ()) (good w)

variable {faults : Prop} {key : SafeKey}

theorem runs_andThen {α β : Type} {p : Write (Except StorageError α)} {f : α → Write (Except StorageError β)}
    {w w' : World} {r : Except StorageError β} :
    (andThen p f).Runs (exec faults) w r w' ↔
      (∃ e, r = .error e ∧ p.Runs (exec faults) w (.error e) w') ∨
        ∃ a w₁, p.Runs (exec faults) w (.ok a) w₁ ∧ (f a).Runs (exec faults) w₁ r w' := by
  rw [andThen, Prog.runs_bind]
  constructor
  · rintro ⟨out, w₁, hp, hf⟩
    cases out with
    | error e =>
      obtain ⟨rfl, rfl⟩ := hf
      exact .inl ⟨e, rfl, hp⟩
    | ok a => exact .inr ⟨a, w₁, hp, hf⟩
  · rintro (⟨e, rfl, hp⟩ | ⟨a, w₁, hp, hf⟩)
    · exact ⟨.error e, w', hp, rfl, rfl⟩
    · exact ⟨.ok a, w₁, hp, hf⟩

theorem runs_perform {op : WriteOp} {w w' : World} {r : op.Res} :
    (Prog.perform op : Write op.Res).Runs (exec faults) w r w' ↔ exec faults w op r w' := by
  constructor
  · rintro ⟨r', t, hex, rfl, rfl⟩
    exact hex
  · intro hex
    exact ⟨r, w', hex, rfl, rfl⟩

/-- A first part that touches no object, then the rest. -/
theorem Attempts.andThen {p q : Write (Except StorageError Unit)} {g h : World → World} (hp : Attempts faults p g)
    (hg : ∀ w, (g w).objects = w.objects ∧ (g w).multiparts = w.multiparts)
    (hq : Attempts faults q h) : Attempts faults (andThen p fun _ => q) (h ∘ g) where
  outcome hrun := by
    rcases runs_andThen.1 hrun with ⟨e, rfl, hp'⟩ | ⟨_, w₁, hp', hq'⟩
    · rcases hp.outcome hp' with ⟨hok, -⟩ | hfail
      · cases hok
      · exact .inr hfail
    · rcases hp.outcome hp' with ⟨-, rfl⟩ | ⟨-, ⟨e, he⟩, -⟩
      · rcases hq.outcome hq' with hok | ⟨hf, he, hobj, hmp⟩
        · exact .inl hok
        · exact .inr ⟨hf, he, hobj.trans (hg _).1, hmp.trans (hg _).2⟩
      · cases he
  possible w := runs_andThen.2 (.inr ⟨(), g w, hp.possible w, hq.possible (g w)⟩)

theorem attempts_request (req : Request) : Attempts faults (request req) req.effect where
  outcome hrun := runs_perform.1 hrun
  possible _ := runs_perform.2 (.inl ⟨rfl, rfl⟩)

/-- The effect of having published `obj`, the temporary file being what it is. -/
def World.written (w : World) (b : Backend) (key : SafeKey) (obj : Bytes) : World :=
  match b with
  | .localFs => { w.publish key obj with tmp := obj }
  | .s3 => w.publish key obj

/-- **`raw_put` publishes the bytes** or changes nothing. -/
theorem attempts_rawPut (b : Backend) (key : SafeKey) (bytes : Bytes) :
    Attempts faults (rawPut b key bytes) (·.written b key bytes) := by
  cases b with
  | localFs =>
    exact (attempts_request (.createDirAll key)).andThen (fun _ => ⟨rfl, rfl⟩) <|
      (attempts_request (.writeTmp bytes)).andThen (fun _ => ⟨rfl, rfl⟩) <|
      (attempts_request .setPermissions).andThen (fun _ => ⟨rfl, rfl⟩) <|
      attempts_request (.rename key)
  | s3 => exact attempts_request (.putObject key bytes)

theorem attempts_writeParts (parts : List Bytes) :
    Attempts faults (writeParts parts) fun w => { w with tmp := w.tmp ++ parts.flatten } := by
  induction parts with
  | nil =>
    constructor
    · rintro w r w' ⟨rfl, rfl⟩
      exact .inl ⟨rfl, by simp⟩
    · exact fun w => ⟨rfl, by simp⟩
  | cons part parts ih =>
    have h := (attempts_request (.writeAll part)).andThen (fun _ => ⟨rfl, rfl⟩) ih
    simpa only [writeParts, Function.comp_def, Request.effect, List.flatten_cons,
      List.append_assoc] using h

/-- The effect of a consumer that has committed `parts`. -/
def World.consumed (w : World) (b : Backend) (key : SafeKey) (parts : List Bytes) : World :=
  match b with
  | .localFs => { w.publish key parts.flatten with tmp := parts.flatten }
  | .s3 => { w.publish key parts.flatten with multiparts := (key, parts) :: w.multiparts }

/-- A multipart upload publishes its parts end to end or changes nothing. -/
theorem attempts_multipart (key : SafeKey) {parts : List Bytes} (hparts : parts ≠ []) :
    Attempts faults (Prog.perform (WriteOp.multipart key parts)) (·.consumed .s3 key parts) := by
  constructor
  · intro w r w' hrun
    obtain ⟨m, hm, hres, rfl⟩ := runs_perform.1 hrun
    have hcommit := hm.committed hres
    rw [World.afterMultipart]
    by_cases hok : r = .ok ()
    · rw [if_pos hok] at hcommit
      obtain ⟨ps, hps, rfl⟩ := Option.map_eq_some_iff.1 hcommit
      exact .inl ⟨hok, by simp only [hps]; rfl⟩
    · rw [if_neg hok, Option.map_eq_none_iff] at hcommit
      rw [hcommit]
      refine .inr ⟨?_, ?_, rfl, rfl⟩
      · -- without faults the call would have returned `Ok`
        by_contra hno
        rw [eq_false hno] at hm
        exact hok (hm.ok_of_faultless hparts hres)
      · cases r with
        | ok u => exact absurd rfl hok
        | error e => exact ⟨e, rfl⟩
  · intro w
    obtain ⟨m, hm, hres⟩ := Multipart.exists_ok faults hparts
    refine runs_perform.2 ⟨m, hm, hres, ?_⟩
    have hcommit := hm.committed hres
    rw [if_pos rfl] at hcommit
    obtain ⟨ps, hps, rfl⟩ := Option.map_eq_some_iff.1 hcommit
    rw [World.afterMultipart, hps]
    rfl

/-- **A consumer publishes its parts end to end** or changes nothing. -/
theorem attempts_consume (b : Backend) (key : SafeKey) {parts : List Bytes} (hparts : parts ≠ []) :
    Attempts faults (consume b key parts) (·.consumed b key parts) := by
  cases b with
  | localFs =>
    exact (attempts_request (.createDirAll key)).andThen (fun _ => ⟨rfl, rfl⟩) <|
      (attempts_request .createTmp).andThen (fun _ => ⟨rfl, rfl⟩) <|
      (attempts_writeParts parts).andThen (fun _ => ⟨rfl, rfl⟩) <|
      (attempts_request .setPermissions).andThen (fun _ => ⟨rfl, rfl⟩) <|
      attempts_request (.rename key)
  | s3 =>
    exact (attempts_request (.createMultipart key)).andThen (fun _ => ⟨rfl, rfl⟩)
      (attempts_multipart key hparts)

theorem runs_consumeAndJoin {b : Backend} {parts : List Bytes} {own : Except StorageError ℕ}
    {w w' : World} {r : Except StorageError Unit} :
    (consumeAndJoin b key parts own).Runs (exec faults) w r w' ↔
      ∃ out pumped, (consume b key parts).Runs (exec faults) w out w' ∧ r = joined out pumped ∧
        (pumped = own ∨
          (out.isOk = false ∧ pumped = .error (.backend "upload consumer went away"))) := by
  rw [consumeAndJoin, Prog.runs_bind]
  constructor
  · rintro ⟨out, _, hout, pumped, _, ⟨rfl, hpumped⟩, rfl, rfl⟩
    exact ⟨out, pumped, hout, rfl, hpumped⟩
  · rintro ⟨out, pumped, hout, rfl, hpumped⟩
    exact ⟨out, w', hout, pumped, w', ⟨rfl, hpumped⟩, rfl, rfl⟩

/-- With a pump that has sent all its pieces, joining it changes nothing. -/
theorem attempts_consumeAndJoin (b : Backend) (key : SafeKey) {parts : List Bytes}
    (hparts : parts ≠ []) {n : ℕ} (hn : n ≠ 0) :
    Attempts faults (consumeAndJoin b key parts (.ok n)) (·.consumed b key parts) := by
  have hconsume := @attempts_consume faults b key parts hparts
  have hjoined : ∀ out, joined out (.ok n) = out := fun out => if_neg hn
  constructor
  · intro w r w' hrun
    obtain ⟨out, pumped, hout, rfl, hpumped⟩ := runs_consumeAndJoin.1 hrun
    rcases hconsume.outcome hout with ⟨rfl, rfl⟩ | ⟨hf, ⟨e, rfl⟩, hkept⟩
    · rcases hpumped with rfl | ⟨hcut, -⟩
      · exact .inl ⟨hjoined _, rfl⟩
      · cases hcut
    · -- the consumer failed, so the call does, whatever became of the pump
      right
      rcases hpumped with rfl | ⟨-, rfl⟩
      · exact ⟨hf, ⟨e, hjoined _⟩, hkept⟩
      · exact ⟨hf, ⟨_, rfl⟩, hkept⟩
  · intro w
    exact runs_consumeAndJoin.2 ⟨.ok (), .ok n, hconsume.possible w, (hjoined _).symm, .inl rfl⟩

/-- With a pump that has failed the call fails, after the consumer has done what it
does. -/
theorem runs_consumeAndJoin_error {b : Backend} {parts : List Bytes} {e : StorageError}
    {w w' : World} {r : Except StorageError Unit}
    (hrun : (consumeAndJoin b key parts (.error e)).Runs (exec faults) w r w') :
    (∃ e', r = .error e') ∧ ∃ out, (consume b key parts).Runs (exec faults) w out w' := by
  obtain ⟨out, pumped, hout, rfl, hpumped⟩ := runs_consumeAndJoin.1 hrun
  rcases hpumped with rfl | ⟨-, rfl⟩
  · exact ⟨⟨e, rfl⟩, out, hout⟩
  · exact ⟨⟨_, rfl⟩, out, hout⟩

/-- That the consumer has committed its parts does not keep the call from failing. -/
theorem runs_consumeAndJoin_of_error (b : Backend) (key : SafeKey) {parts : List Bytes}
    (hparts : parts ≠ []) (e : StorageError) (w : World) :
    (consumeAndJoin b key parts (.error e)).Runs (exec faults) w (.error e)
      (w.consumed b key parts) :=
  runs_consumeAndJoin.2
    ⟨.ok (), .error e, (attempts_consume b key hparts).possible w, rfl, .inl rfl⟩

theorem objects_consumed (w : World) (b : Backend) (key : SafeKey) (parts : List Bytes) :
    (w.consumed b key parts).objects = Function.update w.objects key (some parts.flatten) := by
  cases b <;> rfl

theorem objects_written (w : World) (b : Backend) (key : SafeKey) (obj : Bytes) :
    (w.written b key obj).objects = Function.update w.objects key (some obj) := by
  cases b <;> rfl

theorem multiparts_written (w : World) (b : Backend) (key : SafeKey) (obj : Bytes) :
    (w.written b key obj).multiparts = w.multiparts := by
  cases b <;> rfl

end Storage
end Uwuubox
