import Uwuubox.Dedupe.Consistency
import Uwuubox.Prog.Faults

/-!
# Removals that fail and are tried again

A removal deletes the row of `files` first.  What a failure leaves after that cannot be
finished by another removal, which does not find the row.

* `Fault` — how one operation fails; `fails_iff` says that there is no other way.
* `tally` — what is in the table of objects; every statement of a release takes one away.
* `Releases` — **what a release performs**, what it leads to and what it leaves when one of its
  operations fails; `Books.releases` for a reference that is held.
* `retry_iff` — the second removal finishes the first exactly where the first operation
  failed, or the last one, in which nothing was left.
* `retry_lost` — a removal that nobody can finish.
-/

namespace Uwuubox
namespace Dedupe

open Storage Table

/-! ## Failures -/

/-- How an operation fails: with an error, and, where it is one of the store, with something
or nothing at the key. -/
structure Fault where
  error : Failure
  left : Option Bytes

/-- A failed operation. -/
def Fault.answer (fault : Fault) (w : World) (op : DbOp) : op.Res × World :=
  (.error fault.error, match op.storeKey with
    | some key => { w with store := Function.update w.store key fault.left }
    | none => w)

theorem Fault.fails (fault : Fault) (w : World) (op : DbOp) :
    Fails w op (fault.answer w op).1 (fault.answer w op).2 := by
  cases hop : op.storeKey with
  | none =>
    simp only [Fault.answer, hop]
    exact ⟨⟨_, rfl⟩, rfl, rfl, rfl, fun _ _ => rfl⟩
  | some key =>
    simp only [Fault.answer, hop]
    exact ⟨⟨_, rfl⟩, rfl, rfl, rfl, fun key' hne =>
      Function.update_of_ne (fun heq => hne (hop.trans (congrArg some heq.symm))) _ _⟩

/-- **Every failure** is one of these. -/
theorem fails_iff {w w' : World} {op : DbOp} {r : op.Res} :
    Fails w op r w' ↔ ∃ fault : Fault, (r, w') = fault.answer w op := by
  constructor
  · intro h
    obtain ⟨e, rfl⟩ := h.error
    cases hop : op.storeKey with
    | none =>
      refine ⟨⟨e, none⟩, ?_⟩
      rw [h.eq hop]
      simp only [Fault.answer, hop]
    | some key =>
      refine ⟨⟨e, w'.store key⟩, ?_⟩
      have hstore : w'.store = Function.update w.store key (w'.store key) := by
        funext key'
        by_cases heq : key' = key
        · rw [heq, Function.update_self]
        · rw [Function.update_of_ne heq]
          exact (h.sameBut hop).store key' heq
      obtain ⟨used, objects, files, store⟩ := w
      obtain ⟨used', objects', files', store'⟩ := w'
      obtain ⟨-, rfl, rfl, rfl, -⟩ := h
      simp only [Fault.answer, hop]
      exact congrArg (fun st => (Except.error e, World.mk used' objects' files' st)) hstore
  · rintro ⟨fault, h⟩
    rw [Prod.ext_iff] at h
    obtain ⟨rfl, rfl⟩ := h
    exact fault.fails w op

/-! ## What a release leads to -/

/-- The key has one reference left. -/
def ObjectTable.Last (t : ObjectTable) (key : SafeKey) : Prop :=
  ∃ row ∈ t.rows, row.storageKey = key ∧ row.refcount = 1

instance (t : ObjectTable) (key : SafeKey) : Decidable (t.Last key) :=
  inferInstanceAs (Decidable (∃ row ∈ t.rows, row.storageKey = key ∧ row.refcount = 1))

/-- One reference less. -/
def ObjectTable.drop (t : ObjectTable) (key : SafeKey) : ObjectTable :=
  t.setRefcount (fun row => row.storageKey = key) (· - 1)

/-- One reference less, and no row without references. -/
def ObjectTable.release (t : ObjectTable) (key : SafeKey) : ObjectTable :=
  if t.Last key then (t.drop key).delete fun row => row.storageKey = key else t.drop key

/-- A reference to `key` has been released. -/
def World.release (w : World) (key : SafeKey) : World :=
  { w with
    objects := w.objects.release key
    store := if w.objects.Last key then Function.update w.store key none else w.store }

/-- The row is gone, each of its references has been released, and bytes that nobody
refers to any more are gone. -/
def World.removed (w : World) (row : FileRow) : World :=
  let w := { w with files := w.files.delete fun s => s.idCore = row.idCore }.release row.storageKey
  match row.thumbKey with
  | none => w
  | some key => w.release key

/-- The operations of a release. -/
def releaseOps (t : ObjectTable) (key : SafeKey) : List DbOp :=
  if t.Last key then [.dropObject key, .deleteObject key, .delete key] else [.dropObject key]

/-- The operations of a removal. -/
def removalOps (w : World) (row : FileRow) : List DbOp :=
  .deleteFile row.idCore :: (releaseOps w.objects row.storageKey ++ match row.thumbKey with
    | none => []
    | some key => releaseOps (w.objects.release row.storageKey) key)

/-- What is in a table of objects: the rows, and the references they count. -/
def ObjectTable.tally (t : ObjectTable) : ℕ := (t.rows.map fun row => row.refcount + 1).sum

section

variable {w : World} {t : ObjectTable} {row : ObjectRow} {key : SafeKey}

theorem answer_dropObject (hrow : row ∈ w.objects.rows) (hkey : row.storageKey = key)
    (hpos : row.refcount ≠ 0) : answer w (.dropObject key) =
      (.ok (some (row.refcount - 1)), { w with objects := w.objects.drop key }) := by
  simp only [answer, w.objects.uniqueKey.find? hrow hkey, if_neg hpos]
  rfl

theorem ObjectTable.tally_perm {rows : List ObjectRow} (h : t.rows.Perm rows) :
    t.tally = (rows.map fun row => row.refcount + 1).sum := (h.map _).sum_eq

theorem ObjectTable.tally_drop (hrow : row ∈ t.rows) (hkey : row.storageKey = key)
    (hpos : row.refcount ≠ 0) : (t.drop key).tally + 1 = t.tally := by
  rw [tally_perm (t.uniqueKey.perm_deleteWhere hrow hkey),
    tally_perm (t := t.drop key) (t.uniqueKey.perm_updateWhere hrow hkey _)]
  simp only [List.map_cons, List.sum_cons]
  omega

theorem ObjectTable.tally_delete (hrow : row ∈ t.rows) (hkey : row.storageKey = key) :
    (t.delete fun row => row.storageKey = key).tally < t.tally := by
  rw [tally_perm (t.uniqueKey.perm_deleteWhere hrow hkey)]
  simp only [List.map_cons, List.sum_cons]
  show ((t.delete _).rows.map fun row => row.refcount + 1).sum < _
  exact Nat.lt_add_of_pos_left (Nat.succ_pos _)

end

/-! ## What a release performs -/

/-- **A release**: it performs the operations `ops` and leads to `w'`.  Where one of them fails it
answers with an error; what it leaves has at least as much in the table, and is what it would
have led to only if the failure was in the last of them, a deletion that left nothing. -/
structure Releases {α : Type} (p : Handler (Except AppError α)) (w : World) (ops : List DbOp) (a : α)
    (w' : World) : Prop where
  eval : p.eval answer w = (.ok a, w')
  trace : p.trace answer w = ops
  nonempty : 0 < ops.length
  files : w'.files = w.files
  less : w'.objects.tally < w.objects.tally
  fails : ∀ (fault : Fault) (n : ℕ), n < ops.length → ∃ e wₙ,
    p.evalFault answer fault.answer n w = (.error e, wₙ) ∧ wₙ.files = w.files ∧
      w'.objects.tally ≤ wₙ.objects.tally ∧
      (wₙ = w' ↔ n + 1 = ops.length ∧ (∃ key, ops[n]? = some (.delete key)) ∧ fault.left = none)

theorem ne_of_tally {w w' : World} (h : w'.objects.tally < w.objects.tally) : w ≠ w' := by
  rintro rfl
  exact absurd h (Nat.lt_irrefl _)

namespace Releases

variable {α β : Type} {p : Handler (Except AppError α)} {w w' w'' : World} {ops ops' : List DbOp}
  {a : α} {b : β} {row : ObjectRow} {key : SafeKey}

/-- There are other references. -/
theorem shared (hrow : row ∈ w.objects.rows) (hkey : row.storageKey = key)
    (hshared : 2 ≤ row.refcount) : Releases (releaseAndDelete key) w [.dropObject key] ()
      { w with objects := w.objects.drop key } := by
  have hdrop := answer_dropObject hrow hkey (by omega)
  have hleft : row.refcount - 1 ≠ 0 := by omega
  have hless := ObjectTable.tally_drop hrow hkey (by omega)
  refine ⟨?_, ?_, Nat.one_pos, rfl, Nat.lt_of_succ_le hless.le, ?_⟩
  · simp [releaseAndDelete, releaseObject, hdrop, hleft]
  · simp [releaseAndDelete, releaseObject, hdrop, hleft]
  · intro fault n hn
    obtain rfl : n = 0 := by simpa using hn
    exact ⟨_, w, rfl, rfl, (Nat.lt_of_succ_le hless.le).le,
      iff_of_false (ne_of_tally (Nat.lt_of_succ_le hless.le)) (by simp)⟩

/-- It is the last reference. -/
theorem last (hrow : row ∈ w.objects.rows) (hkey : row.storageKey = key) (hlast : row.refcount = 1) :
    Releases (releaseAndDelete key) w [.dropObject key, .deleteObject key, .delete key] ()
      { w with
        objects := (w.objects.drop key).delete fun row => row.storageKey = key
        store := Function.update w.store key none } := by
  have hdrop := answer_dropObject hrow hkey (by omega)
  have hleft : row.refcount - 1 = 0 := by omega
  have hless := ObjectTable.tally_drop hrow hkey (by omega)
  have hdelete : ((w.objects.drop key).delete fun row => row.storageKey = key).tally <
      (w.objects.drop key).tally :=
    ObjectTable.tally_delete (mem_updateWhere.2 (.inr ⟨row, hrow, decide_eq_true hkey, rfl⟩)) hkey
  have hboth := hdelete.trans (Nat.lt_of_succ_le hless.le)
  refine ⟨?_, ?_, Nat.succ_pos _, rfl, hboth, ?_⟩
  · simp [releaseAndDelete, releaseObject, hdrop, hleft]
    rfl
  · simp [releaseAndDelete, releaseObject, hdrop, hleft]
    rfl
  · intro fault n hn
    have hn : n < 3 := hn
    match n, hn with
    | 0, _ => exact ⟨_, w, rfl, rfl, hboth.le, iff_of_false (ne_of_tally hboth) (by simp)⟩
    | 1, _ =>
      refine ⟨AppError.from fault.error, { w with objects := w.objects.drop key }, ?_, rfl, hdelete.le, ?_⟩
      · simp [releaseAndDelete, releaseObject, hdrop, hleft]
        rfl
      · exact iff_of_false (ne_of_tally hdelete) (by simp)
    | 2, _ =>
      refine ⟨AppError.from fault.error, { w with
        objects := (w.objects.drop key).delete fun row => row.storageKey = key
        store := Function.update w.store key fault.left }, ?_, rfl, Nat.le_refl _, ?_⟩
      · simp [releaseAndDelete, releaseObject, hdrop, hleft]
        rfl
      · constructor
        · intro heq
          have hstore := congrFun (congrArg World.store heq) key
          exact ⟨rfl, ⟨key, rfl⟩, by simpa using hstore⟩
        · rintro ⟨-, -, hnone⟩
          rw [hnone]

/-- One release after another. -/
theorem seq {k : Except AppError α → Handler (Except AppError β)} (hp : Releases p w ops a w')
    (hk : ∀ e, k (.error e) = pure (.error e)) (hq : Releases (k (.ok a)) w' ops' b w'') :
    Releases (p >>= k) w (ops ++ ops') b w'' := by
  have hsome := hq.nonempty
  refine ⟨?_, ?_, ?_, hq.files.trans hp.files, hq.less.trans hp.less, ?_⟩
  · rw [Prog.eval_bind, hp.eval]
    exact hq.eval
  · rw [Prog.trace_bind, hp.eval, hp.trace]
    exact congrArg (ops ++ ·) hq.trace
  · rw [List.length_append]
    omega
  · intro fault n hn
    rw [List.length_append] at hn
    by_cases hleft : n < ops.length
    · obtain ⟨e, wₙ, heval, hfiles, htally, -⟩ := hp.fails fault n hleft
      refine ⟨e, wₙ, ?_, hfiles, hq.less.le.trans htally, ?_⟩
      · rw [Prog.evalFault_bind_left _ _ (hp.trace.symm ▸ hleft), heval, hk]
        rfl
      · have hne : wₙ ≠ w'' := ne_of_tally (hq.less.trans_le htally)
        have hmore : n + 1 ≠ (ops ++ ops').length := by
          rw [List.length_append]
          omega
        simp only [hne, hmore, false_and]
    · obtain ⟨m, rfl⟩ := Nat.exists_eq_add_of_le (Nat.le_of_not_lt hleft)
      obtain ⟨e, wₙ, heval, hfiles, htally, hiff⟩ := hq.fails fault m (by omega)
      refine ⟨e, wₙ, ?_, hfiles.trans hp.files, htally, hiff.trans ?_⟩
      · have hright : (p >>= k).evalFault answer fault.answer ((p.trace answer w).length + m) w = _ :=
          Prog.evalFault_bind_right p k m w
        rw [hp.trace, hp.eval] at hright
        exact hright.trans heval
      · rw [List.length_append, Nat.add_assoc, Nat.add_left_cancel_iff,
          List.getElem?_append_right (Nat.le_add_right _ _), Nat.add_sub_cancel_left]

/-- A release, and a return. -/
theorem map {k : Except AppError α → Handler (Except AppError β)} (hp : Releases p w ops a w')
    (hk : ∀ e, k (.error e) = pure (.error e)) (hq : k (.ok a) = pure (.ok b)) :
    Releases (p >>= k) w ops b w' := by
  refine ⟨?_, ?_, hp.nonempty, hp.files, hp.less, ?_⟩
  · rw [Prog.eval_bind, hp.eval]
    rw [hq]
    rfl
  · rw [Prog.trace_bind, hp.eval, hp.trace]
    rw [hq]
    exact List.append_nil ops
  · intro fault n hn
    obtain ⟨e, wₙ, heval, hrest⟩ := hp.fails fault n hn
    refine ⟨e, wₙ, ?_, hrest⟩
    rw [Prog.evalFault_bind_left _ _ (hp.trace.symm ▸ hn), heval, hk]
    rfl

end Releases

/-- **A reference that is held** can be released. -/
theorem Books.releases {w : World} {key : SafeKey} {grip : Grip} {f : Share}
    (h : Books w ({.held key grip} + f)) :
    Releases (releaseAndDelete key) w (releaseOps w.objects key) () (w.release key) ∧
      Books (w.release key) f := by
  obtain ⟨row, hrow, hkey, hpos⟩ := h.held
  have hspent : Books { w with objects := w.objects.drop key } ({.spent key} + f) := h.dropObject
  by_cases hlast : row.refcount = 1
  · have hkeyLast : w.objects.Last key := ⟨row, hrow, hkey, hlast⟩
    have hzero : ∀ s ∈ (w.objects.drop key).rows, s.storageKey = key → s.refcount = 0 := by
      intro s hs hskey
      rcases mem_updateWhere.1 hs with ⟨-, hne⟩ | ⟨t, ht, htkey, rfl⟩
      · exact absurd hskey (of_decide_eq_false hne)
      · rw [w.objects.uniqueKey.eq ht hrow ((of_decide_eq_true htkey).trans hkey.symm)]
        show row.refcount - 1 = 0
        omega
    have hdead := hspent.deleteObject hzero
    unfold World.release ObjectTable.release releaseOps
    simp only [if_pos hkeyLast]
    have hsame : SameBut key
        { w with objects := (w.objects.drop key).delete fun row => row.storageKey = key }
        { w with
          objects := (w.objects.drop key).delete fun row => row.storageKey = key
          store := Function.update w.store key none } :=
      ⟨rfl, rfl, rfl, fun key' hne => Function.update_of_ne hne _ _⟩
    exact ⟨.last hrow hkey hlast, (hdead.sameBut hsame).drop⟩
  · have hshared : ¬ w.objects.Last key := by
      rintro ⟨s, hs, hskey, hone⟩
      rw [w.objects.uniqueKey.eq hs hrow (hskey.trans hkey.symm)] at hone
      exact hlast hone
    unfold World.release ObjectTable.release releaseOps
    simp only [if_neg hshared]
    exact ⟨.shared hrow hkey (by omega), hspent.drop⟩

/-! ## Every removal -/

/-- The references of a row, as shares of the request that has deleted it. -/
theorem Consistent.deleteFile {w : World} {row : FileRow} (hw : Consistent w)
    (hrow : row ∈ w.files.rows) :
    Books { w with files := w.files.delete fun s => s.idCore = row.idCore }
      ({.held row.storageKey .bare} + (row.thumbKey.elim 0 fun key => {.held key .bare})) := by
  have hbooks := hw.books.deleteFile (g := {.held row.storageKey .bare} +
    (row.thumbKey.elim 0 fun key => {.held key .bare})) hrow ?_ ?_
  · rwa [add_zero] at hbooks
  · intro key
    unfold FileRow.keys
    cases row.thumbKey <;> simp [List.count_cons, Subtype.ext_iff]
  · intro t ht
    rcases Multiset.mem_add.1 ht with ht | ht
    · exact ⟨row.storageKey, by simp [Multiset.mem_singleton.1 ht]⟩
    · cases hthumb : row.thumbKey with
      | none =>
        rw [hthumb] at ht
        exact absurd ht (Multiset.notMem_zero _)
      | some key =>
        rw [hthumb] at ht
        exact ⟨key, by simp [Multiset.mem_singleton.1 ht]⟩

/-- What a removal runs when it has deleted the row. -/
def releaseRow (storageKey : SafeKey) (thumbKey : Option SafeKey) : Handler (Except AppError Bool) := do
  match ← releaseAndDelete storageKey with
  | .error e => pure (.error e)
  | .ok () =>
    match thumbKey with
    | none => pure (.ok true)
    | some thumbKey =>
      match ← releaseAndDelete thumbKey with
      | .error e => pure (.error e)
      | .ok () => pure (.ok true)

theorem removeFile_eq (core : Core) : removeFile core =
    .call (.deleteFile core) fun r => match r with
      | .error e => pure (.error (AppError.from e))
      | .ok none => pure (.ok false)
      | .ok (some (storageKey, thumbKey)) => releaseRow storageKey thumbKey := rfl

/-- The rest of a removal is one release after another. -/
theorem Consistent.releaseRow {w : World} {row : FileRow} (hw : Consistent w)
    (hrow : row ∈ w.files.rows) : Releases (releaseRow row.storageKey row.thumbKey)
      { w with files := w.files.delete fun s => s.idCore = row.idCore }
      (removalOps w row).tail true (w.removed row) := by
  have hbooks := hw.deleteFile hrow
  obtain ⟨hfirst, hbooks⟩ := hbooks.releases
  unfold Dedupe.releaseRow removalOps World.removed
  rw [List.tail_cons]
  cases hthumb : row.thumbKey with
  | none =>
    simp only [List.append_nil]
    exact hfirst.map (fun _ => rfl) rfl
  | some key =>
    rw [hthumb] at hbooks
    obtain ⟨hsecond, -⟩ := Books.releases (f := 0) hbooks
    exact hfirst.seq (fun _ => rfl) (hsecond.map (fun _ => rfl) rfl)

theorem answer_deleteFile {w : World} {row : FileRow} (hrow : row ∈ w.files.rows) :
    answer w (.deleteFile row.idCore) = (.ok (some (row.storageKey, row.thumbKey)),
      { w with files := w.files.delete fun s => s.idCore = row.idCore }) := by
  simp only [answer, w.files.uniqueCore.find? hrow rfl]

/-- There is no row to remove. -/
theorem eval_removeFile_none {w : World} {core : Core} (h : ∀ row ∈ w.files.rows, row.idCore ≠ core) :
    (removeFile core).eval answer w = (.ok false, w) := by
  have hfind : w.files.rows.find? (fun row => row.idCore = core) = none :=
    List.find?_eq_none.2 fun row hrow => by simpa using h row hrow
  rw [removeFile_eq, Prog.eval_call]
  simp only [answer, hfind]
  rfl

/-- **A removal that nothing disturbs.** -/
theorem eval_removeFile {w : World} {row : FileRow} (hw : Consistent w) (hrow : row ∈ w.files.rows) :
    (removeFile row.idCore).eval answer w = (.ok true, w.removed row) := by
  rw [removeFile_eq, Prog.eval_call, answer_deleteFile hrow]
  exact (hw.releaseRow hrow).eval

theorem trace_removeFile {w : World} {row : FileRow} (hw : Consistent w) (hrow : row ∈ w.files.rows) :
    (removeFile row.idCore).trace answer w = removalOps w row := by
  rw [removeFile_eq, Prog.trace_call, answer_deleteFile hrow]
  exact congrArg (DbOp.deleteFile row.idCore :: ·) (hw.releaseRow hrow).trace

/-- **A removal that fails is finished by another one** exactly where its first operation
failed, or the last one, if that is a deletion of bytes in which nothing was left. -/
theorem retry_iff {w : World} {row : FileRow} (hw : Consistent w) (hrow : row ∈ w.files.rows)
    (fault : Fault) {n : ℕ} (hn : n < ((removeFile row.idCore).trace answer w).length) :
    (∃ e, ((removeFile row.idCore).evalFault answer fault.answer n w).1 = .error e) ∧
    (((removeFile row.idCore).eval answer
        ((removeFile row.idCore).evalFault answer fault.answer n w).2).2 =
        ((removeFile row.idCore).eval answer w).2 ↔
      n = 0 ∨ n + 1 = (removalOps w row).length ∧ (∃ key, (removalOps w row)[n]? = some (.delete key)) ∧
        fault.left = none) := by
  rw [trace_removeFile hw hrow] at hn
  rw [eval_removeFile hw hrow]
  cases n with
  | zero =>
    -- a failed `DELETE` leaves everything as it was
    have hfault : (removeFile row.idCore).evalFault answer fault.answer 0 w =
        (.error (AppError.from fault.error), w) := rfl
    rw [hfault, eval_removeFile hw hrow]
    exact ⟨⟨_, rfl⟩, by simp⟩
  | succ m =>
    obtain ⟨e, wₙ, heval, hfiles, -, hiff⟩ :=
      (hw.releaseRow hrow).fails fault m (by simpa [removalOps] using hn)
    have hfault : (removeFile row.idCore).evalFault answer fault.answer (m + 1) w = (.error e, wₙ) := by
      rw [removeFile_eq, Prog.evalFault_succ, answer_deleteFile hrow]
      exact heval
    -- the row is gone, so the second removal does nothing
    have hgone : ∀ s ∈ wₙ.files.rows, s.idCore ≠ row.idCore := by
      intro s hs
      rw [hfiles] at hs
      exact of_decide_eq_false (mem_deleteWhere.1 hs).2
    rw [hfault, eval_removeFile_none hgone]
    refine ⟨⟨e, rfl⟩, hiff.trans ?_⟩
    simp [removalOps]

/-! ### The removal of one file -/

/-- One file has been uploaded. -/
def uploadedOnce : Pool World Request DbOp DbOp.Res Unit :=
  Pool.play (serve sampleSha256) (fun _ w op => answer w op) World.empty
    (.spawn (.upload (sampleUpload coreA)) :: List.replicate 4 (.act 0 ()))

/-- Its row. -/
def uploadedRow : FileRow :=
  uploadRow sampleSha256 (sampleUpload coreA) coreA (fileKey coreA ⟨[], isExt_nil⟩) none

theorem reachable_uploadedOnce : Pool.Reachable (serve sampleSha256) (guarded StillZero (exec False))
    False World.empty uploadedOnce :=
  @Pool.reachable_play _ _ _ _ _ (serve sampleSha256) _ False Unit (fun _ w op => answer w op)
    (fun w op => decide (StillZero w op))
    (fun _ w op hok => ⟨of_decide_eq_true hok, exec_answer False w op⟩) World.empty _ (by rfl)

theorem consistent_uploadedOnce : Consistent uploadedOnce.shared :=
  consistent_of_stillZero sampleSha256 consistent_empty reachable_uploadedOnce
    (Pool.quiet_of_allReturned (by rfl))

/-- A connection that breaks. -/
def brokenPipe (left : Option Bytes) : Fault := ⟨.sql (.io "broken pipe"), left⟩

theorem uploadedRow_mem : uploadedRow ∈ uploadedOnce.shared.files.rows := by
  have hrows : uploadedOnce.shared.files.rows = [uploadedRow] := rfl
  rw [hrows]
  exact List.mem_singleton_self _

/-- The deletion of the bytes fails when it has taken place. -/
theorem retry_iff_uploadedOnce :
    (∃ e, ((removeFile coreA).evalFault answer (brokenPipe none).answer 3 uploadedOnce.shared).1 =
      .error e) ∧
    (((removeFile coreA).eval answer
        ((removeFile coreA).evalFault answer (brokenPipe none).answer 3 uploadedOnce.shared).2).2 =
        ((removeFile coreA).eval answer uploadedOnce.shared).2 ↔
      3 = 0 ∨ 3 + 1 = (removalOps uploadedOnce.shared uploadedRow).length ∧
        (∃ key, (removalOps uploadedOnce.shared uploadedRow)[3]? = some (.delete key)) ∧
        (brokenPipe none).left = none) :=
  retry_iff consistent_uploadedOnce uploadedRow_mem (brokenPipe none) (by decide)

/-- The row is deleted, the release fails; the second removal finds no row, and the object
stays. -/
theorem retry_lost : ∃ p : Pool World Request DbOp DbOp.Res Unit,
    Pool.Reachable (serve sampleSha256) (exec False) False World.empty p ∧ p.Quiet ∧
    Consistent p.shared ∧ ∃ row ∈ p.shared.files.rows, ∃ (fault : Fault) (n : ℕ) (e : AppError),
      ((removeFile row.idCore).evalFault answer fault.answer n p.shared).1 = .error e ∧
      ((removeFile row.idCore).eval answer
        ((removeFile row.idCore).evalFault answer fault.answer n p.shared).2).2 ≠
        ((removeFile row.idCore).eval answer p.shared).2 := by
  refine ⟨uploadedOnce, ?_, Pool.quiet_of_allReturned (by rfl), consistent_uploadedOnce, uploadedRow,
    uploadedRow_mem, brokenPipe none, 1, _, rfl, fun h => ?_⟩
  · exact @Pool.reachable_play _ _ _ _ _ (serve sampleSha256) _ False Unit (fun _ w op => answer w op)
      (fun _ _ => true) (fun _ w op _ => exec_answer False w op) World.empty _ (by rfl)
  · have hrows : 1 = 0 := congrArg (fun w : World => w.objects.rows.length) h
    exact absurd hrows (by decide)

end Dedupe
end Uwuubox
