import Uwuubox.Storage.Fetch

/-!
# The multipart upload of the S3 store

`S3Store::multipart_upload` in `src/storage.rs`, from the moment the upload has been
created.  The function receives parts from a channel, hands each to a task of its
`JoinSet` once one of `MPU_CONCURRENCY` permits is free, collects the tags the
bucket returns in whatever order the tasks finish, and completes or aborts the
upload.  Everything that can happen next, in the function, in a task or in the
bucket, is one `Multipart.Step`.

* `Multipart` — the local variables of the function, its tasks, and the parts
  the bucket holds for this upload.
* `Multipart.Inv` — every part received is in exactly one place and under its own
  number; `Step.inv` and `Reachable.inv` carry it through a run.
* `Reachable.committed` — **the object is the parts, in order**: a call that
  returns `Ok` has made the concatenation of all parts visible, and a call that
  returns an error nothing.
* `Reachable.ok_of_faultless`, `exists_ok` — without faults the call can return,
  and only with `Ok`.

The counter is an `i32` in the source; the service takes no part number above
10 000, so the counter of an upload whose parts are accepted does not get far.
-/

open Relation

namespace Uwuubox
namespace Storage

/-- S3 multipart part uploads in flight during `Store::put_file`. -/
def mpuConcurrency : ℕ := 4

/-- The tag the bucket returns for a part. -/
abbrev ETag := String

/-- Where a part task is: still uploading, returned, or panicked. -/
inductive TaskState where
  | running
  | returned (out : Except StorageError ETag)
  | panicked (msg : String)
deriving DecidableEq

/-- A task of the `JoinSet`; it returns the part number with the tag. -/
structure PartTask where
  no : ℕ
  body : Bytes
  state : TaskState

/-- A part the bucket holds. -/
structure UploadedPart where
  no : ℕ
  body : Bytes
  etag : ETag

/-- The state of one call. -/
structure Multipart where
  /-- What the channel still delivers before it closes. -/
  incoming : List Bytes
  partNo : ℕ
  /-- A part received, with its number, for which no permit was free yet. -/
  waiting : Option (ℕ × Bytes)
  inFlight : List PartTask
  etags : List (ℕ × ETag)
  failed : Option StorageError
  /-- The first loop has ended. -/
  draining : Bool
  /-- The parts the bucket has stored for this upload. -/
  uploaded : List UploadedPart
  /-- `abort_multipart_upload` has been called. -/
  aborted : Bool
  /-- The numbers and tags that `complete_multipart_upload` has been called with. -/
  called : Option (List (ℕ × ETag))
  /-- The parts `complete_multipart_upload` put together. -/
  completed : Option (List UploadedPart)
  result : Option (Except StorageError Unit)

namespace Multipart

/-- The call after `create_multipart_upload`, with `parts` to come. -/
def start (parts : List Bytes) : Multipart where
  incoming := parts
  partNo := 0
  waiting := none
  inFlight := []
  etags := []
  failed := none
  draining := false
  uploaded := []
  aborted := false
  called := none
  completed := none
  result := none

/-- Permits taken: a task holds one until it ends. -/
def permits (m : Multipart) : ℕ := (m.inFlight.filter (·.state = .running)).length

/-- `etags.sort_by_key(|(no, _)| *no)`. -/
def sortedTags (m : Multipart) : List (ℕ × ETag) :=
  m.etags.mergeSort fun a b => decide (a.1 ≤ b.1)

/-- The parts named in a completion request, as the bucket holds them. -/
def Assembles (uploaded : List UploadedPart) (tags : List (ℕ × ETag))
    (parts : List UploadedPart) : Prop :=
  List.Forall₂ (fun t u => u ∈ uploaded ∧ u.no = t.1 ∧ u.etag = t.2) tags parts

/-- One thing that can happen next; requests and tasks fail only where `faults`
allows it. -/
inductive Step (faults : Prop) : Multipart → Multipart → Prop
  | recv {m : Multipart} {body : Bytes} {rest : List Bytes} : m.result = none →
      m.draining = false → m.waiting = none → m.incoming = body :: rest →
      Step faults m
        { m with incoming := rest, partNo := m.partNo + 1, waiting := some (m.partNo + 1, body) }
  /-- The receive branch gets its permit and spawns the task. -/
  | spawn {m : Multipart} {no : ℕ} {body : Bytes} : m.result = none →
      m.waiting = some (no, body) → m.permits < mpuConcurrency →
      Step faults m { m with waiting := none, inFlight := m.inFlight ++ [⟨no, body, .running⟩] }
  | upload {m : Multipart} {pre post : List PartTask} {no : ℕ} {body : Bytes} (etag : ETag) :
      m.result = none → m.inFlight = pre ++ ⟨no, body, .running⟩ :: post →
      Step faults m
        { m with
          inFlight := pre ++ ⟨no, body, .returned (.ok etag)⟩ :: post
          uploaded := ⟨no, body, etag⟩ :: m.uploaded }
  | uploadFails {m : Multipart} {pre post : List PartTask} {no : ℕ} {body : Bytes}
      (e : StorageError) : faults → m.result = none →
      m.inFlight = pre ++ ⟨no, body, .running⟩ :: post →
      Step faults m { m with inFlight := pre ++ ⟨no, body, .returned (.error e)⟩ :: post }
  | panics {m : Multipart} {pre post : List PartTask} {no : ℕ} {body : Bytes} (msg : String) :
      faults → m.result = none → m.inFlight = pre ++ ⟨no, body, .running⟩ :: post →
      Step faults m { m with inFlight := pre ++ ⟨no, body, .panicked msg⟩ :: post }
  | join {m : Multipart} {pre post : List PartTask} {no : ℕ} {body : Bytes} {etag : ETag} :
      m.result = none → m.waiting = none →
      m.inFlight = pre ++ ⟨no, body, .returned (.ok etag)⟩ :: post →
      Step faults m { m with inFlight := pre ++ post, etags := m.etags ++ [(no, etag)] }
  /-- A failed part ends the first loop; the second keeps the first error. -/
  | joinError {m : Multipart} {pre post : List PartTask} {no : ℕ} {body : Bytes}
      {e : StorageError} : m.result = none → m.waiting = none →
      m.inFlight = pre ++ ⟨no, body, .returned (.error e)⟩ :: post →
      Step faults m
        { m with inFlight := pre ++ post, failed := m.failed.or (some e), draining := true }
  /-- The `?` on a `JoinError` leaves the function, in either loop. -/
  | joinPanic {m : Multipart} {pre post : List PartTask} {no : ℕ} {body : Bytes} {msg : String} :
      m.result = none → m.waiting = none →
      m.inFlight = pre ++ ⟨no, body, .panicked msg⟩ :: post →
      Step faults m { m with result := some (.error (.backend msg)) }
  | close {m : Multipart} : m.result = none → m.draining = false → m.waiting = none →
      m.incoming = [] → Step faults m { m with draining := true }
  | abort {m : Multipart} {e : StorageError} : m.result = none → m.draining = true →
      m.inFlight = [] → m.failed = some e →
      Step faults m { m with aborted := true, result := some (.error e) }
  | noParts {m : Multipart} : m.result = none → m.draining = true → m.inFlight = [] →
      m.failed = none → m.etags = [] →
      Step faults m
        { m with aborted := true, result := some (.error (.backend "no parts uploaded")) }
  | complete {m : Multipart} {parts : List UploadedPart} : m.result = none →
      m.draining = true → m.inFlight = [] → m.failed = none → m.etags ≠ [] →
      Assembles m.uploaded m.sortedTags parts →
      Step faults m
        { m with called := some m.sortedTags, completed := some parts, result := some (.ok ()) }
  | completeFails {m : Multipart} (msg : String) : faults → m.result = none →
      m.draining = true → m.inFlight = [] → m.failed = none → m.etags ≠ [] →
      Step faults m
        { m with called := some m.sortedTags, result := some (.error (.backend msg)) }

/-- The states a call that is sent `parts` can be in. -/
def Reachable (faults : Prop) (parts : List Bytes) : Multipart → Prop :=
  ReflTransGen (Step faults) (start parts)

/-! ## Every part received is in one place -/

/-- The numbers of the parts that wait, are with a task, or have been joined. -/
def numbers (m : Multipart) : Multiset ℕ :=
  ↑(m.waiting.toList.map Prod.fst) + ↑(m.inFlight.map PartTask.no) + ↑(m.etags.map Prod.fst)

/-- The bucket has the part that carries this number and tag. -/
def Has (m : Multipart) (no : ℕ) (etag : ETag) : Prop :=
  ∃ u ∈ m.uploaded, u.no = no ∧ u.etag = etag

/-- What holds all through a call that is sent `parts`. -/
structure Inv (parts : List Bytes) (m : Multipart) : Prop where
  /-- The parts not received yet are the last ones. -/
  incoming_eq : parts = parts.take m.partNo ++ m.incoming ∧ m.partNo + m.incoming.length = parts.length
  numbers_eq : m.failed = none → m.numbers = ↑(List.range' 1 m.partNo)
  waiting_body : ∀ no body, m.waiting = some (no, body) → parts[no - 1]? = some body
  task_body : ∀ t ∈ m.inFlight, parts[t.no - 1]? = some t.body
  uploaded_body : ∀ u ∈ m.uploaded, parts[u.no - 1]? = some u.body
  task_has : ∀ t ∈ m.inFlight, ∀ etag, t.state = .returned (.ok etag) → m.Has t.no etag
  etag_has : ∀ t ∈ m.etags, m.Has t.1 t.2
  draining_waiting : m.draining = true → m.waiting = none
  draining_incoming : m.draining = true → m.failed = none → m.incoming = []
  /-- Visible exactly after `Ok`, and then it is the parts in order. -/
  committed : m.result = some (.ok ()) →
    ∃ ps, m.completed = some ps ∧ ps.map UploadedPart.body = parts
  hidden : m.result ≠ some (.ok ()) → m.completed = none

theorem inv_start (parts : List Bytes) : Inv parts (start parts) where
  incoming_eq := by simp [start]
  numbers_eq := by simp [start, numbers]
  waiting_body := by simp [start]
  task_body := by simp [start]
  uploaded_body := by simp [start]
  task_has := by simp [start]
  etag_has := by simp [start]
  draining_waiting := by simp [start]
  draining_incoming := by simp [start]
  committed := by simp [start]
  hidden := by simp [start]

/-- A task that goes on to another state keeps its part. -/
theorem Inv.set_state {parts : List Bytes} {m : Multipart} (h : Inv parts m)
    {pre post : List PartTask} {no : ℕ} {body : Bytes} {old new : TaskState}
    (hin : m.inFlight = pre ++ ⟨no, body, old⟩ :: post)
    (hnew : ∀ etag, new = .returned (.ok etag) → m.Has no etag) :
    Inv parts { m with inFlight := pre ++ ⟨no, body, new⟩ :: post } := by
  have hmem : ∀ t ∈ pre ++ ⟨no, body, new⟩ :: post, t = ⟨no, body, new⟩ ∨ t ∈ m.inFlight := by
    intro t ht
    rw [hin]
    simp only [List.mem_append, List.mem_cons] at ht ⊢
    tauto
  refine { h with numbers_eq := ?_, task_body := ?_, task_has := ?_ }
  · intro hfailed
    rw [← h.numbers_eq hfailed]
    simp [numbers, hin]
  · intro t ht
    rcases hmem t ht with rfl | ht
    · exact h.task_body ⟨no, body, old⟩ (by simp [hin])
    · exact h.task_body t ht
  · intro t ht etag hstate
    rcases hmem t ht with rfl | ht
    · exact hnew etag hstate
    · exact h.task_has t ht etag hstate

/-- The bucket stores a part under the number the part has. -/
theorem Inv.store_part {parts : List Bytes} {m : Multipart} (h : Inv parts m) {no : ℕ}
    {body : Bytes} (hbody : parts[no - 1]? = some body) (etag : ETag) :
    Inv parts { m with uploaded := ⟨no, body, etag⟩ :: m.uploaded } := by
  have hgrow : ∀ {n e}, m.Has n e → Has { m with uploaded := ⟨no, body, etag⟩ :: m.uploaded } n e := by
    rintro n e ⟨u, hu, hno, htag⟩
    exact ⟨u, List.mem_cons_of_mem _ hu, hno, htag⟩
  refine { h with
    uploaded_body := ?_
    task_has := fun t ht e hstate => hgrow (h.task_has t ht e hstate)
    etag_has := fun t ht => hgrow (h.etag_has t ht) }
  intro u hu
  rcases List.mem_cons.1 hu with rfl | hu
  · exact hbody
  · exact h.uploaded_body u hu

/-- A completion request puts together stored parts, under the numbers it names. -/
theorem Assembles.spec {uploaded : List UploadedPart} {tags : List (ℕ × ETag)}
    {ps : List UploadedPart} (h : Assembles uploaded tags ps) :
    ps.map UploadedPart.no = tags.map Prod.fst ∧ ∀ u ∈ ps, u ∈ uploaded := by
  induction h with
  | nil => simp
  | cons hu _ ih =>
    obtain ⟨hmem, hno, -⟩ := hu
    obtain ⟨hnos, hstored⟩ := ih
    refine ⟨by rw [List.map_cons, List.map_cons, hno, hnos], ?_⟩
    rintro u (_ | ⟨_, hu⟩)
    · exact hmem
    · exact hstored u hu

/-- Every request that names stored parts can be answered. -/
theorem exists_assembles {uploaded : List UploadedPart} {tags : List (ℕ × ETag)}
    (h : ∀ t ∈ tags, ∃ u ∈ uploaded, u.no = t.1 ∧ u.etag = t.2) :
    ∃ ps, Assembles uploaded tags ps := by
  induction tags with
  | nil => exact ⟨[], .nil⟩
  | cons t tags ih =>
    obtain ⟨u, hmem, hu⟩ := h t List.mem_cons_self
    obtain ⟨ps, hps⟩ := ih fun t' ht' => h t' (List.mem_cons_of_mem _ ht')
    exact ⟨u :: ps, .cons ⟨hmem, hu⟩ hps⟩

/-- Parts numbered 1, 2, … with the bodies these numbers have are all the parts. -/
theorem bodies_of_numbers {parts : List Bytes} {ps : List UploadedPart}
    (hnos : ps.map UploadedPart.no = List.range' 1 parts.length)
    (hbody : ∀ u ∈ ps, parts[u.no - 1]? = some u.body) : ps.map UploadedPart.body = parts := by
  have hlen : ps.length = parts.length := by simpa using congrArg List.length hnos
  refine List.ext_getElem (by rw [List.length_map, hlen]) ?_
  intro i hi hi'
  rw [List.length_map] at hi
  have hno : ps[i].no = 1 + i := by
    have := List.getElem_of_eq hnos (i := i) (by simpa using hi)
    simpa using this
  have hget := hbody ps[i] (List.getElem_mem hi)
  rw [hno, Nat.add_sub_cancel_left, List.getElem?_eq_getElem hi'] at hget
  rw [List.getElem_map]
  exact (Option.some.inj hget).symm

/-- Once all have been joined, the sorted tags carry the numbers 1, 2, …, one for each part. -/
theorem Inv.sortedTags_fst {parts : List Bytes} {m : Multipart} (h : Inv parts m)
    (hdrain : m.draining = true) (hin : m.inFlight = []) (hfailed : m.failed = none) :
    m.sortedTags.map Prod.fst = List.range' 1 parts.length := by
  obtain ⟨-, hlen⟩ := h.incoming_eq
  rw [h.draining_incoming hdrain hfailed, List.length_nil, Nat.add_zero] at hlen
  have hperm : (m.sortedTags.map Prod.fst).Perm (List.range' 1 parts.length) := by
    have hnumbers := h.numbers_eq hfailed
    simp only [numbers, h.draining_waiting hdrain, hin, Option.toList_none, List.map_nil,
      Multiset.coe_nil, zero_add] at hnumbers
    rw [hlen] at hnumbers
    exact ((List.mergeSort_perm _ _).map Prod.fst).trans (Multiset.coe_eq_coe.1 hnumbers)
  have hsorted : (m.sortedTags.map Prod.fst).Pairwise (· ≤ ·) := by
    rw [List.pairwise_map]
    have := @List.pairwise_mergeSort (ℕ × ETag) (fun a b => decide (a.1 ≤ b.1))
      (by intro a b c; simp only [decide_eq_true_eq]; omega) (by intro a b; simp; omega) m.etags
    simpa [sortedTags] using this
  exact hperm.eq_of_pairwise (by intro a b _ _ hab hba; omega) hsorted (List.pairwise_le_range' ..)

/-- **The completed object is the parts in order**, once all have been joined. -/
theorem Inv.assembled {parts : List Bytes} {m : Multipart} (h : Inv parts m)
    (hdrain : m.draining = true) (hin : m.inFlight = []) (hfailed : m.failed = none)
    {ps : List UploadedPart} (hps : Assembles m.uploaded m.sortedTags ps) :
    ps.map UploadedPart.body = parts := by
  obtain ⟨hps_nos, hstored⟩ := hps.spec
  exact bodies_of_numbers (hps_nos.trans (h.sortedTags_fst hdrain hin hfailed)) fun u hu =>
    h.uploaded_body u (hstored u hu)

/-- **One step keeps the invariant.** -/
theorem Step.inv {faults : Prop} {parts : List Bytes} {m m' : Multipart}
    (hstep : Step faults m m') (h : Inv parts m) : Inv parts m' := by
  have hnone : m.result = none → m.completed = none := by
    intro hres
    exact h.hidden (by rw [hres]; simp)
  cases hstep with
  | @recv body rest hres hdrain hwait hin =>
    obtain ⟨hparts, hlen⟩ := h.incoming_eq
    rw [hin] at hparts hlen
    rw [List.length_cons] at hlen
    have hget : parts[m.partNo]? = some body := by
      rw [hparts, List.getElem?_append_right (by simp), List.length_take, min_eq_left (by omega)]
      simp
    refine { h with
      incoming_eq := ⟨?_, by simp only; omega⟩
      numbers_eq := ?_
      waiting_body := ?_
      draining_waiting := by simp [hdrain]
      draining_incoming := by simp [hdrain]
      committed := by simp [hres]
      hidden := fun _ => hnone hres }
    · rw [List.take_add_one, hget, Option.toList_some, List.append_assoc]
      exact hparts
    · intro hfailed
      have hnumbers := h.numbers_eq hfailed
      simp only [numbers, hwait, Option.toList_none, List.map_nil, Multiset.coe_nil, zero_add]
        at hnumbers
      simp only [numbers, Option.toList_some, List.map_cons, List.map_nil, add_assoc, hnumbers,
        List.range'_concat, ← Multiset.coe_add]
      rw [add_comm]
      simp [Nat.add_comm]
    · rintro no body' hsome
      cases hsome
      simpa using hget
  | @spawn no body hres hwait hpermit =>
    refine { h with
      numbers_eq := ?_
      waiting_body := by simp
      task_body := ?_
      task_has := ?_
      draining_waiting := by simp
      committed := by simp [hres]
      hidden := fun _ => hnone hres }
    · intro hfailed
      rw [← h.numbers_eq hfailed]
      simp only [numbers, hwait, Option.toList_none, Option.toList_some, List.map_cons, List.map_nil,
        List.map_append, Multiset.coe_nil, zero_add, ← Multiset.coe_add]
      rw [add_comm (↑(m.inFlight.map PartTask.no) : Multiset ℕ)]
    · intro t ht
      rcases List.mem_append.1 ht with ht | ht
      · exact h.task_body t ht
      · rw [List.mem_singleton.1 ht]
        exact h.waiting_body no body hwait
    · intro t ht etag hstate
      rcases List.mem_append.1 ht with ht | ht
      · exact h.task_has t ht etag hstate
      · rw [List.mem_singleton.1 ht] at hstate
        cases hstate
  | @upload pre post no body etag hres hin =>
    have hbody : parts[no - 1]? = some body := h.task_body ⟨no, body, .running⟩ (by simp [hin])
    refine (h.store_part hbody etag).set_state hin ?_
    rintro etag' heq
    cases heq
    exact ⟨_, List.mem_cons_self, rfl, rfl⟩
  | uploadFails e _ hres hin => exact h.set_state hin (by simp)
  | panics msg _ hres hin => exact h.set_state hin (by simp)
  | @join pre post no body etag hres hwait hin =>
    have hsub : ∀ t ∈ pre ++ post, t ∈ m.inFlight := by
      intro t ht
      rw [hin]
      simp only [List.mem_append, List.mem_cons] at ht ⊢
      tauto
    refine { h with
      numbers_eq := ?_
      task_body := fun t ht => h.task_body t (hsub t ht)
      task_has := fun t ht => h.task_has t (hsub t ht)
      etag_has := ?_ }
    · intro hfailed
      rw [← h.numbers_eq hfailed]
      simp only [numbers, hin, hwait, Option.toList_none, List.map_nil, Multiset.coe_nil, zero_add,
        Multiset.coe_add, List.map_append, List.map_cons]
      refine Multiset.coe_eq_coe.2 ?_
      simp only [List.append_assoc, List.cons_append]
      refine List.Perm.append_left _ ?_
      refine List.Perm.trans ?_ List.perm_middle
      exact List.Perm.append_left _ (List.perm_append_singleton _ _)
    · intro t ht
      rcases List.mem_append.1 ht with ht | ht
      · exact h.etag_has t ht
      · rw [List.mem_singleton.1 ht]
        exact h.task_has ⟨no, body, .returned (.ok etag)⟩ (by simp [hin]) etag rfl
  | @joinError pre post no body e hres hwait hin =>
    have hsub : ∀ t ∈ pre ++ post, t ∈ m.inFlight := by
      intro t ht
      rw [hin]
      simp only [List.mem_append, List.mem_cons] at ht ⊢
      tauto
    have hsome : m.failed.or (some e) ≠ none := by simp
    exact { h with
      numbers_eq := fun hfailed => absurd hfailed hsome
      task_body := fun t ht => h.task_body t (hsub t ht)
      task_has := fun t ht => h.task_has t (hsub t ht)
      draining_waiting := fun _ => hwait
      draining_incoming := fun _ hfailed => absurd hfailed hsome }
  | joinPanic hres hwait hin =>
    exact { h with committed := by simp, hidden := fun _ => hnone hres }
  | close hres hdrain hwait hin =>
    exact { h with
      draining_waiting := fun _ => hwait
      draining_incoming := fun _ _ => hin
      committed := by simp [hres]
      hidden := fun _ => hnone hres }
  | abort hres hdrain hin hfailed =>
    exact { h with committed := by simp, hidden := fun _ => hnone hres }
  | noParts hres hdrain hin hfailed hetags =>
    exact { h with committed := by simp, hidden := fun _ => hnone hres }
  | @complete ps hres hdrain hin hfailed hetags hps =>
    exact { h with
      committed := fun _ => ⟨ps, rfl, h.assembled hdrain hin hfailed hps⟩
      hidden := by simp }
  | completeFails msg _ hres hdrain hin hfailed hetags =>
    exact { h with committed := by simp, hidden := fun _ => hnone hres }

variable {faults : Prop} {parts : List Bytes} {m : Multipart}

theorem Reachable.inv (h : Reachable faults parts m) : Inv parts m := by
  induction h with
  | refl => exact inv_start parts
  | tail _ hstep ih => exact hstep.inv ih

/-- **The object is the parts, in order.**  After `Ok` the completed parts are the
parts sent; after an error nothing has been completed. -/
theorem Reachable.committed (h : Reachable faults parts m) {r : Except StorageError Unit}
    (hr : m.result = some r) :
    m.completed.map (·.map UploadedPart.body) = if r = .ok () then some parts else none := by
  by_cases hok : r = .ok ()
  · subst hok
    obtain ⟨ps, hps, hbody⟩ := h.inv.committed hr
    rw [if_pos rfl, hps, Option.map_some, hbody]
  · rw [if_neg hok, h.inv.hidden (by rw [hr]; simpa using hok), Option.map_none]

/-! ## Calls without faults -/

/-- Nothing has failed so far. -/
structure Faultless (parts : List Bytes) (m : Multipart) : Prop where
  failed_none : m.failed = none
  state_ok : ∀ t ∈ m.inFlight, t.state = .running ∨ ∃ etag, t.state = .returned (.ok etag)
  result_ok : ∀ r, m.result = some r → r = .ok ()

theorem Step.faultless {m' : Multipart} (hstep : Step False m m') (hinv : Inv parts m)
    (hparts : parts ≠ []) (h : Faultless parts m) : Faultless parts m' := by
  obtain ⟨hfailed, hstate, hresult⟩ := h
  cases hstep with
  | recv hres => exact ⟨hfailed, hstate, hresult⟩
  | spawn hres =>
    refine ⟨hfailed, ?_, hresult⟩
    intro t ht
    rcases List.mem_append.1 ht with ht | ht
    · exact hstate t ht
    · rw [List.mem_singleton.1 ht]
      exact .inl rfl
  | upload etag hres hin =>
    refine ⟨hfailed, ?_, hresult⟩
    intro t ht
    simp only [hin, List.mem_append, List.mem_cons] at ht hstate
    rcases ht with ht | rfl | ht
    · exact hstate t (.inl ht)
    · exact .inr ⟨etag, rfl⟩
    · exact hstate t (.inr (.inr ht))
  | uploadFails _ hf => exact hf.elim
  | panics _ hf => exact hf.elim
  | join hres hwait hin =>
    refine ⟨hfailed, ?_, hresult⟩
    intro t ht
    simp only [hin, List.mem_append, List.mem_cons] at ht hstate
    exact hstate t (by tauto)
  | @joinError pre post no body e hres hwait hin =>
    obtain hrun | ⟨etag, hret⟩ := hstate ⟨no, body, .returned (.error e)⟩ (by simp [hin])
    · cases hrun
    · cases hret
  | @joinPanic pre post no body msg hres hwait hin =>
    obtain hrun | ⟨etag, hret⟩ := hstate ⟨no, body, .panicked msg⟩ (by simp [hin])
    · cases hrun
    · cases hret
  | close => exact ⟨hfailed, hstate, hresult⟩
  | abort hres hdrain hin hsome => rw [hfailed] at hsome; cases hsome
  | noParts hres hdrain hin _ hetags =>
    -- all parts have been joined, and there are some
    have hnumbers := hinv.numbers_eq hfailed
    have hlen := hinv.incoming_eq.2
    simp only [numbers, hinv.draining_waiting hdrain, hin, hetags, Option.toList_none, List.map_nil,
      Multiset.coe_nil, zero_add] at hnumbers
    rw [hinv.draining_incoming hdrain hfailed] at hlen
    have hno : m.partNo = 0 := by simpa using congrArg Multiset.card hnumbers.symm
    exact absurd (List.eq_nil_of_length_eq_zero (by simpa [hno] using hlen.symm)) hparts
  | complete => exact ⟨hfailed, hstate, fun r hr => (Option.some.inj hr).symm⟩
  | completeFails _ hf => exact hf.elim

theorem Reachable.faultless (h : Reachable False parts m) (hparts : parts ≠ []) :
    Faultless parts m := by
  induction h with
  | refl => exact ⟨rfl, by simp [start], by simp [start]⟩
  | tail hprev hstep ih => exact hstep.faultless (Reachable.inv hprev) hparts ih

/-- **A call without faults returns `Ok`**, if it is sent any part. -/
theorem Reachable.ok_of_faultless (h : Reachable False parts m) (hparts : parts ≠ [])
    {r : Except StorageError Unit} (hr : m.result = some r) : r = .ok () :=
  (h.faultless hparts).result_ok r hr

/-- Between two parts: everything received so far has been joined. -/
structure Idle (m : Multipart) : Prop where
  result_none : m.result = none
  draining_false : m.draining = false
  waiting_none : m.waiting = none
  inFlight_nil : m.inFlight = []
  failed_none : m.failed = none

/-- One part after the other can be received, uploaded and joined. -/
theorem exists_idle (faults : Prop) {i : ℕ} (hi : i ≤ parts.length) :
    ∃ m, Reachable faults parts m ∧ Idle m ∧ m.partNo = i := by
  induction i with
  | zero => exact ⟨start parts, .refl, ⟨rfl, rfl, rfl, rfl, rfl⟩, rfl⟩
  | succ i ih =>
    obtain ⟨m, hm, ⟨hres, hdrain, hwait, hin, hfailed⟩, hno⟩ := ih (by omega)
    have hlen := hm.inv.incoming_eq.2
    obtain ⟨body, rest, hincoming⟩ : ∃ body rest, m.incoming = body :: rest :=
      List.exists_cons_of_length_pos (by omega)
    -- receive it, give it a permit, upload it, join it
    have hrecv := hm.tail (.recv hres hdrain hwait hincoming)
    have hspawn := hrecv.tail (.spawn hres rfl (by simp [permits, hin, mpuConcurrency]))
    have hupload := hspawn.tail
      (@Step.upload _ _ [] [] (m.partNo + 1) body "" hres (by simp only [hin, List.nil_append]))
    have hjoin := hupload.tail
      (@Step.join _ _ [] [] (m.partNo + 1) body "" hres rfl rfl)
    exact ⟨_, hjoin, ⟨hres, hdrain, rfl, rfl, hfailed⟩, congrArg (· + 1) hno⟩

/-- **A call can return `Ok`**, whatever it is sent. -/
theorem exists_ok (faults : Prop) (hparts : parts ≠ []) :
    ∃ m, Reachable faults parts m ∧ m.result = some (.ok ()) := by
  obtain ⟨m, hm, ⟨hres, hdrain, hwait, hin, hfailed⟩, hno⟩ :=
    @exists_idle parts faults _ le_rfl
  have hlen := hm.inv.incoming_eq.2
  have hincoming : m.incoming = [] := List.eq_nil_of_length_eq_zero (by omega)
  have hetags : m.etags ≠ [] := by
    intro hnil
    have hnumbers := hm.inv.numbers_eq hfailed
    simp only [numbers, hwait, hin, hnil, Option.toList_none, List.map_nil, Multiset.coe_nil,
      zero_add] at hnumbers
    have hzero : m.partNo = 0 := by simpa using congrArg Multiset.card hnumbers.symm
    exact hparts (List.eq_nil_of_length_eq_zero (by omega))
  obtain ⟨ps, hps⟩ : ∃ ps, Assembles m.uploaded m.sortedTags ps := by
    refine exists_assembles fun t ht => hm.inv.etag_has t ?_
    exact (List.mergeSort_perm _ _).mem_iff.1 ht
  exact ⟨_, (hm.tail (.close hres hdrain hwait hincoming)).tail
    (.complete hres rfl hin hfailed hetags hps), rfl⟩

end Multipart
end Storage
end Uwuubox
