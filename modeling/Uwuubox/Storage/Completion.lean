import Uwuubox.Storage.Multipart

/-!
# How a multipart upload ends

`S3Store::multipart_upload` asks the bucket to complete the upload, or aborts it, or leaves by a `?`.

* `Completes`, `Step.completes` — the states in which `complete_multipart_upload` is called; it is
  called with `sortedTags`.
* `Tagged` — **the invariant**: the tags that the bucket has returned are those of the tasks that
  have returned and of the parts that have been joined.
* `completes_in_order` — **at most `MPU_CONCURRENCY` parts are uploaded at a time, and the completion
  names all parts, in order, each with the tag of its upload.**
* `Undisturbed`, `aborted_iff_undisturbed` — **a call that fails has aborted the upload** if and only if
  no part task panics and the completion is not refused.
* `orphaned_parts` — two calls that leave by the `?`.
-/

open Relation

namespace Uwuubox
namespace Storage
/-- The number of a part with the tag that its upload was answered with. -/
def UploadedPart.tag (u : UploadedPart) : ℕ × ETag := (u.no, u.etag)

/-- What a task has returned. -/
def PartTask.tag? (t : PartTask) : Option (ℕ × ETag) :=
  match t.state with
  | .returned (.ok etag) => some (t.no, etag)
  | _ => none

namespace Multipart

variable {faults : Prop} {parts : List Bytes} {m m' : Multipart}

/-! ## The permits -/

/-- Only the spawn of a task takes a permit. -/
theorem Step.permits_le (hstep : Step faults m m') (h : m.permits ≤ mpuConcurrency) :
    m'.permits ≤ mpuConcurrency := by
  unfold permits at h ⊢
  cases hstep with
  | spawn hres hwait hpermit =>
    unfold permits at hpermit
    simp only [List.filter_append, List.length_append]
    exact hpermit
  | upload etag hres hin | uploadFails e hfaults hres hin | panics msg hfaults hres hin =>
    simp only [hin, List.filter_append, List.length_append, List.filter_cons] at h ⊢
    simp only [decide_true, if_true, List.length_cons, reduceCtorEq, decide_false, Bool.false_eq_true,
      if_false] at h ⊢
    omega
  | join hres hwait hin | joinError hres hwait hin =>
    simpa [hin, List.filter_append, List.filter_cons] using h
  | recv | joinPanic | close | abort | noParts | complete | completeFails => exact h

theorem Reachable.permits_le (h : Reachable faults parts m) : m.permits ≤ mpuConcurrency := by
  induction h with
  | refl => exact Nat.zero_le _
  | tail _ hstep ih => exact hstep.permits_le ih

/-! ## The tags -/

/-- **The invariant.**  Each tag that the bucket has returned is with a task or has been joined. -/
def Tagged (m : Multipart) : Prop :=
  (↑(m.uploaded.map UploadedPart.tag) : Multiset (ℕ × ETag)) =
    ↑(m.inFlight.filterMap PartTask.tag?) + ↑m.etags

/-- The tag of one task beside those of the others. -/
theorem tags_split (pre post : List PartTask) (t : PartTask) :
    (↑((pre ++ t :: post).filterMap PartTask.tag?) : Multiset (ℕ × ETag)) =
      ↑t.tag?.toList + ↑((pre ++ post).filterMap PartTask.tag?) := by
  rw [List.filterMap_append, List.filterMap_append, Multiset.coe_add, Multiset.coe_eq_coe]
  cases htag : t.tag? with
  | none => simp [htag]
  | some tag =>
    simp only [List.filterMap_cons, htag, Option.toList_some, List.singleton_append]
    exact List.perm_middle

theorem Step.tagged (hstep : Step faults m m') (h : m.Tagged) : m'.Tagged := by
  unfold Tagged at h ⊢
  cases hstep with
  | recv | joinPanic | close | abort | noParts | complete | completeFails => exact h
  | spawn hres hwait hpermit =>
    simpa [List.filterMap_append, List.filterMap_cons, PartTask.tag?] using h
  | @upload pre post no body etag hres hin =>
    rw [hin, tags_split] at h
    simp only [tags_split, List.map_cons, ← Multiset.cons_coe, h]
    simp [PartTask.tag?, UploadedPart.tag]
  | uploadFails e hfaults hres hin | panics msg hfaults hres hin =>
    rw [hin, tags_split] at h
    simp only [tags_split, h]
    simp [PartTask.tag?]
  | @join pre post no body etag hres hwait hin =>
    rw [hin, tags_split] at h
    rw [h, ← Multiset.coe_add]
    simp only [PartTask.tag?, Option.toList_some]
    abel
  | joinError hres hwait hin =>
    rw [hin, tags_split] at h
    simpa [PartTask.tag?] using h

theorem Reachable.tagged (h : Reachable faults parts m) : m.Tagged := by
  induction h with
  | refl => rfl
  | tail _ hstep ih => exact hstep.tagged ih

/-! ## The completion -/

/-- `complete_multipart_upload` is about to be called: everything is joined and nothing has failed. -/
structure Completes (m : Multipart) : Prop where
  running : m.result = none
  draining : m.draining = true
  joined : m.inFlight = []
  failed : m.failed = none
  some_tag : m.etags ≠ []

theorem Step.running (hstep : Step faults m m') : m.result = none := by
  cases hstep <;> assumption

/-- Only there the bucket is asked to complete the upload, whatever it answers. -/
theorem Step.completes (hstep : Step faults m m') (h : m'.called ≠ m.called) :
    m.Completes ∧ m'.called = some m.sortedTags ∧ m'.uploaded = m.uploaded := by
  cases hstep with
  | complete hres hdrain hin hfailed hetags | completeFails msg hfaults hres hdrain hin hfailed hetags =>
    exact ⟨⟨hres, hdrain, hin, hfailed, hetags⟩, rfl, rfl⟩
  | _ => exact absurd rfl h

/-- A call that has asked for the completion has returned. -/
def Asked (m : Multipart) : Prop := m.called ≠ none → m.result ≠ none

theorem Step.asked (hstep : Step faults m m') (h : m.Asked) : m'.Asked := by
  have hno : m.called ≠ none → False := fun hcalled => h hcalled hstep.running
  cases hstep with
  | complete | completeFails => exact fun _ => nofun
  | _ => exact fun hcalled => (hno hcalled).elim

theorem Reachable.asked (h : Reachable faults parts m) : m.Asked := by
  induction h with
  | refl => exact fun hcalled => absurd rfl hcalled
  | tail _ hstep ih => exact hstep.asked ih

/-- **The last step of a run that has asked for the completion asked for it**, with the sorted tags. -/
theorem Reachable.completes (h : Reachable faults parts m) {tags : List (ℕ × ETag)}
    (hcalled : m.called = some tags) :
    ∃ before, Reachable faults parts before ∧ before.Completes ∧ tags = before.sortedTags ∧
      m.uploaded = before.uploaded := by
  rcases ReflTransGen.cases_tail h with rfl | ⟨before, hrun, hstep⟩
  · cases hcalled
  · have hbefore : before.called = none := by
      by_contra hsome
      exact Reachable.asked hrun hsome hstep.running
    obtain ⟨hc, htags, huploaded⟩ := hstep.completes (by rw [hcalled, hbefore]; nofun)
    rw [hcalled] at htags
    exact ⟨before, hrun, hc, Option.some.inj htags, huploaded⟩

/-- The tags that the completion names are those of the uploads. -/
theorem Tagged.uploads (h : m.Tagged) (hc : m.Completes) :
    (m.uploaded.map UploadedPart.tag).Perm m.sortedTags := by
  unfold Tagged at h
  rw [hc.joined, List.filterMap_nil, Multiset.coe_nil, zero_add] at h
  exact (Multiset.coe_eq_coe.1 h).trans (List.mergeSort_perm _ _).symm

/-- Where the completion is called, the tags are the parts that were sent, in order. -/
theorem Reachable.in_order (h : Reachable faults parts m) (hc : m.Completes) :
    m.sortedTags ≠ [] ∧ m.sortedTags.map Prod.fst = List.range' 1 parts.length ∧
    ∀ (i : ℕ) (body : Bytes), parts[i]? = some body → ∃ u ∈ m.uploaded,
      u.no = i + 1 ∧ u.body = body ∧ m.sortedTags[i]? = some (i + 1, u.etag) ∧
      ∀ other ∈ m.uploaded, other.no = i + 1 → other.etag = u.etag := by
  have hnos := h.inv.sortedTags_fst hc.draining hc.joined hc.failed
  have hperm := h.tagged.uploads hc
  refine ⟨fun hnil => ?_, hnos, fun i body hbody => ?_⟩
  · have hsame := List.mergeSort_perm m.etags fun a b => decide (a.1 ≤ b.1)
    rw [show m.etags.mergeSort _ = [] from hnil] at hsame
    exact hc.some_tag hsame.nil_eq.symm
  · obtain ⟨hi, -⟩ := List.getElem?_eq_some_iff.1 hbody
    have hlen : i < m.sortedTags.length := by
      have := congrArg List.length hnos
      simp only [List.length_map, List.length_range'] at this
      omega
    -- entry `i` has number `i + 1`, and is the tag of an upload
    have hno : m.sortedTags[i].1 = i + 1 := by
      have := List.getElem_of_eq hnos (i := i) (by simpa using hlen)
      simpa [Nat.add_comm] using this
    obtain ⟨u, hu, htag⟩ := List.mem_map.1 (hperm.mem_iff.2 (List.getElem_mem hlen))
    have huno : u.no = i + 1 := (congrArg Prod.fst htag).trans hno
    refine ⟨u, hu, huno, ?_, ?_, fun other hother hotherno => ?_⟩
    · have hubody := h.inv.uploaded_body u hu
      rw [huno, Nat.add_sub_cancel, hbody] at hubody
      exact (Option.some.inj hubody).symm
    · rw [List.getElem?_eq_getElem hlen, ← htag, ← huno]
      rfl
    · -- no number is there twice
      have hnodup : (m.uploaded.map UploadedPart.no).Nodup := by
        have hperm' := hperm.map Prod.fst
        rw [List.map_map, hnos] at hperm'
        exact hperm'.nodup_iff.2 List.nodup_range'
      rw [List.inj_on_of_nodup_map hnodup hother hu (hotherno.trans huno.symm)]

/-- **The completion names all parts, in order.**  In every schedule at most `MPU_CONCURRENCY` parts
are uploaded at a time; and if `complete_multipart_upload` has been called, each part that was sent has
been uploaded once, and entry `i` of what it was called with is the number of the `i`-th part with the
tag of its upload. -/
theorem completes_in_order (h : Reachable faults parts m) :
    m.permits ≤ mpuConcurrency ∧ ∀ tags, m.called = some tags →
      tags ≠ [] ∧ tags.map Prod.fst = List.range' 1 parts.length ∧
      ∀ (i : ℕ) (body : Bytes), parts[i]? = some body → ∃ u ∈ m.uploaded,
        u.no = i + 1 ∧ u.body = body ∧ tags[i]? = some (i + 1, u.etag) ∧
        ∀ other ∈ m.uploaded, other.no = i + 1 → other.etag = u.etag := by
  refine ⟨h.permits_le, fun tags hcalled => ?_⟩
  obtain ⟨before, hbefore, hc, rfl, huploaded⟩ := h.completes hcalled
  rw [huploaded]
  exact Reachable.in_order hbefore hc

/-- A call with two parts, the second of which is uploaded and joined first. -/
def twoParts : Multipart where
  incoming := []
  partNo := 2
  waiting := none
  inFlight := []
  etags := [(2, "b"), (1, "a")]
  failed := none
  draining := true
  uploaded := [⟨1, [1], "a"⟩, ⟨2, [2], "b"⟩]
  aborted := false
  called := none
  completed := none
  result := none

theorem reachable_twoParts : Reachable True [[1], [2]] twoParts := by
  have hstart : Reachable True [[1], [2]] (start [[1], [2]]) := .refl
  have hspawned := (((hstart.tail (.recv rfl rfl rfl rfl)).tail
    (.spawn rfl rfl (by decide))).tail (.recv rfl rfl rfl rfl)).tail (.spawn rfl rfl (by decide))
  have hsecond := hspawned.tail
    (@Step.upload True _ [⟨1, [1], .running⟩] [] 2 [2] "b" rfl rfl)
  have hfirst := hsecond.tail
    (@Step.upload True _ [] [⟨2, [2], .returned (.ok "b")⟩] 1 [1] "a" rfl rfl)
  have hjoined := (hfirst.tail
    (@Step.join True _ [⟨1, [1], .returned (.ok "a")⟩] [] 2 [2] "b" rfl rfl rfl)).tail
    (@Step.join True _ [] [] 1 [1] "a" rfl rfl rfl)
  exact hjoined.tail (.close rfl rfl rfl rfl)

/-- The bucket refuses a completion. -/
theorem Completes.refused (hc : m.Completes) {tags : List (ℕ × ETag)} (hsorted : m.sortedTags = tags)
    (msg : String) :
    Step True m { m with called := some tags, result := some (.error (.backend msg)) } := by
  subst hsorted
  exact .completeFails msg trivial hc.running hc.draining hc.joined hc.failed hc.some_tag

/-- The same call after `complete_multipart_upload` has been refused. -/
def refusedParts : Multipart where
  __ := twoParts
  called := some [(1, "a"), (2, "b")]
  result := some (.error (.backend "503"))

theorem reachable_refusedParts : Reachable True [[1], [2]] refusedParts := by
  have hsorted : twoParts.sortedTags = [(1, "a"), (2, "b")] := by
    simp [sortedTags, twoParts, List.mergeSort, List.MergeSort.Internal.splitInTwo]
  exact reachable_twoParts.tail (Completes.refused ⟨rfl, rfl, rfl, rfl, by decide⟩ hsorted "503")

theorem completes_in_order_refusedParts :
    refusedParts.called = some [(1, "a"), (2, "b")] ∧ refusedParts.permits ≤ mpuConcurrency ∧
    ∀ (i : ℕ) (body : Bytes), [[1], [2]][i]? = some body → ∃ u ∈ refusedParts.uploaded,
      u.no = i + 1 ∧ u.body = body ∧ [(1, "a"), (2, "b")][i]? = some (i + 1, u.etag) ∧
      ∀ other ∈ refusedParts.uploaded, other.no = i + 1 → other.etag = u.etag := by
  obtain ⟨hpermits, hcalled⟩ := completes_in_order reachable_refusedParts
  exact ⟨rfl, hpermits, (hcalled _ rfl).2.2⟩

/-! ## The abort -/

/-- A step of a run that no `?` leaves: no part task has panicked, and the completion is not
refused. -/
structure Undisturbed (faults : Prop) (m m' : Multipart) : Prop where
  step : Step faults m m'
  tasks : ∀ t ∈ m.inFlight, ∀ msg, t.state ≠ .panicked msg
  completion : m.Completes → ∀ e, m'.result ≠ some (.error e)

/-- A call that has aborted the upload has joined its tasks and returned. -/
def Ended (m : Multipart) : Prop := m.aborted = true → m.inFlight = [] ∧ m.result ≠ none

theorem Step.ended (hstep : Step faults m m') (h : m.Ended) : m'.Ended := by
  have hno : m.aborted = true → False := fun ha => (h ha).2 hstep.running
  cases hstep with
  | abort hres hdrain hin hfailed | noParts hres hdrain hin hfailed hetags =>
    exact fun _ => ⟨hin, nofun⟩
  | _ => exact fun ha => (hno ha).elim

theorem Reachable.ended (h : Reachable faults parts m) : m.Ended := by
  induction h with
  | refl => exact nofun
  | tail _ hstep ih => exact hstep.ended ih

/-- A part task has panicked. -/
def Panicked (m : Multipart) : Prop := ∃ t ∈ m.inFlight, ∃ msg, t.state = .panicked msg

/-- A panicked task is not joined: the call that joins it leaves. -/
theorem Step.panicked (hstep : Step faults m m') (h : m.Panicked) : m'.Panicked := by
  obtain ⟨t, ht, msg, hstate⟩ := h
  have hother : ∀ {pre post : List PartTask} {task : PartTask}, m.inFlight = pre ++ task :: post →
      (∀ msg, task.state ≠ .panicked msg) → t ∈ pre ∨ t ∈ post := by
    intro pre post task hin hcalm
    rw [hin, List.mem_append, List.mem_cons] at ht
    rcases ht with ht | rfl | ht
    · exact .inl ht
    · exact absurd hstate (hcalm msg)
    · exact .inr ht
  refine ⟨t, ?_, msg, hstate⟩
  cases hstep with
  | upload etag hres hin | uploadFails e hfaults hres hin | panics msg hfaults hres hin =>
    rcases hother hin nofun with hpre | hpost
    · exact List.mem_append.2 (.inl hpre)
    · exact List.mem_append.2 (.inr (List.mem_cons_of_mem _ hpost))
  | join hres hwait hin | joinError hres hwait hin => exact List.mem_append.2 (hother hin nofun)
  | spawn => exact List.mem_append.2 (.inl ht)
  | recv | joinPanic | close | abort | noParts | complete | completeFails => exact ht

/-- The call has left by a `?`. -/
def Orphaned (m : Multipart) : Prop := m.aborted = false ∧ ∃ e, m.result = some (.error e)

/-- A step is undisturbed, or starts with a panicked task, or leaves the upload orphaned. -/
theorem Step.undisturbed_or (hstep : Step faults m m') (hended : m.Ended) :
    Undisturbed faults m m' ∨ m.Panicked ∨ m'.Orphaned := by
  by_cases hpanicked : m.Panicked
  · exact .inr (.inl hpanicked)
  by_cases hrefused : m.Completes ∧ ∃ e, m'.result = some (.error e)
  · obtain ⟨hc, e, he⟩ := hrefused
    refine .inr (.inr ⟨?_, e, he⟩)
    have hopen : m.aborted = false := by
      cases ha : m.aborted with
      | false => rfl
      | true => exact absurd hc.running (hended ha).2
    cases hstep with
    | abort hres hdrain hin hfailed =>
      rw [hc.failed] at hfailed
      cases hfailed
    | noParts hres hdrain hin hfailed hetags => exact absurd hetags hc.some_tag
    | _ => exact hopen
  · exact .inl ⟨hstep, fun t ht msg hstate => hpanicked ⟨t, ht, msg, hstate⟩,
      fun hc e he => hrefused ⟨hc, e, he⟩⟩

/-- A run is undisturbed, or a task has panicked in it, or it has left the upload orphaned. -/
theorem Reachable.undisturbed_or (h : Reachable faults parts m) :
    ReflTransGen (Undisturbed faults) (start parts) m ∨ m.Panicked ∨ m.Orphaned := by
  induction h with
  | refl => exact .inl .refl
  | tail hrun hstep ih =>
    rcases ih with hcalm | hpanicked | ⟨-, e, he⟩
    · rcases hstep.undisturbed_or (Reachable.ended hrun) with hundisturbed | hpanicked | horphaned
      · exact .inl (hcalm.tail hundisturbed)
      · exact .inr (.inl (hstep.panicked hpanicked))
      · exact .inr (.inr horphaned)
    · exact .inr (.inl (hstep.panicked hpanicked))
    · rw [hstep.running] at he
      cases he

/-- An undisturbed step that fails the call aborts the upload. -/
theorem Undisturbed.aborted (h : Undisturbed faults m m') {e : StorageError}
    (he : m'.result = some (.error e)) : m'.aborted = true := by
  obtain ⟨hstep, htasks, hcompletion⟩ := h
  have hrunning := hstep.running
  cases hstep with
  | abort | noParts => rfl
  | @joinPanic pre post no body msg hres hwait hin =>
    exact absurd rfl (htasks ⟨no, body, .panicked msg⟩ (by simp [hin]) msg)
  | completeFails msg hfaults hres hdrain hin hfailed hetags =>
    exact absurd he (hcompletion ⟨hres, hdrain, hin, hfailed, hetags⟩ e)
  | complete => cases he
  | recv | spawn | upload | uploadFails | panics | join | joinError | close =>
    rw [show (_ : Multipart).result = none from hrunning] at he
    cases he

/-- **Which failures abort the upload.**  A call that returns an error has called
`abort_multipart_upload` if and only if the run is undisturbed: no part task panicked, and the
completion was not refused. -/
theorem aborted_iff_undisturbed (h : Reachable faults parts m) {e : StorageError}
    (he : m.result = some (.error e)) :
    m.aborted = true ↔ ReflTransGen (Undisturbed faults) (start parts) m := by
  constructor
  · intro ha
    rcases h.undisturbed_or with hcalm | ⟨t, ht, -⟩ | ⟨hopen, -⟩
    · exact hcalm
    · rw [(h.ended ha).1] at ht
      cases ht
    · rw [hopen] at ha
      cases ha
  · intro hcalm
    rcases ReflTransGen.cases_tail hcalm with rfl | ⟨before, -, hlast⟩
    · cases he
    · exact hlast.aborted he

/-! ### Three calls with one part -/

/-- The part is with its task, and the channel is closed. -/
def sentPart (state : TaskState) : Multipart where
  incoming := []
  partNo := 1
  waiting := none
  inFlight := [⟨1, [7], state⟩]
  etags := []
  failed := none
  draining := true
  uploaded := []
  aborted := false
  called := none
  completed := none
  result := none

theorem reachable_sentPart : Reachable True [[7]] (sentPart .running) := by
  have hstart : Reachable True [[7]] (start [[7]]) := .refl
  exact ((hstart.tail (.recv rfl rfl rfl rfl)).tail (.spawn rfl rfl (by decide))).tail
    (.close rfl rfl rfl rfl)

/-- The upload of the part has failed, and the call has aborted. -/
def failedPart : Multipart where
  __ := sentPart .running
  inFlight := []
  failed := some (.backend "timeout")
  aborted := true
  result := some (.error (.backend "timeout"))

theorem reachable_failedPart : Reachable True [[7]] failedPart :=
  ((reachable_sentPart.tail (@Step.uploadFails True _ [] [] 1 [7] (.backend "timeout") trivial rfl rfl)).tail
    (@Step.joinError True _ [] [] 1 [7] (.backend "timeout") rfl rfl rfl)).tail (.abort rfl rfl rfl rfl)

theorem aborted_iff_undisturbed_failedPart : failedPart.aborted = true ↔
    ReflTransGen (Undisturbed True) (start [[7]]) failedPart :=
  aborted_iff_undisturbed reachable_failedPart rfl

/-- The part task has panicked, and the call has left. -/
def panickedPart : Multipart where
  __ := sentPart (.panicked "join error")
  result := some (.error (.backend "join error"))

/-- The part has been uploaded and joined. -/
def joinedPart : Multipart where
  __ := sentPart .running
  inFlight := []
  etags := [(1, "a")]
  uploaded := [⟨1, [7], "a"⟩]

/-- The completion has been refused, and the call has left. -/
def refusedPart : Multipart where
  __ := joinedPart
  called := some [(1, "a")]
  result := some (.error (.backend "503"))

theorem reachable_refusedPart : Reachable True [[7]] refusedPart := by
  have hjoined : Reachable True [[7]] joinedPart :=
    (reachable_sentPart.tail (@Step.upload True _ [] [] 1 [7] "a" rfl rfl)).tail
      (@Step.join True _ [] [] 1 [7] "a" rfl rfl rfl)
  have hsorted : joinedPart.sortedTags = [(1, "a")] := List.mergeSort_singleton _
  exact hjoined.tail (Completes.refused ⟨rfl, rfl, rfl, rfl, by decide⟩ hsorted "503")

/-- Both calls return an error and have not aborted. -/
theorem orphaned_parts :
    (Reachable True [[7]] panickedPart ∧ panickedPart.Orphaned) ∧
    (Reachable True [[7]] refusedPart ∧ refusedPart.Orphaned) := by
  refine ⟨⟨?_, rfl, _, rfl⟩, reachable_refusedPart, rfl, _, rfl⟩
  exact (reachable_sentPart.tail
    (@Step.panics True _ [] [] 1 [7] "join error" trivial rfl rfl)).tail
    (@Step.joinPanic True _ [] [] 1 [7] "join error" rfl rfl rfl)

end Multipart
end Storage
end Uwuubox
