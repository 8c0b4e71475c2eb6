import Uwuubox.Gc.Cleared

/-!
# A dry run and a collection

`inspect` adds up what is to be reclaimed from the sets it has read; `reclaim` adds up what it deletes, and decides
again for each key.

* `foldl_saturatingAdd` — a saturating sum is the sum, or the greatest number.
* `Site.freed` — the sizes of what is doomed among some orphans.
* `obeys_reclaim_bytes` — the collector adds them up.
* `inspect_bytes` — so does the report.
* `sum_freed` — they are the sizes of the objects that are gone afterwards.
* `dryRun_eq_run` — **a dry run says what a collection reclaims**.
-/

namespace Uwuubox
namespace Gc

open Dedupe Storage Table Fallible

/-! ## Sums -/

/-- A saturating sum is the sum, or the greatest number. -/
theorem foldl_saturatingAdd (sizes : List ℕ) {total : ℕ} (htotal : total ≤ u64Size - 1) :
    sizes.foldl saturatingAdd total = min (total + sizes.sum) (u64Size - 1) := by
  induction sizes generalizing total with
  | nil => simp [htotal]
  | cons size sizes ih =>
    have hbound : saturatingAdd total size ≤ u64Size - 1 := min_le_right _ _
    rw [List.foldl_cons, ih hbound, List.sum_cons]
    unfold saturatingAdd
    omega

/-- The sizes of what is doomed. -/
def Site.freed (site : Site) (inventory : List (ObjKey × ℕ)) (orphans : List Orphan) : List ℕ :=
  (orphans.filter fun o => o.reason ≠ .missingBytes ∧ site.Doomed o.key).filterMap fun o => storedBytes inventory o.key

section

variable {site site' : Site} {inventory : List (ObjKey × ℕ)} {orphan : Orphan} {orphans rest : List Orphan}

/-- What is doomed is reported, and not as missing its bytes. -/
theorem Site.Doomed.reported {key : ObjKey} (h : site.Doomed key) :
    ∃ orphan ∈ site.reads.orphans, orphan.key = key ∧ orphan.reason ≠ .missingBytes := by
  obtain ⟨⟨reason, bytes⟩, hfinding, hreason⟩ := (Option.any_eq_true _ _).1 h.finding
  obtain ⟨orphan, horphan, hkey, rfl⟩ := reports_iff.2 ⟨bytes, hfinding⟩
  exact ⟨orphan, horphan, hkey, of_decide_eq_true hreason⟩

/-! ## The collector -/

/-- The number of bytes reclaimed after one orphan. -/
def Site.afterOne (site : Site) (inventory : List (ObjKey × ℕ)) (key : ObjKey) (reclaimed : ℕ) : ℕ :=
  if site.Doomed key then saturatingAdd reclaimed ((storedBytes inventory key).getD 0) else reclaimed

/-- What one orphan adds. -/
theorem obeys_reclaimOne_bytes (orphan : Orphan) (reclaimed : ℕ)
    (hlisting : (storedBytes inventory orphan.key).isSome ↔ Listed orphan.key ∧ site.Stored orphan.key) :
    (reclaimOne inventory orphan reclaimed).Obeys (.ofExec (exec False))
      (fun total _ => total = site.afterOne inventory orphan.key reclaimed) (fun _ _ => True) site := by
  unfold reclaimOne
  refine (obeys_bind _ _).2 (obeys_ask (fun refcount hrefcount => ?_) fun _ _ _ _ => trivial)
  obtain rfl : site.refcount? orphan.key = refcount := Except.ok.inj hrefcount
  refine (obeys_bind _ _).2 (obeys_ask (fun referenced href => ?_) fun _ _ _ _ => trivial)
  obtain rfl : decide (site.StorageRef orphan.key ∨ site.AvatarRef orphan.key) = referenced := Except.ok.inj href
  simp only [answer]
  split
  · rename_i hspared
    have hnot : ¬ site.Doomed orphan.key := fun h => spared_iff.1 hspared h.2
    refine (obeys_bind _ _).2 (obeys_ask (fun _ _ => ?_) fun _ _ _ _ => trivial)
    exact (if_neg hnot).symm
  · rename_i hspared
    have hzero := not_not.1 (spared_iff.not.1 hspared)
    have hdelete : (deleteListed inventory orphan.key reclaimed).Obeys (.ofExec (exec False))
        (fun total _ => total = site.afterOne inventory orphan.key reclaimed) (fun _ _ => True) site := by
      unfold deleteListed
      cases hbytes : storedBytes inventory orphan.key with
      | none =>
        have hnot : ¬ site.Doomed orphan.key := fun h => by simpa [hbytes] using hlisting.2 h.1
        exact (if_neg hnot).symm
      | some bytes =>
        have hdoomed : site.Doomed orphan.key := ⟨hlisting.1 (by rw [hbytes]; rfl), hzero⟩
        have htotal : site.afterOne inventory orphan.key reclaimed = saturatingAdd reclaimed bytes := by
          simp [Site.afterOne, hdoomed, hbytes]
        unfold deleteBytes
        refine (obeys_bind _ _).2 ?_
        split
        · exact obeys_ask (fun _ _ => htotal.symm) fun _ _ _ _ => trivial
        · exact trivial
    refine (obeys_bind _ _).2 (hdelete.mono (fun total site' htotal => ?_) fun _ _ _ => trivial)
    exact (obeys_bind _ _).2 ((obeys_commitDeletion _ _).mono (fun _ _ _ => htotal) fun _ _ _ => trivial)

theorem freed_cons : site.freed inventory (orphan :: rest) =
    if orphan.reason ≠ .missingBytes ∧ site.Doomed orphan.key ∧ (storedBytes inventory orphan.key).isSome then
      (storedBytes inventory orphan.key).getD 0 :: site.freed inventory rest
    else site.freed inventory rest := by
  unfold Site.freed
  rw [List.filter_cons]
  by_cases hreason : orphan.reason = .missingBytes
  · simp [hreason]
  · by_cases hdoomed : site.Doomed orphan.key
    · cases hbytes : storedBytes inventory orphan.key <;> simp [hreason, hdoomed, hbytes]
    · simp [hreason, hdoomed]

theorem freed_congr (h : ∀ o ∈ orphans, site'.Doomed o.key ↔ site.Doomed o.key) :
    site'.freed inventory orphans = site.freed inventory orphans := by
  unfold Site.freed
  congr 1
  refine List.filter_congr fun o ho => ?_
  simp only [h o ho]

/-- **The collector adds up** the sizes of what is doomed, which the store accepts. -/
theorem obeys_reclaim_bytes (reclaimed : ℕ) (hnodup : (orphans.map Orphan.key).Nodup)
    (hlisting : ∀ o ∈ orphans, (storedBytes inventory o.key).isSome ↔ Listed o.key ∧ site.Stored o.key) :
    (reclaim inventory orphans reclaimed).Obeys (.ofExec (exec False))
      (fun total _ => total = (site.freed inventory orphans).foldl saturatingAdd reclaimed ∧
        ∀ o ∈ orphans, o.reason ≠ .missingBytes → site.Doomed o.key → assertSafeKey o.key = true)
      (fun _ _ => True) site := by
  induction orphans generalizing site reclaimed with
  | nil => exact ⟨rfl, nofun⟩
  | cons orphan rest ih =>
    obtain ⟨hnotin, hnodup⟩ := List.nodup_cons.1 hnodup
    have hrest := fun o ho => hlisting o (List.mem_cons_of_mem _ ho)
    unfold reclaim
    by_cases hreason : orphan.reason = .missingBytes
    · rw [if_pos hreason, freed_cons, if_neg fun h => h.1 hreason]
      refine (ih reclaimed hnodup hrest).mono ?_ fun _ _ _ => trivial
      rintro total _ ⟨htotal, hsafe⟩
      refine ⟨htotal, fun o ho hne => ?_⟩
      rcases List.mem_cons.1 ho with rfl | ho
      · exact absurd hreason hne
      · exact hsafe o ho hne
    · rw [if_neg hreason]
      have hone := (obeys_reclaimOne orphan reclaimed (hlisting _ List.mem_cons_self)).and
        (obeys_reclaimOne_bytes orphan reclaimed (hlisting _ List.mem_cons_self))
      refine (obeys_bind _ _).2 (hone.mono ?_ fun _ _ _ => trivial)
      rintro _ site' ⟨hdealt, rfl⟩
      have hsame : ∀ o ∈ rest, o.key ≠ orphan.key := fun o ho heq => hnotin (List.mem_map.2 ⟨o, ho, heq⟩)
      have hlisting' : ∀ o ∈ rest, (storedBytes inventory o.key).isSome ↔ Listed o.key ∧ site'.Stored o.key := by
        intro o ho
        rw [hrest o ho, hdealt.sameBut.stored (hsame o ho)]
      refine (ih _ hnodup hlisting').mono ?_ fun _ _ _ => trivial
      rintro total _ ⟨rfl, hsafe⟩
      rw [freed_congr fun o ho => hdealt.sameBut.doomed (hsame o ho), freed_cons]
      refine ⟨?_, fun o ho hne hdoomed => ?_⟩
      · by_cases hdoomed : site.Doomed orphan.key
        · have hbytes := (hlisting _ List.mem_cons_self).2 hdoomed.1
          unfold Site.afterOne
          rw [if_pos hdoomed, if_pos ⟨hreason, hdoomed, hbytes⟩, List.foldl_cons]
        · unfold Site.afterOne
          rw [if_neg hdoomed, if_neg fun h => hdoomed h.2.1]
      · rcases List.mem_cons.1 ho with rfl | ho
        · exact (hdealt.gone hdoomed).1
        · exact hsafe o ho hne ((hdealt.sameBut.doomed (hsame o ho)).2 hdoomed)

/-- **What a collection reports** as reclaimed. -/
theorem obeys_run_bytes (site : Site) : (run false).Obeys (.ofExec (exec False))
    (fun report _ => report.reclaimedBytes =
        (site.freed site.reads.inventory site.reads.orphans).foldl saturatingAdd 0 ∧
      ∀ key, site.Doomed key → assertSafeKey key = true) (fun _ _ => True) site := by
  unfold run
  refine (obeys_bind _ _).2 ?_
  unfold inspectSite
  refine (obeys_bind _ _).2 (obeys_ask (fun inventory h => ?_) fun _ _ _ _ => trivial)
  obtain rfl : site.reads.inventory = inventory := Except.ok.inj h
  refine (obeys_bind _ _).2 (obeys_ask (fun objects h => ?_) fun _ _ _ _ => trivial)
  obtain rfl : site.reads.objects = objects := Except.ok.inj h
  refine (obeys_bind _ _).2 (obeys_ask (fun avatarKeys h => ?_) fun _ _ _ _ => trivial)
  obtain rfl : site.reads.avatarKeys = avatarKeys := Except.ok.inj h
  refine (obeys_bind _ _).2 (obeys_ask (fun fileKeys h => ?_) fun _ _ _ _ => trivial)
  obtain rfl : site.reads.fileKeys = fileKeys := Except.ok.inj h
  have hreclaim := @obeys_reclaim_bytes site site.reads.inventory site.reads.orphans 0 nodup_orphans
    fun _ _ => isSome_storedBytes
  refine (obeys_bind _ _).2 (hreclaim.mono ?_ fun _ _ _ => trivial)
  rintro total site' ⟨rfl, hsafe⟩
  refine (obeys_bind _ _).2 (obeys_ask (fun _ _ => ⟨rfl, fun key hdoomed => ?_⟩) fun _ _ _ _ => trivial)
  obtain ⟨orphan, horphan, rfl, hreason⟩ := hdoomed.reported
  exact hsafe orphan horphan hreason hdoomed

/-! ## The report -/

/-- A key that is reported, and not as missing its bytes, is not counted. -/
theorem refcount?_of_orphan (horphan : orphan ∈ site.reads.orphans) (hreason : orphan.reason ≠ .missingBytes) :
    (site.refcount? orphan.key).getD 0 = 0 := by
  have hreports : site.Reports orphan.key orphan.reason := ⟨orphan, horphan, rfl, rfl⟩
  cases hr : orphan.reason with
  | zeroRef =>
    rw [hr, reports_zeroRef] at hreports
    rw [hreports]
    rfl
  | missingBytes => exact absurd hr hreason
  | unreferenced =>
    rw [hr, reports_unreferenced] at hreports
    rw [hreports.1]
    rfl

/-- **The report adds up** the sizes of what is doomed: the sets that were read say the same as the second look. -/
theorem inspect_bytes (site : Site) : (inspect site.reads).reclaimedBytes =
    (site.freed site.reads.inventory site.reads.orphans).foldl saturatingAdd 0 := by
  unfold inspect Site.freed
  rw [List.filterMap_filter, List.filterMap_filter]
  refine congrArg (List.foldl saturatingAdd 0) (List.filterMap_congr fun orphan horphan => ?_)
  by_cases hreason : orphan.reason = .missingBytes
  · simp [hreason]
  cases hbytes : storedBytes site.reads.inventory orphan.key with
  | none => simp
  | some bytes =>
    have hstored := isSome_storedBytes.1 (by rw [hbytes]; rfl : (storedBytes site.reads.inventory orphan.key).isSome)
    have hdoomed : site.Doomed orphan.key ↔
        orphan.key ∉ site.reads.fileKeys ∧ orphan.key ∉ site.reads.avatarKeys := by
      rw [mem_fileKeys, mem_avatarKeys, ← not_or]
      exact ⟨fun h => h.2.2, fun h => ⟨hstored, refcount?_of_orphan horphan hreason, h⟩⟩
    simp only [hdoomed]

/-! ## The store -/

/-- The objects that are gone from the store. -/
def Site.removed (site site' : Site) : List (ObjKey × ℕ) :=
  site.store.rows.filter fun o => site'.store.find? o.1 = none

/-- The objects that are gone are those that were doomed. -/
theorem mem_removed (hleaves : Leaves True site.reclaimed site site')
    (hsafe : ∀ key, site.Doomed key → assertSafeKey key = true) {o : ObjKey × ℕ} :
    o ∈ site.removed site' ↔ o ∈ site.store.rows ∧ site.Doomed o.1 := by
  unfold Site.removed
  rw [List.mem_filter, decide_eq_true_iff]
  refine and_congr_right fun ho => ⟨fun hgone => ?_, fun hdoomed => ?_⟩
  · have hthere : site.store.find? o.1 = some o := Keyed.find?_eq_some.2 ⟨ho, rfl⟩
    have hchanged : site'.store.find? o.1 ≠ site.store.find? o.1 := by
      rw [hgone, hthere]
      exact nofun
    exact (mem_reclaimed.1 (hleaves.changed _ hchanged)).1
  · exact hleaves.gone trivial _ (mem_reclaimed.2 ⟨hdoomed, fun key h _ => hsafe key h⟩)

/-- **What is added up is what is gone.** -/
theorem sum_freed (hleaves : Leaves True site.reclaimed site site')
    (hsafe : ∀ key, site.Doomed key → assertSafeKey key = true) :
    (site.freed site.reads.inventory site.reads.orphans).sum = ((site.removed site').map Prod.snd).sum := by
  have hkeys : ((site.reads.orphans.filter fun o => o.reason ≠ .missingBytes ∧ site.Doomed o.key).map Orphan.key).Perm
      ((site.removed site').map Prod.fst) := by
    refine (List.perm_ext_iff_of_nodup ?_ ?_).2 fun key => ?_
    · exact nodup_orphans.sublist (List.filter_sublist.map _)
    · exact site.store.unique.sublist (List.filter_sublist.map _)
    · simp only [List.mem_map, List.mem_filter, decide_eq_true_iff, mem_removed hleaves hsafe]
      constructor
      · rintro ⟨orphan, ⟨-, -, hdoomed⟩, rfl⟩
        obtain ⟨o, ho⟩ := Option.isSome_iff_exists.1 hdoomed.1.2
        obtain ⟨ho, hkey⟩ := Keyed.mem_of_find? ho
        exact ⟨o, ⟨ho, hkey ▸ hdoomed⟩, hkey⟩
      · rintro ⟨o, ⟨-, hdoomed⟩, rfl⟩
        obtain ⟨orphan, horphan, hkey, hreason⟩ := hdoomed.reported
        exact ⟨orphan, ⟨horphan, hreason, hkey ▸ hdoomed⟩, hkey⟩
  have hsizes : ((site.removed site').map Prod.fst).filterMap (storedBytes site.reads.inventory) =
      (site.removed site').map Prod.snd := by
    rw [List.filterMap_map, ← List.filterMap_eq_map]
    refine List.filterMap_congr fun o ho => ?_
    obtain ⟨ho, hdoomed⟩ := (mem_removed hleaves hsafe).1 ho
    simp [storedBytes_reads, hdoomed.1.1, Keyed.find?_eq_some.2 ⟨ho, rfl⟩]
  rw [← hsizes, ← (hkeys.filterMap _).sum_eq, List.filterMap_map]
  rfl

end

/-- **A dry run says what a collection reclaims.**  It changes nothing; a collection of the same site in which no step
fails, and there is one where the store accepts its own keys, reports the same number of bytes, which is the size of
the objects it has removed, or the greatest number. -/
theorem dryRun_eq_run (site : Site) :
    (∀ r site', Prog.Runs (exec False) (run true).run site r site' → r = .ok (inspect site.reads) ∧ site' = site) ∧
    (site.Safe → ∃ report site', Prog.Runs (exec False) (run false).run site (.ok report) site') ∧
    ∀ report site', Prog.Runs (exec False) (run false).run site (.ok report) site' →
      report.reclaimedBytes = (inspect site.reads).reclaimedBytes ∧
      report.reclaimedBytes = min ((site.removed site').map Prod.snd).sum (u64Size - 1) := by
  refine ⟨fun r site' hrun => ?_, exists_collection False, fun report site' hrun => ?_⟩
  · have hobeys : (run true).Obeys (.ofExec (exec False))
        (fun report site' => report = inspect site.reads ∧ site' = site) (fun _ _ => False) site := by
      unfold run
      refine (obeys_bind _ _).2 ?_
      unfold inspectSite
      refine (obeys_bind _ _).2 (obeys_ask (fun inventory h => ?_) fun _ _ hf _ => hf)
      obtain rfl : site.reads.inventory = inventory := Except.ok.inj h
      refine (obeys_bind _ _).2 (obeys_ask (fun objects h => ?_) fun _ _ hf _ => hf)
      obtain rfl : site.reads.objects = objects := Except.ok.inj h
      refine (obeys_bind _ _).2 (obeys_ask (fun avatarKeys h => ?_) fun _ _ hf _ => hf)
      obtain rfl : site.reads.avatarKeys = avatarKeys := Except.ok.inj h
      refine (obeys_bind _ _).2 (obeys_ask (fun fileKeys h => ?_) fun _ _ hf _ => hf)
      obtain rfl : site.reads.fileKeys = fileKeys := Except.ok.inj h
      exact ⟨rfl, rfl⟩
    have hend := Prog.obeys_ofExec_iff.1 hobeys _ _ hrun
    cases r with
    | ok report => exact ⟨congrArg Except.ok hend.1, hend.2⟩
    | error e => exact hend.elim
  · obtain ⟨hbytes, hsafe⟩ := Prog.obeys_ofExec_iff.1 (obeys_run_bytes site) _ _ hrun
    have hleaves : Leaves True site.reclaimed site site' :=
      Prog.obeys_ofExec_iff.1 (@obeys_run False site) _ _ hrun
    refine ⟨hbytes.trans (inspect_bytes site).symm, ?_⟩
    rw [hbytes, foldl_saturatingAdd _ (Nat.zero_le _), Nat.zero_add, sum_freed hleaves hsafe]

end Gc
end Uwuubox
