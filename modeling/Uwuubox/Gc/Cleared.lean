import Uwuubox.Gc.Reclaim

/-!
# What a collection leaves behind

A collection that does not fail deletes the rows it finds without a reference, and the bytes it
finds by the listing.  What it leaves is what it never looks for.

* `Site.Idle` — the rows that are deleted; `obeys_run_rows` says that no others are.
* `Site.Swept` — nothing is left that nothing refers to.
* `swept_iff` — **a collection sweeps a site** exactly where no row that is counted, and no bytes
  of a thumbnail, lie around without a reference.
-/

namespace Uwuubox
namespace Gc

open Dedupe Storage Table Fallible

/-- The row of the key is neither counted nor referred to in the columns the collector looks at. -/
def Site.Idle (site : Site) (key : ObjKey) : Prop :=
  site.refcount? key = some 0 ∧ ¬ (site.StorageRef key ∨ site.AvatarRef key)

/-- Nothing is left, among the rows of objects and the bytes of files, thumbnails and avatars, that
nothing refers to. -/
def Site.Swept (site : Site) : Prop := ∀ key, ¬ site.Referenced key →
  site.refcount? key = none ∧ (Listed key ∨ thumbsPrefix <+: key → ¬ site.Stored key)

/-! ## The rows -/

/-- The row of a key has been dealt with: it is gone if it was idle, and else it is as it was. -/
structure RowDealt (key : ObjKey) (site site' : Site) : Prop where
  gone : site.Idle key → site'.refcount? key = none
  kept : ¬ site.Idle key → site'.refcount? key = site.refcount? key

section

variable {site site' : Site} {key key' : ObjKey} {inventory : List (ObjKey × ℕ)} {faults : Prop}

theorem SameBut.refcount (h : SameBut key site site') (hne : key' ≠ key) :
    site'.refcount? key' = site.refcount? key' := by
  unfold Site.refcount?
  rw [h.objects key' hne]

theorem SameBut.idle (h : SameBut key site site') (hne : key' ≠ key) :
    site'.Idle key' ↔ site.Idle key' := by
  unfold Site.Idle Site.StorageRef Site.AvatarRef
  rw [h.refcount hne, h.files, h.avatarKeys]

/-- A row with refcount zero is deleted. -/
theorem refcount?_deleteZeroRef (h : site.refcount? key = some 0) :
    (site.deleteZeroRef key).refcount? key = none := by
  unfold Site.refcount? at h ⊢
  rw [Option.map_eq_some_iff] at h
  obtain ⟨object, hfind, hzero⟩ := h
  obtain ⟨hmem, hkey⟩ := Keyed.mem_of_find? hfind
  rw [Option.map_eq_none_iff, Keyed.find?_eq_none]
  intro row hrow hcol
  obtain ⟨hrow, hp⟩ := Keyed.mem_delete.1 hrow
  obtain rfl := Keyed.eq_of_col hrow hmem (hcol.trans hkey.symm)
  simp [hcol, hzero] at hp

/-- Deleting bytes leaves the tables alone. -/
theorem obeys_deleteListed_rows (reclaimed : ℕ) :
    (deleteListed inventory key reclaimed).Obeys (.ofExec (exec faults))
      (fun _ site' => site'.objects = site.objects ∧ SameBut key site site') (fun _ _ => True) site := by
  unfold deleteListed
  split
  · refine (obeys_bind _ _).2 ?_
    unfold deleteBytes
    split
    · exact obeys_ask (fun _ _ => ⟨rfl, sameBut_deleteBytes _ _⟩) fun _ _ _ _ => trivial
    · exact trivial
  · exact ⟨rfl, .refl _ _⟩

/-- **The row of one orphan.** -/
theorem obeys_reclaimOne_row (orphan : Orphan) (reclaimed : ℕ) :
    (reclaimOne inventory orphan reclaimed).Obeys (.ofExec (exec faults))
      (fun _ site' => RowDealt orphan.key site site' ∧ SameBut orphan.key site site')
      (fun _ _ => True) site := by
  unfold reclaimOne
  refine (obeys_bind _ _).2 (obeys_ask (fun refcount hrefcount => ?_) fun _ _ _ _ => trivial)
  obtain rfl : site.refcount? orphan.key = refcount := Except.ok.inj hrefcount
  refine (obeys_bind _ _).2 (obeys_ask (fun referenced href => ?_) fun _ _ _ _ => trivial)
  obtain rfl : decide (site.StorageRef orphan.key ∨ site.AvatarRef orphan.key) = referenced :=
    Except.ok.inj href
  simp only [answer]
  split
  · rename_i hlive
    have hnot : ¬ site.Idle orphan.key := by
      rintro ⟨hzero, hrefs⟩
      simp [hzero, hrefs] at hlive
    refine (obeys_bind _ _).2 (obeys_ask (fun _ _ => ?_) fun _ _ _ _ => trivial)
    exact ⟨⟨fun h => absurd h hnot, fun _ => rfl⟩, .refl _ _⟩
  · rename_i hlive
    have hrefs : ¬ (site.StorageRef orphan.key ∨ site.AvatarRef orphan.key) := fun h => hlive (by simp [h])
    refine (obeys_bind _ _).2 ((obeys_deleteListed_rows reclaimed).mono ?_ fun _ _ _ => trivial)
    rintro reclaimed site' ⟨hobjects, hbut⟩
    have hcount : site'.refcount? orphan.key = site.refcount? orphan.key := by
      unfold Site.refcount?
      rw [hobjects]
    refine (obeys_bind _ _).2 ?_
    unfold commitDeletion
    split
    · rename_i hany
      have hzero : site.refcount? orphan.key = some 0 := by
        rw [Option.any_eq_true] at hany
        obtain ⟨n, hn, hle⟩ := hany
        rw [hn, Nat.le_zero.1 (of_decide_eq_true hle)]
      refine (obeys_bind _ _).2 (obeys_ask (fun _ _ => ?_) fun _ _ _ _ => trivial)
      refine obeys_ask (fun _ _ => ?_) fun _ _ _ _ => trivial
      refine ⟨⟨fun _ => ?_, fun h => absurd ⟨hzero, hrefs⟩ h⟩, hbut.trans (sameBut_deleteZeroRef _ _)⟩
      exact refcount?_deleteZeroRef (hcount.trans hzero)
    · rename_i hany
      refine obeys_ask (fun _ _ => ⟨⟨fun h => ?_, fun _ => hcount⟩, hbut⟩) fun _ _ _ _ => trivial
      rw [h.1] at hany
      exact absurd rfl hany

/-- The rows that a collection leaves: the idle ones among `keys` are gone. -/
structure RowsLeft (keys : List ObjKey) (site site' : Site) : Prop where
  files : site'.files = site.files
  avatarKeys : site'.avatarKeys = site.avatarKeys
  gone : ∀ key ∈ keys, site.Idle key → site'.refcount? key = none
  kept : ∀ key, ¬ (key ∈ keys ∧ site.Idle key) → site'.refcount? key = site.refcount? key

/-- The keys that are gone through. -/
def reclaimable (orphans : List Orphan) : List ObjKey :=
  (orphans.filter fun o => o.reason ≠ .missingBytes).map Orphan.key

/-- The row of the first orphan, and the rows of the others. -/
theorem RowDealt.left {site'' : Site} {keys : List ObjKey} (h : RowDealt key site site')
    (hbut : SameBut key site site') (hnotin : key ∉ keys) (hrest : RowsLeft keys site' site'') :
    RowsLeft (key :: keys) site site'' where
  files := hrest.files.trans hbut.files
  avatarKeys := hrest.avatarKeys.trans hbut.avatarKeys
  gone key' hmem hidle := by
    rcases List.mem_cons.1 hmem with rfl | hmem
    · rw [hrest.kept key' fun hin => hnotin hin.1]
      exact h.gone hidle
    · have hne : key' ≠ key := fun heq => hnotin (heq ▸ hmem)
      exact hrest.gone key' hmem ((hbut.idle hne).2 hidle)
  kept key' hnot := by
    by_cases heq : key' = key
    · subst heq
      rw [hrest.kept key' fun hin => hnotin hin.1]
      exact h.kept fun hidle => hnot ⟨List.mem_cons_self, hidle⟩
    · rw [hrest.kept key', hbut.refcount heq]
      rintro ⟨hmem, hidle⟩
      exact hnot ⟨List.mem_cons_of_mem _ hmem, (hbut.idle heq).1 hidle⟩

/-- **The rows of all orphans.** -/
theorem obeys_reclaim_rows {orphans : List Orphan} (reclaimed : ℕ)
    (hnodup : (orphans.map Orphan.key).Nodup) :
    (reclaim inventory orphans reclaimed).Obeys (.ofExec (exec faults))
      (fun _ => RowsLeft (reclaimable orphans) site) (fun _ _ => True) site := by
  induction orphans generalizing site reclaimed with
  | nil => exact ⟨rfl, rfl, fun _ h => absurd h List.not_mem_nil, fun _ _ => rfl⟩
  | cons orphan rest ih =>
    obtain ⟨hnotin, hnodup⟩ := List.nodup_cons.1 hnodup
    unfold reclaim
    by_cases hreason : orphan.reason = .missingBytes
    · have hkeys : reclaimable (orphan :: rest) = reclaimable rest := by simp [reclaimable, hreason]
      rw [if_pos hreason, hkeys]
      exact ih _ hnodup
    · have hkeys : reclaimable (orphan :: rest) = orphan.key :: reclaimable rest := by
        simp [reclaimable, hreason]
      rw [if_neg hreason, hkeys]
      refine (obeys_bind _ _).2 ((obeys_reclaimOne_row orphan _).mono ?_ fun _ _ _ => trivial)
      rintro reclaimed site' ⟨hdealt, hbut⟩
      refine (ih reclaimed hnodup).mono (fun _ _ hrest => hdealt.left hbut ?_ hrest) fun _ _ _ => trivial
      intro hmem
      obtain ⟨o, ho, heq⟩ := List.mem_map.1 hmem
      exact hnotin (List.mem_map.2 ⟨o, (List.mem_filter.1 ho).1, heq⟩)

/-- An idle row is reported, and not as missing its bytes. -/
theorem Site.Idle.reclaimable (h : site.Idle key) : key ∈ reclaimable site.reads.orphans := by
  obtain ⟨orphan, hmem, rfl, hreason⟩ := reports_zeroRef.2 h.1
  refine List.mem_map.2 ⟨orphan, List.mem_filter.2 ⟨hmem, ?_⟩, rfl⟩
  simp [hreason]

/-- **The rows a collection leaves** are those that were not idle. -/
theorem obeys_run_rows (site : Site) :
    (run false).Obeys (.ofExec (exec faults))
      (fun _ site' => site'.files = site.files ∧ site'.avatarKeys = site.avatarKeys ∧
        ∀ key, RowDealt key site site') (fun _ _ => True) site := by
  unfold run
  refine (obeys_bind _ _).2 ?_
  unfold inspectSite
  refine (obeys_bind _ _).2 (obeys_ask (fun inventory h => ?_) fun _ _ _ _ => trivial)
  obtain rfl : site.reads.inventory = inventory := Except.ok.inj h
  refine (obeys_bind _ _).2 (obeys_ask (fun objects h => ?_) fun _ _ _ _ => trivial)
  obtain rfl : site.reads.objects = objects := Except.ok.inj h
  refine (obeys_bind _ _).2 (obeys_ask (fun avatarKeys h => ?_) fun _ _ _ _ => trivial)
  obtain rfl : site.reads.avatarKeys = avatarKeys := Except.ok.inj h
  refine (obeys_bind _ _).2 (obeys_ask (fun fileKeys h => ?_) fun _ _ _ _ => trivial)
  obtain rfl : site.reads.fileKeys = fileKeys := Except.ok.inj h
  refine (obeys_bind _ _).2 ((obeys_reclaim_rows 0 nodup_orphans).mono ?_ fun _ _ _ => trivial)
  intro reclaimed site' hleft
  refine (obeys_bind _ _).2 (obeys_ask (fun _ _ => ?_) fun _ _ _ _ => trivial)
  refine ⟨hleft.files, hleft.avatarKeys, fun key => ⟨fun hidle => ?_, fun hidle => ?_⟩⟩
  · exact hleft.gone key hidle.reclaimable hidle
  · exact hleft.kept key fun h => hidle h.2

end

/-! ## What is swept -/

/-- A collection that does not fail sweeps the site. -/
def Site.Sweeps (site : Site) : Prop := ∀ report site',
  Prog.Runs (exec True) (run false).run site (.ok report) site' → site'.Swept

/-- What a collection that does not fail leaves. -/
structure Collected (site site' : Site) : Prop where
  files : site'.files = site.files
  avatarKeys : site'.avatarKeys = site.avatarKeys
  rows : ∀ key, RowDealt key site site'
  stored : ∀ key, site'.Stored key ↔ site.Stored key ∧ ¬ site.Doomed key

section

variable {site site' : Site} {key : ObjKey}

/-- `thumbs/` is not listed. -/
theorem not_listed_of_thumbs (h : thumbsPrefix <+: key) : ¬ Listed key := by
  obtain ⟨rest, rfl⟩ := h
  rintro (⟨rest', h⟩ | ⟨rest', h⟩) <;> exact absurd (List.cons.inj h).1 (by decide)

/-- The keys of the store are ones it accepts. -/
def Site.Safe (site : Site) : Prop := ∀ key, site.Stored key → assertSafeKey key = true

theorem collected {report : GcReport} (hsafe : site.Safe)
    (hrun : Prog.Runs (exec True) (run false).run site (.ok report) site') : Collected site site' := by
  obtain ⟨hfiles, havatars, hrows⟩ := Prog.obeys_ofExec_iff.1 (@obeys_run_rows True site) _ _ hrun
  have hleaves : Leaves True site.reclaimed site site' :=
    Prog.obeys_ofExec_iff.1 (@obeys_run True site) _ _ hrun
  refine ⟨hfiles, havatars, hrows, fun key => ?_⟩
  by_cases hdoomed : site.Doomed key
  · have hkey : key ∈ site.reclaimed := mem_reclaimed.2 ⟨hdoomed, fun key' h _ => hsafe key' h.1.2⟩
    have hgone := hleaves.gone trivial key hkey
    unfold Site.Stored
    simp [hgone, hdoomed]
  · have hkept : site'.store.find? key = site.store.find? key := by
      by_contra hchanged
      exact hdoomed (mem_reclaimed.1 (hleaves.changed key hchanged)).1
    unfold Site.Stored
    simp [hkept, hdoomed]

theorem Collected.referenced (h : Collected site site') : site'.Referenced key ↔ site.Referenced key := by
  unfold Site.Referenced Site.StorageRef Site.ThumbRef Site.AvatarRef
  rw [h.files, h.avatarKeys]

/-- Where nothing fails and the store accepts what is listed, no orphan is a problem. -/
theorem obeys_reclaimOne_ok {inventory : List (ObjKey × ℕ)}
    (hsafe : ∀ key, (storedBytes inventory key).isSome → assertSafeKey key = true)
    (orphan : Orphan) (reclaimed : ℕ) : (reclaimOne inventory orphan reclaimed).Obeys
      (.ofExec (exec False)) (fun _ _ => True) (fun _ _ => False) site := by
  unfold reclaimOne
  refine (obeys_bind _ _).2 (obeys_ask (fun refcount _ => ?_) fun _ _ hf _ => hf)
  refine (obeys_bind _ _).2 (obeys_ask (fun referenced _ => ?_) fun _ _ hf _ => hf)
  split
  · exact (obeys_bind _ _).2 (obeys_ask (fun _ _ => trivial) fun _ _ hf _ => hf)
  · have hdelete : (deleteListed inventory orphan.key reclaimed).Obeys (.ofExec (exec False))
        (fun _ _ => True) (fun _ _ => False) (answer (answer site (.lockObject orphan.key)).2
          (.isReferenced orphan.key)).2 := by
      unfold deleteListed
      split
      · rename_i bytes hbytes
        refine (obeys_bind _ _).2 ?_
        unfold deleteBytes
        rw [dif_pos (hsafe orphan.key (by rw [hbytes]; rfl))]
        exact obeys_ask (fun _ _ => trivial) fun _ _ hf _ => hf
      · exact trivial
    refine (obeys_bind _ _).2 (hdelete.mono (fun reclaimed site' _ => ?_) fun _ _ hf => hf)
    refine (obeys_bind _ _).2 ?_
    unfold commitDeletion
    split
    · refine (obeys_bind _ _).2 (obeys_ask (fun _ _ => ?_) fun _ _ hf _ => hf)
      exact obeys_ask (fun _ _ => trivial) fun _ _ hf _ => hf
    · exact obeys_ask (fun _ _ => trivial) fun _ _ hf _ => hf

theorem obeys_reclaim_ok {inventory : List (ObjKey × ℕ)}
    (hsafe : ∀ key, (storedBytes inventory key).isSome → assertSafeKey key = true)
    (orphans : List Orphan) (reclaimed : ℕ) : (reclaim inventory orphans reclaimed).Obeys
      (.ofExec (exec False)) (fun _ _ => True) (fun _ _ => False) site := by
  induction orphans generalizing site reclaimed with
  | nil => exact trivial
  | cons orphan rest ih =>
    unfold reclaim
    split
    · exact ih _
    · exact (obeys_bind _ _).2 ((obeys_reclaimOne_ok hsafe orphan _).mono (fun _ _ _ => ih _)
        fun _ _ hf => hf)

/-- Some run of a collection does not fail. -/
theorem exists_collection (faults : Prop) (hsafe : site.Safe) :
    ∃ report site', Prog.Runs (exec faults) (run false).run site (.ok report) site' := by
  have hlisted : ∀ key, (storedBytes site.reads.inventory key).isSome → assertSafeKey key = true :=
    fun key h => hsafe key (isSome_storedBytes.1 h).2
  have hok : (run false).Obeys (.ofExec (exec False)) (fun _ _ => True) (fun _ _ => False) site := by
    unfold run
    refine (obeys_bind _ _).2 ?_
    unfold inspectSite
    refine (obeys_bind _ _).2 (obeys_ask (fun inventory h => ?_) fun _ _ hf _ => hf)
    obtain rfl : site.reads.inventory = inventory := Except.ok.inj h
    refine (obeys_bind _ _).2 (obeys_ask (fun objects _ => ?_) fun _ _ hf _ => hf)
    refine (obeys_bind _ _).2 (obeys_ask (fun avatarKeys _ => ?_) fun _ _ hf _ => hf)
    refine (obeys_bind _ _).2 (obeys_ask (fun fileKeys _ => ?_) fun _ _ hf _ => hf)
    refine (obeys_bind _ _).2 ((obeys_reclaim_ok hlisted _ 0).mono (fun _ _ _ => ?_) fun _ _ hf => hf)
    exact (obeys_bind _ _).2 (obeys_ask (fun _ _ => trivial) fun _ _ hf _ => hf)
  have hend := Prog.obeys_ofExec_iff.1 hok _ _ (Prog.runs_eval (exec_answer False) (run false).run site)
  have hrun := Prog.runs_eval (exec_answer faults) (run false).run site
  cases hr : ((run false).run.eval answer site).1 with
  | ok report =>
    rw [hr] at hrun
    exact ⟨report, _, hrun⟩
  | error e =>
    rw [hr] at hend
    exact hend.elim

/-- **A collection sweeps a site** where nothing that is counted, and no bytes of a thumbnail, are
without a reference, and only there. -/
theorem swept_iff (hsafe : site.Safe) : site.Sweeps ↔ ∀ key, ¬ site.Referenced key →
    (∀ n, site.refcount? key ≠ some (n + 1)) ∧ (thumbsPrefix <+: key → ¬ site.Stored key) := by
  constructor
  · intro hsweeps key href
    obtain ⟨report, site', hrun⟩ := exists_collection True hsafe
    have hleft := collected hsafe hrun
    obtain ⟨hnone, hgone⟩ := hsweeps report site' hrun key (hleft.referenced.not.2 href)
    refine ⟨fun n hn => ?_, fun hthumb hstored => hgone (.inr hthumb) ((hleft.stored key).2 ⟨hstored, ?_⟩)⟩
    · have hkept := (hleft.rows key).kept fun hidle => by
        rw [hidle.1] at hn
        cases hn
      rw [hkept, hn] at hnone
      cases hnone
    · exact fun hdoomed => not_listed_of_thumbs hthumb hdoomed.1.1
  · intro hclean report site' hrun key href
    have hleft := collected hsafe hrun
    rw [hleft.referenced] at href
    obtain ⟨hcount, hthumb⟩ := hclean key href
    have hrefs : ¬ (site.StorageRef key ∨ site.AvatarRef key) := fun h =>
      href (h.elim .inl fun h => .inr (.inr h))
    have hzero : (site.refcount? key).getD 0 = 0 := by
      cases hrow : site.refcount? key with
      | none => rfl
      | some n =>
        cases n with
        | zero => rfl
        | succ n => exact absurd hrow (hcount n)
    constructor
    · cases hrow : site.refcount? key with
      | none =>
        rw [← hrow]
        exact (hleft.rows key).kept fun hidle => by
          rw [hidle.1] at hrow
          cases hrow
      | some n =>
        rw [hrow] at hzero
        obtain rfl : n = 0 := hzero
        exact (hleft.rows key).gone ⟨hrow, hrefs⟩
    · intro hprefix hstored
      obtain ⟨hstored, hdoomed⟩ := (hleft.stored key).1 hstored
      rcases hprefix with hlisted | hprefix
      · exact hdoomed ⟨⟨hlisted, hstored⟩, hzero, hrefs⟩
      · exact hthumb hprefix hstored

end

end Gc
end Uwuubox
