import Uwuubox.Gc.Inspect
import Uwuubox.Server.Handler

/-!
# What garbage collection deletes

`reclaim` and `run` of `src/routes/gc.rs`: every orphan is looked up again in a transaction of its
own, and deleted if it is neither referred to nor counted then.  The second look does not ask for
`files.thumb_key`.

* `Op` — the listing, the statements and the deletions; `answer`, `exec` — on a `Site` that
  nothing else works on.  The writes of a transaction take effect at its commit.
* `reclaimOne`, `reclaim`, `run` — the collector.
* `Site.Doomed`, `Site.reclaimed` — the keys whose bytes are deleted: a collection deletes them
  (`run_reclaims`) and no others.
* `protected_iff` — **no key that is referred to loses its bytes** exactly where no thumbnail is
  among them.
* `thumbnail_deleted` — a site where one is.
-/

namespace Uwuubox
namespace Gc

open Dedupe Storage Table Fallible

/-! ## Operations -/

/-- One read of the store or of the database, one statement, or one deletion. -/
inductive Op where
  /-- `inventory` -/
  | inventory
  /-- `SELECT storage_key, size_bytes, refcount FROM objects` -/
  | objects
  /-- `SELECT avatar_key FROM users WHERE avatar_key IS NOT NULL` -/
  | avatarKeys
  /-- `SELECT DISTINCT storage_key FROM files` -/
  | fileKeys
  /-- `BEGIN`, `SELECT refcount FROM objects WHERE storage_key = $1 FOR UPDATE` -/
  | lockObject (key : ObjKey)
  /-- `SELECT EXISTS (.. files WHERE storage_key = $1) OR EXISTS (.. users WHERE avatar_key = $1)` -/
  | isReferenced (key : ObjKey)
  /-- `ROLLBACK` of the transaction for a key -/
  | rollback (key : ObjKey)
  /-- `Store::delete` -/
  | delete (key : SafeKey)
  /-- `DELETE FROM objects WHERE storage_key = $1 AND refcount <= 0` -/
  | deleteZeroRef (key : ObjKey)
  /-- `COMMIT` of the transaction for a key, which may have deleted its row -/
  | commit (key : ObjKey) (deleted : Bool)
  /-- `INSERT INTO admin_audit_log ..` -/
  | audit (checkedKeys orphanCount reclaimedBytes : ℕ)

namespace Op

/-- What an operation returns when it does not fail. -/
abbrev Val : Op → Type
  | inventory => List (ObjKey × ℕ)
  | objects => List ObjectRow
  | avatarKeys => List ObjKey
  | fileKeys => List ObjKey
  | lockObject _ => Option ℕ
  | isReferenced _ => Bool
  | _ => Unit

abbrev Res (op : Op) : Type := Except Failure op.Val

end Op

/-- A program of the collector. -/
abbrev Handler (α : Type) := Fallible Op Op.Res Server.Abort α

/-! ## The collector -/

/-- An operation followed by `?`. -/
def ask (op : Op) : Handler op.Val := do
  match ← perform op with
  | .ok v => pure v
  | .error e => throw (Server.Abort.error (.from' e))

/-- `inspect`. -/
def inspectSite : Handler (GcReport × List (ObjKey × ℕ)) := do
  let inventory ← ask .inventory
  let objects ← ask .objects
  let avatarKeys ← ask .avatarKeys
  let fileKeys ← ask .fileKeys
  pure (inspect ⟨inventory, objects, avatarKeys, fileKeys⟩, inventory)

/-- `Store::delete`, which asserts that the key is safe. -/
def deleteBytes (key : ObjKey) : Handler Unit :=
  if h : assertSafeKey key = true then ask (.delete ⟨key, h⟩) else throw Server.Abort.panic

/-- The bytes of an orphan are deleted if they are listed; the number of bytes reclaimed. -/
def deleteListed (inventory : List (ObjKey × ℕ)) (key : ObjKey) (reclaimed : ℕ) : Handler ℕ :=
  match storedBytes inventory key with
  | some bytes => do
    deleteBytes key
    pure (saturatingAdd reclaimed bytes)
  | none => pure reclaimed

/-- The end of a transaction that deletes. -/
def commitDeletion (refcount : Option ℕ) (key : ObjKey) : Handler Unit :=
  if refcount.any (· ≤ 0) then do
    ask (.deleteZeroRef key)
    ask (.commit key true)
  else ask (.commit key false)

/-- The transaction for one orphan, with the number of bytes reclaimed so far. -/
def reclaimOne (inventory : List (ObjKey × ℕ)) (orphan : Orphan) (reclaimed : ℕ) : Handler ℕ := do
  let refcount ← ask (.lockObject orphan.key)
  let referenced ← ask (.isReferenced orphan.key)
  if referenced || refcount.any (0 < ·) then do
    ask (.rollback orphan.key)
    pure reclaimed
  else do
    let reclaimed ← deleteListed inventory orphan.key reclaimed
    commitDeletion refcount orphan.key
    pure reclaimed

/-- `reclaim`. -/
def reclaim (inventory : List (ObjKey × ℕ)) : List Orphan → ℕ → Handler ℕ
  | [], reclaimed => pure reclaimed
  | orphan :: rest, reclaimed =>
    if orphan.reason = .missingBytes then reclaim inventory rest reclaimed
    else do
      let reclaimed ← reclaimOne inventory orphan reclaimed
      reclaim inventory rest reclaimed

/-- `run`, for an admin. -/
def run (dryRun : Bool) : Handler GcReport := do
  let (report, inventory) ← inspectSite
  if dryRun then pure report
  else do
    let reclaimed ← reclaim inventory report.orphans 0
    let report := { report with reclaimedBytes := reclaimed }
    ask (.audit report.checkedKeys report.orphans.length report.reclaimedBytes)
    pure report

/-! ## On a site of its own -/

/-- The bytes of a key are deleted. -/
def Site.deleteBytes (site : Site) (key : ObjKey) : Site :=
  { site with store := site.store.delete fun o => o.1 = key }

/-- The row of a key is deleted, if its refcount is zero. -/
def Site.deleteZeroRef (site : Site) (key : ObjKey) : Site :=
  { site with objects := site.objects.delete fun row => row.storageKey = key && row.refcount ≤ 0 }

/-- What an operation returns and does when it does not fail. -/
def answer (site : Site) : (op : Op) → op.Res × Site
  | .inventory => (.ok site.reads.inventory, site)
  | .objects => (.ok site.reads.objects, site)
  | .avatarKeys => (.ok site.reads.avatarKeys, site)
  | .fileKeys => (.ok site.reads.fileKeys, site)
  | .lockObject key => (.ok (site.refcount? key), site)
  | .isReferenced key => (.ok (decide (site.StorageRef key ∨ site.AvatarRef key)), site)
  | .rollback _ => (.ok (), site)
  | .delete key => (.ok (), site.deleteBytes key)
  | .deleteZeroRef _ => (.ok (), site)
  | .commit key deleted => (.ok (), if deleted then site.deleteZeroRef key else site)
  | .audit _ _ _ => (.ok (), site)

/-- What an operation can do.  One that fails may have been carried out, or not. -/
def exec (faults : Prop) (site : Site) (op : Op) (r : op.Res) (site' : Site) : Prop :=
  (r, site') = answer site op ∨
    faults ∧ (∃ e, r = .error e) ∧ (site' = site ∨ site' = (answer site op).2)

theorem exec_answer (faults : Prop) (site : Site) (op : Op) :
    exec faults site op (answer site op).1 (answer site op).2 := .inl rfl

/-! ## What is deleted -/

/-- What the collector decides to delete: listed bytes that are neither counted nor referred to
in the columns it looks at. -/
def Site.Doomed (site : Site) (key : ObjKey) : Prop :=
  (Listed key ∧ site.Stored key) ∧ (site.refcount? key).getD 0 = 0 ∧
    ¬ (site.StorageRef key ∨ site.AvatarRef key)

instance (site : Site) (key : ObjKey) : Decidable (site.Doomed key) :=
  inferInstanceAs (Decidable (_ ∧ _ ∧ _))

/-- The keys of orphans that are deleted: the doomed ones, up to one that the store refuses. -/
def Site.reclaimedOf (site : Site) (orphans : List Orphan) : List ObjKey :=
  (((orphans.filter fun o => o.reason ≠ .missingBytes).map Orphan.key).filter fun key =>
    site.Doomed key).takeWhile assertSafeKey

/-- The keys a collection deletes. -/
def Site.reclaimed (site : Site) : List ObjKey :=
  (site.reads.checked.filter fun key => site.Doomed key).takeWhile assertSafeKey

/-- Two sites that differ at most in the row and the bytes of `key`. -/
structure SameBut (key : ObjKey) (site site' : Site) : Prop where
  files : site'.files = site.files
  avatarKeys : site'.avatarKeys = site.avatarKeys
  objects : ∀ key', key' ≠ key → site'.objects.find? key' = site.objects.find? key'
  store : ∀ key', key' ≠ key → site'.store.find? key' = site.store.find? key'

section

variable {site site' : Site} {key key' : ObjKey} {inventory : List (ObjKey × ℕ)} {faults : Prop}

theorem SameBut.refl (key : ObjKey) (site : Site) : SameBut key site site :=
  ⟨rfl, rfl, fun _ _ => rfl, fun _ _ => rfl⟩

theorem SameBut.trans {site'' : Site} (h : SameBut key site site') (h' : SameBut key site' site'') :
    SameBut key site site'' where
  files := h'.files.trans h.files
  avatarKeys := h'.avatarKeys.trans h.avatarKeys
  objects key' hne := (h'.objects key' hne).trans (h.objects key' hne)
  store key' hne := (h'.store key' hne).trans (h.store key' hne)

theorem SameBut.stored (h : SameBut key site site') (hne : key' ≠ key) :
    site'.Stored key' ↔ site.Stored key' := by
  unfold Site.Stored
  rw [h.store key' hne]

/-- The decision for one key does not depend on the others. -/
theorem SameBut.doomed (h : SameBut key site site') (hne : key' ≠ key) :
    site'.Doomed key' ↔ site.Doomed key' := by
  unfold Site.Doomed Site.refcount? Site.StorageRef Site.AvatarRef
  rw [h.stored hne, h.objects key' hne, h.files, h.avatarKeys]

/-- Deleting by a condition that only rows of `key` meet. -/
theorem find?_delete_of_ne {R : Type} {col : R → ObjKey} {t : Keyed col} {p : R → Bool}
    (hp : ∀ r, p r = true → col r = key) (hne : key' ≠ key) : (t.delete p).find? key' = t.find? key' := by
  unfold Keyed.find? Keyed.delete deleteWhere
  rw [List.find?_filter]
  refine List.find?_congr fun r _ => ?_
  by_cases hcol : col r = key'
  · have hpr : p r = false := Bool.eq_false_iff.2 fun h => hne (hcol.symm.trans (hp r h))
    simp [hcol, hpr]
  · simp [hcol]

theorem sameBut_deleteBytes (key : ObjKey) (site : Site) : SameBut key site (site.deleteBytes key) :=
  ⟨rfl, rfl, fun _ _ => rfl, fun _ hne => find?_delete_of_ne (fun _ h => of_decide_eq_true h) hne⟩

theorem sameBut_deleteZeroRef (key : ObjKey) (site : Site) :
    SameBut key site (site.deleteZeroRef key) := by
  refine ⟨rfl, rfl, fun _ hne => find?_delete_of_ne (fun r h => ?_) hne, fun _ _ => rfl⟩
  rw [Bool.and_eq_true] at h
  exact of_decide_eq_true h.1

/-- Deleted bytes are gone. -/
theorem find?_deleteBytes (key : ObjKey) (site : Site) : (site.deleteBytes key).store.find? key = none := by
  rw [Keyed.find?_eq_none]
  intro o ho
  exact of_decide_eq_false (Keyed.mem_delete.1 ho).2

end

/-! ## One orphan -/

/-- An orphan has been dealt with: its bytes are gone if it is doomed, and else they are as they
were. -/
structure Dealt (key : ObjKey) (site site' : Site) : Prop where
  sameBut : SameBut key site site'
  gone : site.Doomed key → assertSafeKey key = true ∧ site'.store.find? key = none
  kept : ¬ site.Doomed key → site'.store.find? key = site.store.find? key

/-- The collector broke off at an orphan: because something failed, or because the store refused
the key. -/
structure Broken (faults : Prop) (key : ObjKey) (site site' : Site) : Prop where
  sameBut : SameBut key site site'
  kept : site'.store.find? key ≠ site.store.find? key → site.Doomed key ∧ assertSafeKey key = true
  why : ¬ faults → site.Doomed key ∧ assertSafeKey key = false

section

variable {site site' : Site} {key : ObjKey} {inventory : List (ObjKey × ℕ)} {faults : Prop}

/-- On a site of its own an operation that does not fail does what `answer` says. -/
theorem obeys_ask {op : Op} {fin : op.Val → Site → Prop} {err : Server.Abort → Site → Prop}
    (hok : ∀ v, (answer site op).1 = .ok v → fin v (answer site op).2)
    (herr : ∀ e site', faults → site' = site ∨ site' = (answer site op).2 → err e site') :
    (ask op).Obeys (.ofExec (exec faults)) fin err site := by
  refine (obeys_bind _ _).2 (obeys_perform.2 ⟨trivial, fun r site' hexec => ?_⟩)
  rcases hexec with h | ⟨hf, ⟨e, rfl⟩, h⟩
  · obtain ⟨rfl, rfl⟩ := Prod.ext_iff.1 h
    have hanswer : ∃ v, (answer site op).1 = .ok v := by
      cases op <;> exact ⟨_, rfl⟩
    obtain ⟨v, hv⟩ := hanswer
    simp only [hv]
    exact hok v hv
  · exact herr _ _ hf h

theorem obeys_commitDeletion (refcount : Option ℕ) (key : ObjKey) :
    (commitDeletion refcount key).Obeys (.ofExec (exec faults))
      (fun _ site' => site' = site ∨ site' = site.deleteZeroRef key)
      (fun _ site' => faults ∧ (site' = site ∨ site' = site.deleteZeroRef key)) site := by
  unfold commitDeletion
  split
  · refine (obeys_bind _ _).2 (obeys_ask (fun _ _ => ?_) fun e site' hf h => ⟨hf, .inl (h.elim id id)⟩)
    exact obeys_ask (fun _ _ => .inr rfl) fun e site' hf h => ⟨hf, h⟩
  · exact obeys_ask (fun _ _ => .inl rfl) fun e site' hf h => ⟨hf, .inl (h.elim id id)⟩

theorem SameBut.finish (h : SameBut key site site') {site'' : Site}
    (h' : site'' = site' ∨ site'' = site'.deleteZeroRef key) :
    SameBut key site site'' ∧ site''.store = site'.store := by
  rcases h' with rfl | rfl
  · exact ⟨h, rfl⟩
  · exact ⟨h.trans (sameBut_deleteZeroRef _ _), rfl⟩

/-- A key is spared at the second look. -/
theorem spared_iff :
    (decide (site.StorageRef key ∨ site.AvatarRef key) || (site.refcount? key).any (0 < ·)) = true ↔
      ¬ ((site.refcount? key).getD 0 = 0 ∧ ¬ (site.StorageRef key ∨ site.AvatarRef key)) := by
  rw [Bool.or_eq_true, decide_eq_true_iff, not_and, not_not, or_comm]
  cases site.refcount? key with
  | none => simp
  | some n => cases n <;> simp

theorem obeys_deleteListed (reclaimed : ℕ)
    (hlisting : (storedBytes inventory key).isSome ↔ Listed key ∧ site.Stored key) :
    (deleteListed inventory key reclaimed).Obeys (.ofExec (exec faults))
      (fun _ site' => SameBut key site site' ∧
        (Listed key ∧ site.Stored key → assertSafeKey key = true ∧ site'.store.find? key = none) ∧
        (¬ (Listed key ∧ site.Stored key) → site' = site))
      (fun _ site' => SameBut key site site' ∧ (Listed key ∧ site.Stored key) ∧
        (site' ≠ site → assertSafeKey key = true) ∧ (¬ faults → assertSafeKey key = false)) site := by
  unfold deleteListed
  cases hs : storedBytes inventory key with
  | none =>
    have hnot : ¬ (Listed key ∧ site.Stored key) := by
      rw [← hlisting, hs]
      exact Bool.false_ne_true
    exact ⟨.refl _ _, fun h => absurd h hnot, fun _ => rfl⟩
  | some bytes =>
    have hlisted : Listed key ∧ site.Stored key := hlisting.1 (by rw [hs]; rfl)
    refine (obeys_bind _ _).2 ?_
    unfold deleteBytes
    by_cases hsafe : assertSafeKey key = true
    · rw [dif_pos hsafe]
      refine obeys_ask (fun _ _ => ?_) fun e site' hf h => ?_
      · exact ⟨sameBut_deleteBytes _ _, fun _ => ⟨hsafe, find?_deleteBytes _ _⟩, fun h => absurd hlisted h⟩
      · refine ⟨?_, hlisted, fun _ => hsafe, fun h => absurd hf h⟩
        rcases h with rfl | rfl
        · exact .refl _ _
        · exact sameBut_deleteBytes _ _
    · rw [dif_neg hsafe]
      exact ⟨.refl _ _, hlisted, fun h => absurd rfl h, fun _ => Bool.eq_false_iff.2 hsafe⟩

/-- **One orphan.** -/
theorem obeys_reclaimOne (orphan : Orphan) (reclaimed : ℕ)
    (hlisting : (storedBytes inventory orphan.key).isSome ↔ Listed orphan.key ∧ site.Stored orphan.key) :
    (reclaimOne inventory orphan reclaimed).Obeys (.ofExec (exec faults))
      (fun _ => Dealt orphan.key site) (fun _ => Broken faults orphan.key site) site := by
  have hsame : ∀ site', faults → site' = site ∨ site' = site → Broken faults orphan.key site site' := by
    rintro site' hf (rfl | rfl) <;>
      exact ⟨.refl _ _, fun h => absurd rfl h, fun h => absurd hf h⟩
  unfold reclaimOne
  refine (obeys_bind _ _).2 (obeys_ask (fun refcount hrefcount => ?_) fun e site' hf h => hsame _ hf h)
  obtain rfl : site.refcount? orphan.key = refcount := Except.ok.inj hrefcount
  refine (obeys_bind _ _).2 (obeys_ask (fun referenced href => ?_) fun e site' hf h => hsame _ hf h)
  obtain rfl : decide (site.StorageRef orphan.key ∨ site.AvatarRef orphan.key) = referenced :=
    Except.ok.inj href
  simp only [answer]
  split
  · rename_i hlive
    have hnot : ¬ site.Doomed orphan.key := fun h => spared_iff.1 hlive h.2
    refine (obeys_bind _ _).2 (obeys_ask (fun _ _ => ?_) fun e site' hf h => hsame _ hf h)
    exact ⟨.refl _ _, fun h => absurd h hnot, fun _ => rfl⟩
  · rename_i hlive
    have hdoomed : site.Doomed orphan.key ↔ Listed orphan.key ∧ site.Stored orphan.key :=
      ⟨And.left, fun hlisted => ⟨hlisted, not_not.1 (spared_iff.not.1 hlive)⟩⟩
    refine (obeys_bind _ _).2 ((obeys_deleteListed reclaimed hlisting).mono ?_ ?_)
    · rintro reclaimed site' ⟨hbut, hgone, hkept⟩
      refine (obeys_bind _ _).2 ((obeys_commitDeletion _ _).mono ?_ ?_)
      · rintro ⟨⟩ site'' h
        obtain ⟨hbut', hstore⟩ := hbut.finish h
        refine ⟨hbut', fun h => ?_, fun h => ?_⟩
        · rw [hstore]
          exact hgone (hdoomed.1 h)
        · rw [hstore, hkept (hdoomed.not.1 h)]
      · rintro e site'' ⟨hf, h⟩
        obtain ⟨hbut', hstore⟩ := hbut.finish h
        refine ⟨hbut', fun hne => ?_, fun h => absurd hf h⟩
        rw [hstore] at hne
        by_cases hlisted : Listed orphan.key ∧ site.Stored orphan.key
        · exact ⟨hdoomed.2 hlisted, (hgone hlisted).1⟩
        · rw [hkept hlisted] at hne
          exact absurd rfl hne
    · rintro e site' ⟨hbut, hlisted, hsafe, hwhy⟩
      refine ⟨hbut, fun hne => ⟨hdoomed.2 hlisted, hsafe ?_⟩, fun h => ⟨hdoomed.2 hlisted, hwhy h⟩⟩
      rintro rfl
      exact hne rfl

end

/-! ## All of them -/

section

variable {site site' : Site} {orphan : Orphan} {rest orphans : List Orphan}

theorem reclaimedOf_missing (h : orphan.reason = .missingBytes) :
    site.reclaimedOf (orphan :: rest) = site.reclaimedOf rest := by
  simp [Site.reclaimedOf, h]

theorem reclaimedOf_spared (h : orphan.reason ≠ .missingBytes) (hnot : ¬ site.Doomed orphan.key) :
    site.reclaimedOf (orphan :: rest) = site.reclaimedOf rest := by
  simp [Site.reclaimedOf, h, hnot]

theorem reclaimedOf_doomed (h : orphan.reason ≠ .missingBytes) (hdoomed : site.Doomed orphan.key)
    (hsafe : assertSafeKey orphan.key = true) :
    site.reclaimedOf (orphan :: rest) = orphan.key :: site.reclaimedOf rest := by
  simp [Site.reclaimedOf, h, hdoomed, hsafe]

theorem reclaimedOf_refused (h : orphan.reason ≠ .missingBytes) (hdoomed : site.Doomed orphan.key)
    (hsafe : assertSafeKey orphan.key = false) : site.reclaimedOf (orphan :: rest) = [] := by
  simp [Site.reclaimedOf, h, hdoomed, hsafe]

theorem reclaimedOf_congr (h : ∀ o ∈ orphans, site'.Doomed o.key ↔ site.Doomed o.key) :
    site'.reclaimedOf orphans = site.reclaimedOf orphans := by
  unfold Site.reclaimedOf
  congr 1
  refine List.filter_congr fun key hkey => ?_
  obtain ⟨o, ho, rfl⟩ := List.mem_map.1 hkey
  exact decide_eq_decide.2 (h o (List.mem_filter.1 ho).1)

theorem mem_reclaimedOf {key : ObjKey} (h : key ∈ site.reclaimedOf orphans) :
    key ∈ orphans.map Orphan.key := by
  have hkey := (List.mem_filter.1 ((List.takeWhile_sublist _).subset h)).1
  obtain ⟨o, ho, rfl⟩ := List.mem_map.1 hkey
  exact List.mem_map.2 ⟨o, (List.mem_filter.1 ho).1, rfl⟩

/-- What the collector leaves of the store: nothing but the keys `keys` has changed, and, where
`done` holds, they are gone. -/
structure Leaves (done : Prop) (keys : List ObjKey) (site site' : Site) : Prop where
  changed : ∀ key, site'.store.find? key ≠ site.store.find? key → key ∈ keys
  gone : done → ∀ key ∈ keys, site'.store.find? key = none

theorem Leaves.refl {done : Prop} (site : Site) : Leaves done [] site site :=
  ⟨fun _ h => absurd rfl h, fun _ _ h => absurd h List.not_mem_nil⟩

/-- The first orphan, and what is left by the others. -/
theorem Dealt.leaves {done : Prop} {site'' : Site} (h : Dealt orphan.key site site')
    (hreason : orphan.reason ≠ .missingBytes) (hnotin : orphan.key ∉ rest.map Orphan.key)
    (hrest : Leaves done (site'.reclaimedOf rest) site' site'') :
    Leaves done (site.reclaimedOf (orphan :: rest)) site site'' := by
  have hcongr : site'.reclaimedOf rest = site.reclaimedOf rest := reclaimedOf_congr fun o ho =>
    h.sameBut.doomed fun heq => hnotin (List.mem_map.2 ⟨o, ho, heq⟩)
  rw [hcongr] at hrest
  have hchanged : ∀ key, key ≠ orphan.key → site''.store.find? key ≠ site.store.find? key →
      key ∈ site.reclaimedOf rest := by
    intro key hne hch
    refine hrest.changed key ?_
    rwa [h.sameBut.store key hne]
  by_cases hdoomed : site.Doomed orphan.key
  · obtain ⟨hsafe, hgone⟩ := h.gone hdoomed
    rw [reclaimedOf_doomed hreason hdoomed hsafe]
    refine ⟨fun key hch => ?_, fun hd key hkey => ?_⟩
    · by_cases heq : key = orphan.key
      · exact heq ▸ List.mem_cons_self
      · exact List.mem_cons_of_mem _ (hchanged key heq hch)
    · rcases List.mem_cons.1 hkey with rfl | hkey
      · -- nobody after it touches the key again
        by_contra hne
        refine hnotin (mem_reclaimedOf (hrest.changed orphan.key ?_))
        rwa [hgone]
      · exact hrest.gone hd key hkey
  · rw [reclaimedOf_spared hreason hdoomed]
    refine ⟨fun key hch => ?_, hrest.gone⟩
    refine hrest.changed key ?_
    by_cases heq : key = orphan.key
    · rw [heq, h.kept hdoomed]
      rwa [heq] at hch
    · rwa [h.sameBut.store key heq]

theorem Broken.leaves {faults : Prop} (h : Broken faults orphan.key site site')
    (hreason : orphan.reason ≠ .missingBytes) :
    Leaves (¬ faults) (site.reclaimedOf (orphan :: rest)) site site' := by
  refine ⟨fun key hch => ?_, fun hf key hkey => ?_⟩
  · have heq : key = orphan.key := by
      by_contra hne
      exact hch (h.sameBut.store key hne)
    subst heq
    obtain ⟨hdoomed, hsafe⟩ := h.kept hch
    rw [reclaimedOf_doomed hreason hdoomed hsafe]
    exact List.mem_cons_self
  · obtain ⟨hdoomed, hsafe⟩ := h.why hf
    rw [reclaimedOf_refused hreason hdoomed hsafe] at hkey
    exact absurd hkey List.not_mem_nil

/-- **The loop over the orphans.** -/
theorem obeys_reclaim {faults : Prop} {inventory : List (ObjKey × ℕ)} (reclaimed : ℕ)
    (hnodup : (orphans.map Orphan.key).Nodup)
    (hlisting : ∀ o ∈ orphans, (storedBytes inventory o.key).isSome ↔ Listed o.key ∧ site.Stored o.key) :
    (reclaim inventory orphans reclaimed).Obeys (.ofExec (exec faults))
      (fun _ => Leaves True (site.reclaimedOf orphans) site)
      (fun _ => Leaves (¬ faults) (site.reclaimedOf orphans) site) site := by
  induction orphans generalizing site reclaimed with
  | nil => exact .refl site
  | cons orphan rest ih =>
    obtain ⟨hnotin, hnodup⟩ := List.nodup_cons.1 hnodup
    have hrest := fun o ho => hlisting o (List.mem_cons_of_mem _ ho)
    unfold reclaim
    by_cases hreason : orphan.reason = .missingBytes
    · rw [if_pos hreason, reclaimedOf_missing hreason]
      exact ih _ hnodup hrest
    · rw [if_neg hreason]
      refine (obeys_bind _ _).2 ((obeys_reclaimOne orphan _ (hlisting _ List.mem_cons_self)).mono ?_ ?_)
      · intro reclaimed site' hdealt
        have hlisting' : ∀ o ∈ rest, (storedBytes inventory o.key).isSome ↔
            Listed o.key ∧ site'.Stored o.key := by
          intro o ho
          rw [hrest o ho, hdealt.sameBut.stored]
          rintro heq
          exact hnotin (List.mem_map.2 ⟨o, ho, heq⟩)
        exact (ih reclaimed hnodup hlisting').mono (fun _ _ h => hdealt.leaves hreason hnotin h)
          fun _ _ h => hdealt.leaves hreason hnotin h
      · intro e site' hbroken
        exact hbroken.leaves hreason

end

/-! ## A collection -/

section

variable {site : Site} {key : ObjKey}

/-- What is doomed is reported, as bytes that are there. -/
theorem Site.Doomed.finding (h : site.Doomed key) :
    ((site.reads.finding key).any fun found => found.1 ≠ .missingBytes) = true := by
  obtain ⟨⟨hlisted, hstored⟩, hcount, hrefs⟩ := h
  have hreports : site.Reports key .zeroRef ∨ site.Reports key .unreferenced := by
    rw [reports_zeroRef, reports_unreferenced]
    cases hrefcount : site.refcount? key with
    | none =>
      refine .inr ⟨rfl, hstored, hlisted.imp_right fun havatars => ⟨havatars, ?_⟩⟩
      exact fun havatar => hrefs (.inr havatar)
    | some n =>
      rw [hrefcount] at hcount
      exact .inl (congrArg some hcount)
  rcases hreports with hreports | hreports <;>
    · obtain ⟨bytes, hfinding⟩ := reports_iff.1 hreports
      rw [hfinding]
      rfl

/-- The collector goes through the doomed keys. -/
theorem reclaimedOf_orphans : site.reclaimedOf site.reads.orphans = site.reclaimed := by
  unfold Site.reclaimedOf Site.reclaimed
  have hkeys := site.reads.map_key_filter_orphans fun reason => reason ≠ .missingBytes
  rw [hkeys, List.filter_filter]
  congr 1
  refine List.filter_congr fun key _ => ?_
  by_cases hdoomed : site.Doomed key
  · simpa [hdoomed] using hdoomed.finding
  · simp [hdoomed]

theorem nodup_orphans : (site.reads.orphans.map Orphan.key).Nodup := by
  have hkeys := site.reads.map_key_filter_orphans fun _ => true
  rw [List.filter_true] at hkeys
  rw [hkeys]
  exact (nodup_checked _).filter _

/-- **A collection** deletes the bytes of the keys `site.reclaimed`, and no others. -/
theorem obeys_run {faults : Prop} (site : Site) :
    (run false).Obeys (.ofExec (exec faults)) (fun _ => Leaves True site.reclaimed site)
      (fun _ => Leaves (¬ faults) site.reclaimed site) site := by
  have hsame : ∀ site', faults → site' = site ∨ site' = site →
      Leaves (¬ faults) site.reclaimed site site' := by
    rintro site' hf (rfl | rfl) <;> exact ⟨fun _ h => absurd rfl h, fun h => absurd hf h⟩
  unfold run
  refine (obeys_bind _ _).2 ?_
  unfold inspectSite
  refine (obeys_bind _ _).2 (obeys_ask (fun inventory h => ?_) fun e site' hf h => hsame _ hf h)
  obtain rfl : site.reads.inventory = inventory := Except.ok.inj h
  refine (obeys_bind _ _).2 (obeys_ask (fun objects h => ?_) fun e site' hf h => hsame _ hf h)
  obtain rfl : site.reads.objects = objects := Except.ok.inj h
  refine (obeys_bind _ _).2 (obeys_ask (fun avatarKeys h => ?_) fun e site' hf h => hsame _ hf h)
  obtain rfl : site.reads.avatarKeys = avatarKeys := Except.ok.inj h
  refine (obeys_bind _ _).2 (obeys_ask (fun fileKeys h => ?_) fun e site' hf h => hsame _ hf h)
  obtain rfl : site.reads.fileKeys = fileKeys := Except.ok.inj h
  rw [← reclaimedOf_orphans]
  refine (obeys_bind _ _).2 ((obeys_reclaim 0 nodup_orphans fun _ _ => isSome_storedBytes).mono ?_ ?_)
  · intro reclaimed site' hleaves
    refine (obeys_bind _ _).2 (obeys_ask (fun _ _ => hleaves) fun e site'' _ h => ?_)
    obtain rfl : site'' = site' := h.elim id id
    exact ⟨hleaves.changed, fun _ => hleaves.gone trivial⟩
  · exact fun _ _ hleaves => hleaves

/-- In a sorted list, what comes before the first element that `p` refuses. -/
theorem mem_takeWhile_filter {α : Type} [LinearOrder α] {D : α → Prop} [DecidablePred D] {p : α → Bool}
    {l : List α} (hl : l.Pairwise (· ≤ ·)) {a : α} : a ∈ (l.filter fun b => D b).takeWhile p ↔
      (a ∈ l ∧ D a) ∧ ∀ b ∈ l, D b → b ≤ a → p b = true := by
  induction l with
  | nil => simp
  | cons c l ih =>
    obtain ⟨hc, hl⟩ := List.pairwise_cons.1 hl
    have hle : ∀ {a}, a ∈ c :: l → c ≤ a := fun h => (List.mem_cons.1 h).elim (fun h => h ▸ le_rfl) (hc _)
    by_cases hD : D c
    · by_cases hp : p c = true
      · simp only [List.filter_cons, hD, decide_true, if_true, List.takeWhile_cons, hp, List.mem_cons,
          ih hl, forall_eq_or_imp, true_imp_iff]
        constructor
        · rintro (rfl | ⟨⟨hmem, hDa⟩, hrest⟩)
          · exact ⟨⟨.inl rfl, hD⟩, fun _ => trivial, fun b hb _ hba => le_antisymm hba (hc b hb) ▸ hp⟩
          · exact ⟨⟨.inr hmem, hDa⟩, fun _ => trivial, hrest⟩
        · rintro ⟨⟨rfl | hmem, hDa⟩, -, hrest⟩
          · exact .inl rfl
          · exact .inr ⟨⟨hmem, hDa⟩, hrest⟩
      · -- nothing comes before the first element
        constructor
        · intro h
          simp [hD, hp] at h
        · rintro ⟨⟨hmem, -⟩, hrest⟩
          exact absurd (hrest c List.mem_cons_self hD (hle hmem)) hp
    · have hfilter : ((c :: l).filter fun b => D b) = l.filter fun b => D b := by simp [hD]
      rw [hfilter, ih hl]
      constructor
      · rintro ⟨⟨hmem, hDa⟩, hrest⟩
        refine ⟨⟨List.mem_cons_of_mem _ hmem, hDa⟩, fun b hb hDb hba => ?_⟩
        rcases List.mem_cons.1 hb with rfl | hb
        · exact absurd hDb hD
        · exact hrest b hb hDb hba
      · rintro ⟨⟨hmem, hDa⟩, hrest⟩
        refine ⟨⟨?_, hDa⟩, fun b hb => hrest b (List.mem_cons_of_mem _ hb)⟩
        rcases List.mem_cons.1 hmem with rfl | hmem
        · exact absurd hDa hD
        · exact hmem

/-- The keys a collection deletes: those that are doomed and come before the first that is
refused. -/
theorem mem_reclaimed : key ∈ site.reclaimed ↔
    site.Doomed key ∧ ∀ key', site.Doomed key' → key' ≤ key → assertSafeKey key' = true := by
  have hchecked : ∀ key, site.Doomed key → key ∈ site.reads.checked := by
    intro key h
    have hfinding := h.finding
    rw [Option.any_eq_true] at hfinding
    obtain ⟨found, hfound, -⟩ := hfinding
    exact Reads.mem_checked_of_finding hfound
  unfold Site.reclaimed
  rw [mem_takeWhile_filter (sorted_checked _)]
  constructor
  · rintro ⟨⟨-, hdoomed⟩, hsafe⟩
    exact ⟨hdoomed, fun key' h' => hsafe key' (hchecked key' h') h'⟩
  · rintro ⟨hdoomed, hsafe⟩
    exact ⟨⟨hchecked key hdoomed, hdoomed⟩, fun key' _ h' => hsafe key' h'⟩

end

/-- A collection on a site of its own, in which operations may fail, takes no bytes that are
referred to. -/
def Site.Protected (site : Site) : Prop := ∀ r site',
  Prog.Runs (exec True) (run false).run site r site' →
  ∀ key, site.Referenced key → site'.store.find? key = site.store.find? key

/-- **What is referred to keeps its bytes** exactly where no thumbnail is doomed, but for those
that the collector does not get to because the store refuses a key before them. -/
theorem protected_iff (site : Site) : site.Protected ↔
    ∀ key, site.ThumbRef key → site.Doomed key →
      ∃ key', site.Doomed key' ∧ key' ≤ key ∧ assertSafeKey key' = false := by
  constructor
  · intro hprotected key hthumb hdoomed
    by_contra hreached
    have hkey : key ∈ site.reclaimed := by
      refine mem_reclaimed.2 ⟨hdoomed, fun key' hdoomed' hle => ?_⟩
      by_contra hunsafe
      exact hreached ⟨key', hdoomed', hle, Bool.eq_false_iff.2 hunsafe⟩
    -- the run in which nothing fails
    have hkept := hprotected _ _ (Prog.runs_eval (exec_answer True) (run false).run site) key
      (.inr (.inl hthumb))
    have hgone := Prog.obeys_ofExec_iff.1 (@obeys_run False site) _ _
      (Prog.runs_eval (exec_answer False) (run false).run site)
    have hnone : ((run false).run.eval answer site).2.store.find? key = none := by
      cases hr : ((run false).run.eval answer site).1 with
      | ok report =>
        rw [hr] at hgone
        exact hgone.gone trivial key hkey
      | error e =>
        rw [hr] at hgone
        exact hgone.gone not_false key hkey
    have hstored := hdoomed.1.2
    unfold Site.Stored at hstored
    rw [← hkept, hnone] at hstored
    cases hstored
  · intro hthumbs r site' hrun key href
    by_contra hchanged
    have hkey : key ∈ site.reclaimed := by
      have hleaves := Prog.obeys_ofExec_iff.1 (@obeys_run True site) r site' hrun
      cases r with
      | ok report => exact hleaves.changed key hchanged
      | error e => exact hleaves.changed key hchanged
    obtain ⟨hdoomed, hreached⟩ := mem_reclaimed.1 hkey
    have hthumb : site.ThumbRef key := by
      rcases href with hstorage | hthumb | havatar
      · exact absurd (.inl hstorage) hdoomed.2.2
      · exact hthumb
      · exact absurd (.inr havatar) hdoomed.2.2
    obtain ⟨key', hdoomed', hle, hunsafe⟩ := hthumbs key hthumb hdoomed
    rw [hreached key' hdoomed' hle] at hunsafe
    cases hunsafe

/-! ### A thumbnail that shares its bytes with a file -/

/-- `files/bbbbbbbb.jpg`. -/
def imageKey : ObjKey := filesPrefix ++ ['b', 'b', 'b', 'b', 'b', 'b', 'b', 'b', '.', 'j', 'p', 'g']

/-- The frame of a video was uploaded as an image before; the count of its object has been lost. -/
def sharedSite : Site where
  objects := ⟨[⟨videoKey, 900, 1⟩, ⟨imageKey, 90, 0⟩], by decide⟩
  files := [⟨videoKey, some imageKey⟩]
  avatarKeys := []
  store := ⟨[(videoKey, 900), (imageKey, 90)], by decide⟩

/-- The second look does not see that the video has it as its thumbnail. -/
theorem thumbnail_deleted : ¬ sharedSite.Protected := by
  intro h
  have hkept := h _ _ (Prog.runs_eval (exec_answer True) (run false).run sharedSite) imageKey
    (.inr (.inl (by decide)))
  have hgone : ((run false).run.eval answer sharedSite).2.store.find? imageKey = none := by decide
  rw [hgone] at hkept
  exact absurd hkept (by decide)

end Gc
end Uwuubox
