import Uwuubox.Gc.Listing

/-!
# The report, on both backends

`inventory` of `src/routes/gc.rs` lists the store under `files` and then under `avatars`, by the walk of
`Gc.Inventory` or by the listing of `Gc.Listing`.  What `inspect` makes of it is what it makes of the listing of a site.

* `LocalInventory`, `S3Inventory` — both halves, each to its end, in a store that does not change.
* `inspect_congr` — the report depends on what the map has for a key only.
* `report_local`, `report_s3` — **the listing ends, and the report is the one of the site**.
-/

namespace Uwuubox
namespace Gc

open Storage Table

/-! ## The keys that are listed -/

/-- `avatars` -/
def avatarsName : Name := ⟨['a', 'v', 'a', 't', 'a', 'r', 's'], by decide, by decide⟩

/-- What is before the first slash. -/
theorem takeWhile_slash {t rest : List Char} (ht : '/' ∉ t) : (t ++ '/' :: rest).takeWhile (· ≠ '/') = t := by
  rw [List.takeWhile_append_of_pos fun c hc => by
    simp only [ne_eq, decide_not, Bool.not_eq_true', decide_eq_false_iff_not]
    rintro rfl
    exact ht hc]
  simp

theorem below_iff {pre : Name} {path : Path} (hpath : path ≠ []) :
    pre.text ++ ['/'] <+: keyOf path ↔ Below pre path := by
  obtain ⟨first, rest, rfl⟩ := List.exists_cons_of_ne_nil hpath
  cases rest with
  | nil =>
    have hkey : keyOf [first] = first.text := by simp [keyOf]
    rw [hkey]
    constructor
    · intro h
      exact absurd (h.subset (List.mem_append_right _ (List.mem_singleton_self _))) first.noSlash
    · rintro ⟨rest, hrest, heq⟩
      exact absurd (List.cons.inj heq).2.symm hrest
  | cons second rest =>
    rw [keyOf_cons_cons]
    constructor
    · rintro ⟨tail, heq⟩
      have htext := congrArg (List.takeWhile (· ≠ '/')) heq
      rw [List.append_assoc, List.singleton_append, takeWhile_slash pre.noSlash, takeWhile_slash first.noSlash] at htext
      obtain rfl : pre = first := Name.ext htext
      exact ⟨second :: rest, List.cons_ne_nil _ _, rfl⟩
    · rintro ⟨tail, -, heq⟩
      obtain ⟨rfl, -⟩ := List.cons.inj heq
      exact ⟨keyOf (second :: rest), by simp⟩

theorem listed_keyOf {path : Path} (hpath : path ≠ []) :
    Listed (keyOf path) ↔ Below filesName path ∨ Below avatarsName path := by
  rw [← below_iff hpath, ← below_iff hpath]
  rfl

/-! ## The report -/

theorem storedBytes_isSome {inventory : List (ObjKey × ℕ)} {key : ObjKey} :
    (storedBytes inventory key).isSome ↔ key ∈ inventory.map Prod.fst := by
  unfold storedBytes
  rw [Option.isSome_map, List.find?_isSome, List.mem_map]
  simp

theorem storedBytes_eq_some {site : Site} {key : ObjKey} {bytes : ℕ} :
    storedBytes site.reads.inventory key = some bytes ↔ Listed key ∧ (key, bytes) ∈ site.store := by
  rw [storedBytes_reads]
  by_cases hlisted : Listed key
  · rw [if_pos hlisted, Option.map_eq_some_iff, and_iff_right hlisted]
    constructor
    · rintro ⟨o, hfind, rfl⟩
      obtain ⟨hmem, rfl⟩ := Keyed.mem_of_find? hfind
      exact hmem
    · exact fun hmem => ⟨(key, bytes), Keyed.find?_eq_some.2 ⟨hmem, rfl⟩, rfl⟩
  · rw [if_neg hlisted]
    exact ⟨nofun, fun h => absurd h.1 hlisted⟩

/-- **The report depends on what the map has for a key only.** -/
theorem inspect_congr {r : Reads} {inventory : List (ObjKey × ℕ)}
    (h : ∀ key, storedBytes inventory key = storedBytes r.inventory key) :
    inspect { r with inventory := inventory } = inspect r := by
  have hmem : ∀ key, key ∈ inventory.map Prod.fst ↔ key ∈ r.inventory.map Prod.fst := fun key => by
    rw [← storedBytes_isSome, ← storedBytes_isSome, h]
  have hchecked : Reads.checked { r with inventory := inventory } = r.checked := by
    refine List.Perm.eq_of_pairwise (fun a b _ _ => le_antisymm) (sorted_checked _) (sorted_checked r) ?_
    refine (List.perm_ext_iff_of_nodup (nodup_checked _) (nodup_checked r)).2 fun key => ?_
    rw [mem_checked, mem_checked, hmem]
  have hfinding : Reads.finding { r with inventory := inventory } = r.finding := by
    funext key
    unfold Reads.finding
    simp only [h]
  have horphans : Reads.orphans { r with inventory := inventory } = r.orphans := by
    unfold Reads.orphans
    rw [hchecked, hfinding]
  unfold inspect
  rw [hchecked, horphans]
  simp only [h]

/-- A map with what a site lists gives the report of the site. -/
theorem inspect_of_stored {site : Site} {inventory : List (ObjKey × ℕ)}
    (h : ∀ key bytes, storedBytes inventory key = some bytes ↔ Listed key ∧ (key, bytes) ∈ site.store) :
    inspect { site.reads with inventory := inventory } = inspect site.reads := by
  refine inspect_congr fun key => Option.ext fun bytes => ?_
  rw [h, storedBytes_eq_some]

/-! ## The local store -/

/-- `files` and `avatars` are directories, if they are there, and hold the objects of the site. -/
structure FileSystem.Holds (fs : FileSystem) (site : Site) : Prop where
  dirs : ∀ pre ∈ [filesName, avatarsName], ∀ node, fs.node? [pre] = some node → node.kind = .dir
  stored : ∀ key bytes, Listed key →
    ((key, bytes) ∈ site.store ↔ ∃ path, keyOf path = key ∧ fs.node? path = some ⟨.file, bytes⟩)

/-- `inventory` of the local store, when nothing changes and no call fails. -/
def LocalInventory (fs : FileSystem) (inventory : List (ObjKey × ℕ)) : Prop :=
  ∃ n m walk walk', localInventory.run (List.replicate n (still fs)) (.start filesName []) = .ok walk ∧
    walk.done = true ∧
    localInventory.run (List.replicate m (still fs)) (.start avatarsName walk.inventory) = .ok walk' ∧
    walk'.done = true ∧ inventory = walk'.inventory

/-- **The report on the local store is the one of the site**, and there is one. -/
theorem report_local {fs : FileSystem} {site : Site} (hfs : fs.Holds site) :
    (∃ inventory, LocalInventory fs inventory) ∧ ∀ inventory, LocalInventory fs inventory →
      inspect { site.reads with inventory := inventory } = inspect site.reads := by
  constructor
  · obtain ⟨n, walk, hrun, hdone⟩ := @walk_ends filesName [] fs (hfs.dirs filesName (by simp))
    obtain ⟨m, walk', hrun', hdone'⟩ := @walk_ends avatarsName walk.inventory fs (hfs.dirs avatarsName (by simp))
    exact ⟨_, n, m, walk, walk', hrun, hdone, hrun', hdone', rfl⟩
  · rintro inventory ⟨n, m, walk, walk', hrun, hdone, hrun', hdone', rfl⟩
    have hsome : ∀ {pre : Name} {path : Path}, Below pre path → path ≠ [] := by
      rintro pre path ⟨rest, -, rfl⟩
      exact List.cons_ne_nil _ _
    refine inspect_of_stored fun key bytes => ⟨fun h => ?_, fun ⟨hlisted, hmem⟩ => ?_⟩
    · -- the key comes from one of the walks
      have hfound : ∃ path, (Below filesName path ∨ Below avatarsName path) ∧ keyOf path = key ∧
          fs.node? path = some ⟨.file, bytes⟩ := by
        rcases walk_exact hrun' hdone' key with ⟨path, bytes', rfl, hbelow, hnode, hstored⟩ | ⟨hsame, -⟩
        · obtain rfl := Option.some.inj (hstored.symm.trans h)
          exact ⟨path, .inr hbelow, rfl, hnode⟩
        · rw [hsame] at h
          rcases walk_exact hrun hdone key with ⟨path, bytes', rfl, hbelow, hnode, hstored⟩ | ⟨hnone, -⟩
          · obtain rfl := Option.some.inj (hstored.symm.trans h)
            exact ⟨path, .inl hbelow, rfl, hnode⟩
          · rw [hnone] at h
            cases h
      obtain ⟨path, hbelow, rfl, hnode⟩ := hfound
      have hlisted : Listed (keyOf path) := (listed_keyOf (hbelow.elim hsome hsome)).2 hbelow
      exact ⟨hlisted, (hfs.stored _ _ hlisted).2 ⟨path, rfl, hnode⟩⟩
    · obtain ⟨path, rfl, hnode⟩ := (hfs.stored _ _ hlisted).1 hmem
      have hpath : path ≠ [] := by
        rintro rfl
        exact absurd hlisted (by decide)
      have hsame : ∀ {path' : Path} {pre : Name} {bytes' : ℕ}, keyOf path = keyOf path' → Below pre path' →
          fs.node? path' = some ⟨.file, bytes'⟩ → bytes' = bytes := by
        intro path' pre bytes' heq hbelow hnode'
        obtain rfl := keyOf_injective hpath (hsome hbelow) heq
        cases hnode.symm.trans hnode'
        rfl
      rcases walk_exact hrun' hdone' (keyOf path) with ⟨path', bytes', heq, hbelow, hnode', hstored⟩ | ⟨hkept, hnot⟩
      · rw [hstored, hsame heq hbelow hnode']
      · rcases walk_exact hrun hdone (keyOf path) with ⟨path', bytes', heq, hbelow, hnode', hstored⟩ | ⟨-, hnot'⟩
        · rw [hkept, hstored, hsame heq hbelow hnode']
        · rcases (listed_keyOf hpath).1 hlisted with hbelow | hbelow
          · exact absurd rfl (hnot' path bytes hbelow hnode)
          · exact absurd rfl (hnot path bytes hbelow hnode)

/-- `aaaaaaaa.mp4` -/
def videoName : Name := ⟨['a', 'a', 'a', 'a', 'a', 'a', 'a', 'a', '.', 'm', 'p', '4'], by decide, by decide⟩

/-- The files of the site with the video, of which there are no avatars. -/
def videoStore : FileSystem where
  nodes := ⟨[([filesName, videoName], ⟨.file, 900⟩), ([filesName], ⟨.dir, 0⟩)], by decide⟩
  parents := by decide

theorem videoStore_holds : videoStore.Holds videoSite where
  dirs pre hpre node hnode := by
    rcases List.mem_pair.1 hpre with rfl | rfl
    · cases hnode
      rfl
    · cases hnode
  stored key bytes hlisted := by
    constructor
    · intro hmem
      rcases List.mem_pair.1 hmem with heq | heq
      · cases heq
        exact ⟨[filesName, videoName], rfl, rfl⟩
      · cases heq
        exact absurd hlisted (by decide)
    · rintro ⟨path, rfl, hnode⟩
      rcases List.mem_pair.1 (FileSystem.node?_eq_some.1 hnode) with heq | heq
      · cases heq
        exact List.mem_cons_self
      · cases heq

theorem report_local_video : (∃ inventory, LocalInventory videoStore inventory) ∧
    ∀ inventory, LocalInventory videoStore inventory →
      inspect { videoSite.reads with inventory := inventory } = inspect videoSite.reads :=
  report_local videoStore_holds

/-! ## S3 -/

/-- `inventory` of a bucket, when nothing changes and no call fails. -/
def S3Inventory (service : Service) (bucket : Bucket) (inventory : List (ObjKey × ℕ)) : Prop :=
  ∃ n m pager pager',
    (s3PrefixInventory service filesPrefix).run (List.replicate n ⟨bucket, false⟩) (.start []) = .ok pager ∧
    pager.left = true ∧
    (s3PrefixInventory service avatarsPrefix).run (List.replicate m ⟨bucket, false⟩) (.start pager.inventory) =
      .ok pager' ∧
    pager'.left = true ∧ inventory = pager'.inventory

/-- **The report on a bucket is the one of the site**, and there is one, however many objects are on a page. -/
theorem report_s3 {service : Service} {after : Option (List Char) → ObjKey → Prop} (hservice : Documented service after)
    (site : Site) : (∃ inventory, S3Inventory service site.store inventory) ∧
      ∀ inventory, S3Inventory service site.store inventory →
        inspect { site.reads with inventory := inventory } = inspect site.reads := by
  constructor
  · obtain ⟨n, pager, hrun, hleft⟩ := @listing_ends _ _ filesPrefix site.store [] hservice
    obtain ⟨m, pager', hrun', hleft'⟩ := @listing_ends _ _ avatarsPrefix site.store pager.inventory hservice
    exact ⟨_, n, m, pager, pager', hrun, hleft, hrun', hleft', rfl⟩
  · rintro inventory ⟨n, m, pager, pager', hrun, hleft, hrun', hleft', rfl⟩
    refine inspect_of_stored fun key bytes => ⟨fun h => ?_, fun ⟨hlisted, hmem⟩ => ?_⟩
    · rcases listing_exact hservice hrun' hleft' key with ⟨bytes', hmem, hpre, hstored⟩ | ⟨hsame, -⟩
      · obtain rfl := Option.some.inj (hstored.symm.trans h)
        exact ⟨.inr hpre, hmem⟩
      · rw [hsame] at h
        rcases listing_exact hservice hrun hleft key with ⟨bytes', hmem, hpre, hstored⟩ | ⟨hnone, -⟩
        · obtain rfl := Option.some.inj (hstored.symm.trans h)
          exact ⟨.inl hpre, hmem⟩
        · rw [hnone] at h
          cases h
    · have hsame : ∀ {bytes' : ℕ}, (key, bytes') ∈ site.store → bytes' = bytes := fun hmem' =>
        (Prod.mk.inj (Keyed.eq_of_col hmem' hmem rfl)).2
      rcases listing_exact hservice hrun' hleft' key with ⟨bytes', hmem', -, hstored⟩ | ⟨hkept, hnot⟩
      · rw [hstored, hsame hmem']
      · rcases listing_exact hservice hrun hleft key with ⟨bytes', hmem', -, hstored⟩ | ⟨-, hnot'⟩
        · rw [hkept, hstored, hsame hmem']
        · rcases hlisted with hpre | hpre
          · exact absurd hpre (hnot' bytes hmem)
          · exact absurd hpre (hnot bytes hmem)

theorem report_s3_video : (∃ inventory, S3Inventory (pagesOf 1) videoSite.store inventory) ∧
    ∀ inventory, S3Inventory (pagesOf 1) videoSite.store inventory →
      inspect { videoSite.reads with inventory := inventory } = inspect videoSite.reads :=
  report_s3 (documented_pagesOf Nat.one_pos) videoSite

end Gc
end Uwuubox
