import Uwuubox.Gc.Inventory

/-!
# The pages of an S3 listing

`s3_prefix_inventory` of `src/routes/gc.rs`: `list_objects_v2` answers a page and a token for the next one.  Other
requests write and delete objects in between.

* `ListOutput`, `Service` — what the service answers; `Documented` — what it is documented to answer: the objects that
  come after the token, as many as it wants.
* `Pager`, `s3Turn`, `s3PrefixInventory` — the variables of the loop, and its turns.
* `listing_complete` — **an object that stays is found**, and nothing that has not been there.
* `listing_ends`, `listing_exact` — the loop ends, when nothing changes and no call fails, and what it has found then.
-/

namespace Uwuubox
namespace Gc

open Storage Table

/-! ## The service -/

/-- `ListObjectsV2Output` -/
structure ListOutput where
  contents : List (Option ObjKey × Option ℤ)
  isTruncated : Option Bool
  nextContinuationToken : Option (List Char)

/-- The objects of a bucket, and their sizes. -/
abbrev Bucket := Keyed (Prod.fst : ObjKey × ℕ → ObjKey)

/-- `list_objects_v2`, by the prefix and the continuation token. -/
abbrev Service := Bucket → ObjKey → Option (List Char) → ListOutput

/-- What the service is documented to do: the keys have an order, in which those that come after the token are listed,
and a token that is given out stands for where the page has ended. -/
structure Documented (service : Service) (after : Option (List Char) → ObjKey → Prop) : Prop where
  begins : ∀ key, after none key
  /-- Objects are listed that are there. -/
  there : ∀ bucket pre token, ∀ o ∈ (service bucket pre token).contents,
    ∃ key, ∃ bytes : ℕ, o = (some key, some (bytes : ℤ)) ∧ (key, bytes) ∈ bucket ∧ pre <+: key
  /-- What is not listed comes after the page, and the page is not the last one. -/
  listed : ∀ bucket pre token key, ∀ bytes : ℕ, (key, bytes) ∈ bucket → pre <+: key → after token key →
    (some key, some (bytes : ℤ)) ∈ (service bucket pre token).contents ∨
      (service bucket pre token).isTruncated = some true ∧
        ∀ next, (service bucket pre token).nextContinuationToken = some next → after (some next) key
  /-- A page that is not the last one lists something, and says where it ends. -/
  goesOn : ∀ bucket pre token, (service bucket pre token).isTruncated = some true →
    ∃ next, (service bucket pre token).nextContinuationToken = some next ∧ next ≠ [] ∧
      (∀ key, after (some next) key → after token key) ∧
      ∃ key size, (some key, size) ∈ (service bucket pre token).contents ∧ after token key ∧ ¬ after (some next) key

/-! ## A service that does so -/

/-- The keys after a token, which is the last key before them with a mark. -/
def AfterMark : Option (List Char) → ObjKey → Prop
  | none, _ => True
  | some [], _ => False
  | some (_ :: last), key => last < key

instance (token : Option (List Char)) (key : ObjKey) : Decidable (AfterMark token key) :=
  match token with
  | none => inferInstanceAs (Decidable True)
  | some [] => inferInstanceAs (Decidable False)
  | some (_ :: last) => inferInstanceAs (Decidable (last < key))

/-- What is left to list, by key. -/
def remaining (bucket : Bucket) (pre : ObjKey) (token : Option (List Char)) : List (ObjKey × ℕ) :=
  (bucket.rows.filter fun o => pre <+: o.1 ∧ AfterMark token o.1).insertionSort fun a b => a.1 ≤ b.1

/-- Pages of `size` objects, in the order of their keys. -/
def pagesOf (size : ℕ) : Service := fun bucket pre token =>
  let rows := remaining bucket pre token
  { contents := (rows.take size).map fun o => (some o.1, some (o.2 : ℤ))
    isTruncated := some (decide (size < rows.length))
    nextContinuationToken := if size < rows.length then (rows.take size).getLast?.map fun o => '.' :: o.1 else none }

section Pages

variable {bucket : Bucket} {pre : ObjKey} {token : Option (List Char)} {o : ObjKey × ℕ} {size : ℕ}

theorem mem_remaining : o ∈ remaining bucket pre token ↔ o ∈ bucket ∧ pre <+: o.1 ∧ AfterMark token o.1 := by
  unfold remaining
  rw [List.mem_insertionSort, List.mem_filter, decide_eq_true_eq]
  exact Iff.rfl

theorem sorted_remaining : (remaining bucket pre token).Pairwise fun a b => a.1 < b.1 := by
  have hle : (remaining bucket pre token).Pairwise fun a b => a.1 ≤ b.1 := List.pairwise_insertionSort _ _
  have hne : (remaining bucket pre token).Pairwise fun a b => a.1 ≠ b.1 := by
    have hnodup : ((remaining bucket pre token).map Prod.fst).Nodup :=
      ((List.perm_insertionSort _ _).map _).nodup_iff.2 (bucket.unique.sublist (List.filter_sublist.map _))
    exact List.pairwise_map.1 hnodup
  exact hle.imp₂ (fun _ _ h h' => lt_of_le_of_ne h h') hne

theorem documented_pagesOf (hsize : 0 < size) : Documented (pagesOf size) AfterMark where
  begins _ := trivial
  there bucket pre token o ho := by
    obtain ⟨⟨key, bytes⟩, hmem, rfl⟩ := List.mem_map.1 ho
    obtain ⟨hbucket, hpre, -⟩ := mem_remaining.1 (List.mem_of_mem_take hmem)
    exact ⟨key, bytes, rfl, hbucket, hpre⟩
  listed bucket pre token key bytes hbucket hpre hafter := by
    have hmem : (key, bytes) ∈ remaining bucket pre token := mem_remaining.2 ⟨hbucket, hpre, hafter⟩
    have hsorted : (remaining bucket pre token).Pairwise fun a b => a.1 < b.1 := sorted_remaining
    rw [← List.take_append_drop size (remaining bucket pre token)] at hmem hsorted
    rcases List.mem_append.1 hmem with htake | hdrop
    · exact .inl (List.mem_map.2 ⟨_, htake, rfl⟩)
    · have hmore : size < (remaining bucket pre token).length := by
        by_contra hnot
        rw [List.drop_eq_nil_of_le (not_lt.1 hnot)] at hdrop
        cases hdrop
      refine .inr ⟨congrArg some (decide_eq_true hmore), fun next hnext => ?_⟩
      simp only [pagesOf, if_pos hmore, Option.map_eq_some_iff] at hnext
      obtain ⟨last, hlast, rfl⟩ := hnext
      exact (List.pairwise_append.1 hsorted).2.2 last (List.mem_of_getLast? hlast) _ hdrop
  goesOn bucket pre token hmore := by
    have hmore' : size < (remaining bucket pre token).length := of_decide_eq_true (Option.some.inj hmore)
    obtain ⟨last, hlast⟩ : ∃ last, ((remaining bucket pre token).take size).getLast? = some last := by
      rw [← Option.isSome_iff_exists, List.getLast?_isSome, ne_eq, List.take_eq_nil_iff, not_or]
      exact ⟨by omega, List.ne_nil_of_length_pos (by omega)⟩
    have hmem := List.mem_of_getLast? hlast
    obtain ⟨-, -, hafter⟩ := mem_remaining.1 (List.mem_of_mem_take hmem)
    refine ⟨'.' :: last.1, ?_, List.cons_ne_nil _ _, fun key hkey => ?_, last.1, _,
      List.mem_map.2 ⟨last, hmem, rfl⟩, hafter, lt_irrefl last.1⟩
    · simp only [pagesOf, if_pos hmore', hlast, Option.map_some]
    · match token, hafter with
      | none, _ => trivial
      | some (_ :: _), hafter => exact lt_trans hafter hkey

end Pages

/-! ## The loop -/

/-- What one turn sees: the bucket, and whether its call fails. -/
structure BucketSeen where
  bucket : Bucket
  fails : Bool

/-- The variables of `s3_prefix_inventory`, and whether the loop has been left. -/
structure Pager where
  continuation : Option (List Char)
  inventory : List (ObjKey × ℕ)
  left : Bool

def Pager.start (inventory : List (ObjKey × ℕ)) : Pager := ⟨none, inventory, false⟩

/-- `inventory.insert(key, size.unwrap_or(0).max(0) as u64)`, where there is a key. -/
def insertObject (inventory : List (ObjKey × ℕ)) : Option ObjKey × Option ℤ → List (ObjKey × ℕ)
  | (some key, size) => insertKey inventory key (max (size.getD 0) 0).toNat
  | (none, _) => inventory

/-- One turn of the loop, for the prefix `pre`. -/
def s3Turn (service : Service) (pre : ObjKey) (seen : BucketSeen) (pager : Pager) : Except Server.Abort Pager :=
  if seen.fails then .error Server.AppError.somethingWentWrong
  else
    let output := service seen.bucket pre pager.continuation
    let inventory := output.contents.foldl insertObject pager.inventory
    if output.isTruncated ≠ some true then .ok ⟨pager.continuation, inventory, true⟩
    else match output.nextContinuationToken.filter fun token => !token.isEmpty with
      | some token => .ok ⟨some token, inventory, false⟩
      | none => .error Server.AppError.somethingWentWrong

/-- `s3_prefix_inventory` -/
def s3PrefixInventory (service : Service) (pre : ObjKey) : Loop BucketSeen Pager Server.Abort :=
  ⟨Pager.left, s3Turn service pre⟩

/-! ## One page -/

/-- What the map has after a page. -/
theorem storedBytes_foldl (contents : List (Option ObjKey × Option ℤ)) (inventory : List (ObjKey × ℕ)) (key : ObjKey) :
    (storedBytes (contents.foldl insertObject inventory) key = storedBytes inventory key ∧
      ∀ size, (some key, size) ∉ contents) ∨
    ∃ size, (some key, size) ∈ contents ∧
      storedBytes (contents.foldl insertObject inventory) key = some (max (size.getD 0) 0).toNat := by
  induction contents generalizing inventory with
  | nil => exact .inl ⟨rfl, fun _ => List.not_mem_nil⟩
  | cons o contents ih =>
    rw [List.foldl_cons]
    rcases ih (insertObject inventory o) with ⟨hsame, hnone⟩ | ⟨size, hmem, hstored⟩
    · obtain ⟨found, size⟩ := o
      by_cases hkey : found = some key
      · subst hkey
        refine .inr ⟨size, List.mem_cons_self, ?_⟩
        rw [hsame]
        exact storedBytes_insertKey.trans (if_pos rfl)
      · refine .inl ⟨hsame.trans ?_, fun size' hmem => ?_⟩
        · cases found with
          | none => rfl
          | some other => exact storedBytes_insertKey.trans (if_neg fun heq => hkey (congrArg some heq.symm))
        · rcases List.mem_cons.1 hmem with heq | hmem
          · exact hkey (congrArg Prod.fst heq).symm
          · exact hnone size' hmem
    · exact .inr ⟨size, List.mem_cons_of_mem _ hmem, hstored⟩

section Turn

variable {service : Service} {after : Option (List Char) → ObjKey → Prop} {pre : ObjKey} {seen : BucketSeen}
  {pager pager' : Pager} {before : List (ObjKey × ℕ)} {key : ObjKey} {bytes : ℕ}

/-- **What one turn does.** -/
theorem s3Turn_ok (h : s3Turn service pre seen pager = .ok pager') :
    seen.fails = false ∧
      pager'.inventory = (service seen.bucket pre pager.continuation).contents.foldl insertObject pager.inventory ∧
      ((service seen.bucket pre pager.continuation).isTruncated ≠ some true ∧ pager'.left = true ∨
        ∃ token, (service seen.bucket pre pager.continuation).isTruncated = some true ∧
          (service seen.bucket pre pager.continuation).nextContinuationToken = some token ∧
          pager'.continuation = some token ∧ pager'.left = false) := by
  unfold s3Turn at h
  split at h
  · cases h
  · rename_i hfails
    refine ⟨eq_false_of_ne_true hfails, ?_⟩
    dsimp only at h
    split at h
    · rename_i hlast
      cases h
      exact ⟨rfl, .inl ⟨hlast, rfl⟩⟩
    · rename_i hmore
      split at h
      · rename_i token htoken
        cases h
        exact ⟨rfl, .inr ⟨token, not_not.1 hmore, (Option.filter_eq_some_iff.1 htoken).1, rfl, rfl⟩⟩
      · cases h

/-- A page holds the objects of the bucket under their sizes. -/
theorem Documented.stored (hservice : Documented service after) (token : Option (List Char)) {size : Option ℤ}
    (hmem : (some key, size) ∈ (service seen.bucket pre token).contents) :
    ∃ bytes : ℕ, (max (size.getD 0) 0).toNat = bytes ∧ (key, bytes) ∈ seen.bucket ∧ pre <+: key := by
  obtain ⟨key', bytes, heq, hbucket, hpre⟩ := hservice.there _ _ _ _ hmem
  cases heq
  exact ⟨bytes, by simp, hbucket, hpre⟩

/-- Where the keys of the map come from. -/
def Pager.Sound (pre : ObjKey) (P : BucketSeen → Prop) (before : List (ObjKey × ℕ)) (pager : Pager) : Prop :=
  ∀ key, storedBytes pager.inventory key = storedBytes before key ∨
    ∃ seen bytes, P seen ∧ (key, bytes) ∈ seen.bucket ∧ pre <+: key ∧ storedBytes pager.inventory key = some bytes

theorem pager_sound_turn {P : BucketSeen → Prop} (hservice : Documented service after) (hseen : P seen)
    (hpager : pager.Sound pre P before) (h : s3Turn service pre seen pager = .ok pager') :
    pager'.Sound pre P before := by
  intro key
  obtain ⟨-, hinventory, -⟩ := s3Turn_ok h
  rw [hinventory]
  rcases storedBytes_foldl (service seen.bucket pre pager.continuation).contents pager.inventory key with
    ⟨hsame, -⟩ | ⟨size, hmem, hstored⟩
  · rw [hsame]
    exact hpager key
  · obtain ⟨bytes, hbytes, hbucket, hpre⟩ := hservice.stored _ hmem
    exact .inr ⟨seen, bytes, hseen, hbucket, hpre, hstored.trans (congrArg some hbytes)⟩

/-- The object is in the map, or comes after the token. -/
def Ahead (after : Option (List Char) → ObjKey → Prop) (key : ObjKey) (bytes : ℕ) (pager : Pager) : Prop :=
  storedBytes pager.inventory key = some bytes ∨ pager.left = false ∧ after pager.continuation key

/-- **An object that stays stays in sight.** -/
theorem Ahead.turn (hservice : Documented service after) (hobject : (key, bytes) ∈ seen.bucket) (hpre : pre <+: key)
    (h : s3Turn service pre seen pager = .ok pager') (hahead : Ahead after key bytes pager) :
    Ahead after key bytes pager' := by
  obtain ⟨-, hinventory, hnext⟩ := s3Turn_ok h
  -- if it is on the page, it is there with its size
  have hpage : ∀ {size}, (some key, size) ∈ (service seen.bucket pre pager.continuation).contents →
      storedBytes pager'.inventory key = some bytes := by
    intro size hmem
    rw [hinventory]
    rcases storedBytes_foldl (service seen.bucket pre pager.continuation).contents pager.inventory key with
      ⟨-, hnone⟩ | ⟨size', hmem', hstored⟩
    · exact absurd hmem (hnone size)
    · obtain ⟨bytes', hbytes, hbucket, -⟩ := hservice.stored _ hmem'
      obtain ⟨-, rfl⟩ := Prod.mk.inj (Keyed.eq_of_col hbucket hobject rfl)
      exact hstored.trans (congrArg some hbytes)
  rcases hahead with hstored | ⟨-, hafter⟩
  · rcases storedBytes_foldl (service seen.bucket pre pager.continuation).contents pager.inventory key with
      ⟨hsame, -⟩ | ⟨size, hmem, -⟩
    · refine .inl ?_
      rw [hinventory, hsame]
      exact hstored
    · exact .inl (hpage hmem)
  · rcases hservice.listed _ _ _ _ _ hobject hpre hafter with hmem | ⟨hmore, hbeyond⟩
    · exact .inl (hpage hmem)
    · rcases hnext with ⟨hlast, -⟩ | ⟨token, -, htoken, hcontinuation, hleft⟩
      · exact absurd hmore hlast
      · refine .inr ⟨hleft, ?_⟩
        rw [hcontinuation]
        exact hbeyond token htoken

end Turn

/-! ## The whole listing -/

section Runs

variable {service : Service} {after : Option (List Char) → ObjKey → Prop} {pre : ObjKey} {seens : List BucketSeen}
  {pager : Pager} {before : List (ObjKey × ℕ)}

/-- **The listing finds what stays, and nothing that has not been there.**  Whatever changes in the bucket between two
pages, however many objects are on each: when the loop has been left, each object with the prefix that was in the bucket
with the same size whenever a page was asked for is in the map with this size; what else has come into the map was in
the bucket when one of the pages was asked for; all other keys are as they were. -/
theorem listing_complete (hservice : Documented service after)
    (h : (s3PrefixInventory service pre).run seens (.start before) = .ok pager) (hleft : pager.left = true) :
    (∀ key bytes, pre <+: key → (∀ seen ∈ seens, (key, bytes) ∈ seen.bucket) →
      storedBytes pager.inventory key = some bytes) ∧
    ∀ key, storedBytes pager.inventory key = storedBytes before key ∨
      ∃ seen ∈ seens, ∃ bytes, (key, bytes) ∈ seen.bucket ∧ pre <+: key ∧
        storedBytes pager.inventory key = some bytes := by
  constructor
  · intro key bytes hpre hstays
    have hahead : Ahead after key bytes pager :=
      Loop.run_keeps (P := fun seen => (key, bytes) ∈ seen.bucket) (I := Ahead after key bytes)
        (fun _ _ _ hobject hahead _ hturn => hahead.turn hservice hobject hpre hturn) hstays h
        (.inr ⟨rfl, hservice.begins key⟩)
    rcases hahead with hstored | ⟨hnot, -⟩
    · exact hstored
    · rw [hleft] at hnot
      cases hnot
  · have hsound : pager.Sound pre (· ∈ seens) before :=
      Loop.run_keeps (I := fun pager => pager.Sound pre (· ∈ seens) before)
        (fun _ _ _ hseen hpager _ hturn => pager_sound_turn hservice hseen hpager hturn) (fun _ hseen => hseen) h
        fun _ => .inl rfl
    intro key
    rcases hsound key with hsame | ⟨seen, bytes, hseen, hrest⟩
    · exact .inl hsame
    · exact .inr ⟨seen, hseen, bytes, hrest⟩

/-- `files/a`, `files/b` -/
def twoObjects : Bucket := ⟨[(keyOf [filesName, bName], 5), (keyOf [filesName, aName], 3)], by decide⟩

/-- `files/b`, `files/c` -/
def otherObjects : Bucket := ⟨[(keyOf [filesName, bName], 5), (filesPrefix ++ ['c'], 7)], by decide⟩

/-- `files/a` is deleted when it has been listed, and there is `files/c` then. -/
def changing : List BucketSeen := [⟨twoObjects, false⟩, ⟨otherObjects, false⟩, ⟨otherObjects, false⟩]

theorem listing_complete_pages :
    ∃ pager, (s3PrefixInventory (pagesOf 1) filesPrefix).run changing (.start []) = .ok pager ∧ pager.left = true ∧
      storedBytes pager.inventory (keyOf [filesName, bName]) = some 5 ∧
      storedBytes pager.inventory (filesPrefix ++ ['c']) = some 7 := by
  have hdocumented : Documented (pagesOf 1) AfterMark := documented_pagesOf Nat.one_pos
  have hstays : ∀ seen ∈ changing, (keyOf [filesName, bName], 5) ∈ seen.bucket := by
    simp [changing, twoObjects, otherObjects, Keyed.mem_def]
  refine ⟨_, rfl, rfl, ?_, rfl⟩
  exact (@listing_complete _ _ filesPrefix changing _ [] hdocumented rfl rfl).1 _ 5 (by decide) hstays

end Runs

/-! ## A bucket that does not change -/

section Static

variable {service : Service} {after : Option (List Char) → ObjKey → Prop} {pre : ObjKey} {bucket : Bucket}
  {pager : Pager} {before : List (ObjKey × ℕ)}

/-- The objects that come after a token, of which there are fewer after the next one. -/
theorem exists_ahead (after : Option (List Char) → ObjKey → Prop) (bucket : Bucket) :
    ∃ ahead : Option (List Char) → ℕ, ∀ token next key bytes, (∀ key, after next key → after token key) →
      (key, bytes) ∈ bucket → after token key → ¬ after next key → ahead next < ahead token := by
  classical
  refine ⟨fun token => (bucket.rows.filter fun o => after token o.1).length, ?_⟩
  intro token next key bytes hmono hbucket hafter hnot
  have hsub : (bucket.rows.filter fun o => after next o.1).Sublist (bucket.rows.filter fun o => after token o.1) :=
    List.monotone_filter_right _ fun o ho => decide_eq_true (hmono _ (of_decide_eq_true ho))
  refine lt_of_le_of_ne hsub.length_le fun hlength => hnot ?_
  have hmem : (key, bytes) ∈ bucket.rows.filter fun o => after token o.1 :=
    List.mem_filter.2 ⟨hbucket, decide_eq_true hafter⟩
  rw [← hsub.eq_of_length hlength] at hmem
  exact of_decide_eq_true (List.mem_filter.1 hmem).2

/-- **The listing ends**, when nothing changes and no call fails. -/
theorem listing_ends (hservice : Documented service after) : ∃ n pager,
    (s3PrefixInventory service pre).run (List.replicate n ⟨bucket, false⟩) (.start before) = .ok pager ∧
      pager.left = true := by
  obtain ⟨ahead, hahead⟩ := exists_ahead after bucket
  have hturn : ∀ pager : Pager, True → (s3PrefixInventory service pre).done pager = false →
      ∃ pager', (s3PrefixInventory service pre).turn ⟨bucket, false⟩ pager = .ok pager' ∧ True ∧
        (if pager'.left then 0 else ahead pager'.continuation + 1) <
          if pager.left then 0 else ahead pager.continuation + 1 := by
    intro pager _ hleft
    have hleft' : pager.left = false := hleft
    rw [hleft', if_neg Bool.false_ne_true]
    show ∃ pager', s3Turn service pre ⟨bucket, false⟩ pager = .ok pager' ∧ _
    unfold s3Turn
    dsimp only
    rw [if_neg Bool.false_ne_true]
    by_cases hmore : (service bucket pre pager.continuation).isTruncated = some true
    · obtain ⟨token, htoken, hsome, hmono, key, size, hmem, hafter, hnot⟩ := hservice.goesOn _ _ _ hmore
      obtain ⟨key', bytes, heq, hbucket, -⟩ := hservice.there _ _ _ _ hmem
      obtain rfl := Option.some.inj (congrArg Prod.fst heq)
      have hkept : (service bucket pre pager.continuation).nextContinuationToken.filter
          (fun token => !token.isEmpty) = some token := by
        rw [htoken, Option.filter_some]
        simp [hsome]
      rw [if_neg (not_not.2 hmore), hkept]
      exact ⟨_, rfl, trivial, Nat.succ_lt_succ (hahead _ _ _ _ hmono hbucket hafter hnot)⟩
    · rw [if_pos hmore]
      exact ⟨_, rfl, trivial, Nat.succ_pos _⟩
  obtain ⟨pager, hrun, hleft, -⟩ := Loop.run_ends (I := fun _ => True) (s := .start before) _ hturn le_rfl trivial
  exact ⟨_, pager, hrun, hleft⟩

/-- What it has found then: the objects with the prefix. -/
theorem listing_exact (hservice : Documented service after) {n : ℕ}
    (hrun : (s3PrefixInventory service pre).run (List.replicate n ⟨bucket, false⟩) (.start before) = .ok pager)
    (hleft : pager.left = true) (key : ObjKey) :
    (∃ bytes, (key, bytes) ∈ bucket ∧ pre <+: key ∧ storedBytes pager.inventory key = some bytes) ∨
    (storedBytes pager.inventory key = storedBytes before key ∧ ∀ bytes, (key, bytes) ∈ bucket → ¬ pre <+: key) := by
  obtain ⟨hfound, hsound⟩ := listing_complete hservice hrun hleft
  by_cases hkey : ∃ bytes, (key, bytes) ∈ bucket ∧ pre <+: key
  · obtain ⟨bytes, hbucket, hpre⟩ := hkey
    refine .inl ⟨bytes, hbucket, hpre, hfound key bytes hpre fun seen hseen => ?_⟩
    rw [List.eq_of_mem_replicate hseen]
    exact hbucket
  · refine .inr ⟨?_, fun bytes hbucket hpre => hkey ⟨bytes, hbucket, hpre⟩⟩
    rcases hsound key with hsame | ⟨seen, hseen, bytes, hbucket, hpre, -⟩
    · exact hsame
    · rw [List.eq_of_mem_replicate hseen] at hbucket
      exact absurd ⟨bytes, hbucket, hpre⟩ hkey

end Static

end Gc
end Uwuubox
