import Uwuubox.Dedupe.Consistency
import Uwuubox.Dedupe.Leftovers
import Uwuubox.Gc.Cleared

/-!
# Collection after interrupted requests

Requests are interrupted, and when nothing is in progress any more the collector is started on what
they have left.

* `siteOf` — what the collector finds of the tables and the store that the requests share.
* `sweeps_of_harmless` — **a collection repairs** what is left of every run in which thumbnails are
  stored only while their objects have rows, and no request ends with a counted reference or with
  something of a thumbnail to be deleted.
* `leaked_reference` — an upload is stopped when its reference has been counted.
-/

namespace Uwuubox
namespace Gc

open Dedupe Table
open Storage (Backend ObjKey SafeKey)

/-! ## What the collector finds -/

/-- A row of `objects`, as the collector reads it. -/
def ObjectRow.of (row : Dedupe.ObjectRow) : ObjectRow :=
  ⟨row.storageKey.val, row.sizeBytes, row.refcount⟩

/-- The tables as the collector finds them, beside `users.avatar_key` and a store. -/
def siteOf (w : World) (avatarKeys : List (Option ObjKey)) (store : Keyed (Prod.fst : ObjKey × ℕ → ObjKey)) :
    Site where
  objects := ⟨w.objects.rows.map ObjectRow.of, by
    have hunique := List.Nodup.map Subtype.val_injective w.objects.uniqueKey
    unfold UniqueOn
    rw [List.map_map] at hunique ⊢
    exact hunique⟩
  files := w.files.rows.map fun row => ⟨row.storageKey.val, row.thumbKey.map Subtype.val⟩
  avatarKeys := avatarKeys
  store := store

/-- The store that the collector finds holds what the requests have left there. -/
def Lists (store : Keyed (Prod.fst : ObjKey × ℕ → ObjKey)) (w : World) : Prop :=
  ∀ key, (store.find? key).isSome ↔ ∃ h, w.store ⟨key, h⟩ ≠ none

section

variable {w : World} {avatarKeys : List (Option ObjKey)}
  {store : Keyed (Prod.fst : ObjKey × ℕ → ObjKey)} {key : ObjKey}

theorem refcount?_siteOf {n : ℕ} (h : (siteOf w avatarKeys store).refcount? key = some n) :
    ∃ row ∈ w.objects.rows, row.storageKey.val = key ∧ row.refcount = n := by
  unfold Site.refcount? at h
  obtain ⟨object, hfind, rfl⟩ := Option.map_eq_some_iff.1 h
  obtain ⟨hmem, hkey⟩ := Keyed.mem_of_find? hfind
  obtain ⟨row, hrow, rfl⟩ := List.mem_map.1 hmem
  exact ⟨row, hrow, hkey, rfl⟩

/-- What a row of files has is referred to. -/
theorem referenced_siteOf (key : SafeKey) (h : fileRefs w.files.rows key ≠ 0) :
    (siteOf w avatarKeys store).Referenced key.val := by
  obtain ⟨file, hfile, hkey⟩ := List.mem_flatMap.1 (List.count_pos_iff.1 (Nat.pos_of_ne_zero h))
  have hmem := List.mem_map_of_mem (f := fun row : FileRow =>
    (⟨row.storageKey.val, row.thumbKey.map Subtype.val⟩ : FileKeys)) hfile
  rcases List.mem_cons.1 hkey with rfl | hkey
  · exact .inl ⟨_, hmem, rfl⟩
  · refine .inr (.inl ⟨_, hmem, ?_⟩)
    rw [Option.mem_toList.1 hkey]
    rfl

/-- Where everything is accounted for and nobody has a stake, a collection finds what is left. -/
theorem sweeps_of_accounted (hw : Accounted w 0) (hstore : Lists store w) :
    (siteOf w avatarKeys store).Sweeps := by
  have hsafe : (siteOf w avatarKeys store).Safe := fun key hkey => ((hstore key).1 hkey).1
  refine (swept_iff hsafe).2 fun key href => ⟨fun n hn => ?_, fun hthumb hstored => ?_⟩
  · obtain ⟨row, hrow, rfl, hcount⟩ := refcount?_siteOf hn
    have hle := hw.counted row hrow
    rw [Multiset.count_zero, hcount] at hle
    exact href (referenced_siteOf row.storageKey (by omega))
  · obtain ⟨h, hbytes⟩ := (hstore key).1 hstored
    rcases hw.stored ⟨key, h⟩ hthumb hbytes with ⟨row, hrow, hkey⟩ | hmem | hmem
    · have hle := hw.counted row hrow
      rw [Multiset.count_zero, hkey] at hle
      have hpos : row.refcount ≠ 0 := fun hzero =>
        Multiset.notMem_zero _ (hw.zero row hrow (hkey ▸ hthumb) hzero)
      exact href (referenced_siteOf ⟨key, h⟩ (by omega))
    · exact absurd hmem (Multiset.notMem_zero _)
    · exact absurd hmem (Multiset.notMem_zero _)

end

/-! ## After the requests -/

/-- **A collection repairs** what interrupted requests have left, in every run that meets the
condition. -/
theorem sweeps_of_harmless (backend : Backend) (sha256 : Bytes → Digest) {w₀ : World} (hw₀ : Tidy w₀)
    {p : Pool World (Work × Stakes) FileOp FileOp.Res Unit}
    (hp : Tracked.Reachable track (fun w _ _ op => Lands w op) Harmless (Work.code backend sha256)
      (execFile True) w₀ p) (hquiet : p.threads = []) (avatarKeys : List (Option ObjKey))
    {store : Keyed (Prod.fst : ObjKey × ℕ → ObjKey)} (hstore : Lists store p.shared) :
    (siteOf p.shared avatarKeys store).Sweeps := by
  have hw := accounted_of_harmless backend sha256 hw₀ hp
  rw [hquiet] at hw
  exact sweeps_of_accounted hw hstore

/-! ### Requests that are stopped -/

theorem tidy_empty : Tidy World.empty where
  counted _ h := absurd h List.not_mem_nil
  live _ h := absurd h List.not_mem_nil
  stored _ _ h := absurd rfl h

/-- A store with one object. -/
def storeOf (key : SafeKey) (size : ℕ) : Keyed (Prod.fst : ObjKey × ℕ → ObjKey) :=
  ⟨[(key.val, size)], List.nodup_singleton _⟩

theorem lists_storeOf {w : World} {key : SafeKey} {bytes : Bytes}
    (hw : w.store = Function.update (fun _ => none) key (some bytes)) (size : ℕ) :
    Lists (storeOf key size) w := by
  intro key'
  by_cases heq : key.val = key'
  · subst heq
    simp [Keyed.find?, storeOf, hw, key.property]
  · have hne : ∀ h, (⟨key', h⟩ : SafeKey) ≠ key := fun h heq' => heq (congrArg Subtype.val heq').symm
    simp [Keyed.find?, storeOf, hw, heq, Function.update_of_ne (hne _)]

theorem lists_empty {w : World} (hw : w.store = fun _ => none) : Lists .empty w := by
  intro key
  simp [Keyed.find?, Keyed.empty, hw]

/-- A file is uploaded to a bucket; its removal ends when it has deleted the rows, before the
bytes. -/
def stoppedRemoval : Pool World (Work × Stakes) FileOp FileOp.Res Unit :=
  Tracked.play track (Work.code .s3 sampleSha256) (fun _ w op => answerFile (thumbKey coreA) w op)
    World.empty (.spawn (.upload (sampleUpload coreA)) :: List.replicate 4 (.act 0 ()) ++
      .leave 0 :: .spawn (.remove coreA) :: List.replicate 3 (.act 0 ()) ++ [.leave 0])

/-- A statement, or a put of something else than a thumbnail. -/
def putsNoThumb : FileOp → Bool
  | .db (.put key _) => decide (¬ Thumb key)
  | .db _ => true
  | _ => false

/-- Bytes are yet to be deleted, of something else than a thumbnail. -/
def isDeadObject : Stake → Bool
  | .dead key => decide (¬ Thumb key)
  | _ => false

/-- Its bytes, which nothing refers to, are collected. -/
theorem sweeps_of_harmless_stoppedRemoval :
    (siteOf stoppedRemoval.shared [] (storeOf (fileKey coreA ⟨[], rfl⟩) 1)).Sweeps := by
  have hp : Tracked.Reachable track (fun w _ _ op => Lands w op) Harmless (Work.code .s3 sampleSha256)
      (execFile True) World.empty stoppedRemoval := by
    refine @Tracked.reachable_play _ _ _ _ _ _ _ track _ _ _ _ Unit _
      (fun _ _ _ _ op => putsNoThumb op) (fun _ g => decide (∀ t ∈ g, isDeadObject t = true))
      (fun _ w g f op hok => ?_) (fun w g hok t ht => ?_) World.empty _ (by decide)
    · cases op with
      | db op =>
        refine ⟨?_, thumbKey coreA, trivial, .inl rfl⟩
        cases op with
        | put key bytes => exact fun hthumb => absurd hthumb (of_decide_eq_true hok)
        | _ => exact trivial
      | _ => cases hok
    · have hdead := of_decide_eq_true hok t ht
      cases t with
      | dead key => exact fun hthumb => absurd hthumb (of_decide_eq_true hdead)
      | _ => cases hdead
  exact sweeps_of_harmless .s3 sampleSha256 tidy_empty hp rfl [] (lists_storeOf rfl 1)

/-- An upload ends when its reference has been counted. -/
def stoppedUpload : Pool World (Work × Stakes) FileOp FileOp.Res Unit :=
  Tracked.play track (Work.code .localFs sampleSha256) (fun _ w op => answerFile (thumbKey coreA) w op)
    World.empty [.spawn (.upload (sampleUpload coreA)), .act 0 (), .act 0 (), .leave 0]

def isStatement : FileOp → Bool
  | .db _ => true
  | _ => false

/-- The row that it has left stays. -/
theorem leaked_reference : ∃ (p : Pool World (Work × Stakes) FileOp FileOp.Res Unit)
    (store : Keyed (Prod.fst : ObjKey × ℕ → ObjKey)), Tidy World.empty ∧
    Tracked.Reachable track (fun _ _ _ _ => True) (fun _ _ => True) (Work.code .localFs sampleSha256)
      (execFile True) World.empty p ∧
    p.threads = [] ∧ Lists store p.shared ∧ ¬ (siteOf p.shared [] store).Sweeps := by
  have hstore : Lists .empty stoppedUpload.shared := lists_empty rfl
  refine ⟨stoppedUpload, .empty, tidy_empty, ?_, rfl, hstore, fun hsweeps => ?_⟩
  · refine @Tracked.reachable_play _ _ _ _ _ _ _ track _ _ _ _ Unit _
      (fun _ _ _ _ op => isStatement op) (fun _ _ => true) (fun _ w g f op hok => ⟨trivial, ?_⟩)
      (fun _ _ _ => trivial) World.empty _ (by decide)
    cases op with
    | db op => exact ⟨thumbKey coreA, trivial, .inl rfl⟩
    | _ => cases hok
  · have hsafe : (siteOf stoppedUpload.shared [] .empty).Safe := fun key hkey => ((hstore key).1 hkey).1
    have hclean := (swept_iff hsafe).1 hsweeps
    exact (hclean (fileKey coreA ⟨[], rfl⟩).val (by decide)).1 0 (by decide)

end Gc
end Uwuubox
