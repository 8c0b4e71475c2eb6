import Uwuubox.Gc.Repair
import Uwuubox.Gc.Undisturbed

/-!
# Every order of a collection and of uploads

A collection reads the store before the tables.  So it finds bytes that nothing refers to yet: the temporary
file that `stream_write` of `src/storage.rs` makes beside a file in `files/`, and an avatar that
`upload_avatar` has put and not yet recorded.  It looks for references once more before it deletes, and there are
none yet.

* `InPlace` — where the runs start.  `InPlace.guarded`: the invariant holds there.
* `Disturbed`, `Undisturbed`, `KeepsBytes` — an upload fails; none can fail next; what has been written is stored.
* `undisturbed_of_spares` — **uploads are safe** in the runs in which the collections spare what they have begun.
* `collected_temp` — a collection deletes the temporary file of an upload, which then cannot be renamed.
-/

namespace Uwuubox
namespace Gc

open Dedupe Storage Table Fallible Server
open Dedupe.Backfill (Named)

/-! ## The runs -/

/-- Where a run starts: objects and avatars are stored, and the cores of all keys have been claimed. -/
structure InPlace (s : AvatarWorld) : Prop where
  used : ∀ slot, Taken s.server.dedupe 0 slot → slot.core ∈ s.server.dedupe.usedIdCores
  objects : ∀ row ∈ s.server.dedupe.objects.rows, Named row.storageKey ∧ s.Stored row.storageKey
  avatars : ∀ id key, s.avatarKey id = some key → AvatarOf id key ∧ s.Stored key

abbrev JobPool := Pool AvatarWorld (Job × Holdings) Action Action.Res Unit

/-- The pools of the runs in which statements wait for locks, and operations meet a condition. -/
def Interleaved (cond : AvatarWorld → Holdings → Action → Prop) (env : Env) (sha256 : Bytes → Digest)
    (s₀ : AvatarWorld) : JobPool → Prop :=
  Tracked.Reachable track (fun s g f a => Awaited s (g + f) a ∧ cond s (g + f) a) (fun _ _ => False)
    (Job.code env sha256) execAction s₀

/-! ## What is promised -/

/-- The error of an operation. -/
def errorOf {α : Type} : Except Failure α → Option Failure
  | .ok _ => none
  | .error e => some e

/-- The error of an operation on a file. -/
def fileError : (op : FileOp) → op.Res → Option Failure
  | .create _ _, r => errorOf r.2
  | .db _, r | .rename _ _, r | .linkThumb _ _, r | .findFile _, r => errorOf r

/-- The error of an operation of an upload. -/
def uploadError : (a : Action) → a.Res → Option Failure
  | .collect _, _ => none
  | .file op, r => fileError op r
  | .avatar (.server _), r => errorOf r.1
  | .avatar (.file op), r => fileError op r
  | .avatar (.putObject _ _), r | .avatar (.delete _), r | .avatar (.setAvatarKey _ _), r => errorOf r

/-- The operation of an upload fails, and not because a refcount would leave the range of its column. -/
def Disturbed (a : Action) (r : a.Res) : Prop := ∃ e, uploadError a r = some e ∧ e ≠ .sql .outOfRange

/-- No upload can fail at its next operation. -/
def Undisturbed (p : JobPool) : Prop :=
  ∀ t ∈ p.threads, ∀ a k, t.2 = .call a k → Awaited p.shared (Tracked.total p.threads) a →
    ∀ r s', execAction p.shared a r s' → ¬ Disturbed a r

/-- The bytes of the files that have been uploaded since, and of all avatars, are stored. -/
structure KeepsBytes (s₀ s : AvatarWorld) : Prop where
  files : ∀ row ∈ s.server.dedupe.files.rows, row ∉ s₀.server.dedupe.files.rows → s.Stored row.storageKey
  avatars : ∀ id key, s.avatarKey id = some key → s.Stored key

/-! ## Where the condition holds -/

section

variable {s s' s₀ : AvatarWorld} {t g f : Holdings}

theorem InPlace.guarded (h : InPlace s) : Guarded s.server.dedupe.files.rows s.server.dedupe s.avatarKey 0 where
  sole := Multiset.nodup_zero
  means _ hmem := absurd hmem (Multiset.notMem_zero _)
  used := h.used
  objects row hrow := (h.objects row hrow).imp_right .inl
  written _ hrow := .inl hrow
  recorded id key hkey := (h.avatars id key hkey).imp_right .inl

/-- When nothing is left to do, what has been written is stored. -/
theorem Guarded.keepsBytes (h : Guarded s₀.server.dedupe.files.rows s.server.dedupe s.avatarKey t) (hclear : Clear t) :
    KeepsBytes s₀ s where
  files row hrow hnew := by
    obtain ⟨object, hobject, hkey, hpos⟩ := (h.written row hrow).resolve_left hnew
    have hlock : ∀ lock : Lock, lock.refcount = 0 → .locks object.storageKey.val lock ∉ t := by
      intro lock hzero hmem
      -- a row that is being deleted is not counted
      obtain ⟨locked, hlocked, hval, hcount⟩ := h.means _ hmem
      obtain rfl := s.server.dedupe.objects.uniqueKey.eq hlocked hobject (Subtype.ext hval)
      omega
    rw [← hkey]
    rcases (h.objects object hobject).2 with hstored | hfresh | hbare | hdying
    · exact hstored
    · exact absurd hfresh (hclear _).1
    · exact absurd hbare (hlock .bare rfl)
    · exact absurd hdying (hlock .dying rfl)
  avatars id key hkey := (h.recorded id key hkey).2.resolve_right (hclear key).2

theorem Clear.add (hg : Clear g) (hf : Clear f) : Clear (g + f) := fun key =>
  ⟨fun hmem => (Multiset.mem_add.1 hmem).elim (hg key).1 (hf key).1,
    fun hmem => (Multiset.mem_add.1 hmem).elim (hg key).2 (hf key).2⟩

theorem clear_total {ts : Tracked.Threads Job Holdings Action Action.Res Unit} (h : ∀ t ∈ ts, Clear t.1.2) :
    Clear (Tracked.total ts) := by
  induction ts with
  | nil => exact clear_zero
  | cons t ts ih =>
    rw [Tracked.total_cons]
    exact (h t List.mem_cons_self).add (ih fun t' ht' => h t' (List.mem_cons_of_mem _ ht'))

theorem errorOf_eq_some {α : Type} {r : Except Failure α} {e : Failure} : errorOf r = some e ↔ r = .error e := by
  cases r <;> simp [errorOf]

theorem errorOf_ne {α : Type} {r : Except Failure α} {v : α} (h : r = .ok v) (e : Failure) : errorOf r ≠ some e := by
  rw [h]
  simp [errorOf]

theorem not_disturbed_file {op : FileOp} {r : op.Res} (hmay : MayUpload g op) (h : Expected (.file op) r) :
    ¬ Disturbed (.file op) r := by
  rintro ⟨e, he, hne⟩
  cases op with
  | db op =>
    cases op with
    | insertObject =>
      rcases h with h | h
      · exact errorOf_ne h e he
      · exact errorOf_ne h e he
    | bumpObject => exact hne (h e (errorOf_eq_some.1 he))
    | _ =>
      obtain ⟨v, hv⟩ := h
      exact errorOf_ne hv e he
  | create | rename => exact errorOf_ne h e he
  | linkThumb | findFile => exact hmay

theorem not_disturbed_avatar {op : AvatarOp} {r : op.Res} (hmay : MayPut g op) (h : Expected (.avatar op) r) :
    ¬ Disturbed (.avatar op) r := by
  rintro ⟨e, he, -⟩
  cases op with
  | server op =>
    obtain ⟨⟨v, hv⟩, -⟩ := h
    exact errorOf_ne hv e he
  | file op =>
    cases op with
    | create | rename => exact errorOf_ne h e he
    | db | linkThumb | findFile => exact hmay
  | putObject => exact hmay
  | delete | setAvatarKey => exact errorOf_ne h e he

/-- **An upload is not disturbed.** -/
theorem Guarded.not_disturbed {files : List FileRow} (h : Guarded files s.server.dedupe s.avatarKey (g + f))
    {a : Action} {r : a.Res} (hmay : May g a) (hawaited : Awaited s (g + f) a) (hexec : execAction s a r s') :
    ¬ Disturbed a r := by
  cases a with
  | collect op =>
    rintro ⟨e, ⟨⟩, -⟩
  | file op => exact not_disturbed_file hmay (h.step hmay hawaited trivial hexec).1
  | avatar op =>
    refine not_disturbed_avatar hmay ?_
    cases op with
    | delete key =>
      -- a deletion does not fail, whatever it deletes
      rcases hexec with ⟨hr, -⟩ | ⟨hfails, -⟩
      · exact hr
      · exact hfails.elim
    | _ => exact (h.step (a := .avatar _) hmay hawaited trivial hexec).1

/-- **The invariant holds** in every run, and every request goes on as it may. -/
theorem Interleaved.guarded {env : Env} {sha256 : Bytes → Digest} {p : JobPool}
    (hp : Interleaved Spares env sha256 s₀ p) (h₀ : InPlace s₀) :
    Guarded s₀.server.dedupe.files.rows p.shared.server.dedupe p.shared.avatarKey (Tracked.total p.threads) ∧
      ∀ t ∈ p.threads, t.2.Obeys jobProtocol (fun _ => Clear) t.1.2 := by
  refine @Tracked.Reachable.invariant _ _ _ _ _ _ _ _ _ _ _ _ _ Expected
    (fun s t => Guarded s₀.server.dedupe.files.rows s.server.dedupe s.avatarKey t) (fun _ => May) (fun _ _ => Clear)
    h₀.guarded (obeys_code env sha256) ?_ ?_ _ hp
  · exact fun _ _ _ _ _ _ _ hmay h hcond hexec => h.step hmay hcond.1 hcond.2 hexec
  · exact fun _ _ _ hleave => hleave.elim

/-- **Uploads are safe beside collections** where these spare what they have begun. -/
theorem undisturbed_of_spares (env : Env) (sha256 : Bytes → Digest) {p : JobPool} (h₀ : InPlace s₀)
    (hp : Interleaved Spares env sha256 s₀ p) : Undisturbed p ∧ (p.Quiet → KeepsBytes s₀ p.shared) := by
  obtain ⟨hguarded, hobeys⟩ := hp.guarded h₀
  refine ⟨fun t ht a k hcall hawaited r s' hexec => ?_, fun hquiet => ?_⟩
  · obtain ⟨pre, post, hsplit⟩ := List.mem_iff_append.1 ht
    have hmay := hobeys t ht
    rw [hcall] at hmay
    rw [hsplit, Tracked.total_middle] at hguarded hawaited
    exact hguarded.not_disturbed hmay.1 hawaited hexec
  · refine hguarded.keepsBytes (clear_total fun t ht => ?_)
    obtain ⟨a, ha⟩ := hquiet t ht
    have hclear := hobeys t ht
    rw [ha] at hclear
    exact hclear

end

/-! ## Runs that are evaluated -/

section

/-- A fresh instance. -/
def emptySite : AvatarWorld := ⟨World.empty, fun _ => none⟩

theorem inPlace_emptySite : InPlace emptySite where
  used slot hslot := by
    rcases hslot with ⟨row, hrow, -⟩ | ⟨key, -, ⟨object, hstored, -⟩ | ⟨row, hrow, -⟩ | hlisted⟩
    · exact absurd hrow List.not_mem_nil
    · cases hstored
    · exact absurd hrow List.not_mem_nil
    · exact absurd hlisted (Multiset.notMem_zero _)
  objects row hrow := absurd hrow List.not_mem_nil
  avatars id key hkey := by cases hkey

theorem simple_replicate : (List.replicate 32 'a').length = 32 ∧
    ∀ c ∈ List.replicate 32 'a', c ∈ "0123456789abcdef".toList :=
  ⟨List.length_replicate, fun c hc => List.eq_of_mem_replicate hc ▸ by decide⟩

def tmpSimple : Simple := ⟨List.replicate 32 'a', simple_replicate⟩

theorem safe_tmpA : assertSafeKey (filesPrefix ++ ['.', 't', 'm', 'p', '-'] ++ tmpSimple.val) = true := by
  rfl

/-- The temporary file of an upload. -/
def tmpA : SafeKey := ⟨filesPrefix ++ ['.', 't', 'm', 'p', '-'] ++ tmpSimple.val, safe_tmpA⟩

def keyA : SafeKey := fileKey coreA ⟨[], isExt_nil⟩

theorem tempName_tmpA : TempName keyA tmpA := ⟨tmpSimple, rfl⟩

/-- What an operation returns and does, when a collection finds `store`. -/
def answerAction (store : Keyed (Prod.fst : ObjKey × ℕ → ObjKey)) (s : AvatarWorld) : (a : Action) → a.Res × AvatarWorld
  | .collect op => ((answer (siteOf s.server.dedupe [] store) op).1, leftBy s op)
  | .file op =>
    let r := answerFile tmpA s.server.dedupe op
    (r.1, { s with server.dedupe := r.2 })
  | .avatar op => answerAvatar true s op

abbrev JobTurn := Tracked.Turn Job (Keyed (Prod.fst : ObjKey × ℕ → ObjKey))

/-- The pool after some turns. -/
def after (p : JobPool) (turns : List JobTurn) : JobPool :=
  turns.foldl (Tracked.turn track (Job.code .plain sampleSha256) answerAction) p

variable {cond : AvatarWorld → Holdings → Action → Prop} {s : AvatarWorld} {p : JobPool} {i : Job}
  {g : Holdings} {store : Keyed (Prod.fst : ObjKey × ℕ → ObjKey)}

theorem Interleaved.spawn (hp : Interleaved cond .plain sampleSha256 emptySite p) (i : Job) :
    Interleaved cond .plain sampleSha256 emptySite (after p [.spawn i]) :=
  hp.tail (.spawn p.shared p.threads i)

/-- An upload at place `n` performs its next operation. -/
theorem Interleaved.upload (hp : Interleaved cond .plain sampleSha256 emptySite p) (n : ℕ) (op : FileOp)
    {k : op.Res → Prog Action Action.Res Unit} (hget : p.threads[n]? = some ((i, g), .call (.file op) k))
    (hdraws : op.Draws p.shared.server.dedupe tmpA)
    (hcond : Awaited p.shared (g + Tracked.total (p.threads.eraseIdx n)) (.file op) ∧
      cond p.shared (g + Tracked.total (p.threads.eraseIdx n)) (.file op)) :
    Interleaved cond .plain sampleSha256 emptySite (after p [.act n .empty]) :=
  hp.tail (Tracked.act_step hget hcond ⟨_, ⟨tmpA, hdraws, .inl rfl⟩, rfl⟩)

/-- What a collection finds, if nobody has an avatar. -/
theorem shows_siteOf (hstore : Lists store s.server.dedupe) (havatars : s.avatarKey = fun _ => none) :
    Shows s (siteOf s.server.dedupe [] store) := by
  refine ⟨rfl, rfl, fun key => ?_, fun key => (hstore key).trans ?_⟩
  · simp [siteOf, havatars]
  · constructor
    · rintro ⟨h, hstored⟩
      exact ⟨⟨key, h⟩, Option.isSome_iff_ne_none.2 hstored, rfl⟩
    · rintro ⟨object, hstored, rfl⟩
      exact ⟨object.property, Option.isSome_iff_ne_none.1 hstored⟩

/-- A collection at place `n` performs its next operation. -/
theorem Interleaved.collect (hp : Interleaved cond .plain sampleSha256 emptySite p) (n : ℕ) (op : Op)
    {k : op.Res → Prog Action Action.Res Unit} (hget : p.threads[n]? = some ((i, g), .call (.collect op) k))
    (hstore : Lists store p.shared.server.dedupe) (havatars : p.shared.avatarKey = fun _ => none)
    (hcond : Awaited p.shared (g + Tracked.total (p.threads.eraseIdx n)) (.collect op) ∧
      cond p.shared (g + Tracked.total (p.threads.eraseIdx n)) (.collect op)) :
    Interleaved cond .plain sampleSha256 emptySite (after p [.act n store]) :=
  hp.tail (Tracked.act_step hget hcond ⟨⟨_, shows_siteOf hstore havatars, rfl⟩, rfl⟩)

/-- A row is not locked. -/
theorem awaited_of_unlocked {key : ObjKey} {t : Holdings} (h : ∀ h' ∈ t, h'.locksRow key = false) :
    Awaited s t (.collect (.lockObject key)) := fun lock hmem => by
  simpa [Holding.locksRow] using h _ hmem

/-! ### A temporary file is collected -/

/-- An upload has inserted its row, and written its bytes to a temporary file. -/
def begun : JobPool :=
  after ⟨emptySite, []⟩ (.spawn (.upload (sampleUpload coreA)) :: List.replicate 3 (.act 0 .empty))

/-- A collection has found the temporary file, and has deleted it. -/
def tempGone : JobPool := after begun (.spawn .collection :: List.replicate 7 (.act 0 (storeOf tmpA 1)))

theorem interleaved_begun : Interleaved (fun _ _ _ => True) .plain sampleSha256 emptySite begun := by
  have hstart : Interleaved (fun _ _ _ => True) .plain sampleSha256 emptySite ⟨emptySite, []⟩ := .refl
  have hspawn := hstart.spawn (.upload (sampleUpload coreA))
  have hclaim := hspawn.upload 0 (.db (.claimCore coreA)) rfl trivial ⟨trivial, trivial⟩
  have hinsert := hclaim.upload 0 (.db (.insertObject (sampleSha256 [7]) keyA 1 _)) rfl trivial
    ⟨fun _ h => absurd h List.not_mem_nil, trivial⟩
  exact hinsert.upload 0 (.create keyA [7]) rfl ⟨tempName_tmpA, rfl⟩ ⟨trivial, trivial⟩

theorem interleaved_tempGone : Interleaved (fun _ _ _ => True) .plain sampleSha256 emptySite tempGone := by
  have hlists : Lists (storeOf tmpA 1) begun.shared.server.dedupe := lists_storeOf rfl 1
  have hspawn := interleaved_begun.spawn .collection
  have hinventory := hspawn.collect 0 .inventory rfl hlists rfl ⟨trivial, trivial⟩
  have hobjects := hinventory.collect 0 .objects rfl hlists rfl ⟨trivial, trivial⟩
  have havatars := hobjects.collect 0 .avatarKeys rfl hlists rfl ⟨trivial, trivial⟩
  have hfiles := havatars.collect 0 .fileKeys rfl hlists rfl ⟨trivial, trivial⟩
  have hlock := hfiles.collect 0 (.lockObject tmpA.val) rfl hlists rfl ⟨awaited_of_unlocked (by decide), trivial⟩
  have hreferenced := hlock.collect 0 (.isReferenced tmpA.val) rfl hlists rfl ⟨trivial, trivial⟩
  exact hreferenced.collect 0 (.delete tmpA) rfl hlists rfl ⟨trivial, trivial⟩

/-- **A collection deletes the temporary file of an upload**, which then fails: the file cannot be renamed. -/
theorem collected_temp : ∃ p : JobPool, InPlace emptySite ∧
    Interleaved (fun _ _ _ => True) .plain sampleSha256 emptySite p ∧
    (p.threads.map fun t => t.1.1) = [.collection, .upload (sampleUpload coreA)] ∧ ¬ Undisturbed p := by
  refine ⟨tempGone, inPlace_emptySite, interleaved_tempGone, rfl, fun h => ?_⟩
  exact h _ (List.mem_cons_of_mem _ (List.mem_singleton_self _)) (.file (.rename tmpA keyA)) _ rfl trivial
    (.error (.storage (.backend "No such file or directory (os error 2)"))) tempGone.shared
    ⟨_, ⟨tmpA, trivial, .inl rfl⟩, rfl⟩ ⟨_, rfl, fun heq => by cases heq⟩

/-! ### A collection begins before an upload, and ends after it -/

/-- The collection lists an empty store. -/
def listed : JobPool := after ⟨emptySite, []⟩ [.spawn .collection, .act 0 .empty]

def uploaded : JobPool := after listed (.spawn (.upload (sampleUpload coreA)) :: List.replicate 5 (.act 0 .empty))

def allDone : JobPool := after uploaded (List.replicate 4 (.act 1 (storeOf keyA 1)))

theorem interleaved_uploaded : Interleaved Spares .plain sampleSha256 emptySite uploaded := by
  have hstart : Interleaved Spares .plain sampleSha256 emptySite ⟨emptySite, []⟩ := .refl
  have hlisted := (hstart.spawn .collection).collect 0 .inventory rfl (lists_empty rfl) rfl ⟨trivial, trivial⟩
  have hspawn := hlisted.spawn (.upload (sampleUpload coreA))
  have hclaim := hspawn.upload 0 (.db (.claimCore coreA)) rfl trivial ⟨trivial, trivial⟩
  have hinsert := hclaim.upload 0 (.db (.insertObject (sampleSha256 [7]) keyA 1 _)) rfl trivial
    ⟨fun _ h => absurd h List.not_mem_nil, trivial⟩
  have hcreate := hinsert.upload 0 (.create keyA [7]) rfl ⟨tempName_tmpA, rfl⟩ ⟨trivial, trivial⟩
  have hrename := hcreate.upload 0 (.rename tmpA keyA) rfl trivial ⟨trivial, trivial⟩
  exact hrename.upload 0 (.db (.insertFile _)) rfl trivial ⟨trivial, trivial⟩

theorem interleaved_allDone : Interleaved Spares .plain sampleSha256 emptySite allDone := by
  have hlists : Lists (storeOf keyA 1) uploaded.shared.server.dedupe := by
    have hstore : uploaded.shared.server.dedupe.store = Function.update (fun _ => none) keyA (some [7]) := by
      show Function.update (Function.update (Function.update (fun _ => none) tmpA (some [7])) tmpA none) keyA
        (some [7]) = _
      rw [Function.update_idem, Function.update_eq_self_iff.2 rfl]
    exact lists_storeOf hstore 1
  have hobjects := interleaved_uploaded.collect 1 .objects rfl hlists rfl ⟨trivial, trivial⟩
  have havatars := hobjects.collect 1 .avatarKeys rfl hlists rfl ⟨trivial, trivial⟩
  have hfiles := havatars.collect 1 .fileKeys rfl hlists rfl ⟨trivial, trivial⟩
  exact hfiles.collect 1 (.audit 1 1 0) rfl hlists rfl ⟨trivial, trivial⟩

theorem undisturbed_of_spares_allDone : Undisturbed allDone ∧ allDone.shared.Stored keyA := by
  have hquiet : allDone.Quiet := Pool.quiet_of_allReturned (by rfl)
  obtain ⟨hundisturbed, hkeeps⟩ := undisturbed_of_spares .plain sampleSha256 inPlace_emptySite interleaved_allDone
  exact ⟨hundisturbed, (hkeeps hquiet).files ⟨coreA, _, _, _, _, _, _⟩ (List.mem_singleton_self _) List.not_mem_nil⟩

end

end Gc
end Uwuubox
