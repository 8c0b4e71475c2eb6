import Uwuubox.Dedupe.Discipline

/-!
# Removals beside uploads

Uploads and removals share the objects of equal contents.  `release_object` decides on the
refcount that its `UPDATE` returned, and deletes the row by a second statement; between the two
another upload may have taken the object up again.

* `Request`, `serve` — the requests, and what they run.
* `StillZero` — the condition under which a `DELETE FROM objects` is harmless.
* `rules` — the ledger rules of the statements when none fails.
* `backed_of_stillZero` — **in every run whose deletions meet the condition**, in every quiet
  state, each file has its object and its bytes.
* `removal_deletes_shared` — a run in which one does not.
-/

namespace Uwuubox
namespace Dedupe

open Storage Table

/-- What a client asks for. -/
inductive Request where
  | upload (u : Upload)
  | remove (core : Core)

/-- The handler of a request. -/
def serve (sha256 : Bytes → Digest) : Request → Handler Unit
  | .upload u => do
    let _ ← uploadInner sha256 u
    pure ()
  | .remove core => do
    let _ ← removeFile core
    pure ()

/-- Every file has an object for its key, and its bytes are there. -/
def Backed (w : World) : Prop :=
  ∀ file ∈ w.files.rows, HasRow w file.storageKey ∧ w.store file.storageKey ≠ none

/-- A database whose references are counted and whose objects are stored. -/
structure Consistent (w : World) : Prop where
  counted : Counted w 0
  issued : ∀ key, HasRow w key → Issued w.usedIdCores key
  stored : ∀ key, HasRow w key → w.store key ≠ none

theorem consistent_empty : Consistent World.empty where
  counted key hne := absurd rfl hne
  issued key h := by
    obtain ⟨row, hrow, -⟩ := h
    cases hrow
  stored key h := by
    obtain ⟨row, hrow, -⟩ := h
    cases hrow

/-- The books of a consistent database, with no request in progress. -/
theorem Consistent.books {w : World} (h : Consistent w) : Books w 0 where
  counted := h.counted
  once key := by simp
  unspent key hmem := absurd hmem (Multiset.notMem_zero _)
  issued key hor := by
    rcases hor with hmem | hs | hmem | hmem
    · exact absurd hmem (Multiset.notMem_zero _)
    · exact h.issued key hs
    · exact absurd hmem (Multiset.notMem_zero _)
    · exact absurd hmem (Multiset.notMem_zero _)
  gone key hmem := absurd hmem (Multiset.notMem_zero _)

/-- A row is deleted only while nobody counts on it. -/
def StillZero (w : World) : DbOp → Prop
  | .deleteObject key => ∀ row ∈ w.objects.rows, row.storageKey = key → row.refcount = 0
  | _ => True

instance (w : World) (op : DbOp) : Decidable (StillZero w op) :=
  match op with
  | .deleteObject key =>
    inferInstanceAs (Decidable (∀ row ∈ w.objects.rows, row.storageKey = key → row.refcount = 0))
  | .claimCore _ | .insertObject _ _ _ _ | .bumpObject _ | .dropObject _ | .insertFile _
  | .deleteFile _ | .put _ _ | .delete _ => .isTrue trivial

/-! ## The rules -/

/-- The books, and the bytes: what is not stored somebody has yet to store. -/
structure Kept (w : World) (g : Share) : Prop where
  books : Books w g
  stored : ∀ key, HasRow w key → w.store key ≠ none ∨ ∃ sha, .held key (.fresh sha) ∈ g

section

variable {w w' : World} {g f : Share} {key : SafeKey} {grip : Grip}

/-- What a request still has to store is not among what others own and it does not. -/
theorem mem_of_clean {t : Token} (hg : Clean g) {sha : Digest} (ht : t = .held key (.fresh sha))
    (hmem : t ∈ g + f) : t ∈ f := by
  rcases Multiset.mem_add.1 hmem with hmem | hmem
  · exact absurd (ht ▸ hmem) (hg key sha)
  · exact hmem

/-- A share that has nothing to store may be thrown away. -/
theorem Kept.drop (h : Kept w (g + f)) (hg : Clean g) : Kept w (0 + f) where
  books := by
    rw [zero_add]
    exact h.books.drop
  stored key hrow := by
    rcases h.stored key hrow with hs | ⟨sha, hmem⟩
    · exact .inl hs
    · exact .inr ⟨sha, Multiset.mem_add.2 (.inr (mem_of_clean hg rfl hmem))⟩

/-- The books change, no key gets a row, and what is stored stays. -/
theorem Kept.step {g' : Share} (h : Kept w (g + f)) (hg : Clean g) (hbooks : Books w' (g' + f))
    (hrows : ∀ key, HasRow w' key → HasRow w key)
    (hstore : ∀ key, HasRow w' key → w.store key ≠ none → w'.store key ≠ none) :
    Kept w' (g' + f) where
  books := hbooks
  stored key hrow := by
    rcases h.stored key (hrows key hrow) with hs | ⟨sha, hmem⟩
    · exact .inl (hstore key hrow hs)
    · exact .inr ⟨sha, Multiset.mem_add.2 (.inr (mem_of_clean hg rfl hmem))⟩

theorem clean_held (hgrip : grip.NotFresh) : Clean {.held key grip} := by
  intro key' sha hmem
  cases Multiset.mem_singleton.1 hmem
  exact hgrip sha rfl

theorem clean_spent : Clean {.spent key} := by
  intro key' sha hmem
  cases Multiset.mem_singleton.1 hmem

theorem clean_dead : Clean {.dead key} := by
  intro key' sha hmem
  cases Multiset.mem_singleton.1 hmem

end

/-- **The rules of the statements**, none of which fails. -/
theorem rules (sha256 : Bytes → Digest) :
    Discipline Kept (guarded StillZero (exec False)) sha256 (fun _ => True)
      (fun _ grip => grip.NotFresh) where
  notFresh h := h
  claimCore core ext := by
    rintro w r w' f h ⟨-, hex⟩
    rcases exec_claimCore hex with ⟨rfl, hnew, rfl⟩ | ⟨hr, rfl⟩
    · rw [zero_add] at h
      refine ⟨_, ⟨h.books.claimCore hnew ext, fun key hrow => ?_⟩, rfl⟩
      rcases h.stored key hrow with hs | ⟨sha, hmem⟩
      · exact .inl hs
      · exact .inr ⟨sha, Multiset.mem_add.2 (.inr hmem)⟩
    · refine ⟨0, h, ?_⟩
      match r, hr with
      | .error e, _ => exact rfl
      | .ok false, _ => exact rfl
  insertObject sha key size mime := by
    rintro w r w' f h ⟨-, hex⟩
    rcases exec_insertObject hex with ⟨hsha, hkey, rfl, rfl⟩ | ⟨rfl, rfl⟩ | ⟨e, rfl, rfl⟩
    · refine ⟨_, ⟨h.books.insertObject hsha hkey rfl (.fresh sha), ?_⟩, rfl⟩
      rintro key' ⟨row, hrow, rfl⟩
      rcases List.mem_cons.1 hrow with rfl | hrow
      · exact .inr ⟨sha, Multiset.mem_add.2 (.inl (Multiset.mem_singleton_self _))⟩
      · rcases h.stored _ ⟨row, hrow, rfl⟩ with hs | ⟨sha', hmem⟩
        · exact .inl hs
        · exact .inr ⟨sha', Multiset.mem_add.2 (.inr (mem_of_clean (clean_cand key) rfl hmem))⟩
    · exact ⟨0, h.drop (clean_cand key), rfl⟩
    · exact ⟨0, h.drop (clean_cand key), rfl⟩
  bumpObject sha := by
    rintro w r w' f h ⟨-, hex⟩
    rcases exec_bumpObject hex with ⟨row, hrow, rfl, rfl, rfl⟩ | ⟨e, rfl, rfl⟩
    · have hbooks := h.books
      rw [zero_add] at hbooks
      refine ⟨_, h.step clean_zero (hbooks.bumpObject hrow .bare)
        (fun key hs => hasRow_setRefcount.1 hs) (fun _ _ hs => hs), .bare, ?_, rfl⟩
      intro sha h
      cases h
    · exact ⟨0, h, rfl⟩
  dropObject key grip hgrip := by
    rintro w r w' f h ⟨-, hex⟩
    rcases exec_dropObject hex with ⟨row, hrow, hkey, hpos, rfl, rfl⟩ | ⟨hr, rfl⟩
    · have hspent : Kept _ ({.spent key} + f) := h.step (clean_held hgrip) h.books.dropObject
        (fun key hs => hasRow_setRefcount.1 hs) (fun _ _ hs => hs)
      cases hcount : row.refcount - 1 with
      | zero => exact ⟨_, hspent, rfl⟩
      | succ n => exact ⟨0, hspent.drop clean_spent, rfl⟩
    · refine ⟨0, h.drop (clean_held hgrip), ?_⟩
      match r, hr with
      | .error e, _ => exact rfl
      | .ok none, _ => exact rfl
      | .ok (some n), hr => exact absurd rfl (hr n)
  deleteObject key := by
    rintro w r w' f h ⟨hzero, hex⟩
    rcases exec_deleteObject hex with ⟨rfl, rfl⟩ | ⟨e, rfl, rfl⟩
    · exact ⟨_, h.step clean_spent (h.books.deleteObject hzero)
        (fun key' hs => (hasRow_delete.1 hs).1) (fun _ _ hs => hs), rfl⟩
    · exact ⟨0, h.drop clean_spent, rfl⟩
  delete key := by
    rintro w r w' f h ⟨-, hex⟩
    have hsame := exec_delete hex
    have hrow : ∀ key', HasRow w' key' → HasRow w key' := by
      intro key' hs
      unfold HasRow at hs ⊢
      rwa [hsame.objects] at hs
    have hnone := h.books.gone key (Multiset.mem_add.2 (.inl (Multiset.mem_singleton_self _)))
    refine ⟨0, (h.step clean_dead (h.books.sameBut hsame) hrow ?_).drop clean_dead, rfl⟩
    intro key' hs hstore
    rw [hsame.store key']
    · exact hstore
    · rintro rfl
      exact hnone (hrow key' hs)
  put key bytes _ := by
    rintro w r w' f h ⟨-, hex⟩
    obtain ⟨hsame, ⟨rfl, hput⟩ | ⟨hf, -⟩⟩ := exec_put hex
    · refine ⟨_, ⟨(h.books.sameBut hsame).regrip .bare, ?_⟩, .bare, ?_, rfl⟩
      · intro key' hs
        by_cases heq : key' = key
        · subst heq
          exact .inl (by rw [hput]; simp)
        · unfold HasRow at hs
          rw [hsame.objects] at hs
          rcases h.stored key' hs with hstore | ⟨sha, hmem⟩
          · exact .inl (by rwa [hsame.store key' heq])
          · rcases Multiset.mem_add.1 hmem with hmem | hmem
            · cases Multiset.mem_singleton.1 hmem
              exact absurd rfl heq
            · exact .inr ⟨sha, Multiset.mem_add.2 (.inr hmem)⟩
      · intro sha h
        cases h
    · exact hf.elim
  insertFile row grip thumb hgrip hthumb := by
    rintro w r w' f h ⟨-, hex⟩
    rcases exec_insertFile hex with ⟨hcore, rfl, rfl⟩ | ⟨e, rfl, rfl⟩
    · exact ⟨_, h.step ((clean_held hgrip).add hthumb.clean)
        (h.books.insertFile (fun key => (hthumb.heldCount grip key).ge) hcore)
        (fun _ hs => hs) (fun _ _ hs => hs), rfl⟩
    · exact ⟨_, h, rfl⟩

/-- A removal takes over the references of the row. -/
theorem rule_deleteFile (core : Core) :
    (Prog.perform (DbOp.deleteFile core)).Owns Kept (guarded StillZero (exec False))
      (fun r g => match r with
        | .ok (some (key, thumbKey)) => ∃ thumb, ThumbShare thumbKey thumb ∧
            g = {.held key .bare} + thumb
        | _ => g = 0) 0 := by
  rintro w r w' f h ⟨-, hex⟩
  rcases exec_deleteFile hex with ⟨row, hrow, rfl, rfl, rfl⟩ | ⟨hr, rfl⟩
  · have hbare : Grip.NotFresh .bare := by
      intro sha h
      cases h
    obtain ⟨thumb, hthumb, hplain⟩ : ∃ thumb, ThumbShare row.thumbKey thumb ∧
        ∀ t ∈ thumb, ∃ key, t.isHeld key = true := by
      cases row.thumbKey with
      | none => exact ⟨0, rfl, fun t ht => absurd ht (Multiset.notMem_zero _)⟩
      | some key =>
        refine ⟨{.held key .bare}, ⟨.bare, hbare, rfl⟩, fun t ht => ⟨key, ?_⟩⟩
        rw [Multiset.mem_singleton.1 ht]
        exact decide_eq_true rfl
    have hbooks := h.books
    rw [zero_add] at hbooks
    refine ⟨_, h.step clean_zero (hbooks.deleteFile hrow
      (fun key => (hthumb.heldCount .bare key).le) ?_) (fun _ hs => hs) (fun _ _ hs => hs),
      thumb, hthumb, rfl⟩
    intro t ht
    rcases Multiset.mem_add.1 ht with ht | ht
    · rw [Multiset.mem_singleton.1 ht]
      exact ⟨row.storageKey, decide_eq_true rfl⟩
    · exact hplain t ht
  · refine ⟨0, h, ?_⟩
    match r, hr with
    | .error e, _ => exact rfl
    | .ok none, _ => exact rfl
    | .ok (some keys), hr => exact absurd rfl (hr keys)

/-! ## Every run -/

/-- **A quiet database is consistent**, if no row was deleted that somebody counted on. -/
theorem consistent_of_stillZero (sha256 : Bytes → Digest) {w₀ : World} (hw₀ : Consistent w₀)
    {p : Pool World Request DbOp DbOp.Res Unit}
    (hp : Pool.Reachable (serve sha256) (guarded StillZero (exec False)) False w₀ p)
    (hquiet : p.Quiet) : Consistent p.shared := by
  have hstart : Kept w₀ 0 := ⟨hw₀.books, fun key hrow => .inl (hw₀.stored key hrow)⟩
  have hcode : ∀ i, (serve sha256 i).Owns Kept (guarded StillZero (exec False))
      (fun _ g => Clean g) 0 := by
    intro i
    cases i with
    | upload u =>
      unfold serve
      rw [Prog.owns_bind]
      apply ((rules sha256).uploadInner u fun _ _ => trivial).mono
      intro r g hg
      cases r with
      | error e => exact hg
      | ok core => exact hg.2
    | remove core =>
      unfold serve
      rw [Prog.owns_bind]
      exact (rules sha256).removeFile core (rule_deleteFile core)
  obtain ⟨gs, hgs⟩ := Pool.ledger hstart hcode (fun hstop => hstop.elim) hp
  have hclean : Clean gs.sum :=
    hgs.quiet hquiet clean_zero (fun _ _ hg hf => hg.add hf) fun _ _ _ _ hg => hg
  have hkept : Kept p.shared gs.sum := hgs.2
  have hzero : Books p.shared 0 := hkept.books.mono (Multiset.zero_le _)
  refine ⟨hzero.counted, fun key hrow => hzero.issued key (.inr (.inl hrow)), fun key hrow => ?_⟩
  rcases hkept.stored key hrow with hs | ⟨sha, hmem⟩
  · exact hs
  · exact absurd hmem (hclean key sha)

/-- In a consistent database every file has its object. -/
theorem Consistent.backed {w : World} (h : Consistent w) : Backed w := by
  intro file hfile
  obtain ⟨row, hrow, hkey, -⟩ := h.counted _ (refs_ne_zero_of_file hfile)
  exact ⟨⟨row, hrow, hkey⟩, h.stored _ ⟨row, hrow, hkey⟩⟩

/-- **Removals beside uploads.**  In every run of uploads and removals in which each deletion
of an object row finds its refcount still at zero, whenever no request is in
progress every file has its object and its bytes. -/
theorem backed_of_stillZero (sha256 : Bytes → Digest) {w₀ : World} (hw₀ : Consistent w₀)
    {p : Pool World Request DbOp DbOp.Res Unit}
    (hp : Pool.Reachable (serve sha256) (guarded StillZero (exec False)) False w₀ p)
    (hquiet : p.Quiet) : Backed p.shared :=
  (consistent_of_stillZero sha256 hw₀ hp hquiet).backed

/-! ### Schedules of one file -/

/-- The core of one letter. -/
def repeatedCore (c : Char) (hc : c ∈ alphabet) : Core :=
  ⟨List.replicate idLen c, List.length_replicate, fun _ h => List.eq_of_mem_replicate h ▸ hc⟩

def coreA : Core := repeatedCore 'a' (by decide)

def coreB : Core := repeatedCore 'b' (by decide)

/-- The digest of the byte 7, the only content here. -/
def sampleSha256 : Bytes → Digest := fun _ =>
  ⟨[202, 53, 135, 88, 246, 210, 126, 108, 244, 82, 114, 147, 121, 119, 167, 72,
    253, 136, 57, 29, 182, 121, 206, 218, 125, 199, 191, 31, 0, 94, 232, 121], rfl⟩

theorem oneByte_fits : ([7] : Bytes).length < 2 ^ 63 := by decide

/-- An upload of the byte 7. -/
def sampleUpload (core : Core) : Upload where
  content := ⟨[7], oneByte_fits⟩
  ext := ⟨[], isExt_nil⟩
  sniffed := ['t', 'e', 'x', 't', '/', 'p', 'l', 'a', 'i', 'n']
  burnAfterRead := false
  hasPassword := false
  draws := fun _ => core
  frame := none

/-- The file is uploaded, removed, and uploaded again. -/
def oneAfterAnother : List (Pool.Turn Request Unit) :=
  .spawn (.upload (sampleUpload coreA)) :: List.replicate 4 (.act 0 ()) ++
    .spawn (.remove coreA) :: List.replicate 4 (.act 0 ()) ++
    .spawn (.upload (sampleUpload coreB)) :: List.replicate 4 (.act 0 ())

theorem backed_of_stillZero_oneAfterAnother :
    Backed (Pool.play (serve sampleSha256) (fun _ w op => answer w op) World.empty
      oneAfterAnother).shared := by
  exact backed_of_stillZero sampleSha256 consistent_empty
    (@Pool.reachable_play _ _ _ _ _ (serve sampleSha256) _ False Unit (fun _ w op => answer w op)
      (fun w op => decide (StillZero w op))
      (fun _ w op hok => ⟨of_decide_eq_true hok, exec_answer False w op⟩) World.empty
      oneAfterAnother (by rfl)) (Pool.quiet_of_allReturned (by rfl))

/-! ## A removal that takes a shared object -/

/-- The file is uploaded and removed; between the two statements of the release it is
uploaded again. -/
def removalRace : List (Pool.Turn Request Unit) :=
  [.spawn (.upload (sampleUpload coreA)), .act 0 (), .act 0 (), .act 0 (), .act 0 (),
    -- the removal deletes the row and sees the refcount go to zero
    .spawn (.remove coreA), .act 0 (), .act 0 (),
    -- the second upload finds the object and takes it up again
    .spawn (.upload (sampleUpload coreB)), .act 0 (), .act 0 (), .act 0 (),
    -- the removal goes on
    .act 1 (), .act 1 (),
    -- the second upload inserts its row
    .act 0 ()]

/-- The run ends quietly, with a file that has neither object nor bytes. -/
theorem removal_deletes_shared : ∃ p : Pool World Request DbOp DbOp.Res Unit,
    Pool.Reachable (serve sampleSha256) (exec False) False World.empty p ∧ p.Quiet ∧
    ¬ Backed p.shared := by
  refine ⟨Pool.play (serve sampleSha256) (fun _ w op => answer w op) World.empty removalRace,
    @Pool.reachable_play _ _ _ _ _ (serve sampleSha256) _ False Unit (fun _ w op => answer w op)
      (fun _ _ => true) (fun _ w op _ => exec_answer False w op) World.empty removalRace (by rfl),
    Pool.quiet_of_allReturned (by rfl), fun h => ?_⟩
  have hfiles : (Pool.play (serve sampleSha256) (fun _ w op => answer w op) World.empty
      removalRace).shared.files.rows = [uploadRow sampleSha256 (sampleUpload coreB) coreB
        (fileKey coreA ⟨[], rfl⟩) none] := rfl
  exact (h _ (hfiles ▸ List.mem_singleton_self _)).2 rfl

end Dedupe
end Uwuubox
