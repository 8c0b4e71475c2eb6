import Uwuubox.Gc.Guarded

/-!
# What collections and uploads do

Every operation keeps the invariant of `Guarded` if it is one that the request may perform, and every request performs
only such operations as long as they are answered as expected.

* `May`, `Expected` — what a request performs, given what it has begun, and what it is answered.
* `Guarded.step` — **one step**, from one lemma for each kind of request.
* `Locked`, `Idle` — a collection inside a transaction and between two; `obeys_run_alongside` — it keeps to `May`.
* `Acquired`, `Keeps` — an upload of a file that has an object; `obeys_uploadInner`.
* `Asks`, `Own` — an upload of an avatar before it stores anything; `obeys_uploadAvatar`.
* `obeys_code` — **every request** keeps to `May`, and leaves nothing undone when it returns.
-/

namespace Uwuubox
namespace Gc

open Dedupe Storage Table Fallible Server
open Dedupe.Backfill (Named)

/-! ## What each of them performs -/

/-- What a collection performs. -/
def MayCollect (g : Holdings) : Op → Prop
  | .delete key => .vacant key.val ∈ g ∨ .locks key.val (.counted 0) ∈ g
  | .deleteZeroRef key => ∃ lock, .locks key lock ∈ g ∧ lock.refcount = 0
  | .rollback key | .commit key false => .locks key .bare ∉ g ∧ .locks key .dying ∉ g
  | .commit key true => .locks key .dying ∈ g
  | _ => True

/-- What an upload of a file performs. -/
def MayUpload (g : Holdings) : FileOp → Prop
  | .db (.claimCore _) => True
  | .db (.insertObject _ key _ _) => Named key ∧ ∃ slot : Slot, .free slot ∈ g ∧ slot.Holds key.val
  | .db (.bumpObject sha256) => .found sha256 ∈ g
  | .db (.insertFile row) => .free (.row row.idCore) ∈ g ∧ .held row.storageKey ∈ g
  | .create key _ => Named key
  | .rename tmp key => .temp tmp ∈ g ∧ .fresh key ∈ g
  | _ => False

/-- What an upload of an avatar asks for before it stores anything. -/
def asks : Server.Op → Bool
  | .session _ | .findUserById _ | .tokenIdentity _ | .touchToken _ | .instanceConfig | .findRole _ => true
  | _ => false

/-- What an upload of an avatar performs. -/
def MayPut (g : Holdings) : AvatarOp → Prop
  | .server op => asks op = true
  | .file (.create key _) => IsAvatarKey key
  | .file (.rename tmp key) => .temp tmp ∈ g ∧ IsAvatarKey key
  | .delete key => IsAvatarKey key
  | .setAvatarKey id key => .put key ∈ g ∧ AvatarOf id key ∧ ∀ old, .deleted old ∈ g → AvatarOf id old
  | _ => False

def May (g : Holdings) : Action → Prop
  | .collect op => MayCollect g op
  | .file op => MayUpload g op
  | .avatar op => MayPut g op

/-- What the operations return: an upload is not disturbed, and the avatar that it reads is one of its user. -/
def Expected : (a : Action) → a.Res → Prop
  | .file (.db (.insertObject _ key _ _)), r => r = .ok none ∨ r = .ok (some key)
  | .file (.db (.bumpObject _)), r => ∀ e, r = .error e → e = .sql .outOfRange
  | .file (.db _), r => ∃ v, r = .ok v
  | .file (.create _ _), r => r.2 = .ok ()
  | .file (.rename _ _), r => r = .ok ()
  | .avatar (.server _), r => (∃ v, r.1 = .ok v) ∧ ∀ id key, r.2 id = some key → AvatarOf id key
  | .avatar (.file (.create _ _)), r => r.2 = .ok ()
  | .avatar (.file (.rename _ _)), r => r = .ok ()
  | .avatar (.delete _), r => r = .ok ()
  | .avatar (.setAvatarKey _ _), r => r = .ok ()
  | _, _ => True

/-! ## One step -/

section

variable {files : List FileRow} {s s' : AvatarWorld} {d : Dedupe.World} {column : Uuid → Option SafeKey}
  {t g f : Holdings}

theorem answer_asks (w : Server.World) {op : Server.Op} (h : asks op = true) :
    ∃ v, Server.answer w op = (.ok v, w) := by
  cases op with
  | session | findUserById | tokenIdentity | touchToken | instanceConfig | findRole => exact ⟨_, rfl⟩
  | _ => cases h

theorem exec_sound {w w' : Dedupe.World} {op : DbOp} {r : op.Res} (h : execFile False w (.db op) r w') :
    (r, w') = Dedupe.answer w op := (execFile_db.1 h).resolve_right fun h => h.1

/-- **One statement of an upload.** -/
theorem Guarded.step_db (h : Guarded files s.server.dedupe s.avatarKey (g + f)) {op : DbOp} {r : op.Res}
    (hmay : MayUpload g (.db op)) (hawaited : Awaited s (g + f) (.file (.db op)))
    (hexec : execFile False s.server.dedupe (.db op) r d) :
    Expected (.file (.db op)) r ∧ Guarded files d s.avatarKey (trackFile g (.db op) r + f) := by
  replace hexec := exec_sound hexec
  cases op with
  | claimCore core =>
    simp only [Dedupe.answer] at hexec
    split at hexec
    · cases hexec
      exact ⟨⟨_, rfl⟩, h⟩
    · rename_i hcore
      cases hexec
      refine ⟨⟨_, rfl⟩, ?_⟩
      simp only [trackFile, Multiset.cons_add]
      exact h.claimCore hcore
  | insertObject sha256 key size mime =>
    obtain ⟨hnamed, slot, hfree, hholds⟩ := hmay
    simp only [Dedupe.answer] at hexec
    split at hexec
    · rename_i hsha
      have hkey : ∀ row ∈ s.server.dedupe.objects.rows, row.storageKey ≠ key := by
        rintro row hrow rfl
        refine (h.means _ (Multiset.mem_add.2 (.inl hfree))).2 (.inr ⟨_, hholds, .inr (.inl ⟨row, hrow, rfl⟩)⟩)
      rw [dif_pos hkey] at hexec
      cases hexec
      exact ⟨.inr rfl, h.insertObject hnamed hfree hholds rfl hsha hkey⟩
    · rename_i hsha
      cases hexec
      refine ⟨.inl rfl, ?_⟩
      obtain ⟨row, hrow, rfl⟩ : ∃ row ∈ s.server.dedupe.objects.rows, row.sha256 = sha256 := by
        by_contra hnone
        exact hsha fun row hrow heq => hnone ⟨row, hrow, heq⟩
      simp only [trackFile, Multiset.cons_add]
      exact h.gain (h.sole.add rfl) (by simp) ⟨row, hrow, rfl⟩
  | bumpObject sha256 =>
    obtain ⟨row, hrow, hsha⟩ := h.means _ (Multiset.mem_add.2 (.inl hmay))
    have hdrop := h.forget (.found sha256) rfl
    simp only [Dedupe.answer, s.server.dedupe.objects.uniqueSha.find? hrow hsha] at hexec
    split at hexec
    · cases hexec
      refine ⟨by simp [Expected], ?_⟩
      have hbump := hdrop.bump sha256 fun s hs hsha' lock hmem => hawaited s hs hsha' lock (mem_of_kept hmem)
      simp only [trackFile, Multiset.cons_add]
      refine hbump.gain (hbump.sole.add rfl) (by simp) ?_
      exact ⟨_, mem_updateWhere.2 (.inr ⟨row, hrow, decide_eq_true hsha, rfl⟩), rfl, Nat.succ_pos _⟩
    · cases hexec
      refine ⟨fun e he => ?_, hdrop⟩
      cases he
      rfl
  | insertFile row =>
    obtain ⟨hfree, hheld⟩ := hmay
    obtain ⟨hused, hnot⟩ : row.idCore ∈ s.server.dedupe.usedIdCores ∧
        ¬ Taken s.server.dedupe (g + f) (.row row.idCore) := h.means _ (Multiset.mem_add.2 (.inl hfree))
    have hcore : ∀ file ∈ s.server.dedupe.files.rows, file.idCore ≠ row.idCore := fun file hfile heq =>
      hnot (.inl ⟨file, hfile, congrArg Slot.row heq.symm⟩)
    simp only [Dedupe.answer] at hexec
    rw [dif_pos hcore] at hexec
    cases hexec
    refine ⟨⟨_, rfl⟩, ?_⟩
    have hdrop := h.forget (.free (.row row.idCore)) rfl
    exact hdrop.insertFile hcore hused (h.sole.forgotten hfree rfl) (h.means _ (Multiset.mem_add.2 (.inl hheld)))
  | dropObject | deleteObject | deleteFile | put | delete => exact hmay.elim

/-- **One step of an upload.** -/
theorem Guarded.step_file (h : Guarded files s.server.dedupe s.avatarKey (g + f)) {op : FileOp} {r : op.Res}
    (hmay : MayUpload g op) (hawaited : Awaited s (g + f) (.file op))
    (hexec : execFile False s.server.dedupe op r d) :
    Expected (.file op) r ∧ Guarded files d s.avatarKey (trackFile g op r + f) := by
  cases op with
  | db op => exact h.step_db hmay hawaited hexec
  | create key bytes =>
    obtain ⟨tmp, ⟨hname, hnone⟩, hanswer | hfails⟩ := hexec
    · cases hanswer
      refine ⟨rfl, ?_⟩
      simp only [trackFile, Multiset.cons_add]
      exact h.create (isTemp_of_tempName (.inl hmay) hname) hnone
    · exact hfails.1.elim
  | rename tmp key =>
    obtain ⟨htemp, hfresh⟩ := hmay
    have hstored := (h.means _ (Multiset.mem_add.2 (.inl htemp))).1
    obtain ⟨row, hrow, hkey, -⟩ := h.means _ (Multiset.mem_add.2 (.inl hfresh))
    rcases execFile_rename hexec with ⟨bytes, -, rfl, rfl⟩ | ⟨-, hfails | hnone, -⟩
    · refine ⟨rfl, ?_⟩
      have hrename := h.rename bytes htemp (.inl (.inr (.inl ⟨row, hrow, congrArg Subtype.val hkey⟩)))
      refine hrename.drop (by simp) (fun key' _ => ?_) (fun _ _ _ => .inl (by simp)) fun _ _ _ _ => .inl (by simp)
      by_cases heq : key' = key
      · subst heq
        exact .inr (isSome_update _ _ bytes)
      · exact .inl fun hfresh => heq (Holding.fresh.inj hfresh)
    · exact hfails.elim
    · rw [hnone] at hstored
      cases hstored
  | linkThumb | findFile => exact hmay.elim

/-- Bytes are deleted that no upload is about. -/
theorem Guarded.deleteBytes (h : Guarded files d column t) {key : SafeKey}
    (hrows : ∀ row ∈ d.objects.rows, row.storageKey = key → .locks key.val .bare ∈ t) (htemp : .temp key ∉ t)
    (hput : .put key ∉ t) (hrecorded : ∀ id, column id = some key → .deleted key ∈ t) :
    Guarded files { d with store := Function.update d.store key none } column t := by
  refine h.restore (fun key' hkey' => ?_) fun key' hkey' => ?_
  · by_cases heq : key' = key
    · subst heq
      rw [Function.update_self] at hkey'
      cases hkey'
    · rw [Function.update_of_ne heq] at hkey'
      exact .inl (.inl ⟨key', hkey', rfl⟩)
  · by_cases heq : key' = key
    · subst heq
      exact .inr ⟨fun row hrow hkey => .inr (.inl (hrows row hrow hkey)), htemp, hput, hrecorded⟩
    · rw [Function.update_of_ne heq]
      exact .inl hkey'

/-- **One step of an upload of an avatar.** -/
theorem Guarded.step_avatar (h : Guarded files s.server.dedupe s.avatarKey (g + f)) {op : AvatarOp} {r : op.Res}
    (hmay : MayPut g op) (hspares : Spares s (g + f) (.avatar op)) (hexec : execAvatar .localFs False s op r s') :
    Expected (.avatar op) r ∧ Guarded files s'.server.dedupe s'.avatarKey (trackAvatar g op r + f) := by
  cases op with
  | server op =>
    obtain ⟨server, hexec, hshown, rfl⟩ := hexec
    obtain ⟨v, hanswer⟩ := answer_asks s.server hmay
    have heq := hexec.resolve_right fun hfails => hfails.1
    rw [hanswer] at heq
    obtain ⟨hr, rfl⟩ := Prod.mk.inj heq
    refine ⟨⟨⟨v, hr⟩, fun id key hkey => ?_⟩, h⟩
    rw [hshown] at hkey
    exact (h.recorded id key hkey).1
  | file op =>
    obtain ⟨d, hexec, rfl⟩ := hexec
    cases op with
    | create key bytes =>
      obtain ⟨tmp, ⟨hname, hnone⟩, hanswer | hfails⟩ := hexec
      · cases hanswer
        refine ⟨rfl, ?_⟩
        simp only [trackAvatar, Multiset.cons_add]
        exact h.create (isTemp_of_tempName (.inr hmay) hname) hnone
      · exact hfails.1.elim
    | rename tmp key =>
      obtain ⟨htemp, hkey⟩ := hmay
      have hstored := (h.means _ (Multiset.mem_add.2 (.inl htemp))).1
      rcases execFile_rename hexec with ⟨bytes, -, rfl, rfl⟩ | ⟨-, hfails | hnone, -⟩
      · refine ⟨rfl, ?_⟩
        have hrename := h.rename bytes htemp (.inr (not_holds_of_avatar hkey))
        simp only [trackAvatar, Multiset.cons_add]
        exact hrename.gain (hrename.sole.add rfl) (by simp) ⟨isSome_update _ key bytes, hkey⟩
      · exact hfails.elim
      · rw [hnone] at hstored
        cases hstored
    | db | linkThumb | findFile => exact hmay.elim
  | putObject key bytes => exact hmay.elim
  | delete key =>
    rcases hexec with ⟨rfl, rfl⟩ | ⟨hfails, -⟩
    · refine ⟨rfl, ?_⟩
      have hgain : Guarded files s.server.dedupe s.avatarKey (.deleted key ::ₘ (g + f)) :=
        h.gain (h.sole.add rfl) (by simp) trivial
      simp only [trackAvatar, Multiset.cons_add]
      refine hgain.deleteBytes (fun row hrow hkey => ?_) (fun hmem => ?_) (fun hmem => ?_)
        fun _ _ => Multiset.mem_cons_self _ _
      · exact absurd hmay (hkey ▸ not_avatar_of_named (h.objects row hrow).1)
      · exact (hgain.means _ hmem).2.not_avatar hmay
      · exact hspares ((Multiset.mem_cons.1 hmem).resolve_left (by simp))
    · exact hfails.elim
  | setAvatarKey id key =>
    obtain ⟨hput, howner, hdeleted⟩ := hmay
    rcases hexec with ⟨rfl, rfl⟩ | ⟨hfails, -⟩
    · refine ⟨rfl, ?_⟩
      have hstored := (h.means _ (Multiset.mem_add.2 (.inl hput))).1
      have hrecord := h.record howner hstored
      refine hrecord.drop (fun _ => rfl) (fun _ _ => .inl rfl) (fun _ _ _ => .inl rfl)
        fun id' key' hkey' hmem => .inr ?_
      -- what the upload has deleted was an avatar of its user, who has another one now
      obtain ⟨⟨ext, rfl⟩, -⟩ := hrecord.recorded id' key' hkey'
      obtain ⟨ext', hext⟩ := hdeleted _ hmem
      obtain rfl := avatarKey_id_eq hext
      rw [Function.update_self] at hkey'
      rwa [← Option.some.inj hkey']
    · exact hfails.elim

/-- A transaction ends that has not deleted anything. -/
theorem Guarded.release (h : Guarded files d column (g + f)) {key : ObjKey} (hbare : .locks key .bare ∉ g)
    (hdying : .locks key .dying ∉ g) : Guarded files d column (unlock key g + f) := by
  refine h.drop (fun _ => rfl) (fun _ _ => .inl rfl) (fun key' lock hmem => ?_) fun _ _ _ _ => .inl rfl
  by_cases heq : key' = key
  · subst heq
    refine .inr (.inl ⟨?_, ?_⟩)
    · rintro rfl
      exact hbare hmem
    · rintro rfl
      exact hdying hmem
  · exact .inl (decide_eq_false heq)

/-- **One step of a collection.** -/
theorem Guarded.step_collect (h : Guarded files s.server.dedupe s.avatarKey (g + f)) {op : Op} {r : op.Res}
    (hmay : MayCollect g op) (hawaited : Awaited s (g + f) (.collect op)) (hspares : Spares s (g + f) (.collect op))
    (hexec : execAction s (.collect op) r s') :
    Guarded files s'.server.dedupe s'.avatarKey (trackCollect g op r + f) := by
  obtain ⟨⟨site, hshows, rfl⟩, rfl⟩ := hexec
  cases op with
  | inventory =>
    simp only [answer, trackCollect, add_assoc, leftBy]
    have hlist := h.list (site.reads.inventory.map Prod.fst) fun key hkey => by
      obtain ⟨o, ho, rfl⟩ := List.mem_map.1 hkey
      exact hshows.inventory ho
    rwa [List.map_map] at hlist
  | lockObject key =>
    simp only [answer, leftBy]
    cases hrefcount : site.refcount? key with
    | none =>
      simp only [trackCollect]
      split
      · rename_i hlisted
        rw [Multiset.cons_add]
        refine h.gain (h.sole.add rfl) (by simp) ⟨Multiset.mem_add.2 (.inl hlisted), fun row hrow hkey => ?_⟩
        have hsome := hshows.refcount.2 ⟨row, hrow, hkey, rfl⟩
        rw [hrefcount] at hsome
        cases hsome
      · exact h
    | some n =>
      simp only [trackCollect, Multiset.cons_add]
      refine h.gain (h.sole.cons ?_) (by simp) (hshows.refcount.1 hrefcount)
      rintro _ ⟨⟩ h' hmem htitle
      obtain ⟨lock, rfl⟩ := Holding.title_eq_row.1 htitle
      exact hawaited lock hmem
  | delete key =>
    obtain ⟨htemp, hput, hrecorded⟩ := hspares
    simp only [answer, trackCollect, leftBy]
    split
    · rename_i hlock
      have hbare := h.relock .bare hlock rfl (.inl rfl)
      refine hbare.deleteBytes (fun _ _ _ => ?_) (fun hmem => htemp ?_) (fun hmem => hput ?_)
        fun id hid => absurd hid (hrecorded id)
      · rw [Multiset.cons_add]
        exact Multiset.mem_cons_self _ _
      · rw [Multiset.cons_add] at hmem
        exact mem_of_kept ((Multiset.mem_cons.1 hmem).resolve_left (by simp))
      · rw [Multiset.cons_add] at hmem
        exact mem_of_kept ((Multiset.mem_cons.1 hmem).resolve_left (by simp))
    · rename_i hlock
      have hvacant := h.means _ (Multiset.mem_add.2 (.inl (hmay.resolve_right hlock)))
      exact h.deleteBytes (fun row hrow hkey => absurd (congrArg Subtype.val hkey) (hvacant.2 row hrow)) htemp hput
        fun id hid => absurd hid (hrecorded id)
  | deleteZeroRef key =>
    obtain ⟨lock, hlock, hzero⟩ := hmay
    exact h.relock .dying hlock hzero (.inr rfl)
  | rollback key => exact h.release hmay.1 hmay.2
  | commit key deleted =>
    cases deleted with
    | false => exact h.release hmay.1 hmay.2
    | true =>
      obtain ⟨row, hrow, hkey, hzero⟩ := h.means _ (Multiset.mem_add.2 (.inl hmay))
      refine h.deleteRow h.sole.kept (fun _ => mem_of_kept) (fun _ hmem hp => mem_kept hmem fun _ => hp)
        (fun lock hmem => h.sole.unlocked hmay hmem rfl) (fun row' hrow' hkey' => ?_) hspares
      obtain rfl := s.server.dedupe.objects.uniqueKey.eq hrow' hrow (Subtype.ext (hkey'.trans hkey.symm))
      exact hzero
  | objects | avatarKeys | fileKeys | isReferenced | audit => exact h

/-- **One step.** -/
theorem Guarded.step (h : Guarded files s.server.dedupe s.avatarKey (g + f)) {a : Action} {r : a.Res} (hmay : May g a)
    (hawaited : Awaited s (g + f) a) (hspares : Spares s (g + f) a) (hexec : execAction s a r s') :
    Expected a r ∧ Guarded files s'.server.dedupe s'.avatarKey (track g a r + f) := by
  cases a with
  | collect op => exact ⟨trivial, h.step_collect hmay hawaited hspares hexec⟩
  | file op =>
    obtain ⟨d, hexec, rfl⟩ := hexec
    exact h.step_file hmay hawaited hexec
  | avatar op => exact h.step_avatar hmay hspares hexec

end

/-! ## The programs -/

/-- Nothing is left to do for what is referred to. -/
def Clear (g : Holdings) : Prop := ∀ key, .fresh key ∉ g ∧ .deleted key ∉ g

/-- What each of them performs, as long as the answers are expected. -/
abbrev jobProtocol : Protocol Holdings Action Action.Res := Tracked.protocol track May Expected

section Collection

variable {g : Holdings} {inventory : List (ObjKey × ℕ)}

/-- What a collection performs. -/
abbrev collectProtocol : Protocol Holdings Op Op.Res := Tracked.protocol trackCollect MayCollect fun _ _ => True

/-- An operation of a collection. -/
theorem obeys_collect {op : Op} {fin : op.Val → Holdings → Prop} (hmay : MayCollect g op)
    (h : ∀ v, fin v (trackCollect g op (.ok v))) :
    (ask op).Obeys collectProtocol fin (fun _ _ => True) g := by
  refine (obeys_bind _ _).2 (obeys_perform.2 ⟨hmay, ?_⟩)
  rintro r _ ⟨-, rfl⟩
  match r with
  | .ok v => exact h v
  | .error e => trivial

/-- What has been listed is known, and the row of the key is locked, if it has one. -/
structure Locked (inventory : List (ObjKey × ℕ)) (key : ObjKey) (refcount : Option ℕ) (g : Holdings) : Prop where
  listed : ∀ key, (storedBytes inventory key).isSome → .listed key ∈ g
  only : ∀ key' lock, .locks key' lock ∈ g → key' = key ∧ refcount = some lock.refcount
  lock : ∀ n, refcount = some n → ∃ lock, .locks key lock ∈ g ∧ lock.refcount = n

/-- What has been listed is known, and no row is locked. -/
structure Idle (inventory : List (ObjKey × ℕ)) (g : Holdings) : Prop where
  listed : ∀ key, (storedBytes inventory key).isSome → .listed key ∈ g
  unlocked : ∀ key lock, .locks key lock ∉ g

section

variable {key : ObjKey} {refcount : Option ℕ}

/-- A row is looked up, and locked. -/
theorem Idle.lock (h : Idle inventory g) (key : ObjKey) (refcount : Option ℕ) :
    Locked inventory key refcount (trackCollect g (.lockObject key) (.ok refcount)) ∧
      (refcount = none → (storedBytes inventory key).isSome →
        .vacant key ∈ trackCollect g (.lockObject key) (.ok refcount)) ∧
      ∀ lock, .locks key lock ∈ trackCollect g (.lockObject key) (.ok refcount) → ∃ n, lock = .counted n := by
  cases refcount with
  | none =>
    simp only [trackCollect]
    split
    · refine ⟨⟨fun key' hkey' => Multiset.mem_cons_of_mem (h.listed key' hkey'), fun key' lock hmem => ?_, nofun⟩,
        fun _ _ => Multiset.mem_cons_self _ _, fun lock hmem => ?_⟩
      · exact absurd ((Multiset.mem_cons.1 hmem).resolve_left (by simp)) (h.unlocked key' lock)
      · exact absurd ((Multiset.mem_cons.1 hmem).resolve_left (by simp)) (h.unlocked key lock)
    · rename_i hlisted
      exact ⟨⟨h.listed, fun key' lock hmem => absurd hmem (h.unlocked key' lock), nofun⟩,
        fun _ hstored => absurd (h.listed key hstored) hlisted, fun lock hmem => absurd hmem (h.unlocked key lock)⟩
  | some n =>
    simp only [trackCollect]
    have hlock : ∀ key' lock, .locks key' lock ∈ Holding.locks key (.counted n) ::ₘ g →
        key' = key ∧ lock = .counted n := fun key' lock hmem => by
      rcases Multiset.mem_cons.1 hmem with heq | hmem
      · exact Holding.locks.inj heq
      · exact absurd hmem (h.unlocked key' lock)
    refine ⟨⟨fun key' hkey' => Multiset.mem_cons_of_mem (h.listed key' hkey'), fun key' lock hmem => ?_,
      fun n' hn => ?_⟩,
      nofun, fun lock hmem => ⟨n, (hlock key lock hmem).2⟩⟩
    · obtain ⟨rfl, rfl⟩ := hlock key' lock hmem
      exact ⟨rfl, rfl⟩
    · exact ⟨.counted n, Multiset.mem_cons_self _ _, Option.some.inj hn⟩

/-- A transaction ends. -/
theorem Locked.release (h : Locked inventory key refcount g) : Idle inventory (unlock key g) := by
  refine ⟨fun key' hkey' => Multiset.mem_filter.2 ⟨h.listed key' hkey', rfl⟩, fun key' lock hmem => ?_⟩
  obtain ⟨hmem, hp⟩ := Multiset.mem_filter.1 hmem
  exact of_decide_eq_false hp (h.only key' lock hmem).1

/-- A lock for another one. -/
theorem Locked.relock (h : Locked inventory key (some 0) g) (lock : Lock) (hzero : lock.refcount = 0) :
    Locked inventory key (some 0) (.locks key lock ::ₘ unlock key g) := by
  have hidle := h.release
  refine ⟨fun key' hkey' => Multiset.mem_cons_of_mem (hidle.listed key' hkey'), fun key' lock' hmem => ?_,
    fun n hn => ⟨lock, Multiset.mem_cons_self _ _, hzero.trans (Option.some.inj hn)⟩⟩
  rcases Multiset.mem_cons.1 hmem with heq | hmem
  · obtain ⟨rfl, rfl⟩ := Holding.locks.inj heq
    exact ⟨rfl, congrArg some hzero.symm⟩
  · exact absurd hmem (hidle.unlocked key' lock')

/-- The bytes are deleted, if they are listed. -/
theorem Locked.deleteListed (h : Locked inventory key refcount g) (reclaimed : ℕ)
    (hzero : ∀ n, refcount = some n → n = 0)
    (hvacant : refcount = none → (storedBytes inventory key).isSome → .vacant key ∈ g)
    (hcounted : ∀ lock, .locks key lock ∈ g → ∃ n, lock = .counted n) :
    (deleteListed inventory key reclaimed).Obeys collectProtocol (fun _ => Locked inventory key refcount)
      (fun _ _ => True) g := by
  unfold Gc.deleteListed
  cases hbytes : storedBytes inventory key with
  | none => exact h
  | some bytes =>
    refine (obeys_bind _ _).2 ?_
    unfold deleteBytes
    split
    · refine obeys_collect ?_ fun _ => ?_
      · cases refcount with
        | none => exact .inl (hvacant rfl (by rw [hbytes]; rfl))
        | some n =>
          obtain ⟨lock, hlock, hcount⟩ := h.lock n rfl
          obtain ⟨m, rfl⟩ := hcounted lock hlock
          obtain rfl : m = 0 := hcount.trans (hzero n rfl)
          exact .inr hlock
      · simp only [trackCollect]
        split
        · rename_i hlock
          obtain rfl := (h.only _ _ hlock).2
          exact h.relock .bare rfl
        · exact h
    · trivial

/-- The end of a transaction that deletes. -/
theorem Locked.commit (h : Locked inventory key refcount g) (hzero : ∀ n, refcount = some n → n = 0) :
    (commitDeletion refcount key).Obeys collectProtocol (fun _ => Idle inventory) (fun _ _ => True) g := by
  unfold commitDeletion
  cases refcount with
  | none =>
    refine obeys_collect ⟨fun hmem => ?_, fun hmem => ?_⟩ fun _ => h.release
    · cases (h.only _ _ hmem).2
    · cases (h.only _ _ hmem).2
  | some n =>
    obtain rfl := hzero n rfl
    refine (obeys_bind _ _).2 (obeys_collect (h.lock 0 rfl) fun _ => ?_)
    exact obeys_collect (Multiset.mem_cons_self _ _) fun _ => (h.relock .dying rfl).release

end

/-- **The transaction for one orphan.** -/
theorem obeys_reclaimOne_alongside (orphan : Orphan) (reclaimed : ℕ) (h : Idle inventory g) :
    (reclaimOne inventory orphan reclaimed).Obeys collectProtocol (fun _ => Idle inventory) (fun _ _ => True) g := by
  unfold reclaimOne
  refine (obeys_bind _ _).2 (obeys_collect trivial fun refcount => ?_)
  have hlock := h.lock orphan.key refcount
  refine (obeys_bind _ _).2 (obeys_collect trivial fun referenced => ?_)
  simp only [trackCollect] at hlock ⊢
  generalize trackCollect g (.lockObject orphan.key) (.ok refcount) = g' at hlock ⊢
  obtain ⟨hlocked, hvacant, hcounted⟩ := hlock
  split
  · refine (obeys_bind _ _).2 (obeys_collect ⟨fun hmem => ?_, fun hmem => ?_⟩ fun _ => hlocked.release)
    · obtain ⟨n, hn⟩ := hcounted _ hmem
      cases hn
    · obtain ⟨n, hn⟩ := hcounted _ hmem
      cases hn
  · rename_i hspared
    have hzero : ∀ n, refcount = some n → n = 0 := by
      rintro n rfl
      by_contra hne
      exact hspared (by simp [Nat.pos_of_ne_zero hne])
    refine (obeys_bind _ _).2 ((hlocked.deleteListed reclaimed hzero hvacant hcounted).mono (fun _ _ hlocked => ?_)
      fun _ _ h => h)
    exact (obeys_bind _ _).2 ((hlocked.commit hzero).mono (fun _ _ h => h) fun _ _ h => h)

/-- **The loop over the orphans.** -/
theorem obeys_reclaim_alongside (orphans : List Orphan) (reclaimed : ℕ) (h : Idle inventory g) :
    (reclaim inventory orphans reclaimed).Obeys collectProtocol (fun _ _ => True) (fun _ _ => True) g := by
  induction orphans generalizing g reclaimed with
  | nil => trivial
  | cons orphan rest ih =>
    unfold reclaim
    split
    · exact ih _ h
    · exact (obeys_bind _ _).2 ((obeys_reclaimOne_alongside orphan _ h).mono (fun _ _ h => ih _ h) fun _ _ h => h)

/-- What has been listed is known. -/
theorem idle_inventory (inventory : List (ObjKey × ℕ)) :
    Idle inventory (trackCollect 0 .inventory (.ok inventory)) := by
  simp only [trackCollect, add_zero]
  refine ⟨fun key hkey => ?_, fun key lock hmem => ?_⟩
  · obtain ⟨n, hn⟩ := Option.isSome_iff_exists.1 hkey
    exact List.mem_map.2 ⟨_, mem_of_storedBytes hn, rfl⟩
  · obtain ⟨o, -, ho⟩ := List.mem_map.1 hmem
    cases ho

/-- **A collection.** -/
theorem obeys_run_alongside (dryRun : Bool) :
    (run dryRun).Obeys collectProtocol (fun _ _ => True) (fun _ _ => True) 0 := by
  unfold run inspectSite
  refine (obeys_bind _ _).2 ((obeys_bind _ _).2 (obeys_collect trivial fun inventory => ?_))
  refine (obeys_bind _ _).2 (obeys_collect trivial fun objects => ?_)
  refine (obeys_bind _ _).2 (obeys_collect trivial fun avatarKeys => ?_)
  refine (obeys_bind _ _).2 (obeys_collect trivial fun fileKeys => ?_)
  have hidle := idle_inventory inventory
  cases dryRun with
  | true => trivial
  | false =>
    refine (obeys_bind _ _).2 ((obeys_reclaim_alongside _ 0 hidle).mono (fun _ _ _ => ?_) fun _ _ h => h)
    exact (obeys_bind _ _).2 (obeys_collect trivial fun _ => trivial)

/-- A collection has nothing to do for what is referred to. -/
theorem clear_trackCollect (op : Op) (r : op.Res) (h : Clear g) : Clear (trackCollect g op r) := by
  have hcons : ∀ {g : Holdings} {new : Holding}, Clear g → (∀ key, new ≠ .fresh key ∧ new ≠ .deleted key) →
      Clear (new ::ₘ g) := fun hg hnew key =>
    ⟨fun hmem => (Multiset.mem_cons.1 hmem).elim (fun h => (hnew key).1 h.symm) (hg key).1,
      fun hmem => (Multiset.mem_cons.1 hmem).elim (fun h => (hnew key).2 h.symm) (hg key).2⟩
  have hunlock : ∀ key, Clear (unlock key g) := fun key key' =>
    ⟨fun hmem => (h key').1 (Multiset.mem_filter.1 hmem).1, fun hmem => (h key').2 (Multiset.mem_filter.1 hmem).1⟩
  unfold trackCollect
  split
  · rename_i inventory
    intro key
    simpa using h key
  · split
    · exact hcons h fun _ => ⟨nofun, nofun⟩
    · exact h
  · exact hcons h fun _ => ⟨nofun, nofun⟩
  · split
    · exact hcons (hunlock _) fun _ => ⟨nofun, nofun⟩
    · exact h
  · exact hcons (hunlock _) fun _ => ⟨nofun, nofun⟩
  · exact hunlock _
  · exact hunlock _
  · exact h

end Collection

section Upload

variable {g g' : Holdings} {sha256 : Bytes → Digest}

/-- What an upload of a file performs, with a write to the store as one operation. -/
def uploadProtocol : Protocol Holdings DbOp DbOp.Res where
  may g op := match op with
    | .put key _ => Named key ∧ .fresh key ∈ g
    | op => MayUpload g (.db op)
  next g op r g' := match op, r with
    | .put key _, r => r = .ok () ∧ ∃ tmp, g' = (g.filter (· ≠ .temp tmp)).filter (· ≠ .fresh key)
    | op, r => Expected (.file (.db op)) r ∧ g' = trackFile g (.db op) r

/-- What an upload of a file performs. -/
abbrev fileProtocol : Protocol Holdings FileOp FileOp.Res :=
  Tracked.protocol trackFile MayUpload fun op r => Expected (.file op) r

/-- An operation on the local backend. -/
theorem obeys_carryOut (g : Holdings) (op : DbOp) (hmay : uploadProtocol.may g op) :
    (carryOut .localFs op).Obeys fileProtocol (fun r g' => uploadProtocol.next g op r g') g := by
  cases op with
  | put key bytes =>
    obtain ⟨hnamed, hfresh⟩ := hmay
    refine ⟨hnamed, ?_⟩
    rintro ⟨tmp, created⟩ _ ⟨hcreated, rfl⟩
    obtain rfl : created = .ok () := hcreated
    refine ⟨⟨Multiset.mem_cons_self _ _, Multiset.mem_cons_of_mem hfresh⟩, ?_⟩
    rintro r _ ⟨hr, rfl⟩
    obtain rfl : r = .ok () := hr
    refine ⟨rfl, tmp, ?_⟩
    simp only [trackFile]
    rw [Multiset.filter_cons_of_neg (p := (· ≠ Holding.temp tmp)) g (not_not_intro rfl)]
  | _ => exact ⟨hmay, fun r g' hnext => hnext⟩

/-- What an upload keeps while it writes at a key: its references, and its other slots. -/
structure Keeps (key : SafeKey) (g g' : Holdings) : Prop where
  held : ∀ key', .held key' ∈ g → .held key' ∈ g'
  free : ∀ slot : Slot, .free slot ∈ g → ¬ slot.Holds key.val → .free slot ∈ g'

theorem Keeps.refl (key : SafeKey) (g : Holdings) : Keeps key g g := ⟨fun _ h => h, fun _ h _ => h⟩

theorem Keeps.trans {key : SafeKey} {g'' : Holdings} (h : Keeps key g g') (h' : Keeps key g' g'') : Keeps key g g'' :=
  ⟨fun key' hmem => h'.held key' (h.held key' hmem), fun slot hmem hnot => h'.free slot (h.free slot hmem hnot) hnot⟩

/-- An object has been acquired. -/
structure Acquired (key : SafeKey) (isNew : Bool) (g : Holdings) : Prop where
  held : .held key ∈ g
  fresh : ∀ key', .fresh key' ∈ g ↔ isNew = true ∧ key' = key
  deleted : ∀ key', .deleted key' ∉ g

theorem Acquired.clear {key : SafeKey} (h : Acquired key false g) : Clear g := fun key' =>
  ⟨fun hmem => Bool.false_ne_true ((h.fresh key').1 hmem).1, h.deleted key'⟩

theorem obeys_acquireObject {key : SafeKey} {slot : Slot} {size : ℕ} {mime : Text} (sha : Digest) (hclear : Clear g)
    (hnamed : Named key) (hfree : .free slot ∈ g) (hholds : slot.Holds key.val) :
    (acquireObject sha key size mime).Obeys uploadProtocol (fun r g' => Keeps key g g' ∧ match r with
      | .ok (key', isNew) => Acquired key' isNew g' ∧ (isNew = true → key' = key)
      | .error _ => Clear g') g := by
  refine ⟨⟨hnamed, slot, hfree, hholds⟩, ?_⟩
  rintro r _ ⟨hr, rfl⟩
  rcases hr with rfl | rfl
  · refine ⟨Multiset.mem_cons_self _ _, ?_⟩
    rintro r _ ⟨-, rfl⟩
    have hkeeps : Keeps key g ((.found sha ::ₘ g).filter (· ≠ .found sha)) :=
      ⟨fun key' hmem => Multiset.mem_filter.2 ⟨Multiset.mem_cons_of_mem hmem, nofun⟩,
        fun slot hmem _ => Multiset.mem_filter.2 ⟨Multiset.mem_cons_of_mem hmem, nofun⟩⟩
    have hkept : Clear ((.found sha ::ₘ g).filter (· ≠ .found sha)) := fun key' =>
      ⟨fun hmem => (hclear key').1 ((Multiset.mem_cons.1 (Multiset.mem_filter.1 hmem).1).resolve_left (by simp)),
        fun hmem => (hclear key').2 ((Multiset.mem_cons.1 (Multiset.mem_filter.1 hmem).1).resolve_left (by simp))⟩
    match r with
    | .error e => exact ⟨hkeeps, hkept⟩
    | .ok key' =>
      refine ⟨⟨fun key'' hmem => Multiset.mem_cons_of_mem (hkeeps.held key'' hmem),
        fun slot hmem hnot => Multiset.mem_cons_of_mem (hkeeps.free slot hmem hnot)⟩,
        ⟨Multiset.mem_cons_self _ _, fun key'' => ?_, fun key'' hmem => ?_⟩, nofun⟩
      · refine iff_of_false (fun hmem => ?_) nofun
        exact (hkept key'').1 ((Multiset.mem_cons.1 hmem).resolve_left (by simp))
      · exact (hkept key'').2 ((Multiset.mem_cons.1 hmem).resolve_left (by simp))
  · have hmem : ∀ h', h' ∈ trackFile g (.db (.insertObject sha key size mime)) (.ok (some key)) ↔
        h' = .fresh key ∨ h' = .held key ∨ h' ∈ g ∧ h'.frees key.val = false := fun h' => by
      simp only [trackFile, Multiset.mem_cons, Multiset.mem_filter]
    refine ⟨⟨fun key' hheld => (hmem _).2 (.inr (.inr ⟨hheld, rfl⟩)),
      fun slot hfree hnot => (hmem _).2 (.inr (.inr ⟨hfree, decide_eq_false hnot⟩))⟩,
      ⟨(hmem _).2 (.inr (.inl rfl)), fun key' => ?_, fun key' hdeleted => ?_⟩, fun _ => rfl⟩
    · rw [hmem]
      constructor
      · rintro (heq | heq | ⟨hold, -⟩)
        · exact ⟨rfl, Holding.fresh.inj heq⟩
        · cases heq
        · exact absurd hold (hclear key').1
      · rintro ⟨-, rfl⟩
        exact .inl rfl
    · rcases (hmem _).1 hdeleted with heq | heq | ⟨hold, -⟩
      · cases heq
      · cases heq
      · exact (hclear key').2 hold

/-- The bytes of a new object are stored. -/
theorem obeys_put {key : SafeKey} (bytes : Bytes) (hnamed : Named key) (h : Acquired key true g) :
    (Prog.perform (DbOp.put key bytes)).Obeys uploadProtocol
      (fun r g' => r = .ok () ∧ Keeps key g g' ∧ Acquired key false g') g := by
  refine ⟨⟨hnamed, (h.fresh key).2 ⟨rfl, rfl⟩⟩, ?_⟩
  rintro r _ ⟨hr, tmp, rfl⟩
  have hmem : ∀ h', h' ∈ (g.filter (· ≠ .temp tmp)).filter (· ≠ .fresh key) ↔
      h' ∈ g ∧ h' ≠ .temp tmp ∧ h' ≠ .fresh key := fun h' => by simp only [Multiset.mem_filter, and_assoc]
  refine ⟨hr, ⟨fun key' hheld => (hmem _).2 ⟨hheld, nofun, nofun⟩,
      fun slot hfree _ => (hmem _).2 ⟨hfree, nofun, nofun⟩⟩,
    (hmem _).2 ⟨h.held, nofun, nofun⟩, fun key' => iff_of_false (fun hfresh => ?_) nofun,
    fun key' hdeleted => h.deleted key' ((hmem _).1 hdeleted).1⟩
  obtain ⟨hfresh, -, hne⟩ := (hmem _).1 hfresh
  exact hne (congrArg Holding.fresh ((h.fresh key').1 hfresh).2)

theorem obeys_storeThumbnail {core : Core} (jpeg : Content) (hclear : Clear g) (hfree : .free (.thumb core) ∈ g) :
    (storeThumbnail sha256 core jpeg).Obeys uploadProtocol (fun _ g' => Keeps (thumbKey core) g g' ∧ Clear g') g := by
  have hnamed : Named (thumbKey core) := ⟨core, names_thumbKey core⟩
  refine (Prog.obeys_bind _ _ _).2 ((obeys_acquireObject _ hclear hnamed hfree (holds_thumbKey core)).mono ?_)
  rintro r g' ⟨hkeeps, hr⟩
  match r with
  | .error e => exact ⟨hkeeps, hr⟩
  | .ok (key, false) => exact ⟨hkeeps, hr.1.clear⟩
  | .ok (key, true) =>
    obtain ⟨hacquired, hkey⟩ := hr
    obtain rfl := hkey rfl
    refine (Prog.obeys_bind _ _ _).2 ((obeys_put _ hnamed hacquired).mono ?_)
    rintro r g'' ⟨rfl, hkeeps', hstored⟩
    exact ⟨hkeeps.trans hkeeps', hstored.clear⟩

theorem obeys_uploadThumbnail {core : Core} (u : Upload) (hclear : Clear g) (hfree : .free (.thumb core) ∈ g) :
    (uploadThumbnail sha256 u core).Obeys uploadProtocol (fun _ g' => Keeps (thumbKey core) g g' ∧ Clear g') g := by
  unfold uploadThumbnail
  split
  · split
    · exact obeys_storeThumbnail _ hclear hfree
    · exact ⟨.refl _ _, hclear⟩
  · exact ⟨.refl _ _, hclear⟩

/-- The end of an upload whose bytes have been stored. -/
theorem obeys_publish {core : Core} {storageKey : SafeKey} (u : Upload) (hclear : Clear g)
    (hheld : .held storageKey ∈ g) (hrow : .free (.row core) ∈ g) (hthumb : .free (.thumb core) ∈ g) :
    (publish sha256 u core storageKey).Obeys uploadProtocol (fun _ => Clear) g := by
  refine (Prog.obeys_bind _ _ _).2 ((obeys_uploadThumbnail u hclear hthumb).mono ?_)
  rintro thumb g' ⟨hkeeps, hclear'⟩
  refine ⟨⟨hkeeps.free _ hrow id, hkeeps.held _ hheld⟩, ?_⟩
  rintro r _ ⟨⟨⟨⟩, rfl⟩, rfl⟩
  exact fun key => ⟨fun hmem => (hclear' key).1 (Multiset.mem_filter.1 hmem).1,
    fun hmem => (hclear' key).2 (Multiset.mem_filter.1 hmem).1⟩

theorem obeys_claimCore (draws : List Core) : (claimCore draws).Obeys uploadProtocol (fun r g' => Clear g' ∧
    ∀ core, r = .ok (some core) → .free (.row core) ∈ g' ∧ .free (.object core) ∈ g' ∧ .free (.thumb core) ∈ g') 0 := by
  have hnone : Clear 0 := fun key => ⟨Multiset.notMem_zero _, Multiset.notMem_zero _⟩
  induction draws with
  | nil => exact ⟨hnone, nofun⟩
  | cons core rest ih =>
    refine ⟨trivial, ?_⟩
    rintro r _ ⟨⟨claimed, rfl⟩, rfl⟩
    match claimed with
    | true =>
      refine ⟨fun key => ⟨by simp [trackFile], by simp [trackFile]⟩, ?_⟩
      rintro _ ⟨⟩
      simp [trackFile]
    | false => exact ih

/-- **An upload of a file.** -/
theorem obeys_uploadInner (u : Upload) : (uploadInner sha256 u).Obeys uploadProtocol (fun _ => Clear) 0 := by
  refine (Prog.obeys_bind _ _ _).2 ((obeys_claimCore _).mono ?_)
  rintro r g ⟨hclear, hr⟩
  match r with
  | .error e => exact hclear
  | .ok none => exact hclear
  | .ok (some core) =>
    obtain ⟨hrow, hobject, hthumb⟩ := hr core rfl
    have hnamed : Named (fileKey core u.ext) := ⟨core, names_fileKey core u.ext⟩
    refine (Prog.obeys_bind _ _ _).2 ((obeys_acquireObject _ hclear hnamed hobject (holds_fileKey core u.ext)).mono ?_)
    rintro r g' ⟨hkeeps, hr⟩
    have hnot : ¬ (Slot.thumb core).Holds (fileKey core u.ext).val := fun h =>
      absurd (slot_eq h (holds_fileKey core u.ext)) nofun
    match r with
    | .error e => exact hr
    | .ok (key, false) =>
      exact obeys_publish u hr.1.clear hr.1.held (hkeeps.free _ hrow id) (hkeeps.free _ hthumb hnot)
    | .ok (key, true) =>
      obtain ⟨hacquired, hkey⟩ := hr
      obtain rfl := hkey rfl
      refine (Prog.obeys_bind _ _ _).2 ((obeys_put _ hnamed hacquired).mono ?_)
      rintro r g'' ⟨rfl, hkeeps', hstored⟩
      have hall := hkeeps.trans hkeeps'
      exact obeys_publish u hstored.clear hstored.held (hall.free _ hrow id) (hall.free _ hthumb hnot)

end Upload

section Avatar

variable {g : Holdings}

/-- What an upload of an avatar performs. -/
abbrev putProtocol : Protocol Holdings AvatarOp AvatarOp.Res :=
  Tracked.protocol trackAvatar MayPut fun op r => Expected (.avatar op) r

/-- The avatars that have been read are those of their users. -/
def Own (shown : Uuid → Option SafeKey) : Prop := ∀ id key, shown id = some key → AvatarOf id key

theorem own_none : Own fun _ => none := fun _ _ h => by cases h

/-- A query that only asks. -/
def Asks {α : Type} (p : Query α) : Prop :=
  p.Obeys (.flat (fun op => asks op = true) fun _ _ => True) (fun _ _ => True) ()

theorem asks_sessionUser (sid : SessionId) : Asks (sessionUser sid) := by
  refine ⟨rfl, fun r _ _ => ?_⟩
  cases r with
  | error => trivial
  | ok session =>
    cases huid : session.uid with
    | none =>
      simp only [Prog.bind, huid]
      trivial
    | some id =>
      simp only [Prog.bind, huid]
      refine ⟨rfl, fun r _ _ => ?_⟩
      cases r with
      | ok user => trivial
      | error => trivial

theorem asks_bearerIdentity (env : Env) (headers : Headers) : Asks (bearerIdentity env headers) := by
  unfold bearerIdentity
  split
  · trivial
  · split
    · trivial
    · refine ⟨rfl, fun r _ _ => ?_⟩
      match r with
      | .ok (some (user, scopes)) => exact ⟨rfl, fun _ _ _ => trivial⟩
      | .ok none => trivial
      | .error _ => trivial

theorem asks_currentUser (env : Env) (caller : Caller) : Asks (currentUser env caller) := by
  refine (Prog.obeys_bind _ _ _).2 ((asks_sessionUser caller.session).mono fun user _ _ => ?_)
  cases user with
  | some user => trivial
  | none => exact (Prog.obeys_bind _ _ _).2 ((asks_bearerIdentity env caller.headers).mono fun _ _ _ => trivial)

theorem asks_ask {op : Server.Op} (h : asks op = true) : Asks (Server.ask op).run :=
  ⟨h, fun r _ _ => by cases r <;> trivial⟩

theorem asks_effectiveLimits (cfg : InstanceConfig) (user : Option User) : Asks (effectiveLimits cfg user).run := by
  have hrole : Asks (roleOf user).run := by
    unfold roleOf
    split
    · exact asks_ask rfl
    · trivial
  have hlimits : (effectiveLimits cfg user).Obeys (.flat (fun op => asks op = true) fun _ _ => True)
      (fun _ _ => True) (fun _ _ => True) () :=
    (obeys_bind _ _).2 (Prog.Obeys.mono hrole fun r _ _ => by cases r <;> trivial)
  exact Prog.Obeys.mono hlimits fun _ _ _ => trivial

theorem obeys_withAvatars_alongside {α : Type} {p : Query α} (h : Asks p) {shown : Uuid → Option SafeKey}
    (hshown : Own shown) : (withAvatars shown p).Obeys putProtocol (fun a g' => g' = g ∧ Own a.2) g := by
  induction p generalizing shown with
  | ret a => exact ⟨rfl, hshown⟩
  | call op k ih =>
    refine ⟨h.1, ?_⟩
    rintro r _ ⟨⟨-, hr⟩, rfl⟩
    refine ih r.1 (h.2 r.1 () trivial) ?_
    split
    · exact hr
    · exact hshown

theorem obeys_onAvatars_alongside {α : Type} {p : Server.Handler α} (h : Asks p.run) :
    (onAvatars p).Obeys putProtocol (fun _ g' => g' = g) (fun _ g' => g' = g) g := by
  refine (obeys_bind _ _).2 (obeys_always.2 ((obeys_withAvatars_alongside h own_none).mono fun a g' h => ?_))
  exact obeys_check.2 ⟨fun _ _ => h.1, fun _ _ => h.1⟩

/-- The handler goes on, since the operation does not fail. -/
theorem obeys_askAvatar_alongside {p : AvatarProg (Except Failure Unit)} {fin : Holdings → Prop}
    {err : Abort → Holdings → Prop} (h : p.Obeys putProtocol (fun r g' => r = .ok () ∧ fin g') g) :
    (askAvatar p).Obeys putProtocol (fun _ => fin) err g := by
  refine (obeys_bind _ _).2 (obeys_always.2 (h.mono fun r g' hr => ?_))
  obtain ⟨rfl, hfin⟩ := hr
  exact hfin

/-- **From the sniffed bytes on.** -/
theorem obeys_storeAvatar_alongside {id : Uuid} {old : Option SafeKey} {key : SafeKey} (data : Bytes)
    (hkey : AvatarOf id key) (hold : ∀ key, old = some key → AvatarOf id key) :
    (storeAvatar .localFs id old key data).Obeys putProtocol (fun _ => Clear) (fun _ => Clear) 0 := by
  have havatar : ∀ {key}, AvatarOf id key → IsAvatarKey key := fun ⟨ext, hext⟩ => ⟨id, ext, hext⟩
  -- the avatar has been put, and nothing has been deleted
  have hput : (putAvatar .localFs key data).Obeys putProtocol (fun r g => r = .ok () ∧ g = {.put key}) 0 := by
    refine ⟨havatar hkey, ?_⟩
    rintro ⟨tmp, created⟩ _ ⟨hcreated, rfl⟩
    obtain rfl : created = .ok () := hcreated
    have htemp : Holding.temp tmp ∈ (.temp tmp ::ₘ 0 : Holdings) := Multiset.mem_cons_self _ _
    refine ⟨⟨htemp, havatar hkey⟩, ?_⟩
    rintro r _ ⟨hr, rfl⟩
    obtain rfl : r = .ok () := hr
    exact ⟨rfl, by simp [trackAvatar, Multiset.filter_singleton]⟩
  have hdelete : (deleteOld old key).Obeys putProtocol (fun _ g => .put key ∈ g ∧ (∀ key', .fresh key' ∉ g) ∧
      ∀ key', .deleted key' ∈ g → AvatarOf id key') {.put key} := by
    have hstart : Holding.put key ∈ ({.put key} : Holdings) ∧ (∀ key', .fresh key' ∉ ({.put key} : Holdings)) ∧
        ∀ key', .deleted key' ∈ ({.put key} : Holdings) → AvatarOf id key' := by
      simp
    unfold deleteOld
    cases old with
    | none => exact hstart
    | some old =>
      simp only
      split
      · exact hstart
      · refine ⟨havatar (hold old rfl), ?_⟩
        rintro r _ ⟨hr, rfl⟩
        obtain rfl : r = .ok () := hr
        simp only [trackAvatar]
        refine ⟨Multiset.mem_cons_of_mem hstart.1, fun key' hmem => ?_, fun key' hmem => ?_⟩
        · exact hstart.2.1 key' ((Multiset.mem_cons.1 hmem).resolve_left (by simp))
        · rcases Multiset.mem_cons.1 hmem with heq | hmem
          · exact Holding.deleted.inj heq ▸ hold old rfl
          · exact hstart.2.2 key' hmem
  refine (obeys_bind _ _).2 ((obeys_askAvatar_alongside hput).mono (fun _ g hg => ?_) fun _ _ h => h)
  subst hg
  refine (obeys_bind _ _).2 (obeys_always.2 (hdelete.mono ?_))
  rintro _ g ⟨hmem, hfresh, hdeleted⟩
  refine obeys_askAvatar_alongside ⟨⟨hmem, hkey, hdeleted⟩, ?_⟩
  rintro r _ ⟨hr, rfl⟩
  obtain rfl : r = .ok () := hr
  refine ⟨rfl, fun key' => ⟨fun hmem => hfresh key' (Multiset.mem_filter.1 hmem).1, fun hmem => ?_⟩⟩
  exact Bool.eq_false_iff.1 (Multiset.mem_filter.1 hmem).2 rfl

theorem clear_zero : Clear 0 := fun _ => ⟨Multiset.notMem_zero _, Multiset.notMem_zero _⟩

/-- **An upload of an avatar.** -/
theorem obeys_uploadAvatar (env : Env) (caller : Caller) (fields : List AvatarField) :
    (uploadAvatar env .localFs caller fields).Obeys putProtocol (fun _ => Clear) (fun _ => Clear) 0 := by
  refine (obeys_bind _ _).2 (obeys_always.2
    ((obeys_withAvatars_alongside (asks_currentUser env caller) own_none).mono ?_))
  rintro ⟨found, shown⟩ _ ⟨rfl, hshown⟩
  refine (obeys_bind _ _).2 (obeys_orThrow.2 ⟨fun _ => clear_zero, fun user _ => ?_⟩)
  refine (obeys_bind _ _).2 ((obeys_onAvatars_alongside (asks_ask rfl)).mono ?_ fun _ _ h => h ▸ clear_zero)
  rintro cfg _ rfl
  refine (obeys_bind _ _).2 ((obeys_onAvatars_alongside (asks_effectiveLimits cfg _)).mono ?_
    fun _ _ h => h ▸ clear_zero)
  rintro limits _ rfl
  refine (obeys_bind _ _).2 (obeys_check.2 ⟨fun _ _ => clear_zero, fun data _ => ?_⟩)
  refine (obeys_bind _ _).2 (obeys_orThrow.2 ⟨fun _ => clear_zero, fun data _ => ?_⟩)
  refine (obeys_bind _ _).2 (obeys_reject.2 ⟨fun _ => clear_zero, fun _ => ?_⟩)
  refine (obeys_bind _ _).2 (obeys_orThrow.2 ⟨fun _ => clear_zero, fun ext _ => ?_⟩)
  exact (obeys_bind _ _).2 ((obeys_storeAvatar_alongside data ⟨ext, rfl⟩ (hshown user.id)).mono (fun _ _ h => h)
    fun _ _ h => h)

end Avatar

/-- **Every request** performs what it may, and leaves nothing undone when it returns. -/
theorem obeys_code (env : Env) (sha256 : Bytes → Digest) (job : Job) :
    (job.code env sha256).Obeys jobProtocol (fun _ => Clear) 0 := by
  cases job with
  | collection =>
    have hrun : (run false).run.Obeys collectProtocol (fun _ => Clear) 0 := by
      have hclear : (run false).run.Obeys (.ofExec collectProtocol.next) (fun _ => Clear) 0 :=
        Prog.Obeys.stays (fun g op r g' hnext hg => hnext.2 ▸ clear_trackCollect op r hg) _ clear_zero
      exact (Prog.Obeys.and hclear (obeys_run_alongside false)).mono fun _ _ h => h.1
    have hjob : (Prog.interp (fun op => Prog.perform (Action.collect op)) (run false).run).Obeys jobProtocol
        (fun _ => Clear) 0 := by
      refine Prog.Obeys.interp ?_ hrun
      exact fun _ _ hmay => ⟨hmay, fun _ _ hnext => hnext⟩
    exact (Prog.obeys_bind _ _ _).2 (hjob.mono fun _ _ h => h)
  | upload u =>
    have hupload : (onBackend .localFs (uploadInner sha256 u)).Obeys fileProtocol (fun _ => Clear) 0 :=
      Prog.Obeys.interp obeys_carryOut (obeys_uploadInner u)
    have hjob : (Prog.interp (fun op => Prog.perform (Action.file op))
        (onBackend .localFs (uploadInner sha256 u))).Obeys jobProtocol (fun _ => Clear) 0 := by
      refine Prog.Obeys.interp ?_ hupload
      exact fun _ _ hmay => ⟨hmay, fun _ _ hnext => hnext⟩
    exact (Prog.obeys_bind _ _ _).2 (hjob.mono fun _ _ h => h)
  | avatar caller fields =>
    have hupload : (uploadAvatar env .localFs caller fields).run.Obeys putProtocol (fun _ => Clear) 0 :=
      Prog.Obeys.mono (obeys_uploadAvatar env caller fields) fun r g h => by cases r <;> exact h
    have hjob : (Prog.interp (fun op => Prog.perform (Action.avatar op))
        (uploadAvatar env .localFs caller fields).run).Obeys jobProtocol (fun _ => Clear) 0 := by
      refine Prog.Obeys.interp ?_ hupload
      exact fun _ _ hmay => ⟨hmay, fun _ _ hnext => hnext⟩
    exact (Prog.obeys_bind _ _ _).2 (hjob.mono fun _ _ h => h)

end Gc
end Uwuubox
