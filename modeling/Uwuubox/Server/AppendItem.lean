import Uwuubox.Server.CollectionOrder
import Uwuubox.Prog.Faults

/-!
# An item added to a collection

`add_item` takes the position after the greatest one, computed in 64 bits, for a column of 32 bits; and a row that is
there already is not written.

* `Adding` — the owner of a collection that is not locked adds a live file or paste.
* `obeys_addItem` — how it ends: with the next position, if that fits the column, and with an error if it does not.
* `KeepsPromise` — the promise of the response: the item is stored where it says, beyond the others if it is new.
* `addItem_kept_iff` — **when the promise is kept**, in every state that requests can lead to.
* `addItem_unfit` — a position at the end of the column, and an item that was there already.
-/

namespace Uwuubox
namespace Server

open Dedupe Storage Table Fallible

/-! ## A run that is alone -/

/-- The operations of `add_item`, where they need not wait and the transaction is open. -/
def Proceeds (s : ItemWorld) (op : ItemOp) : Prop :=
  proceeds s op = true ∧ (∀ tx, op.tx = some tx → ∃ t, s.txs tx = some t) ∧ match op with
    | .server _ | .begin | .lockCollection _ _ | .nextPosition _ _ | .insertItem _ _ | .commit _ | .rollback _ => True
    | _ => False

/-- They have one outcome. -/
theorem exec_iff_answerItem (s : ItemWorld) (op : ItemOp) (r : op.Res) (s' : ItemWorld) (h : Proceeds s op) :
    execItem False s op r s' ↔ (r, s') = answerItem s op := by
  obtain ⟨hproceeds, hopen, hop⟩ := h
  refine ⟨fun hexec => ?_, fun heq => ?_⟩
  · cases op with
    | server op =>
      obtain ⟨w, hw | ⟨hf, -⟩, rfl⟩ := hexec
      · simp [answerItem, ← hw]
      · exact hf.elim
    | begin =>
      rcases hexec with ⟨rfl, rfl⟩ | ⟨hf, -⟩
      · rfl
      · exact hf.elim
    | rollback tx =>
      obtain ⟨rfl, rfl⟩ := hexec
      rfl
    | lockCollection tx id | nextPosition tx id | insertItem tx row | commit tx =>
      obtain ⟨t, ht⟩ := hopen tx rfl
      simp only [execItem, ItemOp.tx, ht, reduceCtorEq, false_and, or_false, Option.some.injEq] at hexec
      obtain ⟨_, rfl, hin⟩ := hexec
      simp only [answerItem, ht]
      simp only [inTx] at hin
      grind
    | readMembers _ _ | setPosition _ _ _ _ | abandon _ | deleteItem _ _ => exact hop.elim
  · obtain ⟨rfl, rfl⟩ := Prod.mk.inj heq
    exact exec_answerItem hproceeds

section Handlers

variable {α : Type} {s : ItemWorld}

abbrev alone : Protocol ItemWorld ItemOp ItemOp.Res := .along Proceeds answerItem

/-- What reads the server is answered by it. -/
theorem alone_onItems {p : Handler α} (h : Only [] p) : (onItems p).Obeys alone
    (fun a s' => s' = s ∧ (p.run.eval answer s.server).1 = .ok a)
    (fun e s' => s' = s ∧ (p.run.eval answer s.server).1 = .error e) s := by
  have hquery : ∀ {β : Type} {q : Query β}, Query.Only [] q →
      (q.interp fun op => Prog.perform (ItemOp.server op)).Obeys alone
        (fun a s' => s' = s ∧ (q.eval answer s.server).1 = a) s := by
    intro β q hq
    induction q with
    | ret a => exact ⟨rfl, rfl⟩
    | call op k ih =>
      obtain ⟨hop, hk⟩ := hq
      have harea : op.area = none := by
        cases harea : op.area with
        | none => rfl
        | some a => exact absurd (hop a harea) List.not_mem_nil
      have hsame : (answer s.server op).2 = s.server := exec_read (exec_answer (fun _ => False) s.server op) harea
      rw [Prog.interp_call, Prog.obeys_bind]
      refine ⟨⟨rfl, nofun, trivial⟩, ?_⟩
      intro r s' hr
      obtain ⟨rfl, rfl⟩ := Prod.mk.inj hr
      simp only [hsame]
      refine (ih _ (hk _ () trivial)).mono fun a s' hend => ⟨hend.1, ?_⟩
      rw [Prog.eval_call, hsame]
      exact hend.2
  refine Prog.Obeys.mono (hquery h.run) fun r s' hr => ?_
  cases r with
  | ok a => exact hr
  | error e => exact hr

/-- One statement. -/
theorem alone_askItem {op : ItemOp} (hproceeds : Proceeds s op) : (askItem op).Obeys alone
    (fun v s' => answerItem s op = (.ok v, s'))
    (fun e s' => ∃ failure, e = Abort.error (.from' failure) ∧ answerItem s op = (.error failure, s')) s := by
  refine (obeys_bind _ _).2 ⟨hproceeds, ?_⟩
  intro r s' hr
  cases r with
  | ok v => exact hr.symm
  | error e => exact ⟨e, rfl, hr.symm⟩

/-! ## `add_item` -/

/-- The owner of a collection, which no transaction has locked, adds a live file or paste. -/
structure Adding (env : Env) (s : ItemWorld) (caller : Caller) (id : Uuid) (kind core : Text) (item : Item) : Prop where
  owner : ∃ identity, ((writeIdentity env caller).run.eval answer s.server).1 = .ok identity ∧
    Owns s.server id identity.user.id
  live : ((canonicalLiveItem kind core).run.eval answer s.server).1 = .ok item
  free : s.Free s.nextTx id

/-- What is left when a row has been inserted, unless it was there. -/
def inserted (items : ItemTable) (row : CollectionItem) : ItemTable :=
  if (items.find? row.key).isSome then items else items.overlay (.put .empty row)

theorem pending_withTx {tx : ℕ} {t : Option Tx} {key : Uuid × Item} :
    (s.withTx tx t).Pending tx key ↔ s.Pending tx key := by
  unfold ItemWorld.Pending
  refine exists_congr fun tx' => and_congr_right fun _ => and_congr_right fun hne => ?_
  rw [withTx_txs, if_neg hne]

/-- The owner has the lock, and the transaction has written nothing. -/
theorem alone_lockOwned {id userId : Uuid} {tx : ℕ} (htx : s.txs tx = some ⟨none, .empty⟩)
    (howns : Owns s.server id userId) (hfree : s.Free tx id) : (lockOwned tx id userId).Obeys alone
      (fun _ s' => s' = s.withTx tx (some ⟨some id, .empty⟩)) (fun _ _ => False) s := by
  have hlock : Proceeds s (.lockCollection tx id) := ⟨decide_eq_true hfree, by rintro _ ⟨⟩; exact ⟨_, htx⟩, trivial⟩
  cases hfind : s.server.collections.find? id with
  | none => simp [Owns, hfind] at howns
  | some collection =>
    have hsame : collection.ownerId = userId := by simpa [Owns, hfind] using howns.symm
    refine (obeys_bind _ _).2 ((alone_askItem hlock).mono ?_ ?_)
    · intro owner s' hanswer
      simp only [answerItem, htx, hfind, Prod.mk.injEq, Except.ok.injEq] at hanswer
      obtain ⟨rfl, rfl⟩ := hanswer
      exact obeys_reject.2 ⟨fun hne => hne (congrArg some hsame), fun _ => rfl⟩
    · rintro e s' ⟨failure, -, hanswer⟩
      simp [answerItem, htx, hfind] at hanswer

/-- The transaction: it ends with the next position, if that fits the column. -/
theorem alone_appendItem {id userId : Uuid} {item : Item} {tx : ℕ} (htx : s.txs tx = some ⟨none, .empty⟩)
    (howns : Owns s.server id userId) (hfree : s.Free tx id) (hpending : ¬ s.Pending tx (id, item)) :
    (appendItem id userId item tx).Obeys alone
      (fun position s' => position = s.items.next id ∧ FitsInteger (s.items.next id) ∧
        s'.items = inserted s.items ⟨id, item, position⟩)
      (fun _ _ => ¬ FitsInteger (s.items.next id)) s := by
  refine (obeys_bind _ _).2 ((alone_lockOwned htx howns hfree).mono ?_ fun _ _ hf => hf.elim)
  rintro _ _ rfl
  generalize hs : s.withTx tx (some ⟨some id, .empty⟩) = locked
  have hlocked : locked.txs tx = some ⟨some id, .empty⟩ := by simp [← hs, withTx_txs]
  have hitems : locked.items = s.items := by rw [← hs]; rfl
  have hnext : Proceeds locked (.nextPosition tx id) := ⟨rfl, by rintro _ ⟨⟩; exact ⟨_, hlocked⟩, trivial⟩
  refine (obeys_bind _ _).2 ((alone_askItem hnext).mono ?_ ?_)
  · intro position s' hanswer
    simp only [answerItem, hlocked, Keyed.overlay_empty, hitems, Prod.mk.injEq, Except.ok.injEq] at hanswer
    obtain ⟨rfl, rfl⟩ := hanswer
    have hinsert : Proceeds locked (.insertItem tx ⟨id, item, s.items.next id⟩) := by
      refine ⟨?_, by rintro _ ⟨⟩; exact ⟨_, hlocked⟩, trivial⟩
      simp only [proceeds, Bool.not_eq_true', decide_eq_false_iff_not]
      rw [← hs]
      exact fun h => hpending (pending_withTx.1 h)
    refine (obeys_bind _ _).2 ((alone_askItem hinsert).mono ?_ ?_)
    · intro _ written hanswer
      simp only [answerItem, hlocked, Keyed.overlay_empty, hitems] at hanswer
      split at hanswer
      · rename_i hfits
        obtain ⟨t, ht, hoverlay⟩ : ∃ t, written.txs tx = some t ∧
            written.items.overlay t.writes = inserted s.items ⟨id, item, s.items.next id⟩ := by
          unfold inserted
          split at hanswer
          · rename_i old hold
            obtain ⟨-, rfl⟩ := Prod.mk.inj hanswer
            rw [hold]
            exact ⟨_, hlocked, by simp [hitems, Keyed.overlay_empty]⟩
          · rename_i hold
            obtain ⟨-, rfl⟩ := Prod.mk.inj hanswer
            rw [hold]
            exact ⟨⟨some id, .put .empty ⟨id, item, s.items.next id⟩⟩, by simp [withTx_txs], by simp [← hitems]; rfl⟩
        have hcommit : Proceeds written (.commit tx) := ⟨rfl, by rintro _ ⟨⟩; exact ⟨_, ht⟩, trivial⟩
        refine (obeys_bind _ _).2 ((alone_askItem hcommit).mono ?_ ?_)
        · intro _ committed hanswer
          simp only [answerItem, ht, Prod.mk.injEq, true_and] at hanswer
          rw [← hanswer]
          exact ⟨rfl, hfits, hoverlay⟩
        · rintro e s' ⟨failure, -, hanswer⟩
          simp [answerItem, ht] at hanswer
      · cases hanswer
    · rintro e s' ⟨failure, -, hanswer⟩ hfits
      simp only [answerItem, hlocked, Keyed.overlay_empty, hitems, if_pos hfits] at hanswer
      split at hanswer <;> simp at hanswer
  · rintro e s' ⟨failure, -, hanswer⟩
    simp [answerItem, hlocked] at hanswer

theorem pending_begun {key : Uuid × Item} : (answerItem s .begin).2.Pending s.nextTx key ↔ s.Pending s.nextTx key := by
  constructor
  · rintro ⟨tx, htx, hne, t, ht, h⟩
    refine ⟨tx, lt_of_le_of_ne (Nat.lt_succ_iff.1 htx) hne, hne, t, ?_, h⟩
    simpa [answerItem, withTx_txs, hne] using ht
  · rintro ⟨tx, htx, hne, t, ht, h⟩
    refine ⟨tx, Nat.lt_succ_of_lt htx, hne, t, ?_, h⟩
    simpa [answerItem, withTx_txs, hne] using ht

theorem free_begun {id : Uuid} : (answerItem s .begin).2.Free s.nextTx id ↔ s.Free s.nextTx id := by
  constructor
  · intro h tx htx hne t ht
    refine h tx (Nat.lt_succ_of_lt htx) hne t ?_
    simpa [answerItem, withTx_txs, hne] using ht
  · intro h tx htx hne t ht
    refine h tx (lt_of_le_of_ne (Nat.lt_succ_iff.1 htx) hne) hne t ?_
    simpa [answerItem, withTx_txs, hne] using ht

/-- A transaction, and its rollback. -/
theorem alone_inTransaction {p : ℕ → ItemHandler α} {fin : α → ItemWorld → Prop} {err : Prop}
    (hp : (p s.nextTx).Obeys alone fin (fun _ _ => err) (answerItem s .begin).2) :
    (inTransaction p).Obeys alone fin (fun _ _ => err) s := by
  have hbegin : Proceeds s .begin := ⟨rfl, nofun, trivial⟩
  refine (obeys_bind _ _).2 ((alone_askItem hbegin).mono ?_ ?_)
  · intro tx s' hbegin
    obtain ⟨hok, rfl⟩ := Prod.mk.inj hbegin
    obtain rfl := Except.ok.inj hok
    refine (obeys_bind _ _).2 (obeys_always.2 (Prog.Obeys.mono hp fun r s' hr => ?_))
    cases r with
    | ok a => exact hr
    | error e => exact (obeys_bind _ _).2 ⟨⟨rfl, nofun, trivial⟩, fun _ _ _ => hr⟩
  · rintro e s' ⟨failure, -, hanswer⟩
    cases hanswer

/-- **How `add_item` ends**: with the next position, if that fits the column; with an error if it does not. -/
theorem alone_addItem {env : Env} {caller : Caller} {id : Uuid} {kind core : Text} {item : Item}
    (h : Adding env s caller id kind core item) (hpending : ¬ s.Pending s.nextTx (id, item)) :
    (addItem env caller id kind core).Obeys alone
      (fun reply s' => reply = .added id item (s.items.next id) ∧ FitsInteger (s.items.next id) ∧
        s'.items = inserted s.items ⟨id, item, s.items.next id⟩)
      (fun _ _ => ¬ FitsInteger (s.items.next id)) s := by
  obtain ⟨identity, hidentity, howns⟩ := h.owner
  refine (obeys_bind _ _).2 ((alone_onItems (only_writeIdentity env caller)).mono ?_ ?_)
  · rintro _ _ ⟨rfl, heq⟩
    obtain rfl := Except.ok.inj (heq.symm.trans hidentity)
    refine (obeys_bind _ _).2 ((alone_onItems (only_canonicalLiveItem kind core)).mono ?_ ?_)
    · rintro _ _ ⟨rfl, heq⟩
      obtain rfl := Except.ok.inj (heq.symm.trans h.live)
      refine (obeys_bind _ _).2 ((alone_inTransaction (alone_appendItem ?_ howns ?_ ?_)).mono ?_ fun _ _ he => he)
      · simp [answerItem, withTx_txs]
      · exact free_begun.2 h.free
      · exact fun hbegun => hpending (pending_begun.1 hbegun)
      · rintro position s' ⟨rfl, hfits, hitems⟩
        exact ⟨rfl, hfits, hitems⟩
    · rintro e _ ⟨rfl, heq⟩
      cases heq.symm.trans h.live
  · rintro e _ ⟨rfl, heq⟩
    cases heq.symm.trans hidentity

end Handlers

/-! ## The promise -/

/-- The promise of the response: the item is stored where it says, beyond the others if it was not there. -/
def KeepsPromise (s s' : ItemWorld) (id : Uuid) (item : Item) (r : Except Abort ItemReply) : Prop :=
  ∃ position, r = .ok (.added id item position) ∧ s'.items.find? (id, item) = some ⟨id, item, position⟩ ∧
    (s.items.find? (id, item) = none → ∀ row ∈ s'.items, row.collectionId = id → row.item ≠ item →
      row.position < position)

/-- The item is not there, and no position is at the end of the column. -/
def HasRoom (items : ItemTable) (id : Uuid) (item : Item) : Prop :=
  ∀ row ∈ items, row.collectionId = id → row.item ≠ item ∧ row.position < 2 ^ 31 - 1

/-- The next position fits when the others leave room. -/
theorem fits_next_iff {items : ItemTable} (hordered : Ordered items) (id : Uuid) :
    FitsInteger (items.next id) ↔ ∀ row ∈ items, row.collectionId = id → row.position < 2 ^ 31 - 1 := by
  obtain ⟨hnonneg, hless⟩ := next_spec items hordered id
  constructor
  · intro hfits row hrow hid
    have hrow := hless row hrow hid
    have hmost := hfits.2
    omega
  · intro hroom
    refine ⟨by omega, ?_⟩
    unfold ItemTable.next
    cases hmax : ((items.of id).map CollectionItem.position).max? with
    | none => simp
    | some n =>
      obtain ⟨row, hrow, rfl⟩ := List.mem_map.1 (List.max?_eq_some_iff.1 hmax).1
      obtain ⟨hrow, hid⟩ := List.mem_filter.1 hrow
      have hlast := hroom row hrow (of_decide_eq_true hid)
      simp only [Option.getD_some]
      omega

/-- An item that was there is reported beyond itself. -/
theorem kept_inserted_iff {s s' : ItemWorld} {id : Uuid} {item : Item} (hordered : Ordered s.items)
    (hitems : s'.items = inserted s.items ⟨id, item, s.items.next id⟩) :
    KeepsPromise s s' id item (.ok (.added id item (s.items.next id))) ↔ s.items.find? (id, item) = none := by
  have hless := (next_spec s.items hordered id).2
  constructor
  · rintro ⟨position, heq, hfind, -⟩
    cases heq
    cases hold : s.items.find? (id, item) with
    | none => rfl
    | some old =>
      obtain ⟨hmem, hkey⟩ := Keyed.mem_of_find? hold
      have hsame : s'.items = s.items := by rw [hitems]; exact if_pos (Option.isSome_of_mem hold)
      rw [hsame, hold] at hfind
      cases hfind
      exact absurd (hless _ hmem rfl) (lt_irrefl _)
  · intro hnew
    have hput : s'.items = s.items.overlay (.put .empty ⟨id, item, s.items.next id⟩) := by
      rw [hitems]
      exact if_neg (by simp [CollectionItem.key, hnew])
    have hmem : ∀ row, row ∈ s'.items ↔ row = ⟨id, item, s.items.next id⟩ ∨ row ∈ s.items ∧ row.key ≠ (id, item) := by
      intro row
      rw [hput, Keyed.mem_overlay]
      simp [Keyed.mem_put, CollectionItem.key, eq_comm]
    refine ⟨_, rfl, Keyed.find?_eq_some.2 ⟨(hmem _).2 (.inl rfl), rfl⟩, fun _ row hrow hid hne => ?_⟩
    rcases (hmem row).1 hrow with rfl | ⟨hrow, -⟩
    · exact absurd rfl hne
    · exact hless row hrow hid

/-- What requests lead to meets the invariant. -/
theorem isolated_of_reachable {faults : Prop} {env : Env} {s : ItemWorld} (hordered : Ordered s.items)
    (hquiet : ∀ tx, s.txs tx = none) {p : ItemPool} (hp : Tracked.Reachable observe (Spared faults) (fun _ _ => True)
      (serveItem env) (execItem faults) s p) : ∃ total, Isolated faults s.server p.shared total := by
  exact ⟨_, (Tracked.Reachable.invariant (isolated_start hordered hquiet) (fun req => obeys_serveItem)
    (fun req _ _ _ _ op r hmay hs hcond hexec => Isolated.step hs hmay hcond hexec)
    (fun _ g f _ hs => Isolated.mono hs (Multiset.le_add_left f g)) hp).1⟩

/-- Where no transaction has the lock, none has a version of an item. -/
theorem Isolated.not_pending {faults : Prop} {w : World} {s : ItemWorld} {total : Multiset Progress}
    (h : Isolated faults w s total) {tx : ℕ} {id : Uuid} {item : Item} (hfree : s.Free tx id) :
    ¬ s.Pending tx (id, item) := by
  rintro ⟨tx', htx', hne, t, ht, row, hrow, hkey⟩
  have hlocked := h.within tx' t ht row hrow
  rw [show row.collectionId = id from congrArg Prod.fst hkey] at hlocked
  exact hfree tx' htx' hne t ht hlocked

/-- **When `add_item` keeps its promise.**  In every state that requests can lead to, where no transaction has locked
the collection, the request of its owner for a live file or paste comes to an end, and it keeps the promise exactly if
the item was not there and no item had the last position of the column. -/
theorem addItem_kept_iff {faults : Prop} {env : Env} {s : ItemWorld} (hordered : Ordered s.items)
    (hquiet : ∀ tx, s.txs tx = none) {p : ItemPool} (hp : Tracked.Reachable observe (Spared faults) (fun _ _ => True)
      (serveItem env) (execItem faults) s p) {caller : Caller} {id : Uuid} {kind core : Text} {item : Item}
    (hadding : Adding env p.shared caller id kind core item) :
    (∃ r s', (addItem env caller id kind core).run.Runs (execItem False) p.shared r s') ∧
      ∀ r s', (addItem env caller id kind core).run.Runs (execItem False) p.shared r s' →
        (KeepsPromise p.shared s' id item r ↔ HasRoom p.shared.items id item) := by
  obtain ⟨total, hinv⟩ := isolated_of_reachable hordered hquiet hp
  obtain ⟨r, s', hrun, hends, hunique⟩ :=
    Prog.Obeys.runs_once exec_iff_answerItem (alone_addItem hadding (hinv.not_pending hadding.free))
  refine ⟨⟨r, s', hrun⟩, fun b t hrun' => ?_⟩
  obtain ⟨rfl, rfl⟩ := hunique b t hrun'
  have hroom : HasRoom p.shared.items id item ↔
      p.shared.items.find? (id, item) = none ∧ FitsInteger (p.shared.items.next id) := by
    rw [fits_next_iff hinv.ordered, Keyed.find?_eq_none]
    constructor
    · intro h
      refine ⟨fun row hrow hkey => (h row hrow (congrArg Prod.fst hkey)).1 (congrArg Prod.snd hkey), ?_⟩
      exact fun row hrow hid => (h row hrow hid).2
    · rintro ⟨hnew, hless⟩ row hrow hid
      exact ⟨fun heq => hnew row hrow (Prod.ext hid heq), hless row hrow hid⟩
  cases b with
  | ok reply =>
    obtain ⟨rfl, hfits, hitems⟩ := hends
    rw [hroom, kept_inserted_iff hinv.ordered hitems]
    exact ⟨fun hnew => ⟨hnew, hfits⟩, And.left⟩
  | error e =>
    exact ⟨fun ⟨_, heq, _⟩ => (nomatch heq), fun h => absurd (hroom.1 h).2 hends⟩

/-! ### A paste at the end of the column -/

/-- Two pastes, of which one is in the collection. -/
def shelf : ItemWorld where
  server := { twoItems.server with pastes := ⟨[solePaste coreA, solePaste coreB], by decide⟩ }
  items := ⟨[⟨5, .paste coreA, 0⟩], by decide⟩
  txs := fun _ => none
  nextTx := 0

/-- Its owner has put it at the end. -/
def atEnd : ItemPool :=
  Tracked.play observe (serveItem .plain) (fun _ => answerItem) shelf
    (.spawn (.reorder curator 5 [⟨kindPaste, coreA.val, 2 ^ 31 - 1⟩]) :: List.replicate 7 (.act 0 ()))

/-- A step of a request that is not abandoned. -/
def carriesOn (s : ItemWorld) : ItemOp → Bool
  | .abandon _ => false
  | op => proceeds s op

theorem reachable_atEnd : Tracked.Reachable observe (Spared False) (fun _ _ => True) (serveItem .plain) (execItem False)
    shelf atEnd := by
  refine @Tracked.reachable_play _ _ _ _ _ _ _ observe _ _ _ _ Unit (fun _ => answerItem)
    (fun _ s _ _ op => carriesOn s op) (fun _ _ => true) (fun _ s g f op hop => ?_) (fun _ _ _ => trivial) shelf _ (by decide)
  cases op with
  | abandon tx => cases hop
  | _ => exact ⟨trivial, exec_answerItem hop⟩

theorem ordered_shelf : Ordered shelf.items where
  nonneg := by simp [shelf, Keyed.mem_def]
  distinct := by simp [shelf, Keyed.mem_def]

/-- What is not in the collection gets the position after the last one. -/
theorem addItem_kept_shelf : ∃ r s',
    (addItem .plain curator 5 kindPaste coreB.val).run.Runs (execItem False) shelf r s' ∧
      KeepsPromise shelf s' 5 (.paste coreB) r := by
  have hadding : Adding .plain shelf curator 5 kindPaste coreB.val (.paste coreB) :=
    ⟨⟨curatorIdentity, rfl, rfl⟩, rfl, by decide⟩
  have hstart : Tracked.Reachable observe (Spared False) (fun _ _ => True) (serveItem .plain) (execItem False) shelf
      (⟨shelf, []⟩ : ItemPool) := .refl
  obtain ⟨⟨r, s', hrun⟩, hkept⟩ := addItem_kept_iff ordered_shelf (fun _ => rfl) hstart hadding
  refine ⟨r, s', hrun, (hkept r s' hrun).2 ?_⟩
  intro row hrow _
  obtain rfl : row = ⟨5, .paste coreA, 0⟩ := by simpa [shelf, Keyed.mem_def] using hrow
  decide

/-- **The promise is broken** after a position at the end of the column has been chosen: a new item cannot be added; and
for an item that is there already: it is not stored where the response says. -/
theorem addItem_unfit :
    (Tracked.Reachable observe (Spared False) (fun _ _ => True) (serveItem .plain) (execItem False) shelf atEnd ∧
      Adding .plain atEnd.shared curator 5 kindPaste coreB.val (.paste coreB) ∧
      ∃ e s', (addItem .plain curator 5 kindPaste coreB.val).run.Runs (execItem False) atEnd.shared (.error e) s') ∧
    Adding .plain shelf curator 5 kindPaste coreA.val (.paste coreA) ∧
      ∃ s', (addItem .plain curator 5 kindPaste coreA.val).run.Runs (execItem False) shelf
        (.ok (.added 5 (.paste coreA) 1)) s' ∧ s'.items.find? (5, .paste coreA) = some ⟨5, .paste coreA, 0⟩ := by
  have hend : Adding .plain atEnd.shared curator 5 kindPaste coreB.val (.paste coreB) :=
    ⟨⟨curatorIdentity, rfl, rfl⟩, rfl, by decide⟩
  have hmember : Adding .plain shelf curator 5 kindPaste coreA.val (.paste coreA) :=
    ⟨⟨curatorIdentity, rfl, rfl⟩, rfl, by decide⟩
  refine ⟨⟨reachable_atEnd, hend, ?_⟩, hmember, ?_⟩
  · obtain ⟨r, s', hrun, hends, -⟩ := Prog.Obeys.runs_once exec_iff_answerItem (alone_addItem hend (by decide))
    cases r with
    | ok reply => exact absurd hends.2.1 (by decide)
    | error e => exact ⟨e, s', hrun⟩
  · obtain ⟨r, s', hrun, hends, -⟩ := Prog.Obeys.runs_once exec_iff_answerItem (alone_addItem hmember (by decide))
    cases r with
    | ok reply =>
      obtain ⟨rfl, -, hitems⟩ := hends
      exact ⟨s', hrun, by rw [hitems]; decide⟩
    | error e => exact absurd (by decide : FitsInteger (shelf.items.next 5)) hends

end Server
end Uwuubox
