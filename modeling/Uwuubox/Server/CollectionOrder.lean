import Uwuubox.Server.CollectionItems
import Uwuubox.Dedupe.Consistency

/-!
# The order of a collection

* `Ordered` — the positions in a collection are distinct and non-negative.
* `Stage`, `observe` — how far a transaction is, and what it has read.
* `Isolated` — **the invariant**: what a transaction has read of a collection that it has locked stays true, but for rows
  that are removed.  `Isolated.step`: one operation keeps it.
* `Knows.ordered_inserted`, `Knows.ordered_reading`, `Knows.reordered` — what a transaction commits.
* `OrderVerdict` — when a reorder has committed; `obeys_renumber` follows its text.
* `collection_ordered` — every committed state is ordered; when a reorder commits, and what it then does.
* `unfit_committed` — a position that does not fit the column, for a row that is gone.
-/

namespace Uwuubox
namespace Server

open Dedupe Storage Table Fallible

/-- The positions in a collection are distinct and non-negative. -/
structure Ordered (items : ItemTable) : Prop where
  nonneg : ∀ row ∈ items, 0 ≤ row.position
  distinct : ∀ row ∈ items, ∀ row' ∈ items, row.collectionId = row'.collectionId →
    row.position = row'.position → row = row'

/-! ## What a transaction has seen -/

/-- An `UPDATE` of `reorder`, with the number of rows that it has found. -/
structure Update where
  key : Text × Text
  position : ℤ
  found : ℕ

/-- How far a transaction is. -/
inductive Stage where
  | started
  | locked (id : Uuid) (owner : Option Uuid)
  | next (id : Uuid) (position : ℤ)
  | inserted (id : Uuid) (position : ℤ)
  /-- The members have been read, and some updates have been made. -/
  | reading (id : Uuid) (members : List CollectionItem) (done : List Update)
  | closed (committed : Bool) (last : Stage)

/-- An update has been made. -/
def Stage.record (update : Update) : Stage → Stage
  | reading id members done => reading id members (update :: done)
  | stage => stage

/-- The transaction is over. -/
def Stage.close (committed : Bool) : Stage → Stage
  | closed b last => closed b last
  | stage => closed committed stage

/-- The transaction is not over. -/
def Stage.Open : Stage → Prop
  | closed _ _ => False
  | _ => True

/-- The transaction of a request. -/
structure Progress where
  tx : ℕ
  stage : Stage

/-- The transaction `tx` goes on. -/
def Progress.advance (tx : ℕ) (f : Stage → Stage) (p : Progress) : Progress :=
  if p.tx = tx then ⟨tx, f p.stage⟩ else p

/-- What a request has done with its transaction. -/
def observe (g : Multiset Progress) : (op : ItemOp) → op.Res → Multiset Progress
  | .begin, .ok tx => {⟨tx, .started⟩} + g
  | .lockCollection tx id, .ok owner => g.map (.advance tx fun _ => .locked id owner)
  | .nextPosition tx id, .ok position => g.map (.advance tx fun _ => .next id position)
  | .insertItem tx row, .ok () => g.map (.advance tx fun _ => .inserted row.collectionId row.position)
  | .readMembers tx id, .ok members => g.map (.advance tx fun _ => .reading id members [])
  | .setPosition tx _ key position, .ok found => g.map (.advance tx (.record ⟨key, position, found⟩))
  | .commit tx, .ok () => g.map (.advance tx (.close true))
  | .commit tx, .error _ => g.map (.advance tx (.close false))
  | .rollback tx, _ => g.map (.advance tx (.close false))
  | _, _ => g

/-- The updates that have been made are those of the list, which names every member once. -/
structure Complete (inputs : List PositionInput) (members : List CollectionItem) (done : List Update) : Prop where
  updates : done.map (fun update => (update.key, update.position)) =
    (inputs.map fun input => (input.key, input.position)).reverse
  names : Names inputs members
  keys : (inputs.map PositionInput.key).Nodup
  distinct : (inputs.map PositionInput.position).Nodup
  nonneg : ∀ input ∈ inputs, 0 ≤ input.position

/-- What a request performs. -/
def MayItem (req : ItemRequest) (g : Multiset Progress) : ItemOp → Prop
  | .server op => op.area = none
  | .begin => True
  | .lockCollection tx _ => ⟨tx, .started⟩ ∈ g
  | .nextPosition tx id => ∃ owner, ⟨tx, .locked id (some owner)⟩ ∈ g
  | .insertItem tx row => ⟨tx, .next row.collectionId row.position⟩ ∈ g
  | .readMembers tx id => ∃ owner, ⟨tx, .locked id (some owner)⟩ ∈ g
  | .setPosition tx id _ _ => ∃ members done, ⟨tx, .reading id members done⟩ ∈ g
  | .commit tx => (∃ caller id kind core position, req = .add caller id kind core ∧ ⟨tx, .inserted id position⟩ ∈ g) ∨
      ∃ caller id inputs members done, req = .reorder caller id inputs ∧ ⟨tx, .reading id members done⟩ ∈ g ∧
        Complete inputs members done
  | .rollback tx => ∃ stage, ⟨tx, stage⟩ ∈ g
  | .abandon _ => True
  | .deleteItem _ _ => ∃ caller id kind core, req = .remove caller id kind core

/-- What the answers are, where the server does not change; without failures, the answers there are. -/
def Answers (faults : Prop) (w : World) : (op : ItemOp) → op.Res → Prop
  | .server op, r => ¬ faults → r = (answer w op).1
  | .begin, r => ¬ faults → ∃ tx, r = .ok tx
  | .lockCollection _ id, r => (∀ owner, r = .ok owner → owner = (w.collections.find? id).map Collection.ownerId) ∧
      (¬ faults → ∃ owner, r = .ok owner)
  | .readMembers _ _, r => (∀ members : List CollectionItem, r = .ok members →
      (members.map fun row => row.item.key).Nodup) ∧ (¬ faults → ∃ members, r = .ok members)
  | .setPosition _ _ _ position, r => (∀ found, r = .ok found → FitsInteger position ∨ found = 0) ∧
      (¬ faults → FitsInteger position → ∃ found, r = .ok found)
  | .commit _, r => ¬ faults → r = .ok ()
  | _, _ => True

/-- Connections are lost only where there are failures, or after their requests. -/
def Spared (faults : Prop) (_ : ItemWorld) (g f : Multiset Progress) : ItemOp → Prop
  | .abandon tx => faults ∨ ∀ p ∈ g + f, p.tx ≠ tx
  | _ => True

/-! ## The invariant -/

/-- What a transaction knows of the rows of the collection that it has locked. -/
def Knows (items : ItemTable) (t : Tx) : Stage → Prop
  | .started => t.locked = none ∧ ∀ row, row ∉ t.writes
  | .locked id owner => (owner = none ∨ t.locked = some id) ∧ ∀ row, row ∉ t.writes
  | .next id position => t.locked = some id ∧ (∀ row, row ∉ t.writes) ∧ 0 ≤ position ∧
      ∀ row ∈ items, row.collectionId = id → row.position < position
  | .inserted id position => t.locked = some id ∧ 0 ≤ position ∧
      (∀ row ∈ items, row.collectionId = id → row.position < position) ∧
      (∀ row ∈ t.writes, row.collectionId = id ∧ row.position = position) ∧
      ∀ row ∈ t.writes, ∀ row' ∈ t.writes, row = row'
  | .reading id members done => t.locked = some id ∧
      (∀ row ∈ items, row.collectionId = id → ∃ member ∈ members, member.item = row.item) ∧
      (∀ row ∈ t.writes, row.collectionId = id ∧ (∃ old ∈ items, old.key = row.key) ∧
        ∃ update ∈ done, update.key = row.item.key ∧ update.position = row.position) ∧
      ∀ update ∈ done, ∀ row ∈ items, row.collectionId = id → row.item.key = update.key →
        ∃ version ∈ t.writes, version.item = row.item
  | .closed _ _ => True

/-- Rows of the collection may go that the transaction has not updated. -/
theorem Knows.anti {items items' : ItemTable} {t : Tx} {stage : Stage} (h : Knows items t stage)
    (hrows : ∀ row ∈ items', t.locked = some row.collectionId → row ∈ items)
    (hkept : ∀ row ∈ items, ∀ version ∈ t.writes, version.key = row.key → row ∈ items') : Knows items' t stage := by
  cases stage with
  | started => exact h
  | locked id owner => exact h
  | next id position =>
    obtain ⟨hlocked, hwrites, hpos, hless⟩ := h
    exact ⟨hlocked, hwrites, hpos, fun row hrow hid => hless row (hrows row hrow (hid ▸ hlocked)) hid⟩
  | inserted id position =>
    obtain ⟨hlocked, hpos, hless, hwrites⟩ := h
    exact ⟨hlocked, hpos, fun row hrow hid => hless row (hrows row hrow (hid ▸ hlocked)) hid, hwrites⟩
  | reading id members done =>
    obtain ⟨hlocked, hmembers, hwrites, hdone⟩ := h
    refine ⟨hlocked, fun row hrow hid => hmembers row (hrows row hrow (hid ▸ hlocked)) hid, fun row hrow => ?_,
      fun update hupdate row hrow hid => hdone update hupdate row (hrows row hrow (hid ▸ hlocked)) hid⟩
    obtain ⟨hid, ⟨old, hold, hkey⟩, hupdate⟩ := hwrites row hrow
    exact ⟨hid, ⟨old, hkept old hold row hrow hkey.symm, hkey⟩, hupdate⟩
  | closed => trivial

/-- **The invariant.** -/
structure Isolated (faults : Prop) (w : World) (s : ItemWorld) (total : Multiset Progress) : Prop where
  server : s.server = w
  ordered : Ordered s.items
  fresh : ∀ tx, s.nextTx ≤ tx → s.txs tx = none
  known : ∀ p ∈ total, p.tx < s.nextTx
  once : (total.map Progress.tx).Nodup
  exclusive : ∀ tx tx' t t' id, s.txs tx = some t → s.txs tx' = some t' → t.locked = some id → t'.locked = some id →
    tx = tx'
  within : ∀ tx t, s.txs tx = some t → ∀ row ∈ t.writes, t.locked = some row.collectionId
  knows : ∀ p ∈ total, ∀ t, s.txs p.tx = some t → Knows s.items t p.stage
  ended : ∀ p ∈ total, ¬ p.stage.Open → s.txs p.tx = none
  running : ¬ faults → ∀ p ∈ total, p.stage.Open → ∃ t, s.txs p.tx = some t

section Step

variable {faults : Prop} {w : World} {s s' : ItemWorld} {g f total : Multiset Progress} {tx : ℕ} {stage : Stage}
  {φ : Stage → Stage} {t t' : Tx}

@[simp] theorem tx_advance (p : Progress) : (p.advance tx φ).tx = p.tx := by
  unfold Progress.advance
  split
  · rename_i h
    exact h.symm
  · rfl

theorem map_tx_advance (g f : Multiset Progress) :
    (Multiset.map (Progress.advance tx φ) g + f).map Progress.tx = (g + f).map Progress.tx := by
  rw [Multiset.map_add, Multiset.map_add, Multiset.map_map]
  simp only [Function.comp_def, tx_advance]

/-- There is one entry for a transaction. -/
theorem of_mem_advance (hnodup : ((g + f).map Progress.tx).Nodup) (hg : ⟨tx, stage⟩ ∈ g) {p : Progress}
    (hp : p ∈ g.map (.advance tx φ) + f) : p = ⟨tx, φ stage⟩ ∨ p ∈ g + f ∧ p.tx ≠ tx := by
  rcases Multiset.mem_add.1 hp with hp | hp
  · obtain ⟨q, hq, rfl⟩ := Multiset.mem_map.1 hp
    by_cases htx : q.tx = tx
    · left
      have heq : q = ⟨tx, stage⟩ := Multiset.inj_on_of_nodup_map hnodup q (Multiset.mem_add.2 (.inl hq)) _
        (Multiset.mem_add.2 (.inl hg)) htx
      rw [heq]
      simp [Progress.advance]
    · right
      have hsame : q.advance tx φ = q := if_neg htx
      rw [hsame]
      exact ⟨Multiset.mem_add.2 (.inl hq), htx⟩
  · refine .inr ⟨Multiset.mem_add.2 (.inr hp), fun htx => ?_⟩
    rw [Multiset.map_add, Multiset.nodup_add] at hnodup
    exact Multiset.disjoint_left.1 hnodup.2.2 (Multiset.mem_map_of_mem Progress.tx hg)
      (Multiset.mem_map.2 ⟨p, hp, htx⟩)

theorem withTx_self (h : s.txs tx = some t) : s.withTx tx (some t) = s := by
  unfold ItemWorld.withTx
  rw [← h, Function.update_eq_self]

theorem withTx_txs (s : ItemWorld) (tx : ℕ) (t : Option Tx) (tx' : ℕ) :
    (s.withTx tx t).txs tx' = if tx' = tx then t else s.txs tx' := by
  unfold ItemWorld.withTx
  by_cases h : tx' = tx
  · subst h
    simp
  · simp [h]

/-- The transactions stay the same, and known. -/
theorem Isolated.known_advance (h : Isolated faults w s (g + f)) {p : Progress}
    (hp : p ∈ Multiset.map (Progress.advance tx φ) g + f) : p.tx < s.nextTx := by
  have hmem := Multiset.mem_map_of_mem Progress.tx hp
  rw [map_tx_advance] at hmem
  obtain ⟨q, hq, heq⟩ := Multiset.mem_map.1 hmem
  exact heq ▸ h.known q hq

theorem Isolated.open_lt (h : Isolated faults w s total) (ht : s.txs tx = some t) : tx < s.nextTx := by
  by_contra hlt
  cases (h.fresh tx (not_lt.1 hlt)).symm.trans ht

/-- A transaction that is open goes on. -/
theorem Isolated.write (h : Isolated faults w s (g + f)) (hg : ⟨tx, stage⟩ ∈ g) (ht : s.txs tx = some t)
    (hlock : ∀ id, t'.locked = some id → t.locked = some id ∨ s.Free tx id)
    (hwithin : ∀ row ∈ t'.writes, t'.locked = some row.collectionId) (hknows : Knows s.items t' (φ stage))
    (hopen : (φ stage).Open) : Isolated faults w (s.withTx tx (some t')) (g.map (.advance tx φ) + f) where
  server := h.server
  ordered := h.ordered
  fresh tx' htx' := by
    have hnone := h.fresh tx' htx'
    have hne : tx' ≠ tx := by
      rintro rfl
      rw [ht] at hnone
      cases hnone
    rw [withTx_txs, if_neg hne]
    exact hnone
  known p hp := h.known_advance hp
  once := by
    rw [map_tx_advance]
    exact h.once
  exclusive tx₁ tx₂ t₁ t₂ id h₁ h₂ hid₁ hid₂ := by
    have hfree : ∀ tx' u, tx' ≠ tx → s.txs tx' = some u → u.locked = some id → t'.locked = some id → False := by
      intro tx' u hne hu hid hid'
      rcases hlock id hid' with hold | hfree
      · exact hne (h.exclusive tx' tx u t id hu ht hid hold)
      · exact hfree tx' (h.open_lt hu) hne u hu hid
    rw [withTx_txs] at h₁ h₂
    split at h₁
    · rename_i heq₁
      cases h₁
      split at h₂
      · rename_i heq₂
        exact heq₁.trans heq₂.symm
      · rename_i hne
        exact (hfree tx₂ t₂ hne h₂ hid₂ hid₁).elim
    · rename_i hne
      split at h₂
      · cases h₂
        exact (hfree tx₁ t₁ hne h₁ hid₁ hid₂).elim
      · exact h.exclusive tx₁ tx₂ t₁ t₂ id h₁ h₂ hid₁ hid₂
  within tx' u hu := by
    rw [withTx_txs] at hu
    split at hu
    · cases hu
      exact hwithin
    · exact h.within tx' u hu
  knows p hp u hu := by
    rw [withTx_txs] at hu
    rcases of_mem_advance h.once hg hp with rfl | ⟨hold, hne⟩
    · rw [if_pos rfl] at hu
      cases hu
      exact hknows
    · rw [if_neg hne] at hu
      exact h.knows p hold u hu
  ended p hp hclosed := by
    rcases of_mem_advance h.once hg hp with rfl | ⟨hold, hne⟩
    · exact absurd hopen hclosed
    · rw [withTx_txs, if_neg hne]
      exact h.ended p hold hclosed
  running hf p hp hrunning := by
    rw [withTx_txs]
    rcases of_mem_advance h.once hg hp with rfl | ⟨hold, hne⟩
    · exact ⟨t', if_pos rfl⟩
    · rw [if_neg hne]
      exact h.running hf p hold hrunning

/-- A transaction that reads goes on. -/
theorem Isolated.look (h : Isolated faults w s (g + f)) (hg : ⟨tx, stage⟩ ∈ g) (ht : s.txs tx = some t)
    (hknows : Knows s.items t (φ stage)) (hopen : (φ stage).Open) :
    Isolated faults w s (g.map (.advance tx φ) + f) := by
  have hwrite := h.write hg ht (fun _ hid => .inl hid) (h.within tx t ht) hknows hopen
  rwa [withTx_self ht] at hwrite

/-- A transaction is over, and no request goes on with it. -/
theorem Isolated.over {total' : Multiset Progress} (h : Isolated faults w s total)
    (htxs : total'.map Progress.tx = total.map Progress.tx)
    (hmem : ∀ p ∈ total', p.tx = tx ∧ ¬ p.stage.Open ∨ p ∈ total ∧ (p.tx = tx → faults)) :
    Isolated faults w (s.withTx tx none) total' where
  server := h.server
  ordered := h.ordered
  fresh tx' htx' := by
    rw [withTx_txs]
    split
    · rfl
    · exact h.fresh tx' htx'
  known p hp := by
    have hp' := Multiset.mem_map_of_mem Progress.tx hp
    rw [htxs] at hp'
    obtain ⟨q, hq, heq⟩ := Multiset.mem_map.1 hp'
    exact heq ▸ h.known q hq
  once := htxs ▸ h.once
  exclusive tx₁ tx₂ t₁ t₂ id h₁ h₂ := by
    rw [withTx_txs] at h₁ h₂
    split at h₁
    · cases h₁
    · split at h₂
      · cases h₂
      · exact h.exclusive tx₁ tx₂ t₁ t₂ id h₁ h₂
  within tx' u hu := by
    rw [withTx_txs] at hu
    split at hu
    · cases hu
    · exact h.within tx' u hu
  knows p hp u hu := by
    rw [withTx_txs] at hu
    split at hu
    · cases hu
    · rename_i hne
      rcases hmem p hp with ⟨htx, -⟩ | ⟨hold, -⟩
      · exact absurd htx hne
      · exact h.knows p hold u hu
  ended p hp hended := by
    rw [withTx_txs]
    split
    · rfl
    · rename_i hne
      rcases hmem p hp with ⟨htx, -⟩ | ⟨hold, -⟩
      · exact absurd htx hne
      · exact h.ended p hold hended
  running hf p hp hrunning := by
    rcases hmem p hp with ⟨-, hclosed⟩ | ⟨hold, hfaults⟩
    · exact absurd hrunning hclosed
    · rw [withTx_txs, if_neg fun htx => hf (hfaults htx)]
      exact h.running hf p hold hrunning

/-- A transaction ends. -/
theorem Isolated.quit (h : Isolated faults w s (g + f)) (hg : ⟨tx, stage⟩ ∈ g) (hclosed : ¬ (φ stage).Open) :
    Isolated faults w (s.withTx tx none) (g.map (.advance tx φ) + f) := by
  refine h.over (map_tx_advance g f) fun p hp => ?_
  rcases of_mem_advance h.once hg hp with rfl | ⟨hold, hne⟩
  · exact .inl ⟨rfl, hclosed⟩
  · exact .inr ⟨hold, fun htx => absurd htx hne⟩

/-- A transaction begins. -/
theorem Isolated.begins (h : Isolated faults w s total) :
    Isolated faults w { s.withTx s.nextTx (some ⟨none, .empty⟩) with nextTx := s.nextTx + 1 }
      ({⟨s.nextTx, .started⟩} + total) where
  server := h.server
  ordered := h.ordered
  fresh tx' htx' := by
    show (s.withTx s.nextTx (some ⟨none, .empty⟩)).txs tx' = none
    rw [withTx_txs, if_neg (Nat.ne_of_gt (Nat.lt_of_succ_le htx'))]
    exact h.fresh tx' (Nat.le_of_succ_le htx')
  known p hp := by
    rcases Multiset.mem_add.1 hp with hp | hp
    · rw [Multiset.mem_singleton.1 hp]
      exact Nat.lt_succ_self _
    · exact Nat.lt_succ_of_lt (h.known p hp)
  once := by
    rw [Multiset.map_add, Multiset.map_singleton, Multiset.singleton_add, Multiset.nodup_cons]
    refine ⟨fun hmem => ?_, h.once⟩
    obtain ⟨p, hp, heq⟩ := Multiset.mem_map.1 hmem
    exact absurd (h.known p hp) (heq ▸ Nat.lt_irrefl _)
  exclusive tx₁ tx₂ t₁ t₂ id h₁ h₂ hid₁ hid₂ := by
    rw [withTx_txs] at h₁ h₂
    split at h₁
    · cases h₁
      cases hid₁
    · split at h₂
      · cases h₂
        cases hid₂
      · exact h.exclusive tx₁ tx₂ t₁ t₂ id h₁ h₂ hid₁ hid₂
  within tx' u hu := by
    rw [withTx_txs] at hu
    split at hu
    · cases hu
      exact fun row hrow => absurd hrow Keyed.notMem_empty
    · exact h.within tx' u hu
  knows p hp u hu := by
    rw [withTx_txs] at hu
    rcases Multiset.mem_add.1 hp with hp | hp
    · obtain rfl := Multiset.mem_singleton.1 hp
      rw [if_pos rfl] at hu
      cases hu
      exact ⟨rfl, fun _ => Keyed.notMem_empty⟩
    · rw [if_neg (Nat.ne_of_lt (h.known p hp))] at hu
      exact h.knows p hp u hu
  ended p hp hended := by
    show (s.withTx s.nextTx (some ⟨none, .empty⟩)).txs p.tx = none
    rcases Multiset.mem_add.1 hp with hp | hp
    · obtain rfl := Multiset.mem_singleton.1 hp
      exact absurd trivial hended
    · rw [withTx_txs, if_neg (Nat.ne_of_lt (h.known p hp))]
      exact h.ended p hp hended
  running hf p hp hrunning := by
    show ∃ t, (s.withTx s.nextTx (some ⟨none, .empty⟩)).txs p.tx = some t
    rcases Multiset.mem_add.1 hp with hp | hp
    · obtain rfl := Multiset.mem_singleton.1 hp
      exact ⟨_, by rw [withTx_txs, if_pos rfl]⟩
    · rw [withTx_txs, if_neg (Nat.ne_of_lt (h.known p hp))]
      exact h.running hf p hp hrunning

/-- A request ends. -/
theorem Isolated.mono {total' : Multiset Progress} (h : Isolated faults w s total) (hle : total' ≤ total) :
    Isolated faults w s total' where
  server := h.server
  ordered := h.ordered
  fresh := h.fresh
  known p hp := h.known p (Multiset.mem_of_le hle hp)
  once := Multiset.nodup_of_le (Multiset.map_le_map hle) h.once
  exclusive := h.exclusive
  within := h.within
  knows p hp := h.knows p (Multiset.mem_of_le hle hp)
  ended p hp := h.ended p (Multiset.mem_of_le hle hp)
  running hf p hp := h.running hf p (Multiset.mem_of_le hle hp)

/-- The committed rows change, but for those of the collections that are locked and those that have versions. -/
theorem Isolated.rows (h : Isolated faults w s total) {items : ItemTable} (hordered : Ordered items)
    (hnew : ∀ tx t, s.txs tx = some t → ∀ row ∈ items, t.locked = some row.collectionId → row ∈ s.items)
    (hkept : ∀ tx t, s.txs tx = some t → ∀ row ∈ s.items, ∀ version ∈ t.writes, version.key = row.key → row ∈ items) :
    Isolated faults w { s with items := items } total where
  server := h.server
  ordered := hordered
  fresh := h.fresh
  known := h.known
  once := h.once
  exclusive := h.exclusive
  within := h.within
  knows p hp t ht := (h.knows p hp t ht).anti (hnew p.tx t ht) (hkept p.tx t ht)
  ended := h.ended
  running := h.running

/-- An item is removed of which no transaction has a version. -/
theorem Isolated.removes (h : Isolated faults w s total) {row : CollectionItem} (hfree : ¬ s.Versioned row.key) :
    Isolated faults w { s with items := s.items.delete fun other => other.key = row.key } total := by
  refine h.rows ⟨fun r hr => ?_, fun r hr r' hr' => ?_⟩ (fun _ _ _ r hr _ => (Keyed.mem_delete.1 hr).1) ?_
  · exact h.ordered.nonneg r (Keyed.mem_delete.1 hr).1
  · exact h.ordered.distinct r (Keyed.mem_delete.1 hr).1 r' (Keyed.mem_delete.1 hr').1
  · intro tx t ht r hr version hversion hkey
    refine Keyed.mem_delete.2 ⟨hr, decide_eq_false fun heq => hfree ?_⟩
    exact ⟨tx, h.open_lt ht, t, ht, version, hversion, hkey.trans heq⟩

/-- A transaction commits. -/
theorem Isolated.commits (h : Isolated faults w s (g + f)) (hg : ⟨tx, stage⟩ ∈ g) (hclosed : ¬ (φ stage).Open)
    (ht : s.txs tx = some t) (hordered : Ordered (s.items.overlay t.writes)) :
    Isolated faults w { s.withTx tx none with items := s.items.overlay t.writes } (g.map (.advance tx φ) + f) := by
  have hother : ∀ tx' u, (s.withTx tx none).txs tx' = some u → s.txs tx' = some u ∧ tx' ≠ tx := by
    intro tx' u hu
    rw [withTx_txs] at hu
    split at hu
    · cases hu
    · rename_i hne
      exact ⟨hu, hne⟩
  refine (h.quit hg hclosed).rows hordered (fun tx' u hu row hrow hlocked => ?_)
    fun tx' u hu row hrow version hversion hkey => ?_
  · obtain ⟨hu, hne⟩ := hother tx' u hu
    rcases Keyed.mem_overlay.1 hrow with hwrite | ⟨hrow, -⟩
    · exact absurd (h.exclusive tx' tx u t _ hu ht hlocked (h.within tx t ht row hwrite)) hne
    · exact hrow
  · obtain ⟨hu, hne⟩ := hother tx' u hu
    refine Keyed.mem_overlay.2 (.inr ⟨hrow, fun r hr heq => hne ?_⟩)
    have hlocked := h.within tx' u hu version hversion
    have hsame : version.collectionId = r.collectionId := congrArg Prod.fst (hkey.trans heq.symm)
    exact h.exclusive tx' tx u t r.collectionId hu ht (hsame ▸ hlocked) (h.within tx t ht r hr)

end Step

/-! ## What a transaction commits -/

section Commit

variable {items : ItemTable} {t : Tx} {id : Uuid} {position : ℤ} {members : List CollectionItem} {done : List Update}
  {inputs : List PositionInput}

theorem mem_overlay_of_none (hwrites : ∀ row, row ∉ t.writes) {row : CollectionItem} :
    row ∈ items.overlay t.writes ↔ row ∈ items := by
  rw [Keyed.mem_overlay]
  constructor
  · rintro (hrow | ⟨hrow, -⟩)
    · exact absurd hrow (hwrites row)
    · exact hrow
  · exact fun hrow => .inr ⟨hrow, fun r hr => absurd hr (hwrites r)⟩

/-- With the row of `add_item`. -/
theorem Knows.ordered_inserted (hordered : Ordered items) (h : Knows items t (.inserted id position)) :
    Ordered (items.overlay t.writes) := by
  obtain ⟨-, hpos, hless, hwrites, honce⟩ := h
  have hfresh : ∀ row ∈ t.writes, ∀ row' ∈ items, row.collectionId = row'.collectionId →
      row'.position < row.position := by
    intro row hrow row' hrow' hid
    obtain ⟨hcollection, hposition⟩ := hwrites row hrow
    rw [hposition]
    exact hless row' hrow' (hid.symm.trans hcollection)
  refine ⟨fun row hrow => ?_, fun row hrow row' hrow' hid hposition => ?_⟩
  · rcases Keyed.mem_overlay.1 hrow with hrow | ⟨hrow, -⟩
    · rw [(hwrites row hrow).2]
      exact hpos
    · exact hordered.nonneg row hrow
  · rcases Keyed.mem_overlay.1 hrow with hrow | ⟨hrow, -⟩
    · rcases Keyed.mem_overlay.1 hrow' with hrow' | ⟨hrow', -⟩
      · exact honce row hrow row' hrow'
      · exact absurd hposition (hfresh row hrow row' hrow' hid).ne'
    · rcases Keyed.mem_overlay.1 hrow' with hrow' | ⟨hrow', -⟩
      · exact absurd hposition (hfresh row' hrow' row hrow hid.symm).ne
      · exact hordered.distinct row hrow row' hrow' hid hposition

/-- An update that has been made is one of the list. -/
theorem Complete.of_update (h : Complete inputs members done) {update : Update} (hupdate : update ∈ done) :
    ∃ input ∈ inputs, input.key = update.key ∧ input.position = update.position := by
  have hmem : (update.key, update.position) ∈ done.map fun update => (update.key, update.position) :=
    List.mem_map_of_mem hupdate
  rw [h.updates, List.mem_reverse] at hmem
  obtain ⟨input, hinput, heq⟩ := List.mem_map.1 hmem
  exact ⟨input, hinput, congrArg Prod.fst heq, congrArg Prod.snd heq⟩

theorem Complete.of_input (h : Complete inputs members done) {input : PositionInput} (hinput : input ∈ inputs) :
    ∃ update ∈ done, update.key = input.key ∧ update.position = input.position := by
  have hmem : (input.key, input.position) ∈ done.map fun update => (update.key, update.position) := by
    rw [h.updates, List.mem_reverse]
    exact List.mem_map_of_mem hinput
  obtain ⟨update, hupdate, heq⟩ := List.mem_map.1 hmem
  exact ⟨update, hupdate, congrArg Prod.fst heq, congrArg Prod.snd heq⟩

/-- What a list does to the rows of a collection: it changes their positions to those that are supplied. -/
structure Reordered (items items' : ItemTable) (id : Uuid) (inputs : List PositionInput) : Prop where
  others : ∀ row, row.collectionId ≠ id → (row ∈ items' ↔ row ∈ items)
  members : ∀ item, (∃ row ∈ items', row.key = (id, item)) ↔ ∃ row ∈ items, row.key = (id, item)
  supplied : ∀ row ∈ items', row.collectionId = id → ∃ input ∈ inputs, input.key = row.item.key
  positions : ∀ row ∈ items', row.collectionId = id → ∀ input ∈ inputs, input.key = row.item.key →
    row.position = input.position
  sorted : ∀ row ∈ items', row.collectionId = id → ∀ row' ∈ items', row'.collectionId = id → ∀ input ∈ inputs,
    input.key = row.item.key → ∀ input' ∈ inputs, input'.key = row'.item.key →
      (row.position < row'.position ↔ input.position < input'.position)

variable (h : Knows items t (.reading id members done)) (hcomplete : Complete inputs members done)
include h hcomplete

/-- A row that is left has a version. -/
theorem Knows.version {row : CollectionItem} (hrow : row ∈ items) (hid : row.collectionId = id) :
    ∃ version ∈ t.writes, version.key = row.key := by
  obtain ⟨-, hmembers, hwrites, hdone⟩ := h
  obtain ⟨member, hmember, hitem⟩ := hmembers row hrow hid
  have hkey : row.item.key ∈ inputs.map PositionInput.key := by
    rw [hcomplete.names.mem_iff, ← hitem]
    exact List.mem_map_of_mem hmember
  obtain ⟨input, hinput, heq⟩ := List.mem_map.1 hkey
  obtain ⟨update, hupdate, hsame, -⟩ := hcomplete.of_input hinput
  obtain ⟨version, hversion, hitem'⟩ := hdone update hupdate row hrow hid (heq.symm.trans hsame.symm)
  exact ⟨version, hversion, Prod.ext ((hwrites version hversion).1.trans hid.symm) hitem'⟩

/-- A row of the collection is then a version. -/
theorem Knows.is_version {row : CollectionItem} (hrow : row ∈ items.overlay t.writes) (hid : row.collectionId = id) :
    row ∈ t.writes := by
  rcases Keyed.mem_overlay.1 hrow with hrow | ⟨hrow, hnone⟩
  · exact hrow
  · obtain ⟨version, hversion, hkey⟩ := h.version hcomplete hrow hid
    exact absurd hkey (hnone version hversion)

/-- Its position is one of the list. -/
theorem Knows.input {row : CollectionItem} (hrow : row ∈ t.writes) :
    ∃ input ∈ inputs, input.key = row.item.key ∧ input.position = row.position := by
  obtain ⟨-, -, hwrites, -⟩ := h
  obtain ⟨-, -, update, hupdate, hkey, hposition⟩ := hwrites row hrow
  obtain ⟨input, hinput, hkey', hposition'⟩ := hcomplete.of_update hupdate
  exact ⟨input, hinput, hkey'.trans hkey, hposition'.trans hposition⟩

/-- With the versions of `reorder`. -/
theorem Knows.ordered_reading (hordered : Ordered items) : Ordered (items.overlay t.writes) := by
  have hwrites := h.2.2.1
  refine ⟨fun row hrow => ?_, fun row hrow row' hrow' hid hposition => ?_⟩
  · rcases Keyed.mem_overlay.1 hrow with hrow | ⟨hrow, -⟩
    · obtain ⟨input, hinput, -, hposition⟩ := h.input hcomplete hrow
      exact hposition ▸ hcomplete.nonneg input hinput
    · exact hordered.nonneg row hrow
  · by_cases hcollection : row.collectionId = id
    · have hversion := h.is_version hcomplete hrow hcollection
      have hversion' := h.is_version hcomplete hrow' (hid.symm.trans hcollection)
      obtain ⟨input, hinput, hkey, hpos⟩ := h.input hcomplete hversion
      obtain ⟨input', hinput', hkey', hpos'⟩ := h.input hcomplete hversion'
      obtain rfl : input = input' := List.inj_on_of_nodup_map hcomplete.distinct hinput hinput'
        (hpos.trans (hposition.trans hpos'.symm))
      have hitem : row.item = row'.item := Item.key_injective (hkey.symm.trans hkey')
      exact Keyed.eq_of_col hversion hversion' (Prod.ext hid hitem)
    · have hold : ∀ r ∈ items.overlay t.writes, r.collectionId ≠ id → r ∈ items := by
        intro r hr hne
        rcases Keyed.mem_overlay.1 hr with hr | ⟨hr, -⟩
        · exact absurd (hwrites r hr).1 hne
        · exact hr
      exact hordered.distinct row (hold row hrow hcollection) row' (hold row' hrow' (hid ▸ hcollection)) hid hposition

/-- **What a reorder commits**: the order that is supplied, and nothing else. -/
theorem Knows.reordered : Reordered items (items.overlay t.writes) id inputs := by
  have hpositions : ∀ row ∈ items.overlay t.writes, row.collectionId = id → ∀ input ∈ inputs,
      input.key = row.item.key → row.position = input.position := by
    intro row hrow hid input hinput hkey
    obtain ⟨input', hinput', hkey', hposition⟩ := h.input hcomplete (h.is_version hcomplete hrow hid)
    obtain rfl : input = input' := List.inj_on_of_nodup_map hcomplete.keys hinput hinput' (hkey.trans hkey'.symm)
    exact hposition.symm
  refine ⟨fun row hne => ?_, fun item => ?_, fun row hrow hid => ?_, hpositions, ?_⟩
  · rw [Keyed.mem_overlay]
    constructor
    · rintro (hrow | ⟨hrow, -⟩)
      · exact absurd (h.2.2.1 row hrow).1 hne
      · exact hrow
    · intro hrow
      refine .inr ⟨hrow, fun version hversion hkey => hne ?_⟩
      exact (congrArg Prod.fst hkey).symm.trans (h.2.2.1 version hversion).1
  · constructor
    · rintro ⟨row, hrow, hkey⟩
      obtain ⟨-, ⟨old, hold, hsame⟩, -⟩ := h.2.2.1 row (h.is_version hcomplete hrow (congrArg Prod.fst hkey))
      exact ⟨old, hold, hsame.trans hkey⟩
    · rintro ⟨row, hrow, hkey⟩
      obtain ⟨version, hversion, hsame⟩ := h.version hcomplete hrow (congrArg Prod.fst hkey)
      exact ⟨version, Keyed.mem_overlay.2 (.inl hversion), hsame.trans hkey⟩
  · obtain ⟨input, hinput, hkey, -⟩ := h.input hcomplete (h.is_version hcomplete hrow hid)
    exact ⟨input, hinput, hkey⟩
  · intro row hrow hid row' hrow' hid' input hinput hkey input' hinput' hkey'
    rw [hpositions row hrow hid input hinput hkey, hpositions row' hrow' hid' input' hinput' hkey']

end Commit

/-! ## One operation -/

section Operation

variable {faults : Prop} {w : World} {s s' : ItemWorld} {g f : Multiset Progress} {tx : ℕ} {stage : Stage}
  {req : ItemRequest} {id : Uuid}

/-- A statement fails only where there are failures. -/
theorem Isolated.faulty (h : Isolated faults w s (g + f)) (hg : ⟨tx, stage⟩ ∈ g) (hopen : stage.Open)
    (hfail : faults ∨ s.txs tx = none) : faults := by
  rcases hfail with hfaults | hnone
  · exact hfaults
  · by_contra hf
    obtain ⟨t, ht⟩ := h.running hf _ (Multiset.mem_add.2 (.inl hg)) hopen
    cases hnone.symm.trans ht

theorem Isolated.knows_of (h : Isolated faults w s (g + f)) (hg : ⟨tx, stage⟩ ∈ g) {t : Tx} (ht : s.txs tx = some t) :
    Knows s.items t stage := h.knows _ (Multiset.mem_add.2 (.inl hg)) t ht

theorem not_open_close (committed : Bool) (stage : Stage) : ¬ (stage.close committed).Open := by
  cases stage <;> exact fun h => h

theorem Isolated.step_lockCollection (h : Isolated faults w s (g + f)) (hg : ⟨tx, .started⟩ ∈ g)
    {r : ItemOp.Res (.lockCollection tx id)} (hexec : execItem faults s (.lockCollection tx id) r s') :
    Answers faults w (.lockCollection tx id) r ∧ Isolated faults w s' (observe g (.lockCollection tx id) r + f) := by
  rcases hexec with ⟨t, ht, hin⟩ | ⟨hfail, ⟨e, rfl⟩, rfl⟩
  · obtain ⟨hlocked, hwrites⟩ := h.knows_of hg ht
    cases hfind : s.server.collections.find? id with
    | none =>
      simp only [inTx, hfind] at hin
      obtain ⟨rfl, rfl⟩ := hin
      refine ⟨⟨fun owner howner => ?_, fun _ => ⟨none, rfl⟩⟩, ?_⟩
      · cases howner
        rw [← h.server, hfind]
        rfl
      · have hknows : Knows s'.items t (.locked id none) := ⟨.inl rfl, hwrites⟩
        exact h.look hg ht hknows trivial
    | some collection =>
      simp only [inTx, hfind] at hin
      obtain ⟨hfree, rfl, rfl⟩ := hin
      refine ⟨⟨fun owner howner => ?_, fun _ => ⟨some collection.ownerId, rfl⟩⟩, ?_⟩
      · cases howner
        rw [← h.server, hfind]
        rfl
      · have hknows : Knows s.items { t with locked := some id } (.locked id (some collection.ownerId)) :=
          ⟨.inr rfl, hwrites⟩
        refine h.write hg ht (fun id' hid => ?_) (fun row hrow => absurd hrow (hwrites row)) hknows trivial
        cases hid
        exact .inr hfree
  · have hfaults := h.faulty hg trivial hfail
    exact ⟨⟨fun _ heq => (by cases heq), fun hf => absurd hfaults hf⟩, h⟩

/-- The next position is beyond the others. -/
theorem next_spec (items : ItemTable) (hordered : Ordered items) (id : Uuid) :
    0 ≤ items.next id ∧ ∀ row ∈ items, row.collectionId = id → row.position < items.next id := by
  unfold ItemTable.next
  have hof : ∀ row ∈ items, row.collectionId = id → row.position ∈ (items.of id).map CollectionItem.position :=
    fun row hrow hid => List.mem_map_of_mem (List.mem_filter.2 ⟨hrow, decide_eq_true hid⟩)
  cases hmax : ((items.of id).map CollectionItem.position).max? with
  | none =>
    have hempty := List.max?_eq_none_iff.1 hmax
    refine ⟨le_refl _, fun row hrow hid => ?_⟩
    have hmem := hof row hrow hid
    rw [hempty] at hmem
    cases hmem
  | some n =>
    obtain ⟨hn, hmost⟩ := List.max?_eq_some_iff.1 hmax
    obtain ⟨row, hrow, rfl⟩ := List.mem_map.1 hn
    have hpos := hordered.nonneg row (List.mem_filter.1 hrow).1
    refine ⟨?_, fun row' hrow' hid => ?_⟩
    · show 0 ≤ row.position + 1
      omega
    · exact Int.lt_add_one_of_le (hmost _ (hof row' hrow' hid))

theorem Isolated.step_nextPosition (h : Isolated faults w s (g + f)) {owner : Uuid}
    (hg : ⟨tx, .locked id (some owner)⟩ ∈ g) {r : ItemOp.Res (.nextPosition tx id)}
    (hexec : execItem faults s (.nextPosition tx id) r s') :
    Isolated faults w s' (observe g (.nextPosition tx id) r + f) := by
  rcases hexec with ⟨t, ht, rfl, hs⟩ | ⟨-, ⟨e, rfl⟩, rfl⟩
  · obtain ⟨hlocked, hwrites⟩ := h.knows_of hg ht
    have hsame : ∀ row, row ∈ s.items.overlay t.writes ↔ row ∈ s.items := fun row => mem_overlay_of_none hwrites
    have hordered : Ordered (s.items.overlay t.writes) := by
      refine ⟨fun row hrow => h.ordered.nonneg row ((hsame row).1 hrow), fun row hrow row' hrow' => ?_⟩
      exact h.ordered.distinct row ((hsame row).1 hrow) row' ((hsame row').1 hrow')
    obtain ⟨hpos, hless⟩ := next_spec _ hordered id
    have hknows : Knows s.items t (.next id (ItemTable.next (s.items.overlay t.writes) id)) :=
      ⟨hlocked.resolve_left nofun, hwrites, hpos, fun row hrow => hless row ((hsame row).2 hrow)⟩
    rw [hs]
    exact h.look hg ht hknows trivial
  · exact h

theorem Isolated.step_insertItem (h : Isolated faults w s (g + f)) {row : CollectionItem}
    (hg : ⟨tx, .next row.collectionId row.position⟩ ∈ g) {r : ItemOp.Res (.insertItem tx row)}
    (hexec : execItem faults s (.insertItem tx row) r s') :
    Isolated faults w s' (observe g (.insertItem tx row) r + f) := by
  rcases hexec with ⟨t, ht, hin⟩ | ⟨-, ⟨e, rfl⟩, rfl⟩
  · obtain ⟨hlocked, hwrites, hpos, hless⟩ := h.knows_of hg ht
    simp only [inTx] at hin
    split at hin
    · have hknows : ∀ writes : ItemTable, (∀ r ∈ writes, r = row) →
          Knows s.items ⟨t.locked, writes⟩ (.inserted row.collectionId row.position) := by
        intro writes hone
        refine ⟨hlocked, hpos, hless, fun r hr => ?_, fun r hr r' hr' => (hone r hr).trans (hone r' hr').symm⟩
        rw [hone r hr]
        exact ⟨rfl, rfl⟩
      split at hin
      · obtain ⟨rfl, hs⟩ := hin
        rw [hs]
        exact h.look hg ht (hknows t.writes fun r hr => absurd hr (hwrites r)) trivial
      · obtain ⟨-, rfl, rfl⟩ := hin
        have hone : ∀ r ∈ t.writes.put row, r = row := by
          intro r hr
          rcases Keyed.mem_put.1 hr with heq | ⟨hr, -⟩
          · exact heq
          · exact absurd hr (hwrites r)
        refine h.write hg ht (fun _ hid => .inl hid) (fun r hr => ?_) (hknows _ hone) trivial
        rw [hone r hr]
        exact hlocked
    · obtain ⟨rfl, rfl⟩ := hin
      exact h
  · exact h

/-- The rows of a collection are of different items. -/
theorem nodup_of {items : ItemTable} {rows : List CollectionItem} (hrows : rows.Perm (items.of id)) :
    (rows.map fun row => row.item.key).Nodup := by
  have hof : ((items.of id).map fun row => row.item.key).Nodup := by
    refine List.Nodup.map_on (fun row hrow row' hrow' hkey => ?_) (items.unique.of_map.filter _)
    obtain ⟨hrow, hid⟩ := List.mem_filter.1 hrow
    obtain ⟨hrow', hid'⟩ := List.mem_filter.1 hrow'
    have hsame : row.collectionId = row'.collectionId := (of_decide_eq_true hid).trans (of_decide_eq_true hid').symm
    exact Keyed.eq_of_col hrow hrow' (Prod.ext hsame (Item.key_injective hkey))
  exact (hrows.map fun row => row.item.key).nodup_iff.2 hof

theorem Isolated.step_readMembers (h : Isolated faults w s (g + f)) {owner : Uuid}
    (hg : ⟨tx, .locked id (some owner)⟩ ∈ g) {r : ItemOp.Res (.readMembers tx id)}
    (hexec : execItem faults s (.readMembers tx id) r s') :
    Answers faults w (.readMembers tx id) r ∧ Isolated faults w s' (observe g (.readMembers tx id) r + f) := by
  rcases hexec with ⟨t, ht, rows, hrows, rfl, hs⟩ | ⟨hfail, ⟨e, rfl⟩, rfl⟩
  · obtain ⟨hlocked, hwrites⟩ := h.knows_of hg ht
    refine ⟨⟨fun members hmembers => ?_, fun _ => ⟨rows, rfl⟩⟩, ?_⟩
    · cases hmembers
      exact nodup_of hrows
    · have hread : ∀ row ∈ s.items, row.collectionId = id → ∃ member ∈ rows, member.item = row.item := by
        intro row hrow hid
        refine ⟨row, hrows.mem_iff.2 (List.mem_filter.2 ⟨?_, decide_eq_true hid⟩), rfl⟩
        exact (mem_overlay_of_none hwrites).2 hrow
      have hknows : Knows s.items t (.reading id rows []) :=
        ⟨hlocked.resolve_left nofun, hread, fun row hrow => absurd hrow (hwrites row), nofun⟩
      rw [hs]
      exact h.look hg ht hknows trivial
  · have hfaults := h.faulty hg trivial hfail
    exact ⟨⟨nofun, fun hf => absurd hfaults hf⟩, h⟩

/-- A row that an update finds is not lost among the versions. -/
theorem named_spec {items : ItemTable} {t : Tx} {key : Text × Text} :
    match ItemTable.named (items.overlay t.writes) id key with
    | none => ∀ row ∈ items, row.collectionId = id → row.item.key = key → ∃ version ∈ t.writes, version.item = row.item
    | some row => row ∈ items.overlay t.writes ∧ row.collectionId = id ∧ row.item.key = key := by
  split
  · rename_i hnone
    intro row hrow hid hkey
    by_contra hno
    refine List.find?_eq_none.1 hnone row (Keyed.mem_overlay.2 (.inr ⟨hrow, fun version hversion heq => hno ?_⟩)) ?_
    · exact ⟨version, hversion, congrArg Prod.snd heq⟩
    · simp [hid, hkey]
  · rename_i row hsome
    have htest := List.find?_some hsome
    rw [Bool.and_eq_true, decide_eq_true_eq, decide_eq_true_eq] at htest
    exact ⟨List.mem_of_find?_eq_some hsome, htest⟩

/-- An update that finds no row. -/
theorem Knows.miss {items : ItemTable} {t : Tx} {members : List CollectionItem} {done : List Update}
    (h : Knows items t (.reading id members done)) {key : Text × Text} {position : ℤ}
    (hnone : ∀ row ∈ items, row.collectionId = id → row.item.key = key → ∃ version ∈ t.writes, version.item = row.item) :
    Knows items t (.reading id members (⟨key, position, 0⟩ :: done)) := by
  obtain ⟨hlocked, hmembers, hwrites, hdone⟩ := h
  refine ⟨hlocked, hmembers, fun row hrow => ?_, fun update hupdate row hrow hid hkey => ?_⟩
  · obtain ⟨hid, hold, update, hupdate, heq⟩ := hwrites row hrow
    exact ⟨hid, hold, update, List.mem_cons_of_mem _ hupdate, heq⟩
  · rcases List.mem_cons.1 hupdate with rfl | hupdate
    · exact hnone row hrow hid hkey
    · exact hdone update hupdate row hrow hid hkey

/-- An update that finds its row. -/
theorem Knows.hit {items : ItemTable} {t : Tx} {members : List CollectionItem} {done : List Update}
    (h : Knows items t (.reading id members done)) {row : CollectionItem} (hrow : row ∈ items.overlay t.writes)
    (hid : row.collectionId = id) {position : ℤ} :
    Knows items { t with writes := t.writes.put { row with position := position } }
      (.reading id members (⟨row.item.key, position, 1⟩ :: done)) := by
  obtain ⟨hlocked, hmembers, hwrites, hdone⟩ := h
  refine ⟨hlocked, hmembers, fun r hr => ?_, fun update hupdate r hr hid' hkey => ?_⟩
  · rcases Keyed.mem_put.1 hr with rfl | ⟨hr, -⟩
    · refine ⟨hid, ?_, _, List.mem_cons_self, rfl, rfl⟩
      rcases Keyed.mem_overlay.1 hrow with hwrite | ⟨hrow, -⟩
      · exact (hwrites row hwrite).2.1
      · exact ⟨row, hrow, rfl⟩
    · obtain ⟨hid', hold, update, hupdate, heq⟩ := hwrites r hr
      exact ⟨hid', hold, update, List.mem_cons_of_mem _ hupdate, heq⟩
  · by_cases hitem : row.item = r.item
    · exact ⟨_, Keyed.mem_put.2 (.inl rfl), hitem⟩
    · rcases List.mem_cons.1 hupdate with rfl | hupdate
      · exact absurd (Item.key_injective hkey).symm hitem
      · obtain ⟨version, hversion, heq⟩ := hdone update hupdate r hr hid' hkey
        refine ⟨version, Keyed.mem_put.2 (.inr ⟨hversion, fun hsame => hitem ?_⟩), heq⟩
        exact (congrArg Prod.snd hsame).symm.trans heq

theorem Isolated.step_setPosition (h : Isolated faults w s (g + f)) {members : List CollectionItem}
    {done : List Update} (hg : ⟨tx, .reading id members done⟩ ∈ g) {key : Text × Text} {position : ℤ}
    {r : ItemOp.Res (.setPosition tx id key position)}
    (hexec : execItem faults s (.setPosition tx id key position) r s') :
    Answers faults w (.setPosition tx id key position) r ∧
      Isolated faults w s' (observe g (.setPosition tx id key position) r + f) := by
  rcases hexec with ⟨t, ht, hin⟩ | ⟨hfail, ⟨e, rfl⟩, rfl⟩
  · have hknows := h.knows_of hg ht
    have hnamed := @named_spec id s.items t key
    simp only [inTx] at hin
    cases hfind : ItemTable.named (s.items.overlay t.writes) id key with
    | none =>
      simp only [hfind] at hin hnamed
      obtain ⟨hr, rfl⟩ := hin
      rcases hr with rfl | ⟨hunfit, rfl⟩
      · refine ⟨⟨fun found hfound => ?_, fun _ _ => ⟨0, rfl⟩⟩, h.look hg ht (hknows.miss hnamed) trivial⟩
        cases hfound
        exact .inr rfl
      · exact ⟨⟨fun _ heq => (by cases heq), fun _ hfits => absurd hfits hunfit⟩, h⟩
    | some row =>
      simp only [hfind] at hin hnamed
      obtain ⟨hrow, hid, rfl⟩ := hnamed
      split at hin
      · rename_i hfits
        obtain ⟨-, rfl, rfl⟩ := hin
        refine ⟨⟨fun _ _ => .inl hfits, fun _ _ => ⟨1, rfl⟩⟩, ?_⟩
        refine h.write hg ht (fun _ hid => .inl hid) (fun r hr => ?_) (hknows.hit hrow hid) trivial
        rcases Keyed.mem_put.1 hr with rfl | ⟨hr, -⟩
        · rw [hknows.1, ← hid]
        · exact h.within tx t ht r hr
      · rename_i hunfit
        obtain ⟨rfl, rfl⟩ := hin
        exact ⟨⟨fun _ heq => (by cases heq), fun _ hfits => absurd hfits hunfit⟩, h⟩
  · have hfaults := h.faulty hg trivial hfail
    exact ⟨⟨fun _ heq => (by cases heq), fun hf => absurd hfaults hf⟩, h⟩

/-- A transaction that may commit has an order. -/
theorem Isolated.commit_ordered (h : Isolated faults w s (g + f)) (hmay : MayItem req g (.commit tx)) :
    ∃ stage : Stage, ⟨tx, stage⟩ ∈ g ∧ stage.Open ∧
      ∀ t, s.txs tx = some t → Ordered (s.items.overlay t.writes) := by
  rcases hmay with ⟨_, _, _, _, _, -, hg⟩ | ⟨_, _, _, _, _, -, hg, hcomplete⟩
  · exact ⟨_, hg, trivial, fun t ht => (h.knows_of hg ht).ordered_inserted h.ordered⟩
  · exact ⟨_, hg, trivial, fun t ht => (h.knows_of hg ht).ordered_reading hcomplete h.ordered⟩

theorem Isolated.step_commit (h : Isolated faults w s (g + f)) (hmay : MayItem req g (.commit tx))
    {r : ItemOp.Res (.commit tx)} (hexec : execItem faults s (.commit tx) r s') :
    Answers faults w (.commit tx) r ∧ Isolated faults w s' (observe g (.commit tx) r + f) := by
  obtain ⟨stage, hg, hopen, hordered⟩ := h.commit_ordered hmay
  rcases hexec with ⟨t, ht, rfl, rfl⟩ | ⟨hfail, ⟨e, rfl⟩, rfl⟩
  · exact ⟨fun _ => rfl, h.commits hg (not_open_close true stage) ht (hordered t ht)⟩
  · have hfaults := h.faulty hg hopen hfail
    exact ⟨fun hf => absurd hfaults hf, h.quit hg (not_open_close false stage)⟩

/-- **One operation** keeps the invariant, and is answered as expected. -/
theorem Isolated.step {op : ItemOp} {r : op.Res} (h : Isolated faults w s (g + f)) (hmay : MayItem req g op)
    (hspared : Spared faults s g f op) (hexec : execItem faults s op r s') :
    Answers faults w op r ∧ Isolated faults w s' (observe g op r + f) := by
  cases op with
  | server op =>
    obtain ⟨w', hexec, rfl⟩ := hexec
    obtain rfl : w' = s.server := exec_read hexec hmay
    refine ⟨fun hf => ?_, h⟩
    rcases hexec with heq | ⟨hfaults, -⟩
    · rw [← h.server]
      exact congrArg Prod.fst heq
    · exact absurd hfaults hf
  | begin =>
    rcases hexec with ⟨rfl, rfl⟩ | ⟨hfaults, ⟨e, rfl⟩, rfl⟩
    · refine ⟨fun _ => ⟨_, rfl⟩, ?_⟩
      show Isolated faults w _ ({⟨s.nextTx, .started⟩} + g + f)
      rw [add_assoc]
      exact h.begins
    · exact ⟨fun hf => absurd hfaults hf, h⟩
  | lockCollection tx id => exact h.step_lockCollection hmay hexec
  | nextPosition tx id =>
    obtain ⟨owner, hg⟩ := hmay
    exact ⟨trivial, h.step_nextPosition hg hexec⟩
  | insertItem tx row => exact ⟨trivial, h.step_insertItem hmay hexec⟩
  | readMembers tx id =>
    obtain ⟨owner, hg⟩ := hmay
    exact h.step_readMembers hg hexec
  | setPosition tx id key position =>
    obtain ⟨members, done, hg⟩ := hmay
    exact h.step_setPosition hg hexec
  | commit tx => exact h.step_commit hmay hexec
  | rollback tx =>
    obtain ⟨stage, hg⟩ := hmay
    obtain ⟨rfl, rfl⟩ := hexec
    exact ⟨trivial, h.quit hg (not_open_close false stage)⟩
  | abandon tx =>
    obtain ⟨rfl, rfl⟩ := hexec
    refine ⟨trivial, h.over rfl fun p hp => .inr ⟨hp, fun htx => ?_⟩⟩
    exact hspared.resolve_right fun hne => hne p hp htx
  | deleteItem id key =>
    refine ⟨trivial, ?_⟩
    rcases hexec with hdelete | ⟨-, -, rfl⟩
    · split at hdelete
      · obtain ⟨-, rfl⟩ := hdelete
        exact h
      · obtain ⟨hfree, -, rfl⟩ := hdelete
        exact h.removes hfree
    · exact h

end Operation

/-! ## The handlers -/

section Handlers

variable {faults : Prop} {w : World} {g : Multiset Progress} {req : ItemRequest} {env : Env} {caller : Caller}
  {id userId : Uuid} {inputs : List PositionInput} {tx : ℕ} {α : Type}

/-- What a request does with its transaction. -/
abbrev itemRules (faults : Prop) (w : World) (req : ItemRequest) : Protocol (Multiset Progress) ItemOp ItemOp.Res :=
  Tracked.protocol observe (MayItem req) (Answers faults w)

/-- What reads the server is answered by the server. -/
theorem obeys_readsServer {q : Query α} (h : Query.Only [] q) :
    (q.interp fun op => Prog.perform (ItemOp.server op)).Obeys (itemRules faults w req)
      (fun a g' => g' = g ∧ (¬ faults → (q.eval answer w).1 = a)) g := by
  induction q with
  | ret a => exact ⟨rfl, fun _ => rfl⟩
  | call op k ih =>
    obtain ⟨hop, hk⟩ := h
    have harea : op.area = none := by
      cases harea : op.area with
      | none => rfl
      | some a => exact absurd (hop a harea) List.not_mem_nil
    have hsame : (answer w op).2 = w := by
      have hframe := answer_frame w op
      rw [harea] at hframe
      exact hframe
    rw [Prog.interp_call, Prog.obeys_bind]
    refine ⟨harea, ?_⟩
    rintro r g' ⟨hr, rfl⟩
    refine (ih r (hk r () trivial)).mono fun a g'' hend => ⟨hend.1, fun hf => ?_⟩
    have heq := hend.2 hf
    rw [hr hf] at heq
    rw [Prog.eval, hsame]
    exact heq

theorem obeys_onItems {p : Handler α} (h : Only [] p) : (onItems p).Obeys (itemRules faults w req)
    (fun a g' => g' = g ∧ (¬ faults → (p.run.eval answer w).1 = .ok a))
    (fun e g' => g' = g ∧ (¬ faults → (p.run.eval answer w).1 = .error e)) g := by
  refine Prog.Obeys.mono (obeys_readsServer h.run) fun r g' hr => ?_
  cases r with
  | ok a => exact hr
  | error e => exact hr

/-- One statement. -/
theorem obeys_askItem {op : ItemOp} {fin : op.Val → Multiset Progress → Prop} {err : Abort → Multiset Progress → Prop}
    (hmay : MayItem req g op) (hok : ∀ v, Answers faults w op (.ok v) → fin v (observe g op (.ok v)))
    (herr : ∀ e a, Answers faults w op (.error e) → err a (observe g op (.error e))) :
    (askItem op).Obeys (itemRules faults w req) fin err g := by
  refine (obeys_bind _ _).2 ⟨hmay, ?_⟩
  rintro r g' ⟨hr, rfl⟩
  cases r with
  | ok v => exact hok v hr
  | error e => exact herr e _ hr

theorem advance_singleton {φ : Stage → Stage} {stage : Stage} :
    Multiset.map (Progress.advance tx φ) {⟨tx, stage⟩} = {⟨tx, φ stage⟩} := by
  rw [Multiset.map_singleton]
  unfold Progress.advance
  rw [if_pos rfl]

/-- A transaction, and its rollback. -/
theorem obeys_inTransaction {p : ℕ → ItemHandler α} {fin : α → Multiset Progress → Prop}
    {err : Abort → Multiset Progress → Prop}
    (hp : ∀ tx, (p tx).Obeys (itemRules faults w req) fin
      (fun e g => ∃ stage : Stage, g = {⟨tx, stage⟩} ∧ err e {⟨tx, stage.close false⟩}) {⟨tx, .started⟩})
    (hbegin : faults → ∀ e, err e 0) : (inTransaction p).Obeys (itemRules faults w req) fin err 0 := by
  refine (obeys_bind _ _).2 (obeys_askItem trivial (fun tx _ => ?_) fun e a hanswer => ?_)
  · rw [show observe 0 .begin (.ok tx) = {⟨tx, .started⟩} from add_zero _]
    refine (obeys_bind _ _).2 (obeys_always.2 (Prog.Obeys.mono (hp tx) fun r g hr => ?_))
    cases r with
    | ok a => exact hr
    | error e =>
      obtain ⟨stage, rfl, herr⟩ := hr
      refine (obeys_bind _ _).2 ⟨⟨stage, Multiset.mem_singleton_self _⟩, ?_⟩
      rintro r g' ⟨-, rfl⟩
      rw [show observe {⟨tx, stage⟩} (.rollback tx) r = {⟨tx, stage.close false⟩} from advance_singleton]
      exact herr
  · refine hbegin ?_ a
    by_contra hf
    obtain ⟨tx, htx⟩ := hanswer hf
    cases htx

/-! ### `add_item` and `remove_item` -/

theorem only_canonicalLiveItem {S : List Area} (kind core : Text) : Only S (canonicalLiveItem kind core) :=
  .ite (.bind (.read rfl) fun _ => .bind .orThrow fun _ => .bind (.read rfl) fun _ => .bind .reject fun _ => .pure)
    (.ite (.bind (.read rfl) fun _ => .bind .orThrow fun _ => .bind (.read rfl) fun _ => .bind .reject fun _ => .pure)
      .throw)

/-- The lock is that of the owner. -/
theorem obeys_lockOwned : (lockOwned tx id userId).Obeys (itemRules faults w req)
    (fun _ g => g = {⟨tx, .locked id (some userId)⟩} ∧ some userId = (w.collections.find? id).map Collection.ownerId)
    (fun _ g => ∃ stage : Stage, g = {⟨tx, stage⟩} ∧ (¬ faults → stage.Open ∧
      ¬ some userId = (w.collections.find? id).map Collection.ownerId)) {⟨tx, .started⟩} := by
  refine (obeys_bind _ _).2
    (obeys_askItem (Multiset.mem_singleton_self _) (fun owner hanswer => ?_) fun e a hanswer => ?_)
  · rw [show observe {⟨tx, .started⟩} (.lockCollection tx id) (.ok owner) = {⟨tx, .locked id owner⟩} from
      advance_singleton]
    have howner := hanswer.1 owner rfl
    refine obeys_reject.2
      ⟨fun hne => ⟨_, rfl, fun _ => ⟨trivial, fun heq => hne (howner.trans heq.symm)⟩⟩, fun heq => ?_⟩
    rw [not_not] at heq
    exact ⟨by rw [heq], heq.symm.trans howner⟩
  · refine ⟨_, rfl, fun hf => ?_⟩
    obtain ⟨owner, howner⟩ := hanswer.2 hf
    cases howner

theorem obeys_appendItem {item : Item} {core kind : Text} :
    (appendItem id userId item tx).Obeys (itemRules faults w (.add caller id kind core)) (fun _ _ => True)
      (fun _ g => ∃ stage : Stage, g = {⟨tx, stage⟩} ∧ True) {⟨tx, .started⟩} := by
  refine (obeys_bind _ _).2 (obeys_lockOwned.mono ?_ fun e g h => ?_)
  · rintro - g ⟨rfl, -⟩
    refine (obeys_bind _ _).2
      (obeys_askItem ⟨userId, Multiset.mem_singleton_self _⟩ (fun position _ => ?_) fun e a _ => ?_)
    · rw [show observe {⟨tx, .locked id (some userId)⟩} (.nextPosition tx id) (.ok position) = {⟨tx, .next id position⟩}
        from advance_singleton]
      refine (obeys_bind _ _).2
        (obeys_askItem (Multiset.mem_singleton_self _) (fun _ _ => ?_) fun e a _ => ⟨_, rfl, trivial⟩)
      rw [show observe {⟨tx, .next id position⟩} (.insertItem tx ⟨id, item, position⟩) (.ok ()) =
        {⟨tx, .inserted id position⟩} from advance_singleton]
      refine (obeys_bind _ _).2 (obeys_askItem ?_ (fun _ _ => trivial) fun e a _ => ⟨_, advance_singleton, trivial⟩)
      exact .inl ⟨caller, id, kind, core, position, rfl, Multiset.mem_singleton_self _⟩
    · exact ⟨_, rfl, trivial⟩
  · obtain ⟨stage, rfl, -⟩ := h
    exact ⟨stage, rfl, trivial⟩

/-! ### `reorder` -/

/-- The user owns the collection. -/
def Owns (w : World) (id userId : Uuid) : Prop := some userId = (w.collections.find? id).map Collection.ownerId

/-- The list names every member exactly once, with distinct and non-negative positions. -/
def Acceptable (inputs : List PositionInput) (members : List CollectionItem) : Prop :=
  Names inputs members ∧ (inputs.map PositionInput.position).Nodup ∧ ∀ input ∈ inputs, 0 ≤ input.position

/-- When a reorder has committed, and when it has to. -/
def Decided (inputs : List PositionInput) (members : List CollectionItem) (done : List Update) (committed : Bool) : Prop :=
  (committed = true → Acceptable inputs members ∧ ∀ input ∈ inputs, FitsInteger input.position ∨
    ∃ update ∈ done, update.key = input.key ∧ update.position = input.position ∧ update.found = 0) ∧
  (Acceptable inputs members → (∀ input ∈ inputs, FitsInteger input.position) → committed = true)

/-- What a reorder has done, when it is over. -/
def OrderVerdict (w : World) (id userId : Uuid) (inputs : List PositionInput) (g : Multiset Progress) : Prop :=
  (Owns w id userId → ∃ tx members done committed, g = {⟨tx, .closed committed (.reading id members done)⟩} ∧
    Decided inputs members done committed) ∧
  (¬ Owns w id userId → ∀ tx last, ⟨tx, .closed true last⟩ ∉ g)

/-- The updates of the list, after others. -/
theorem obeys_setPositions {members : List CollectionItem} {rest : List PositionInput} {done : List Update} :
    (setPositions tx id rest).Obeys (itemRules faults w req)
      (fun _ g => ∃ done', g = {⟨tx, .reading id members done'⟩} ∧
        done'.map (fun update => (update.key, update.position)) =
          (rest.map fun input => (input.key, input.position)).reverse ++
            done.map (fun update => (update.key, update.position)) ∧
        ∀ update ∈ done', update ∈ done ∨ FitsInteger update.position ∨ update.found = 0)
      (fun _ g => ∃ done', g = {⟨tx, .reading id members done'⟩} ∧
        (¬ faults → ∃ input ∈ rest, ¬ FitsInteger input.position))
      {⟨tx, .reading id members done⟩} := by
  induction rest generalizing done with
  | nil => exact ⟨done, rfl, rfl, fun _ h => .inl h⟩
  | cons input rest ih =>
    refine (obeys_bind _ _).2 (obeys_askItem ⟨members, done, Multiset.mem_singleton_self _⟩ (fun found hanswer => ?_)
      fun e a hanswer => ?_)
    · rw [show observe {⟨tx, .reading id members done⟩} (.setPosition tx id input.key input.position) (.ok found) =
        {⟨tx, .reading id members (⟨input.key, input.position, found⟩ :: done)⟩} from advance_singleton]
      refine ih.mono ?_ ?_
      · rintro - g ⟨done', rfl, hupdates, hfits⟩
        refine ⟨done', rfl, ?_, fun update hupdate => ?_⟩
        · rw [hupdates, List.map_cons, List.map_cons, List.reverse_cons, List.append_assoc]
          rfl
        · rcases hfits update hupdate with hmem | hfits
          · rcases List.mem_cons.1 hmem with rfl | hmem
            · exact .inr (hanswer.1 found rfl)
            · exact .inl hmem
          · exact .inr hfits
      · rintro - g ⟨done', rfl, hunfit⟩
        refine ⟨done', rfl, fun hf => ?_⟩
        obtain ⟨other, hother, hne⟩ := hunfit hf
        exact ⟨other, List.mem_cons_of_mem _ hother, hne⟩
    · refine ⟨done, rfl, fun hf => ⟨input, List.mem_cons_self, fun hfits => ?_⟩⟩
      obtain ⟨found, hfound⟩ := hanswer.2 hf hfits
      cases hfound

/-- The updates with the answers, for the list. -/
theorem complete_of_updates {members : List CollectionItem} {done : List Update} (haccept : Acceptable inputs members)
    (hmembers : (members.map fun row => row.item.key).Nodup)
    (hupdates : done.map (fun update => (update.key, update.position)) =
      (inputs.map fun input => (input.key, input.position)).reverse ++ []) : Complete inputs members done :=
  ⟨by rw [hupdates, List.append_nil], haccept.1, haccept.1.nodup_iff.2 hmembers, haccept.2.1, haccept.2.2⟩

/-- **When a reorder commits.** -/
theorem obeys_renumber : (renumber id userId inputs tx).Obeys (itemRules faults w (.reorder caller id inputs))
    (fun _ g => ¬ faults → OrderVerdict w id userId inputs g)
    (fun _ g => ∃ stage : Stage, g = {⟨tx, stage⟩} ∧ (¬ faults → OrderVerdict w id userId inputs {⟨tx, stage.close false⟩}))
    {⟨tx, .started⟩} := by
  refine (obeys_bind _ _).2 (obeys_lockOwned.mono ?_ ?_)
  · rintro - g ⟨rfl, howns⟩
    have hread : ∀ members done, (Acceptable inputs members → ∃ input ∈ inputs, ¬ FitsInteger input.position) →
        OrderVerdict w id userId inputs {⟨tx, .closed false (.reading id members done)⟩} := by
      intro members done hunfit
      refine ⟨fun _ => ⟨tx, members, done, false, rfl, nofun, fun haccept hfits => ?_⟩, fun hnot => absurd howns hnot⟩
      obtain ⟨input, hinput, hne⟩ := hunfit haccept
      exact absurd (hfits input hinput) hne
    refine (obeys_bind _ _).2 (obeys_askItem ⟨userId, Multiset.mem_singleton_self _⟩ (fun members hanswer => ?_)
      fun e a hanswer => ?_)
    · rw [show observe {⟨tx, .locked id (some userId)⟩} (.readMembers tx id) (.ok members) =
        {⟨tx, .reading id members []⟩} from advance_singleton]
      have hchecked := @checked_iff_names inputs members (hanswer.1 members rfl)
      refine (obeys_bind _ _).2 (obeys_reject.2 ⟨fun hlength => ?_, fun hlength => ?_⟩)
      · exact ⟨_, rfl, fun _ => hread members [] fun haccept => absurd (hchecked.2 haccept).1 hlength⟩
      · rw [not_not] at hlength
        refine (obeys_bind _ _).2 (obeys_check.2 ⟨fun e he => ?_, fun _ hok => ?_⟩)
        · refine ⟨_, rfl, fun _ => hread members [] fun haccept => ?_⟩
          cases (hchecked.2 haccept).2.symm.trans he
        · have haccept : Acceptable inputs members := hchecked.1 ⟨hlength, hok⟩
          refine (obeys_bind _ _).2 (obeys_setPositions.mono ?_ ?_)
          · rintro - g ⟨done, rfl, hupdates, hfits⟩
            have hcomplete := complete_of_updates haccept (hanswer.1 members rfl) hupdates
            refine obeys_askItem (.inr ?_) (fun _ _ hf => ?_) fun e a hcommit => ⟨_, advance_singleton, fun hf => ?_⟩
            · exact ⟨caller, id, inputs, members, done, rfl, Multiset.mem_singleton_self _, hcomplete⟩
            · rw [show observe {⟨tx, .reading id members done⟩} (.commit tx) (.ok ()) =
                {⟨tx, .closed true (.reading id members done)⟩} from advance_singleton]
              refine ⟨fun _ => ⟨tx, members, done, true, rfl, fun _ => ⟨haccept, fun input hinput => ?_⟩, fun _ _ => rfl⟩,
                fun hnot => absurd howns hnot⟩
              obtain ⟨update, hupdate, hkey, hposition⟩ := hcomplete.of_input hinput
              rcases hfits update hupdate with hmem | hfits | hnone
              · cases hmem
              · exact .inl (hposition ▸ hfits)
              · exact .inr ⟨update, hupdate, hkey, hposition, hnone⟩
            · cases hcommit hf
          · rintro - g ⟨done, rfl, hunfit⟩
            exact ⟨_, rfl, fun hf => hread members done fun _ => hunfit hf⟩
    · refine ⟨_, rfl, fun hf => ?_⟩
      obtain ⟨members, hmembers⟩ := hanswer.2 hf
      cases hmembers
  · rintro - g ⟨stage, rfl, hnot⟩
    refine ⟨stage, rfl, fun hf => ⟨fun howns => absurd howns (hnot hf).2, fun _ tx' last hmem => ?_⟩⟩
    have heq := Multiset.mem_singleton.1 hmem
    have hstage : Stage.closed true last = stage.close false := congrArg Progress.stage heq
    cases stage with
    | closed => exact (hnot hf).1
    | _ => cases hstage

/-- What a request ends with. -/
def Ended (faults : Prop) (w : World) (env : Env) (req : ItemRequest) (g : Multiset Progress) : Prop :=
  ∀ caller id inputs, req = .reorder caller id inputs → ¬ faults → ∀ identity,
    ((writeIdentity env caller).run.eval answer w).1 = .ok identity → OrderVerdict w id identity.user.id inputs g

theorem obeys_reorder : (reorder env caller id inputs).Obeys (itemRules faults w (.reorder caller id inputs))
    (fun _ => Ended faults w env (.reorder caller id inputs)) (fun _ => Ended faults w env (.reorder caller id inputs))
    0 := by
  refine (obeys_bind _ _).2 ((obeys_onItems (only_writeIdentity env caller)).mono ?_ ?_)
  · rintro identity g ⟨rfl, hidentity⟩
    have hend : ∀ g, (¬ faults → OrderVerdict w id identity.user.id inputs g) →
        Ended faults w env (.reorder caller id inputs) g := by
      rintro g hverdict _ _ _ ⟨⟩ hf other hother
      cases (hidentity hf).symm.trans hother
      exact hverdict hf
    refine (obeys_bind _ _).2 (obeys_inTransaction (fun tx => obeys_renumber.mono (fun _ => hend) ?_) fun hfaults e => ?_)
    · rintro - g ⟨stage, rfl, hverdict⟩
      exact ⟨stage, rfl, hend _ hverdict⟩
    · exact hend 0 fun hf => absurd hfaults hf
  · rintro e g ⟨rfl, herror⟩ _ _ _ ⟨⟩ hf identity hidentity
    cases (herror hf).symm.trans hidentity

/-- Each request follows the rules of its transaction. -/
theorem obeys_serveItem : (serveItem env req).Obeys (itemRules faults w req) (fun _ => Ended faults w env req) 0 := by
  have hother : (∀ caller id inputs, req ≠ .reorder caller id inputs) → ∀ g, Ended faults w env req g :=
    fun hne _ caller id inputs heq => absurd heq (hne caller id inputs)
  cases req with
  | add caller id kind core =>
    have hend := hother nofun
    suffices hobeys : (addItem env caller id kind core).Obeys (itemRules faults w _) (fun _ _ => True)
        (fun _ _ => True) 0 from Prog.Obeys.mono hobeys fun _ g _ => hend g
    refine (obeys_bind _ _).2 ((obeys_onItems (only_writeIdentity env caller)).mono ?_ fun _ _ _ => trivial)
    rintro identity g ⟨rfl, -⟩
    refine (obeys_bind _ _).2 ((obeys_onItems (only_canonicalLiveItem kind core)).mono ?_ fun _ _ _ => trivial)
    rintro item g ⟨rfl, -⟩
    exact (obeys_bind _ _).2 (obeys_inTransaction (fun tx => obeys_appendItem) fun _ _ => trivial)
  | remove caller id kind core =>
    have hend := hother nofun
    suffices hobeys : (removeItem env caller id kind core).Obeys (itemRules faults w _) (fun _ _ => True)
        (fun _ _ => True) 0 from Prog.Obeys.mono hobeys fun _ g _ => hend g
    refine (obeys_bind _ _).2 ((obeys_onItems (only_writeIdentity env caller)).mono ?_ fun _ _ _ => trivial)
    rintro identity g ⟨rfl, -⟩
    refine (obeys_bind _ _).2 ((obeys_onItems (only_ownedCollection id _)).mono ?_ fun _ _ _ => trivial)
    rintro collection g ⟨rfl, -⟩
    refine (obeys_bind _ _).2 (obeys_reject.2 ⟨fun _ => trivial, fun _ => ?_⟩)
    refine (obeys_bind _ _).2 (obeys_askItem ⟨caller, id, kind, core, rfl⟩ (fun deleted _ => ?_) fun _ _ _ => trivial)
    exact (obeys_bind _ _).2 (obeys_reject.2 ⟨fun _ => trivial, fun _ => trivial⟩)
  | reorder caller id inputs =>
    refine Prog.Obeys.mono obeys_reorder fun r g hr => ?_
    cases r with
    | ok a => exact hr
    | error e => exact hr
  | disconnect tx => exact ⟨trivial, fun _ _ _ => hother nofun _⟩

end Handlers

/-! ## Runs -/

/-- The requests as they run, with what they have done with their transactions. -/
abbrev ItemPool := Pool ItemWorld (ItemRequest × Multiset Progress) ItemOp ItemOp.Res ItemOutcome

/-- What a reorder does to the committed rows. -/
theorem Isolated.reorder_effect {faults : Prop} {w : World} {s s' : ItemWorld} {g f : Multiset Progress} {caller : Caller}
    {id : Uuid} {inputs : List PositionInput} {op : ItemOp} {r : op.Res} (h : Isolated faults w s (g + f))
    (hmay : MayItem (.reorder caller id inputs) g op) (hexec : execItem faults s op r s') :
    s'.items = s.items ∨ (∃ tx, op = .commit tx) ∧ Reordered s.items s'.items id inputs := by
  cases op with
  | commit tx =>
    rcases hmay with ⟨_, _, _, _, _, hreq, -⟩ | ⟨_, _, _, _, _, ⟨⟩, hg, hcomplete⟩
    · cases hreq
    · rcases hexec with ⟨t, ht, -, rfl⟩ | ⟨-, -, rfl⟩
      · exact .inr ⟨⟨tx, rfl⟩, (h.knows_of hg ht).reordered hcomplete⟩
      · exact .inl rfl
  | deleteItem id' key =>
    obtain ⟨_, _, _, _, hreq⟩ := hmay
    cases hreq
  | server op =>
    obtain ⟨w', -, rfl⟩ := hexec
    exact .inl rfl
  | begin =>
    rcases hexec with ⟨-, rfl⟩ | ⟨-, -, rfl⟩
    · exact .inl rfl
    · exact .inl rfl
  | rollback tx =>
    obtain ⟨-, rfl⟩ := hexec
    exact .inl rfl
  | abandon tx =>
    obtain ⟨-, rfl⟩ := hexec
    exact .inl rfl
  | lockCollection tx id' | nextPosition tx id' | insertItem tx row | readMembers tx id' | setPosition tx id' key position =>
    left
    rcases hexec with ⟨t, -, hin⟩ | ⟨-, -, rfl⟩
    · simp only [inTx] at hin
      grind [ItemWorld.withTx]
    · rfl

/-- Before the first request. -/
theorem isolated_start {faults : Prop} {s : ItemWorld} (hordered : Ordered s.items) (hquiet : ∀ tx, s.txs tx = none) :
    Isolated faults s.server s 0 := by
  refine ⟨rfl, hordered, fun tx _ => hquiet tx, nofun, Multiset.nodup_zero, fun tx _ t _ _ ht => ?_,
    fun tx t ht => ?_, nofun, nofun, fun _ => nofun⟩
  · cases (hquiet tx).symm.trans ht
  · cases (hquiet tx).symm.trans ht

/-- **The order of a collection is total**, in every state that is committed; a reorder changes the positions to
those of its list, and nothing else; and it says when a reorder commits, if nothing fails. -/
theorem collection_ordered {faults : Prop} {env : Env} {s : ItemWorld} (hordered : Ordered s.items)
    (hquiet : ∀ tx, s.txs tx = none) {p : ItemPool} (hp : Tracked.Reachable observe (Spared faults) (fun _ _ => True)
      (serveItem env) (execItem faults) s p) :
    Ordered p.shared.items ∧
      (∀ caller id inputs g op k, ((.reorder caller id inputs, g), .call op k) ∈ p.threads → ∀ r s',
        execItem faults p.shared op r s' → s'.items = p.shared.items ∨
          (∃ tx, op = .commit tx) ∧ Reordered p.shared.items s'.items id inputs) ∧
      (¬ faults → ∀ caller id inputs g outcome, ((.reorder caller id inputs, g), .ret outcome) ∈ p.threads →
        ∀ identity, ((writeIdentity env caller).run.eval answer s.server).1 = .ok identity →
          OrderVerdict s.server id identity.user.id inputs g) := by
  obtain ⟨hinv, hall⟩ := Tracked.Reachable.invariant (isolated_start hordered hquiet) (fun req => obeys_serveItem)
    (fun req _ _ _ _ op r hmay hs hcond hexec => Isolated.step hs hmay hcond hexec)
    (fun _ g f _ hs => Isolated.mono hs (Multiset.le_add_left f g)) hp
  refine ⟨hinv.ordered, fun caller id inputs g op k ht r s' hexec => ?_, fun hf caller id inputs g outcome ht => ?_⟩
  · obtain ⟨pre, post, hsplit⟩ := List.append_of_mem ht
    have hmay := (hall _ ht).1
    rw [hsplit, Tracked.total_middle] at hinv
    exact hinv.reorder_effect hmay hexec
  · exact fun identity hidentity => hall _ ht caller id inputs rfl hf identity hidentity

/-! ### Two items -/

theorem uniqueId_curator : UniqueOn User.id [⟨1, ['u'], none, false, none, none, false, none⟩] :=
  List.nodup_singleton _

theorem uniqueId_curated : UniqueOn Collection.id [⟨5, 1, ['a'], [], .unlisted⟩] := List.nodup_singleton _

/-- A user who is signed in, and has a collection with two items. -/
def twoItems : ItemWorld where
  server := { World.empty with
    users := ⟨[⟨1, ['u'], none, false, none, none, false, none⟩], uniqueId_curator⟩
    collections := ⟨[⟨5, 1, ['a'], [], .unlisted⟩], uniqueId_curated⟩
    sessions := fun _ => { Session.fresh with uid := some 1 } }
  items := ⟨[⟨5, .file coreA, 0⟩, ⟨5, .file coreB, 1⟩], by decide⟩
  txs := fun _ => none
  nextTx := 0

/-- A session of the user. -/
def curator : Caller := ⟨0, .none⟩

/-- The items with positions of their own. -/
def placed (a b : ℤ) : List PositionInput := [⟨kindFile, coreA.val, a⟩, ⟨kindFile, coreB.val, b⟩]

/-- Play a schedule in which nothing fails. -/
def itemPool (turns : List (Tracked.Turn ItemRequest Unit)) : ItemPool :=
  Tracked.play observe (serveItem .plain) (fun _ => answerItem) twoItems turns

theorem reachable_itemPool (turns : List (Tracked.Turn ItemRequest Unit))
    (hok : Tracked.playOk observe (serveItem .plain) (fun _ => answerItem)
      (fun _ s _ _ op => match op with
        | .abandon _ => false
        | op => proceeds s op) (fun _ _ => true) ⟨twoItems, []⟩ turns = true) :
    Tracked.Reachable observe (Spared False) (fun _ _ => True) (serveItem .plain) (execItem False) twoItems
      (itemPool turns) := by
  refine @Tracked.reachable_play _ _ _ _ _ _ _ observe _ _ _ _ Unit (fun _ => answerItem) _ (fun _ _ => true)
    (fun _ s g f op hop => ?_) (fun _ _ _ => trivial) twoItems turns hok
  cases op with
  | abandon tx => cases hop
  | _ => exact ⟨trivial, exec_answerItem hop⟩

/-- A reorder that exchanges the items. -/
def exchange : List (Tracked.Turn ItemRequest Unit) :=
  .spawn (.reorder curator 5 (placed 1 0)) :: List.replicate 8 (.act 0 ())

theorem ordered_twoItems : Ordered twoItems.items where
  nonneg := by
    intro row hrow
    simp only [twoItems, Keyed.mem_def, List.mem_cons, List.not_mem_nil, or_false] at hrow
    rcases hrow with rfl | rfl <;> decide
  distinct := by
    intro row hrow row' hrow' _
    simp only [twoItems, Keyed.mem_def, List.mem_cons, List.not_mem_nil, or_false] at hrow hrow'
    rcases hrow with rfl | rfl <;> rcases hrow' with rfl | rfl <;> simp

/-- The user with the rights of the session. -/
def curatorIdentity : Identity := ⟨⟨1, ['u'], none, false, none, none, false, none⟩, apiScopes⟩

/-- The exchange has been made. -/
def exchanged : Multiset Progress :=
  {⟨0, .closed true (.reading 5 [⟨5, .file coreA, 0⟩, ⟨5, .file coreB, 1⟩]
    [⟨(kindFile, coreB.val), 0, 1⟩, ⟨(kindFile, coreA.val), 1, 1⟩])⟩}

theorem collection_ordered_exchange :
    (itemPool exchange).shared.items.rows = [⟨5, .file coreB, 0⟩, ⟨5, .file coreA, 1⟩] ∧
      Ordered (itemPool exchange).shared.items ∧ OrderVerdict twoItems.server 5 1 (placed 1 0) exchanged := by
  have hrun := reachable_itemPool exchange (by decide)
  obtain ⟨hordered, -, hverdict⟩ := collection_ordered ordered_twoItems (fun _ => rfl) hrun
  have hthread : ((.reorder curator 5 (placed 1 0), exchanged), .ret (.ok (.reordered 5))) ∈
      (itemPool exchange).threads := List.mem_cons_self
  exact ⟨by decide, hordered, hverdict not_false curator 5 (placed 1 0) exchanged _ hthread curatorIdentity rfl⟩

/-- One item is removed between the read of the members and the updates. -/
def removedMeanwhile : List (Tracked.Turn ItemRequest Unit) :=
  .spawn (.reorder curator 5 (placed (2 ^ 31) 0)) :: List.replicate 5 (.act 0 ()) ++
    .spawn (.remove curator 5 kindFile coreA.val) :: List.replicate 4 (.act 0 ()) ++ List.replicate 3 (.act 1 ())

/-- **A reorder commits with a position that does not fit the column**, for an item that is gone. -/
theorem unfit_committed :
    Tracked.Reachable observe (Spared False) (fun _ _ => True) (serveItem .plain) (execItem False) twoItems
      (itemPool removedMeanwhile) ∧
    ((writeIdentity .plain curator).run.eval answer twoItems.server).1 = .ok curatorIdentity ∧
    ¬ FitsInteger (2 ^ 31) ∧
    ((.reorder curator 5 (placed (2 ^ 31) 0), {⟨0, .closed true (.reading 5
      [⟨5, .file coreA, 0⟩, ⟨5, .file coreB, 1⟩] [⟨(kindFile, coreB.val), 0, 1⟩, ⟨(kindFile, coreA.val), 2 ^ 31, 0⟩])⟩}),
      .ret (.ok (.reordered 5))) ∈ (itemPool removedMeanwhile).threads := by
  refine ⟨reachable_itemPool removedMeanwhile (by decide), rfl, by decide, ?_⟩
  exact List.mem_cons_of_mem _ List.mem_cons_self

end Server
end Uwuubox
