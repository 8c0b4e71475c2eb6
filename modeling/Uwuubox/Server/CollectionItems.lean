import Uwuubox.Server.Callers
import Uwuubox.Server.Links
import Uwuubox.Table.Overlay
import Uwuubox.Prog.Tracked

/-!
# The items of a collection

`add_item`, `remove_item` and `reorder` of `src/routes/collections.rs`.  The first and the last lock the row of the
collection for their transactions; the second is one statement.

* `ItemWorld`, `ItemOp`, `execItem` — the table `collection_items`, the open transactions, and what a statement does.
  A statement that has to wait has no outcome.
* `addItem`, `removeItem`, `reorder` — the handlers.
* `checkPositions_eq_ok` — the test of `reorder` is that of a permutation.
-/

namespace Uwuubox
namespace Server

open Dedupe Storage Table Fallible

/-! ## The state -/

def kindFile : Text := ['f', 'i', 'l', 'e']

def kindPaste : Text := ['p', 'a', 's', 't', 'e']

/-- `kind` and `core`. -/
def Item.key : Item → Text × Text
  | file core => (kindFile, core.val)
  | paste core => (kindPaste, core.val)

/-- Items with one key are one item. -/
theorem Item.key_injective : Function.Injective Item.key := by
  have hkinds : kindFile ≠ kindPaste := by decide
  rintro (core | core) (core' | core') h
  · rw [Subtype.ext (congrArg Prod.snd h)]
  · exact absurd (congrArg Prod.fst h) hkinds
  · exact absurd (congrArg Prod.fst h).symm hkinds
  · rw [Subtype.ext (congrArg Prod.snd h)]

/-- A row of `collection_items`. -/
structure CollectionItem where
  collectionId : Uuid
  item : Item
  position : ℤ
deriving DecidableEq

/-- `PRIMARY KEY (collection_id, kind, core)` -/
def CollectionItem.key (row : CollectionItem) : Uuid × Item := (row.collectionId, row.item)

/-- The table. -/
abbrev ItemTable := Keyed CollectionItem.key

/-- The row of an item, if the texts name one. -/
def ItemTable.named (t : ItemTable) (id : Uuid) (key : Text × Text) : Option CollectionItem :=
  t.rows.find? fun row => row.collectionId = id && row.item.key = key

/-- The rows of a collection. -/
def ItemTable.of (t : ItemTable) (id : Uuid) : List CollectionItem := t.rows.filter fun row => row.collectionId = id

/-- `COALESCE(MAX(position), -1)::bigint + 1` -/
def ItemTable.next (t : ItemTable) (id : Uuid) : ℤ := (((t.of id).map CollectionItem.position).max?).getD (-1) + 1

/-- The number fits a column of type `INTEGER`. -/
def FitsInteger (n : ℤ) : Prop := -2 ^ 31 ≤ n ∧ n ≤ 2 ^ 31 - 1

instance (n : ℤ) : Decidable (FitsInteger n) := inferInstanceAs (Decidable (_ ∧ _))

/-- An open transaction. -/
structure Tx where
  /-- The row of `collections` that it has locked. -/
  locked : Option Uuid
  /-- Its versions of rows. -/
  writes : ItemTable

/-- The server, the committed rows, and the open transactions. -/
structure ItemWorld where
  server : World
  items : ItemTable
  txs : ℕ → Option Tx
  nextTx : ℕ

namespace ItemWorld

/-- The transaction goes on with other locks or versions, or ends. -/
def withTx (s : ItemWorld) (tx : ℕ) (t : Option Tx) : ItemWorld := { s with txs := Function.update s.txs tx t }

/-- Another transaction has a version of the row. -/
def Pending (s : ItemWorld) (tx : ℕ) (key : Uuid × Item) : Prop :=
  ∃ tx' < s.nextTx, tx' ≠ tx ∧ ∃ t ∈ s.txs tx', ∃ row ∈ t.writes.rows, row.key = key

/-- Some transaction has a version of the row. -/
def Versioned (s : ItemWorld) (key : Uuid × Item) : Prop :=
  ∃ tx < s.nextTx, ∃ t ∈ s.txs tx, ∃ row ∈ t.writes.rows, row.key = key

/-- No other transaction has locked the collection. -/
def Free (s : ItemWorld) (tx : ℕ) (id : Uuid) : Prop :=
  ∀ tx' < s.nextTx, tx' ≠ tx → ∀ t ∈ s.txs tx', t.locked ≠ some id

instance (s : ItemWorld) (tx : ℕ) (key : Uuid × Item) : Decidable (s.Pending tx key) :=
  inferInstanceAs (Decidable (∃ tx' < s.nextTx, _))

instance (s : ItemWorld) (key : Uuid × Item) : Decidable (s.Versioned key) :=
  inferInstanceAs (Decidable (∃ tx < s.nextTx, _))

instance (s : ItemWorld) (tx : ℕ) (id : Uuid) : Decidable (s.Free tx id) :=
  inferInstanceAs (Decidable (∀ tx' < s.nextTx, _))

end ItemWorld

/-! ## The operations -/

/-- One statement. -/
inductive ItemOp where
  | server (op : Op)
  | begin
  /-- `SELECT owner_id FROM collections WHERE id = $1 FOR UPDATE` -/
  | lockCollection (tx : ℕ) (id : Uuid)
  /-- `SELECT COALESCE(MAX(position), -1)::bigint + 1 FROM collection_items WHERE collection_id = $1` -/
  | nextPosition (tx : ℕ) (id : Uuid)
  /-- `INSERT INTO collection_items .. ON CONFLICT (collection_id, kind, core) DO NOTHING` -/
  | insertItem (tx : ℕ) (row : CollectionItem)
  /-- `SELECT * FROM collection_items WHERE collection_id = $1` -/
  | readMembers (tx : ℕ) (id : Uuid)
  /-- `UPDATE collection_items SET position = $4 WHERE collection_id = $1 AND kind = $2 AND core = $3` -/
  | setPosition (tx : ℕ) (id : Uuid) (key : Text × Text) (position : ℤ)
  | commit (tx : ℕ)
  | rollback (tx : ℕ)
  /-- The connection of a transaction is lost, or its request is dropped. -/
  | abandon (tx : ℕ)
  /-- `DELETE FROM collection_items WHERE collection_id = $1 AND kind = $2 AND core = $3` -/
  | deleteItem (id : Uuid) (key : Text × Text)

/-- What an operation returns when it does not fail. -/
abbrev ItemOp.Val : ItemOp → Type
  | server op => op.Val
  | begin => ℕ
  | lockCollection _ _ => Option Uuid
  | nextPosition _ _ => ℤ
  | insertItem _ _ => Unit
  | readMembers _ _ => List CollectionItem
  | setPosition _ _ _ _ => ℕ
  | commit _ => Unit
  | rollback _ => Unit
  | abandon _ => Unit
  | deleteItem _ _ => ℕ

abbrev ItemOp.Res (op : ItemOp) : Type := Except Failure op.Val

/-- The transaction of a statement. -/
def ItemOp.tx : ItemOp → Option ℕ
  | lockCollection tx _ | nextPosition tx _ | insertItem tx _ | readMembers tx _ | setPosition tx _ _ _
  | commit tx => some tx
  | _ => none

/-- `integer out of range` -/
def outOfRange : Failure := .sql .outOfRange

/-- What a statement does in the transaction `t`, if it need not wait and nothing fails.  A row that is not found is not
given a position; whether a position that does not fit is an error then depends on the plan. -/
def inTx (s : ItemWorld) (tx : ℕ) (t : Tx) : (op : ItemOp) → op.Res → ItemWorld → Prop
  | .lockCollection _ id, r, s' =>
    match s.server.collections.find? id with
    | none => r = .ok none ∧ s' = s
    | some collection => s.Free tx id ∧ r = .ok (some collection.ownerId) ∧
        s' = s.withTx tx (some { t with locked := some id })
  | .nextPosition _ id, r, s' => r = .ok (ItemTable.next (s.items.overlay t.writes) id) ∧ s' = s
  | .insertItem _ row, r, s' =>
    if FitsInteger row.position then
      match (s.items.overlay t.writes).find? row.key with
      | some _ => r = .ok () ∧ s' = s
      | none => ¬ s.Pending tx row.key ∧ r = .ok () ∧ s' = s.withTx tx (some { t with writes := t.writes.put row })
    else r = .error outOfRange ∧ s' = s
  | .readMembers _ id, r, s' => ∃ rows, rows.Perm (ItemTable.of (s.items.overlay t.writes) id) ∧ r = .ok rows ∧ s' = s
  | .setPosition _ id key position, r, s' =>
    match ItemTable.named (s.items.overlay t.writes) id key with
    | none => (r = .ok 0 ∨ ¬ FitsInteger position ∧ r = .error outOfRange) ∧ s' = s
    | some row =>
      if FitsInteger position then ¬ s.Pending tx row.key ∧ r = .ok 1 ∧
        s' = s.withTx tx (some { t with writes := t.writes.put { row with position := position } })
      else r = .error outOfRange ∧ s' = s
  | .commit _, r, s' => r = .ok () ∧ s' = { s.withTx tx none with items := s.items.overlay t.writes }
  | _, _, _ => False

/-- What an operation outside of transactions can do. -/
def outsideTx (faults : Prop) (s : ItemWorld) : (op : ItemOp) → op.Res → ItemWorld → Prop
  | .server op, r, s' => ∃ w, exec (fun _ => faults) s.server op r w ∧ s' = { s with server := w }
  | .begin, r, s' =>
    (r = .ok s.nextTx ∧ s' = { s.withTx s.nextTx (some ⟨none, .empty⟩) with nextTx := s.nextTx + 1 }) ∨
      (faults ∧ (∃ e, r = .error e) ∧ s' = s)
  | .rollback tx, r, s' => r = .ok () ∧ s' = s.withTx tx none
  | .abandon tx, r, s' => r = .ok () ∧ s' = s.withTx tx none
  | .deleteItem id key, r, s' =>
    (match s.items.named id key with
      | none => r = .ok 0 ∧ s' = s
      | some row => ¬ s.Versioned row.key ∧ r = .ok 1 ∧
          s' = { s with items := s.items.delete fun other => other.key = row.key }) ∨
      (faults ∧ (∃ e, r = .error e) ∧ s' = s)
  | _, _, _ => False

/-- A statement of a transaction fails; where it is the `COMMIT`, the transaction is over. -/
def failsInTx (s : ItemWorld) (op : ItemOp) (r : op.Res) (s' : ItemWorld) : Prop :=
  (∃ e, r = .error e) ∧ s' = match op with
    | .commit tx => s.withTx tx none
    | _ => s

/-- What one operation can do.  A statement in a transaction that is over fails. -/
def execItem (faults : Prop) (s : ItemWorld) (op : ItemOp) (r : op.Res) (s' : ItemWorld) : Prop :=
  match op.tx with
  | some tx => (∃ t, s.txs tx = some t ∧ inTx s tx t op r s') ∨ ((faults ∨ s.txs tx = none) ∧ failsInTx s op r s')
  | none => outsideTx faults s op r s'

/-! ### An answer -/

/-- A statement in a transaction that is over. -/
def txOver : Failure := .sql (.io "connection closed")

/-- What an operation does when it need not wait and nothing fails. -/
def answerItem (s : ItemWorld) : (op : ItemOp) → op.Res × ItemWorld
  | .server op => ((answer s.server op).1, { s with server := (answer s.server op).2 })
  | .begin => (.ok s.nextTx, { s.withTx s.nextTx (some ⟨none, .empty⟩) with nextTx := s.nextTx + 1 })
  | .lockCollection tx id =>
    match s.txs tx, s.server.collections.find? id with
    | none, _ => (.error txOver, s)
    | some _, none => (.ok none, s)
    | some t, some collection => (.ok (some collection.ownerId), s.withTx tx (some { t with locked := some id }))
  | .nextPosition tx id =>
    match s.txs tx with
    | none => (.error txOver, s)
    | some t => (.ok (ItemTable.next (s.items.overlay t.writes) id), s)
  | .insertItem tx row =>
    match s.txs tx with
    | none => (.error txOver, s)
    | some t =>
      if FitsInteger row.position then
        match (s.items.overlay t.writes).find? row.key with
        | some _ => (.ok (), s)
        | none => (.ok (), s.withTx tx (some { t with writes := t.writes.put row }))
      else (.error outOfRange, s)
  | .readMembers tx id =>
    match s.txs tx with
    | none => (.error txOver, s)
    | some t => (.ok (ItemTable.of (s.items.overlay t.writes) id), s)
  | .setPosition tx id key position =>
    match s.txs tx with
    | none => (.error txOver, s)
    | some t =>
      match ItemTable.named (s.items.overlay t.writes) id key with
      | none => (.ok 0, s)
      | some row =>
        if FitsInteger position then
          (.ok 1, s.withTx tx (some { t with writes := t.writes.put { row with position := position } }))
        else (.error outOfRange, s)
  | .commit tx =>
    match s.txs tx with
    | none => (.error txOver, s.withTx tx none)
    | some t => (.ok (), { s.withTx tx none with items := s.items.overlay t.writes })
  | .rollback tx => (.ok (), s.withTx tx none)
  | .abandon tx => (.ok (), s.withTx tx none)
  | .deleteItem id key =>
    match s.items.named id key with
    | none => (.ok 0, s)
    | some row => (.ok 1, { s with items := s.items.delete fun other => other.key = row.key })

/-- An operation need not wait. -/
def proceeds (s : ItemWorld) : ItemOp → Bool
  | .lockCollection tx id => s.Free tx id
  | .insertItem tx row => !decide (s.Pending tx row.key)
  | .setPosition tx id key _ => (s.txs tx).all fun t =>
      (ItemTable.named (s.items.overlay t.writes) id key).all fun row => !decide (s.Pending tx row.key)
  | .deleteItem id key => (s.items.named id key).all fun row => !decide (s.Versioned row.key)
  | _ => true

/-- **The answer is one that the operation has.** -/
theorem exec_answerItem {s : ItemWorld} {op : ItemOp} (h : proceeds s op = true) :
    execItem False s op (answerItem s op).1 (answerItem s op).2 := by
  cases op with
  | server op => exact ⟨_, exec_answer _ s.server op, rfl⟩
  | begin => exact .inl ⟨rfl, rfl⟩
  | rollback tx => exact ⟨rfl, rfl⟩
  | abandon tx => exact ⟨rfl, rfl⟩
  | deleteItem id key =>
    left
    simp only [proceeds] at h
    simp only [answerItem]
    cases hnamed : s.items.named id key with
    | none => exact ⟨rfl, rfl⟩
    | some row =>
      rw [hnamed] at h
      exact ⟨by simpa using h, rfl, rfl⟩
  | lockCollection tx id =>
    cases htx : s.txs tx with
    | none => exact .inr ⟨.inr htx, by simp [failsInTx, answerItem, htx]⟩
    | some t =>
      refine .inl ⟨t, htx, ?_⟩
      simp only [inTx, answerItem, htx]
      cases hfind : s.server.collections.find? id with
      | none => exact ⟨rfl, rfl⟩
      | some collection => exact ⟨of_decide_eq_true h, rfl, rfl⟩
  | nextPosition tx id =>
    cases htx : s.txs tx with
    | none => exact .inr ⟨.inr htx, by simp [failsInTx, answerItem, htx]⟩
    | some t => exact .inl ⟨t, htx, by simp [inTx, answerItem, htx]⟩
  | insertItem tx row =>
    cases htx : s.txs tx with
    | none => exact .inr ⟨.inr htx, by simp [failsInTx, answerItem, htx]⟩
    | some t =>
      refine .inl ⟨t, htx, ?_⟩
      simp only [inTx, answerItem, htx]
      split
      · cases hfind : (s.items.overlay t.writes).find? row.key with
        | none => exact ⟨by simpa [proceeds] using h, rfl, rfl⟩
        | some old => exact ⟨rfl, rfl⟩
      · exact ⟨rfl, rfl⟩
  | readMembers tx id =>
    cases htx : s.txs tx with
    | none => exact .inr ⟨.inr htx, by simp [failsInTx, answerItem, htx]⟩
    | some t => exact .inl ⟨t, htx, _, .refl _, by simp [answerItem, htx]⟩
  | setPosition tx id key position =>
    cases htx : s.txs tx with
    | none => exact .inr ⟨.inr htx, by simp [failsInTx, answerItem, htx]⟩
    | some t =>
      refine .inl ⟨t, htx, ?_⟩
      simp only [inTx, answerItem, htx]
      cases hnamed : ItemTable.named (s.items.overlay t.writes) id key with
      | none => exact ⟨.inl rfl, rfl⟩
      | some row =>
        simp only [proceeds, htx, hnamed, Option.all_some, Bool.not_eq_true', decide_eq_false_iff_not] at h
        simp only
        split
        · exact ⟨h, rfl, rfl⟩
        · exact ⟨rfl, rfl⟩
  | commit tx =>
    cases htx : s.txs tx with
    | none => exact .inr ⟨.inr htx, by simp [failsInTx, answerItem, htx]⟩
    | some t => exact .inl ⟨t, htx, by simp [inTx, answerItem, htx]⟩

/-! ## The handlers -/

/-- What a handler answers. -/
inductive ItemReply where
  | added (id : Uuid) (item : Item) (position : ℤ)
  | removed (key : Text × Text)
  | reordered (id : Uuid)
  | nothing

abbrev ItemHandler (α : Type) := Fallible ItemOp ItemOp.Res Abort α

/-- A handler of the server. -/
def onItems {α : Type} (p : Handler α) : ItemHandler α :=
  ExceptT.mk (p.run.interp fun op => Prog.perform (ItemOp.server op))

/-- A statement followed by `?`. -/
def askItem (op : ItemOp) : ItemHandler op.Val := do
  match ← perform op with
  | .ok v => pure v
  | .error e => throw (Abort.error (.from' e))

/-- What is done with a transaction; it is rolled back when it is dropped. -/
def inTransaction {α : Type} (p : ℕ → ItemHandler α) : ItemHandler α := do
  let tx ← askItem .begin
  match ← always (p tx).run with
  | .ok a => pure a
  | .error e => do
    let _ ← perform (ItemOp.rollback tx)
    throw e

/-- The lock, and the owner under it. -/
def lockOwned (tx : ℕ) (id userId : Uuid) : ItemHandler Unit := do
  let owner ← askItem (.lockCollection tx id)
  reject (owner ≠ some userId) AppError.notFound

/-- `canonical_live_item` -/
def canonicalLiveItem (kind core : Text) : Handler Item :=
  if trim kind = kindFile then do
    let file ← ask (.findFile (stripToCore core))
    let file ← orThrow file AppError.notFound
    let now ← ask .now
    reject (expired file.expiresAt now) AppError.notFound
    pure (.file file.idCore)
  else if trim kind = kindPaste then do
    let paste ← ask (.findPaste (stripToCore core))
    let paste ← orThrow paste AppError.notFound
    let now ← ask .now
    reject (expired paste.expiresAt now) AppError.notFound
    pure (.paste paste.idCore)
  else throw (Abort.error (AppError.badRequest "kind must be file|paste"))

/-- `add_item`, once it is known who asks for which item. -/
def appendItem (id userId : Uuid) (item : Item) (tx : ℕ) : ItemHandler ℤ := do
  lockOwned tx id userId
  let position ← askItem (.nextPosition tx id)
  askItem (.insertItem tx ⟨id, item, position⟩)
  askItem (.commit tx)
  pure position

/-- `add_item` -/
def addItem (env : Env) (caller : Caller) (id : Uuid) (kind core : Text) : ItemHandler ItemReply := do
  let identity ← onItems (writeIdentity env caller)
  let item ← onItems (canonicalLiveItem kind core)
  let position ← inTransaction (appendItem id identity.user.id item)
  pure (.added id item position)

/-- `remove_item` -/
def removeItem (env : Env) (caller : Caller) (id : Uuid) (kind core : Text) : ItemHandler ItemReply := do
  let identity ← onItems (writeIdentity env caller)
  let _collection ← onItems (ownedCollection id identity.user.id)
  reject (trim kind ≠ kindFile ∧ trim kind ≠ kindPaste) (AppError.badRequest "kind must be file|paste")
  let deleted ← askItem (.deleteItem id (trim kind, stripToCore core))
  reject (deleted = 0) AppError.notFound
  pure (.removed (trim kind, stripToCore core))

/-- `PositionInput` -/
structure PositionInput where
  kind : Text
  core : Text
  position : ℤ

/-- The item that is meant. -/
def PositionInput.key (input : PositionInput) : Text × Text := (trim input.kind, stripToCore input.core)

/-- The loop over the supplied positions, with what the two sets have in them. -/
def checkPositions (memberKeys : List (Text × Text)) :
    List PositionInput → List (Text × Text) → List ℤ → Except Abort Unit
  | [], _, _ => .ok ()
  | input :: rest, keys, positions =>
    if input.position < 0 then .error (AppError.badRequest "positions must be non-negative")
    else if input.key ∉ memberKeys ∨ input.key ∈ keys ∨ input.position ∈ positions then
      .error (AppError.badRequest "positions must identify each member once with unique positions")
    else checkPositions memberKeys rest (input.key :: keys) (input.position :: positions)

/-- The loop over the updates. -/
def setPositions (tx : ℕ) (id : Uuid) : List PositionInput → ItemHandler Unit
  | [] => pure ()
  | input :: rest => do
    let _found ← askItem (.setPosition tx id input.key input.position)
    setPositions tx id rest

/-- The keys of the members, as the set has them. -/
def memberKeys (members : List CollectionItem) : List (Text × Text) :=
  members.map fun row => (row.item.key.1, trim row.item.key.2)

/-- `reorder`, once it is known who asks. -/
def renumber (id userId : Uuid) (positions : List PositionInput) (tx : ℕ) : ItemHandler Unit := do
  lockOwned tx id userId
  let members ← askItem (.readMembers tx id)
  reject (positions.length ≠ members.length)
    (AppError.badRequest "positions must contain every collection item exactly once")
  check (checkPositions (memberKeys members) positions [] [])
  setPositions tx id positions
  askItem (.commit tx)

/-- `reorder` -/
def reorder (env : Env) (caller : Caller) (id : Uuid) (positions : List PositionInput) : ItemHandler ItemReply := do
  let identity ← onItems (writeIdentity env caller)
  inTransaction (renumber id identity.user.id positions)
  pure (.reordered id)

/-- What is asked for, and the loss of a connection. -/
inductive ItemRequest where
  | add (caller : Caller) (id : Uuid) (kind core : Text)
  | remove (caller : Caller) (id : Uuid) (kind core : Text)
  | reorder (caller : Caller) (id : Uuid) (positions : List PositionInput)
  | disconnect (tx : ℕ)

abbrev ItemOutcome := Except Abort ItemReply

/-- The program of a request. -/
def serveItem (env : Env) : ItemRequest → Prog ItemOp ItemOp.Res ItemOutcome
  | .add caller id kind core => (addItem env caller id kind core).run
  | .remove caller id kind core => (removeItem env caller id kind core).run
  | .reorder caller id positions => (reorder env caller id positions).run
  | .disconnect tx => do
    let _ ← Prog.perform (ItemOp.abandon tx)
    pure (.ok .nothing)

/-! ## The test of a new order -/

theorem trim_of_none {t : Text} (h : ∀ c ∈ t, isWhitespace c = false) : trim t = t := by
  unfold trim
  have hleft : t.dropWhile isWhitespace = t := by
    cases t with
    | nil => rfl
    | cons c cs => exact List.dropWhile_cons_of_neg (by simp [h c List.mem_cons_self])
  rw [hleft, List.rdropWhile_eq_self_iff]
  intro hne
  simp [h _ (List.getLast_mem hne)]

theorem trim_core (core : Core) : trim core.val = core.val := by
  refine trim_of_none fun c hc => ?_
  have halphabet : ∀ c ∈ alphabet, isWhitespace c = false := by simp [alphabet, isWhitespace]
  exact halphabet c (core.property.2 c hc)

theorem memberKeys_eq (members : List CollectionItem) : memberKeys members = members.map fun row => row.item.key := by
  refine List.map_congr_left fun row _ => ?_
  cases row.item <;> simp only [Item.key, trim_core]

/-- What the loop over the supplied positions tests. -/
theorem checkPositions_eq_ok {keys : List (Text × Text)} {inputs : List PositionInput} {seen : List (Text × Text)}
    {positions : List ℤ} : checkPositions keys inputs seen positions = .ok () ↔
      (∀ input ∈ inputs, 0 ≤ input.position ∧ input.key ∈ keys ∧ input.key ∉ seen ∧ input.position ∉ positions) ∧
        (inputs.map PositionInput.key).Nodup ∧ (inputs.map PositionInput.position).Nodup := by
  induction inputs generalizing seen positions with
  | nil => simp [checkPositions]
  | cons input rest ih =>
    unfold checkPositions
    by_cases hneg : input.position < 0
    · rw [if_pos hneg]
      constructor
      · nofun
      · rintro ⟨h, -⟩
        exact absurd (h input List.mem_cons_self).1 (not_le.2 hneg)
    · rw [if_neg hneg]
      by_cases hbad : input.key ∉ keys ∨ input.key ∈ seen ∨ input.position ∈ positions
      · rw [if_pos hbad]
        constructor
        · nofun
        · rintro ⟨h, -⟩
          obtain ⟨-, hkey, hseen, hpositions⟩ := h input List.mem_cons_self
          exact absurd hbad (by simp [hkey, hseen, hpositions])
      · rw [if_neg hbad, ih]
        obtain ⟨hkey, hseen, hpositions⟩ : input.key ∈ keys ∧ input.key ∉ seen ∧ input.position ∉ positions := by
          simpa only [not_or, not_not] using hbad
        have hpos : 0 ≤ input.position := not_lt.1 hneg
        simp only [List.map_cons, List.nodup_cons, List.mem_map, List.mem_cons]
        constructor
        · rintro ⟨h, hkeys, hnumbers⟩
          refine ⟨?_, ⟨?_, hkeys⟩, ?_, hnumbers⟩
          · rintro other (rfl | hother)
            · exact ⟨hpos, hkey, hseen, hpositions⟩
            · obtain ⟨hle, hin, hnew, hother'⟩ := h other hother
              exact ⟨hle, hin, fun hmem => hnew (.inr hmem), fun hmem => hother' (.inr hmem)⟩
          · rintro ⟨other, hother, heq⟩
            exact (h other hother).2.2.1 (.inl heq)
          · rintro ⟨other, hother, heq⟩
            exact (h other hother).2.2.2 (.inl heq)
        · rintro ⟨h, ⟨hfresh, hkeys⟩, hfresh', hnumbers⟩
          refine ⟨fun other hother => ?_, hkeys, hnumbers⟩
          obtain ⟨hle, hin, hnew, hother'⟩ := h other (.inr hother)
          refine ⟨hle, hin, ?_, ?_⟩
          · rintro (heq | hmem)
            · exact hfresh ⟨other, hother, heq⟩
            · exact hnew hmem
          · rintro (heq | hmem)
            · exact hfresh' ⟨other, hother, heq⟩
            · exact hother' hmem

/-- The list names every member exactly once. -/
def Names (inputs : List PositionInput) (members : List CollectionItem) : Prop :=
  (inputs.map PositionInput.key).Perm (members.map fun row => row.item.key)

/-- **The test is that of a permutation**, with distinct and non-negative positions. -/
theorem checked_iff_names {inputs : List PositionInput} {members : List CollectionItem}
    (hmembers : (members.map fun row => row.item.key).Nodup) :
    inputs.length = members.length ∧ checkPositions (memberKeys members) inputs [] [] = .ok () ↔
      Names inputs members ∧ (inputs.map PositionInput.position).Nodup ∧ ∀ input ∈ inputs, 0 ≤ input.position := by
  rw [memberKeys_eq, checkPositions_eq_ok]
  constructor
  · rintro ⟨hlength, h, hkeys, hpositions⟩
    have hsubset : inputs.map PositionInput.key ⊆ members.map fun row => row.item.key := by
      intro key hkey
      obtain ⟨input, hinput, rfl⟩ := List.mem_map.1 hkey
      exact (h input hinput).2.1
    refine ⟨(hkeys.subperm hsubset).perm_of_length_le ?_, hpositions, fun input hinput => (h input hinput).1⟩
    rw [List.length_map, List.length_map, hlength]
  · rintro ⟨hnames, hpositions, hpos⟩
    refine ⟨?_, fun input hinput => ⟨hpos input hinput, ?_, List.not_mem_nil, List.not_mem_nil⟩,
      hnames.nodup_iff.2 hmembers, hpositions⟩
    · have hlength := hnames.length_eq
      rwa [List.length_map, List.length_map] at hlength
    · exact hnames.subset (List.mem_map_of_mem hinput)

end Server
end Uwuubox
