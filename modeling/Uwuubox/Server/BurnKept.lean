import Uwuubox.Server.BurnOnce
import Uwuubox.Server.Links
import Uwuubox.Dedupe.Ledger

/-!
# What a failed read costs

A raw read of a file that is read once collects the content before it deletes the row, so that a
failure of the store does not consume the read.  After the `DELETE` it still has to release the
objects of the row.

* `BurnFile` — a row that is read once, with its bytes and with references that are counted.
* `Debt` — what a raw read owes: references it has to give back, and the content to its client.
* `Unconsumed` — **the invariant**: the file is there, or somebody owes its content.
* `ReadKept` — whenever no read is in progress and none was answered with content, the file can be
  read.
* `readKept_of_releases` — **it is so in every run in which the release of the objects does not
  fail.**
* `consumed_by_failed_release` — a run in which it fails.
-/

namespace Uwuubox
namespace Server

open Dedupe Storage Table Fallible

/-! ## Reads and what they owe -/

/-- The file is read once, its bytes are stored, and its objects count the references to them. -/
structure BurnFile (w : World) (file : File) (bytes : Bytes) : Prop where
  row : file.toFileRow ∈ w.dedupe.files.rows
  columns : w.fileColumns file.idCore = file.toFileColumns
  burns : file.burnAfterRead = true
  stored : w.dedupe.store file.storageKey = some bytes
  size : bytes.length = file.sizeBytes
  counted : ∀ obj ∈ w.dedupe.objects.rows, obj.storageKey ∈ file.keys →
    fileRefs w.dedupe.files.rows obj.storageKey ≤ obj.refcount

/-- What a raw read owes. -/
inductive Debt where
  /-- A reference of a row that the read has deleted. -/
  | held (key : SafeKey)
  /-- The refcount of this key went to zero. -/
  | spent (key : SafeKey)
  /-- The read has deleted the row, and its client gets the content. -/
  | content
deriving DecidableEq

/-- The references of a deleted row. -/
def heldKeys (keys : List SafeKey) : Multiset Debt := keys.map Debt.held

@[simp] theorem count_heldKeys (keys : List SafeKey) (key : SafeKey) :
    (heldKeys keys).count (.held key) = keys.count key := by
  unfold heldKeys
  rw [Multiset.coe_count]
  exact List.count_map_of_injective keys Debt.held (fun _ _ h => Debt.held.inj h) key

theorem mem_heldKeys {keys : List SafeKey} {debt : Debt} :
    debt ∈ heldKeys keys ↔ ∃ key ∈ keys, .held key = debt := by
  unfold heldKeys
  rw [Multiset.mem_coe, List.mem_map]

/-- The key that an operation releases. -/
def Op.releases : Op → Option SafeKey
  | .storage (.dropObject key) | .storage (.deleteObject key) | .storage (.delete key) => some key
  | _ => none

/-- What a read may do, given what it owes. -/
def MayPay (debts : Multiset Debt) : Op → Prop
  | .storage (.deleteFile _) => True
  | .storage (.dropObject key) => .held key ∈ debts
  | .storage (.deleteObject key) | .storage (.delete key) => .spent key ∈ debts
  | op => op.area = none ∨ op.area = some .clock

/-- Who deletes the row of the file owes its content. -/
def owedContent (file : File) (core : Core) : Multiset Debt :=
  if core = file.idCore then {.content} else 0

theorem mem_owedContent {file : File} {core : Core} {debt : Debt} :
    debt ∈ owedContent file core ↔ core = file.idCore ∧ debt = .content := by
  unfold owedContent
  by_cases hcore : core = file.idCore
  · simp [hcore]
  · simp [hcore]

/-- What it owes after an answer. -/
def Pays (file : File) (debts : Multiset Debt) : (op : Op) → op.Res → Multiset Debt → Prop
  | .storage (.deleteFile core), .ok (some (key, thumbKey)), debts' =>
    debts' = heldKeys (key :: thumbKey.toList) + owedContent file core + debts ∧
      (core = file.idCore → key :: thumbKey.toList = file.keys)
  | .storage (.dropObject key), .ok (some 0), debts' =>
    ∃ rest, debts = {.held key} + rest ∧ debts' = {.spent key} + rest
  | .storage (.dropObject key), _, debts' => ∃ rest, debts = {.held key} + rest ∧ debts' = rest
  | _, _, debts' => debts' = debts

/-- No release of a key of the file fails. -/
def Released (file : File) (op : Op) (r : op.Res) : Prop :=
  ∀ key ∈ file.keys, op.releases = some key → ∃ v, r = .ok v

/-- The row that is found with the core of the file is the file's. -/
def Found (file : File) : (op : Op) → op.Res → Prop
  | .findFile _, .ok (some found) => found.idCore = file.idCore → found = file
  | _, _ => True

/-- The protocol of a read, which keeps account of what it owes. -/
def debtProtocol (file : File) : Protocol (Multiset Debt) Op Op.Res :=
  ⟨MayPay, fun debts op r debts' => Pays file debts op r debts' ∧ Released file op r ∧ Found file op r⟩

/-- **The invariant.**  References are counted, those included that reads have yet to give back; while
the row is there, its bytes are; and when it is not, some read owes the content. -/
structure Unconsumed (file : File) (bytes : Bytes) (w : World) (debts : Multiset Debt) : Prop where
  columns : w.fileColumns file.idCore = file.toFileColumns
  only : ∀ row ∈ w.dedupe.files.rows, row.idCore = file.idCore → row = file.toFileRow
  counted : ∀ obj ∈ w.dedupe.objects.rows, obj.storageKey ∈ file.keys →
    fileRefs w.dedupe.files.rows obj.storageKey + debts.count (.held obj.storageKey) ≤ obj.refcount
  stored : file.toFileRow ∈ w.dedupe.files.rows →
    .spent file.storageKey ∉ debts ∧ w.dedupe.store file.storageKey = some bytes
  owed : file.toFileRow ∉ w.dedupe.files.rows → .content ∈ debts

theorem BurnFile.unconsumed {w : World} {file : File} {bytes : Bytes} (h : BurnFile w file bytes) :
    Unconsumed file bytes w 0 where
  columns := h.columns
  only row hrow hcore := w.dedupe.files.uniqueCore.eq hrow h.row hcore
  counted obj hobj hkey := by simpa using h.counted obj hobj hkey
  stored _ := ⟨Multiset.notMem_zero _, h.stored⟩
  owed hno := absurd h.row hno

/-! ## One operation -/

section Step

variable {mayFail : Op → Prop} {file : File} {bytes : Bytes} {w w' : World} {debts others : Multiset Debt}

/-- A failed release of a key had to fail, or its refcount was zero. -/
theorem exec_dropObject_error {faults : Prop} {w w' : Dedupe.World} {key : SafeKey} {e : Failure}
    (h : Dedupe.exec faults w (.dropObject key) (.error e) w') :
    faults ∨ ∃ obj ∈ w.objects.rows, obj.storageKey = key ∧ obj.refcount = 0 := by
  rcases h with h | ⟨hfaults, -⟩
  · simp only [Dedupe.answer] at h
    split at h
    · cases h
    · rename_i obj hfind
      obtain ⟨hobj, hkey⟩ := find?_col hfind
      split at h
      · rename_i hzero
        exact .inr ⟨obj, hobj, hkey, hzero⟩
      · cases h
  · exact .inl hfaults

/-- The statement that deletes a row. -/
theorem unconsumed_deleteFile {core : Core} {r : (Op.storage (.deleteFile core)).Res}
    (hw : Unconsumed file bytes w (debts + others)) (h : exec mayFail w (.storage (.deleteFile core)) r w') :
    ∃ debts', Pays file debts (.storage (.deleteFile core)) r debts' ∧
      Unconsumed file bytes w' (debts' + others) := by
  obtain ⟨dedupe, rfl, hdedupe⟩ := exec_storage h
  rcases exec_deleteFile hdedupe with ⟨row, hrow, rfl, rfl, rfl⟩ | ⟨hno, rfl⟩
  · refine ⟨_, ⟨rfl, fun hcore => congrArg FileRow.keys (hw.only row hrow hcore)⟩, hw.columns,
      fun other hother => hw.only other (mem_deleteWhere.1 hother).1, ?_, ?_, ?_⟩
    · intro obj hobj hkey
      have hcount := hw.counted obj hobj hkey
      rw [fileRefs_delete hrow] at hcount
      have hcontent : (owedContent file row.idCore).count (.held obj.storageKey) = 0 := by
        rw [Multiset.count_eq_zero, mem_owedContent]
        simp
      simp only [Multiset.count_add, count_heldKeys, hcontent, FileRow.keys] at hcount ⊢
      omega
    · intro hthere
      obtain ⟨hspent, hstored⟩ := hw.stored (mem_deleteWhere.1 hthere).1
      refine ⟨fun hmem => hspent ?_, hstored⟩
      simp only [Multiset.mem_add, mem_heldKeys, mem_owedContent, reduceCtorEq, and_false, exists_false,
        false_or] at hmem ⊢
      exact hmem
    · intro hgone
      simp only [Multiset.mem_add, mem_owedContent, and_true]
      by_cases hcore : row.idCore = file.idCore
      · exact .inl (.inl (.inr hcore))
      · have hstays : file.toFileRow ∉ w.dedupe.files.rows := fun hthere =>
          hgone (mem_deleteWhere.2 ⟨hthere, decide_eq_false fun heq => hcore heq.symm⟩)
        rcases Multiset.mem_add.1 (hw.owed hstays) with hmem | hmem
        · exact .inl (.inr hmem)
        · exact .inr hmem
  · refine ⟨debts, ?_, hw⟩
    rcases r with e | _ | keys
    · exact rfl
    · exact rfl
    · exact absurd rfl (hno keys)

theorem count_held_add (key : SafeKey) (key' : SafeKey) (rest : Multiset Debt) :
    (({.held key} : Multiset Debt) + rest).count (.held key') =
      (if key' = key then 1 else 0) + rest.count (.held key') := by
  rw [Multiset.count_add, Multiset.count_singleton]
  simp only [Debt.held.injEq]

/-- A reference that is not given back is lost, which does no harm. -/
theorem Unconsumed.lose {key : SafeKey} (hw : Unconsumed file bytes w ({.held key} + debts)) :
    Unconsumed file bytes w debts where
  columns := hw.columns
  only := hw.only
  counted obj hobj hkey := by
    have hcount := hw.counted obj hobj hkey
    rw [count_held_add] at hcount
    omega
  stored hthere := by
    obtain ⟨hspent, hstored⟩ := hw.stored hthere
    exact ⟨fun hmem => hspent (Multiset.mem_add.2 (.inr hmem)), hstored⟩
  owed hgone := by simpa using hw.owed hgone

/-- A reference is given back. -/
theorem Unconsumed.giveBack {key : SafeKey} (hw : Unconsumed file bytes w ({.held key} + debts)) :
    Unconsumed file bytes
      { w with dedupe := { w.dedupe with
        objects := w.dedupe.objects.setRefcount (fun s => s.storageKey = key) (· - 1) } }
      debts where
  columns := hw.columns
  only := hw.only
  counted obj hobj hkey := by
    rcases mem_updateWhere.1 hobj with ⟨hold, hother⟩ | ⟨old, hold, hsame, rfl⟩
    · have hcount := hw.counted obj hold hkey
      rw [count_held_add, if_neg (of_decide_eq_false hother), Nat.zero_add] at hcount
      exact hcount
    · have hcount := hw.counted old hold hkey
      rw [count_held_add, if_pos (of_decide_eq_true hsame)] at hcount
      show _ ≤ old.refcount - 1
      simp only at hcount ⊢
      omega
  stored hthere := hw.lose.stored hthere
  owed hgone := hw.lose.owed hgone

/-- The refcount is zero, so nothing refers to the key. -/
theorem Unconsumed.spend {key : SafeKey} (hw : Unconsumed file bytes w debts)
    (hzero : ∃ obj ∈ w.dedupe.objects.rows, obj.storageKey = key ∧ obj.refcount = 0) :
    Unconsumed file bytes w ({.spent key} + debts) where
  columns := hw.columns
  only := hw.only
  counted obj hobj hkey := by simpa using hw.counted obj hobj hkey
  stored hthere := by
    obtain ⟨hspent, hstored⟩ := hw.stored hthere
    refine ⟨fun hmem => ?_, hstored⟩
    rcases Multiset.mem_add.1 hmem with hmem | hmem
    · obtain ⟨obj, hobj, rfl, hnone⟩ := hzero
      have hmine : obj.storageKey ∈ file.keys :=
        Debt.spent.inj (Multiset.mem_singleton.1 hmem) ▸ List.mem_cons_self
      have hcount := hw.counted obj hobj hmine
      have hrefs := fileRefs_pos hthere hmine
      omega
    · exact hspent hmem
  owed hgone := Multiset.mem_add.2 (.inr (hw.owed hgone))

/-- The statement that gives a reference back. -/
theorem unconsumed_dropObject {key : SafeKey} {r : (Op.storage (.dropObject key)).Res}
    (hmay : .held key ∈ debts) (hw : Unconsumed file bytes w (debts + others))
    (h : exec mayFail w (.storage (.dropObject key)) r w') :
    ∃ debts', Pays file debts (.storage (.dropObject key)) r debts' ∧
      Unconsumed file bytes w' (debts' + others) := by
  obtain ⟨rest, rfl⟩ := Multiset.exists_cons_of_mem hmay
  rw [← Multiset.singleton_add, add_assoc] at hw
  obtain ⟨dedupe, rfl, hdedupe⟩ := exec_storage h
  rcases exec_dropObject hdedupe with ⟨row, hrow, rfl, -, rfl, rfl⟩ | ⟨hno, rfl⟩
  · have hback := hw.giveBack
    cases hleft : row.refcount - 1 with
    | succ n => exact ⟨rest, ⟨rest, rfl, rfl⟩, hback⟩
    | zero =>
      refine ⟨{.spent row.storageKey} + rest, ⟨rest, rfl, rfl⟩, ?_⟩
      rw [add_assoc]
      exact hback.spend ⟨{ row with refcount := row.refcount - 1 },
        mem_updateWhere.2 (.inr ⟨row, hrow, decide_eq_true rfl, rfl⟩), rfl, hleft⟩
  · refine ⟨rest, ?_, hw.lose⟩
    match r, hno with
    | .error e, _ => exact ⟨rest, rfl, rfl⟩
    | .ok none, _ => exact ⟨rest, rfl, rfl⟩
    | .ok (some n), hno => exact absurd rfl (hno n)

/-- The statement that deletes the row of an object. -/
theorem unconsumed_deleteObject {key : SafeKey} {r : (Op.storage (.deleteObject key)).Res}
    (hw : Unconsumed file bytes w debts) (h : exec mayFail w (.storage (.deleteObject key)) r w') :
    Unconsumed file bytes w' debts := by
  obtain ⟨dedupe, rfl, hdedupe⟩ := exec_storage h
  rcases exec_deleteObject hdedupe with ⟨-, rfl⟩ | ⟨e, -, rfl⟩
  · exact ⟨hw.columns, hw.only, fun obj hobj => hw.counted obj (mem_deleteWhere.1 hobj).1, hw.stored,
      hw.owed⟩
  · exact hw

/-- The store operation that deletes the bytes of an object. -/
theorem unconsumed_delete {key : SafeKey} {r : (Op.storage (.delete key)).Res} (hmay : .spent key ∈ debts)
    (hw : Unconsumed file bytes w debts) (h : exec mayFail w (.storage (.delete key)) r w') :
    Unconsumed file bytes w' debts := by
  obtain ⟨dedupe, rfl, hdedupe⟩ := exec_storage h
  have hsame := exec_delete hdedupe
  refine ⟨hw.columns, ?_, ?_, ?_, ?_⟩
  · rw [hsame.files]
    exact hw.only
  · rw [hsame.objects, hsame.files]
    exact hw.counted
  · rw [hsame.files]
    intro hthere
    obtain ⟨hspent, hstored⟩ := hw.stored hthere
    refine ⟨hspent, ?_⟩
    have hother : file.storageKey ≠ key := by
      rintro rfl
      exact hspent hmay
    exact (hsame.store _ hother).trans hstored
  · rw [hsame.files]
    exact hw.owed

theorem found_exec (hw : Unconsumed file bytes w debts) {op : Op} {r : op.Res} (h : exec mayFail w op r w') :
    Found file op r := by
  unfold Found
  split
  · rename_i core found
    intro hcore
    rcases exec_statement h rfl with heq | ⟨-, ⟨e, herr⟩, -⟩
    · obtain ⟨row, hrow, -, -, rfl⟩ := file?_eq_some (Except.ok.inj (congrArg Prod.fst heq)).symm
      obtain rfl := hw.only row hrow hcore
      unfold World.fileOf
      rw [hw.columns]
    · cases herr
  · trivial

/-- No release of a key of the file fails, if it need not. -/
theorem released_exec {op : Op}
    (hreleases : ∀ op : Op, ∀ key ∈ file.keys, op.releases = some key → ¬ mayFail op)
    (hmay : MayPay debts op) (hw : Unconsumed file bytes w (debts + others)) {r : op.Res}
    (h : exec mayFail w op r w') : Released file op r := by
  intro key hkey hop
  have hsafe := hreleases op key hkey hop
  cases r with
  | ok v => exact ⟨v, rfl⟩
  | error e =>
    exfalso
    cases op with
    | storage op =>
      obtain ⟨dedupe, rfl, hdedupe⟩ := exec_storage h
      cases op with
      | dropObject key' =>
        cases hop
        obtain ⟨rest, rfl⟩ := Multiset.exists_cons_of_mem hmay
        rcases exec_dropObject_error hdedupe with hfaults | ⟨obj, hobj, rfl, hzero⟩
        · exact hsafe hfaults
        · have hcount := hw.counted obj hobj hkey
          rw [← Multiset.singleton_add, add_assoc, count_held_add, if_pos rfl] at hcount
          omega
      | deleteObject key' | delete key' =>
        rcases hdedupe with hanswer | ⟨hfaults, -⟩
        · cases hanswer
        · exact hsafe hfaults
      | _ => cases hop
    | _ => cases hop

/-- **One operation of a read** keeps the invariant, whatever the others owe. -/
theorem unconsumed_exec {op : Op}
    (hreleases : ∀ op : Op, ∀ key ∈ file.keys, op.releases = some key → ¬ mayFail op)
    (hmay : MayPay debts op) (hw : Unconsumed file bytes w (debts + others)) {r : op.Res}
    (h : exec mayFail w op r w') :
    ∃ debts', (debtProtocol file).next debts op r debts' ∧ Unconsumed file bytes w' (debts' + others) := by
  suffices hstep : ∃ debts', Pays file debts op r debts' ∧ Unconsumed file bytes w' (debts' + others) by
    obtain ⟨debts', hpays, hw'⟩ := hstep
    exact ⟨debts', ⟨hpays, released_exec hreleases hmay hw h, found_exec hw h⟩, hw'⟩
  cases op with
  | storage op =>
    cases op with
    | deleteFile core => exact unconsumed_deleteFile hw h
    | dropObject key => exact unconsumed_dropObject hmay hw h
    | deleteObject key => exact ⟨debts, rfl, unconsumed_deleteObject hw h⟩
    | delete key => exact ⟨debts, rfl, unconsumed_delete (Multiset.mem_add.2 (.inl hmay)) hw h⟩
    | _ => rcases hmay with hmay | hmay <;> cases hmay
  | tick dt =>
    obtain ⟨now, rfl⟩ := exec_frame h
    exact ⟨debts, rfl, hw.columns, hw.only, hw.counted, hw.stored, hw.owed⟩
  | _ =>
    first
      | exact ⟨debts, rfl, (exec_read h rfl).symm ▸ hw⟩
      | rcases hmay with hmay | hmay <;> cases hmay

end Step

/-! ## A read pays what it owes -/

section Programs

variable {file : File} {debts rest : Multiset Debt}

theorem mayPay_of_read {op : Op} (h : op.area = none) : MayPay debts op := by
  cases op with
  | storage op => cases op <;> cases h
  | _ => exact .inl h

theorem pays_of_read {op : Op} {r : op.Res} {debts' : Multiset Debt} (h : op.area = none)
    (hpays : Pays file debts op r debts') : debts' = debts := by
  cases op with
  | storage op => cases op <;> cases h
  | _ => exact hpays

/-- The protocol of what uploads and removals execute. -/
abbrev storageDebts (file : File) : Protocol (Multiset Debt) DbOp DbOp.Res :=
  ⟨fun debts op => (debtProtocol file).may debts (.storage op),
    fun debts op r debts' => (debtProtocol file).next debts (.storage op) r debts'⟩

/-- A release that does not fail, for a key of the file. -/
def Settled (file : File) (key : SafeKey) (rest : Multiset Debt) {α : Type} (result : Except α Unit)
    (debts : Multiset Debt) : Prop :=
  ∃ extra, debts = extra + rest ∧ .content ∉ extra ∧ (key ∈ file.keys → result = .ok ())

theorem obeys_releaseObject (key : SafeKey) :
    (releaseObject key).Obeys (storageDebts file)
      (fun result debts => Settled file key rest (result.map fun _ => ()) debts ∧
        (result = .ok true → .spent key ∈ debts)) ({.held key} + rest) := by
  refine ⟨Multiset.mem_add.2 (.inl (Multiset.mem_singleton_self _)), fun r debts' hnext => ?_⟩
  obtain ⟨hpays, hreleased, -⟩ := hnext
  match r with
  | .error e =>
    obtain ⟨rest', heq, rfl⟩ := hpays
    obtain rfl := add_left_cancel heq
    refine ⟨⟨0, (zero_add _).symm, Multiset.notMem_zero _, fun hkey => ?_⟩, nofun⟩
    obtain ⟨v, hv⟩ := hreleased key hkey rfl
    cases hv
  | .ok none =>
    obtain ⟨rest', heq, rfl⟩ := hpays
    obtain rfl := add_left_cancel heq
    exact ⟨⟨0, (zero_add _).symm, Multiset.notMem_zero _, fun _ => rfl⟩, nofun⟩
  | .ok (some (n + 1)) =>
    obtain ⟨rest', heq, rfl⟩ := hpays
    obtain rfl := add_left_cancel heq
    exact ⟨⟨0, (zero_add _).symm, Multiset.notMem_zero _, fun _ => rfl⟩, nofun⟩
  | .ok (some 0) =>
    obtain ⟨rest', heq, rfl⟩ := hpays
    obtain rfl := add_left_cancel heq
    have hspent : .spent key ∈ ({.spent key} : Multiset Debt) + rest :=
      Multiset.mem_add.2 (.inl (Multiset.mem_singleton_self _))
    refine ⟨hspent, fun r debts' hnext => ?_⟩
    obtain ⟨rfl, hreleased, -⟩ := hnext
    match r with
    | .error e =>
      refine ⟨⟨_, rfl, by simp, fun hkey => ?_⟩, nofun⟩
      obtain ⟨v, hv⟩ := hreleased key hkey rfl
      cases hv
    | .ok () => exact ⟨⟨_, rfl, by simp, fun _ => rfl⟩, fun _ => hspent⟩

theorem obeys_releaseAndDelete (key : SafeKey) :
    (releaseAndDelete key).Obeys (storageDebts file) (Settled file key rest) ({.held key} + rest) := by
  refine (Prog.obeys_bind _ _ _).2 ((obeys_releaseObject key).mono ?_)
  rintro result debts ⟨⟨extra, rfl, hcontent, hkey⟩, hspent⟩
  match result with
  | .error e => exact ⟨extra, rfl, hcontent, fun h => nomatch hkey h⟩
  | .ok false => exact ⟨extra, rfl, hcontent, fun _ => rfl⟩
  | .ok true =>
    refine ⟨hspent rfl, fun r debts' hnext => ?_⟩
    obtain ⟨rfl, hreleased, -⟩ := hnext
    match r with
    | .error e =>
      refine ⟨extra, rfl, hcontent, fun h => ?_⟩
      obtain ⟨v, hv⟩ := hreleased key h rfl
      cases hv
    | .ok () => exact ⟨extra, rfl, hcontent, fun _ => rfl⟩

/-- Who owes the content is told that the row has been removed. -/
theorem obeys_removeRow (core : Core) :
    (Dedupe.removeFile core).Obeys (storageDebts file)
      (fun result debts => .content ∈ debts → core = file.idCore ∧ result = .ok true) 0 := by
  refine ⟨trivial, fun r debts' hnext => ?_⟩
  obtain ⟨hpays, -, -⟩ := hnext
  rcases r with e | _ | ⟨key, thumbKey⟩
  · obtain rfl : debts' = 0 := hpays
    exact fun hmem => absurd hmem (Multiset.notMem_zero _)
  · obtain rfl : debts' = 0 := hpays
    exact fun hmem => absurd hmem (Multiset.notMem_zero _)
  · obtain ⟨rfl, hkeys⟩ := hpays
    have hmine : ∀ {key'}, key' ∈ key :: thumbKey.toList → ∀ {extra : Multiset Debt}, .content ∉ extra →
        .content ∈ extra + owedContent file core → core = file.idCore ∧ key' ∈ file.keys := by
      intro key' hkey' extra hextra hmem
      obtain ⟨hcore, -⟩ := mem_owedContent.1 ((Multiset.mem_add.1 hmem).resolve_left hextra)
      exact ⟨hcore, hkeys hcore ▸ hkey'⟩
    have hsplit : heldKeys (key :: thumbKey.toList) + owedContent file core + 0 =
        {.held key} + (heldKeys thumbKey.toList + owedContent file core) := by
      rw [add_zero, ← add_assoc]
      rfl
    have hheld : .content ∉ heldKeys thumbKey.toList := by simp [mem_heldKeys]
    rw [hsplit]
    simp only [Prog.bind]
    refine (Prog.obeys_bind _ _ _).2 ((obeys_releaseAndDelete key).mono ?_)
    rintro result _ ⟨extra, rfl, hextra, hsettled⟩
    have hfirst : .content ∉ extra + heldKeys thumbKey.toList := by
      rw [Multiset.mem_add]
      exact not_or.2 ⟨hextra, hheld⟩
    rw [← add_assoc]
    cases result with
    | error e =>
      intro hmem
      cases hsettled (hmine List.mem_cons_self hfirst hmem).2
    | ok u =>
      cases thumbKey with
      | none => exact fun hmem => ⟨(hmine List.mem_cons_self hfirst hmem).1, rfl⟩
      | some thumbKey =>
        have hswap : extra + heldKeys (some thumbKey).toList + owedContent file core =
            {.held thumbKey} + (extra + owedContent file core) := by
          rw [show heldKeys (some thumbKey).toList = {.held thumbKey} from rfl, add_comm extra, add_assoc]
        rw [hswap]
        refine (Prog.obeys_bind _ _ _).2 ((obeys_releaseAndDelete thumbKey).mono ?_)
        rintro result _ ⟨extra', rfl, hextra', hsettled'⟩
        have hsecond : .content ∉ extra' + extra := by
          rw [Multiset.mem_add]
          exact not_or.2 ⟨hextra', hextra⟩
        rw [← add_assoc]
        have hthumb : thumbKey ∈ key :: (some thumbKey).toList :=
          List.mem_cons_of_mem _ (List.mem_singleton_self _)
        cases result with
        | error e =>
          intro hmem
          cases hsettled' (hmine hthumb hsecond hmem).2
        | ok u => exact fun hmem => ⟨(hmine hthumb hsecond hmem).1, rfl⟩

theorem obeys_removeFile (core : Core) :
    (removeFile core).Obeys (debtProtocol file)
      (fun removed debts => .content ∈ debts → core = file.idCore ∧ removed = true)
      (fun _ debts => .content ∉ debts) 0 := by
  refine (obeys_bind _ _).2 (obeys_always.2 ((obeys_storage (obeys_removeRow core)).mono ?_))
  intro result debts hresult
  refine obeys_check.2 ⟨fun e he hmem => ?_, fun removed hremoved hmem => ?_⟩
  · rw [(hresult hmem).2] at he
    cases he
  · obtain ⟨hcore, hok⟩ := hresult hmem
    rw [hok] at hremoved
    cases hremoved
    exact ⟨hcore, rfl⟩

/-- The handler ends with no debt but what its response pays. -/
def PaysOff (file : File) (p : Handler Response) : Prop :=
  p.Obeys (debtProtocol file)
    (fun response debts => .content ∈ debts → response.Carries (.file file.idCore))
    (fun _ debts => .content ∉ debts) 0

/-- What only reads owes nothing. -/
theorem obeys_of_reads {α : Type} {p : Handler α} (h : Only [] p) :
    p.Obeys (debtProtocol file) (fun _ debts => debts = 0) (fun _ debts => debts = 0) 0 := by
  have hsim : Prog.Obeys (debtProtocol file) (fun _ debts => ∃ _ : Unit, debts = 0 ∧ True) p.run 0 := by
    have hread : ∀ {op : Op}, Within [] op → op.area = none := by
      intro op hop
      cases harea : op.area with
      | none => rfl
      | some area => exact absurd (hop area harea) List.not_mem_nil
    refine Prog.Obeys.simulate (fun _ debts => debts = 0) (fun _ hop => mayPay_of_read (hread hop)) ?_
      (Only.run h) rfl
    rintro _ debts op r debts' rfl hop hnext
    exact ⟨(), trivial, pays_of_read (hread hop) hnext.1⟩
  apply Prog.Obeys.mono hsim
  rintro r debts ⟨-, hdebts, -⟩
  cases r <;> exact hdebts

namespace PaysOff

theorem of_reads {p : Handler Response} (h : Only [] p) : PaysOff file p := by
  refine (obeys_of_reads h).mono ?_ ?_
  · rintro response _ rfl hmem
    exact absurd hmem (Multiset.notMem_zero _)
  · rintro e _ rfl
    exact Multiset.notMem_zero _

theorem skip {α : Type} {p : Handler α} {f : α → Handler Response} (hp : Only [] p)
    (hf : ∀ a, PaysOff file (f a)) : PaysOff file (p >>= f) := by
  refine (obeys_bind _ _).2 ((obeys_of_reads hp).mono ?_ ?_)
  · rintro a _ rfl
    exact hf a
  · rintro e _ rfl
    exact Multiset.notMem_zero _

theorem reject {c : Prop} [Decidable c] {e : Abort} {f : Unit → Handler Response}
    (hf : ¬ c → PaysOff file (f ())) : PaysOff file (Fallible.reject c e >>= f) :=
  (obeys_bind _ _).2 (obeys_reject.2 ⟨fun _ => Multiset.notMem_zero _, hf⟩)

theorem loadLiveFile {segment : Text} {f : File → Handler Response}
    (hf : ∀ found, (found.idCore = file.idCore → found = file) → PaysOff file (f found)) :
    PaysOff file (Server.loadLiveFile segment >>= f) := by
  have hnone : ∀ {debts : Multiset Debt}, debts = 0 → .content ∉ debts := by
    rintro _ rfl
    exact Multiset.notMem_zero _
  have hload : (Server.loadLiveFile segment).Obeys (debtProtocol file)
      (fun found debts => debts = 0 ∧ (found.idCore = file.idCore → found = file))
      (fun _ debts => .content ∉ debts) 0 := by
    refine (obeys_bind _ _).2 (obeys_reject.2 ⟨fun _ => hnone rfl, fun _ => ?_⟩)
    refine (obeys_bind _ _).2 (obeys_ask.2 ⟨.inl rfl, fun r debts hnext =>
      ⟨fun found? hfound => ?_, fun e _ => hnone (pays_of_read rfl hnext.1)⟩⟩)
    obtain rfl := pays_of_read rfl hnext.1
    refine (obeys_bind _ _).2 (obeys_orThrow.2 ⟨fun _ => hnone rfl, fun found hsome => ?_⟩)
    subst hsome
    subst hfound
    refine (obeys_bind _ _).2 (obeys_ask.2 ⟨.inl rfl, fun r debts hnext' =>
      ⟨fun now _ => ?_, fun e _ => hnone (pays_of_read rfl hnext'.1)⟩⟩)
    obtain rfl := pays_of_read rfl hnext'.1
    exact (obeys_bind _ _).2 (obeys_reject.2 ⟨fun _ => hnone rfl, fun _ => ⟨rfl, hnext.2.2⟩⟩)
  refine (obeys_bind _ _).2 (hload.mono ?_ fun _ _ h => h)
  rintro found _ ⟨rfl, hfound⟩
  exact hf found hfound

end PaysOff

variable (env : Env)

theorem paysOff_burnRead {found : File} (hfound : found.idCore = file.idCore → found = file)
    (hheaders : ∃ headers, downloadHeaders file = .ok headers) {outcome : RangeOutcome}
    (hsome : outcome ≠ .invalid ∧ outcome ≠ .unsatisfiable) : PaysOff file (burnRead found outcome) := by
  refine .skip (.read rfl) fun delivery => .skip .check fun all => .skip .reject fun _ => ?_
  refine (obeys_bind _ _).2 ((obeys_removeFile _).mono ?_ fun _ _ h => h)
  intro removed debts hremoved
  refine (obeys_bind _ _).2 (obeys_reject.2 ⟨fun hno hmem => ?_, fun _ => ?_⟩)
  · simp [(hremoved hmem).2] at hno
  · obtain ⟨headers, hok⟩ := hheaders
    refine obeys_check.2 ⟨fun e he hmem => ?_, fun response hresponse hmem => ?_⟩
    · obtain rfl := hfound (hremoved hmem).1
      simp [rawResponse, hok] at he
    · obtain rfl := hfound (hremoved hmem).1
      simp only [rawResponse, hok] at hresponse
      cases hresponse
      refine ⟨outcome.slice all, ?_⟩
      cases outcome with
      | full | satisfiable => exact List.mem_singleton_self _
      | invalid => exact absurd rfl hsome.1
      | unsatisfiable => exact absurd rfl hsome.2

theorem paysOff_raw (caller : Caller) (password : Option Text) (segment : Text)
    (hheaders : ∃ headers, downloadHeaders file = .ok headers) :
    PaysOff file (raw env caller password segment) := by
  refine .loadLiveFile fun found hfound => .skip (only_checkPassword env _ _ _ _) fun _ =>
    .skip .check fun header => ?_
  refine .reject fun hinvalid => ?_
  split
  · exact .of_reads .check
  · rename_i hrange
    split
    · exact paysOff_burnRead hfound hheaders ⟨hinvalid, hrange⟩
    · exact .of_reads (only_streamRead found _)

end Programs

/-! ## A read without failures -/

/-- The request may read the file, and asks for all of it. -/
structure CanRead (env : Env) (w : World) (file : File) (caller : Caller) (password : Option Text)
    (segment : Text) : Prop where
  core : stripToCore segment = file.idCore.val
  whole : caller.headers.range = none
  password : ∀ hash, file.accessPasswordHash = some hash →
    file.idCore ∈ (w.sessions caller.session).unlocked ∨
      ∃ pw, password = some pw ∧ env.verifyPassword hash pw = true

section Read

variable {file : File} {bytes : Bytes} {w : World} {debts : Multiset Debt} {env : Env}

/-- The row is removed, and its objects are released. -/
theorem triple_removeFile_owed (hw : Unconsumed file bytes w debts) (hcontent : .content ∉ debts) :
    Triple (fun _ => False) w (removeFile file.idCore) (fun removed _ => removed = true)
      fun _ _ => False := by
  have hdebts : Triple (fun _ => False) w (removeFile file.idCore)
      (fun removed w' => file.toFileRow ∉ w'.dedupe.files.rows → removed = true)
      fun _ w' => file.toFileRow ∈ w'.dedupe.files.rows := by
    have hpays : (removeFile file.idCore).Obeys (debtProtocol file)
        (fun removed paid => .content ∈ paid → file.idCore = file.idCore ∧ removed = true)
        (fun _ paid => .content ∉ paid) 0 := obeys_removeFile file.idCore
    have hstart : Unconsumed file bytes w (0 + debts) := by rwa [zero_add]
    apply Prog.Obeys.mono (Prog.Obeys.simulate
      (fun paid w => Unconsumed file bytes w (paid + debts)) (fun _ _ => trivial)
      (fun hw hmay hexec => unconsumed_exec (fun _ _ _ _ => id) hmay hw hexec) hpays hstart)
    rintro r w' ⟨paid, hw', hpaid⟩
    have howed : file.toFileRow ∉ w'.dedupe.files.rows → .content ∈ paid := fun hgone =>
      (Multiset.mem_add.1 (hw'.owed hgone)).resolve_right hcontent
    cases r with
    | ok removed => exact fun hgone => (hpaid (howed hgone)).2
    | error e => exact not_not.1 fun hgone => hpaid (howed hgone)
  refine ((triple_removeFile_gone file.idCore).and hdebts).mono ?_ ?_
  · rintro removed w' ⟨hgone, hremoved⟩
    exact hremoved fun hthere => hgone _ hthere rfl
  · rintro e w' ⟨hgone, hthere⟩
    exact hgone _ hthere rfl

theorem triple_checkPassword {caller : Caller} {password : Option Text} {segment : Text}
    (h : CanRead env w file caller password segment) :
    Triple (fun _ => False) w
      (checkPassword env caller.session file.accessPasswordHash file.idCore password)
      (fun _ w' => w' = w) fun _ _ => False := by
  unfold checkPassword
  cases hhash : file.accessPasswordHash with
  | none => exact rfl
  | some hash =>
    refine (obeys_bind _ _).2 (obeys_always.2 ?_)
    refine ⟨trivial, fun r w' hexec => ?_⟩
    have hexec : exec (fun _ => False) w (.session caller.session) r w' := hexec
    obtain rfl := exec_read hexec rfl
    rcases exec_statement hexec rfl with heq | ⟨hfalse, -⟩
    · cases heq
      refine obeys_reject.2 ⟨fun hlocked => ?_, fun _ => rfl⟩
      rcases h.password hash hhash with hunlocked | ⟨pw, rfl, hverify⟩
      · simp [hunlocked] at hlocked
      · simp [hverify] at hlocked
    · exact hfalse.elim

theorem triple_burnRead_owed (hw : Unconsumed file bytes w debts) (hcontent : .content ∉ debts)
    (hrow : file.toFileRow ∈ w.dedupe.files.rows) (hsize : bytes.length = file.sizeBytes)
    (hheaders : ∃ headers, downloadHeaders file = .ok headers) :
    Triple (fun _ => False) w (burnRead file .full)
      (fun response _ => response.status = 200 ∧ response.body = [.content (.file file.idCore) bytes])
      fun _ _ => False := by
  obtain ⟨headers, hok⟩ := hheaders
  have hget : answer w (.getStream file.storageKey file.sizeBytes) = (.ok ⟨bytes, none⟩, w) := by
    simp only [answer, (hw.stored hrow).2]
  refine (obeys_bind _ _).2 (obeys_ask.2 ⟨trivial, fun r w' hexec => ?_⟩)
  rcases hexec with heq | ⟨hfalse, -⟩
  · rw [hget] at heq
    cases heq
    refine ⟨fun delivery hdelivery => ?_, fun _ he => by cases he⟩
    cases hdelivery
    refine (obeys_bind _ _).2 (obeys_check.2 ⟨fun _ he => (by cases he), fun all hall => ?_⟩)
    cases hall
    refine (obeys_bind _ _).2 (obeys_reject.2 ⟨fun hne => absurd hsize hne, fun _ => ?_⟩)
    refine (obeys_bind _ _).2 ((triple_removeFile_owed hw hcontent).mono ?_ fun _ _ h => h)
    rintro _ w' rfl
    refine (obeys_bind _ _).2 (obeys_reject.2 ⟨fun hne => (by cases hne), fun _ => ?_⟩)
    simp only [rawResponse, hok]
    exact ⟨rfl, rfl⟩
  · exact hfalse.elim

/-- **A read without failures returns the content.** -/
theorem triple_raw_owed (hw : Unconsumed file bytes w debts) (hcontent : .content ∉ debts)
    (hrow : file.toFileRow ∈ w.dedupe.files.rows) (hburns : file.burnAfterRead = true)
    (hsize : bytes.length = file.sizeBytes) (hheaders : ∃ headers, downloadHeaders file = .ok headers)
    (hword : file.idCore.val ≠ registerWord) (hlive : expired file.expiresAt w.now = false)
    {caller : Caller} {password : Option Text} {segment : Text}
    (hread : CanRead env w file caller password segment) :
    Triple (fun _ => False) w (raw env caller password segment)
      (fun response _ => response.status = 200 ∧ response.body = [.content (.file file.idCore) bytes])
      fun _ _ => False := by
  have hload : Triple (fun _ => False) w (loadLiveFile segment) (fun found w' => found = file ∧ w' = w)
      fun _ _ => ∃ _ : Op, False := triple_loadLiveFile ⟨hrow, hw.columns, hlive⟩ hread.core hword
  refine (obeys_bind _ _).2 (hload.mono ?_ fun _ _ h => h.elim fun _ hfalse => hfalse)
  rintro found w ⟨rfl, rfl⟩
  refine (obeys_bind _ _).2 ((triple_checkPassword hread).mono ?_ fun _ _ h => h)
  rintro _ w rfl
  have hheader : rangeHeader caller.headers = .ok none := by simp [rangeHeader, hread.whole]
  rw [hheader]
  refine (obeys_bind _ _).2 (obeys_check.2 ⟨nofun, fun header hok => ?_⟩)
  cases hok
  refine (obeys_bind _ _).2 (obeys_reject.2 ⟨nofun, fun _ => ?_⟩)
  simp only [Range.parse, reduceCtorEq, if_false, hburns, if_true]
  exact triple_burnRead_owed hw hcontent hrow hsize hheaders

end Read

/-! ## Every run of reads -/

/-- Raw reads, and time passing between them. -/
def Request.isRawRead : Request → Bool
  | raw _ _ _ | clock _ => true
  | _ => false

/-- After every run of raw reads (by GET, and none is dropped) that is over, none of which was answered
with the content: if the file has not expired, then it is there with its bytes, and who may read it gets
all of it. -/
def ReadKept (env : Env) (mayFail : Op → Prop) (w₀ : World) (file : File) (bytes : Bytes) : Prop :=
  ∀ p : Pool World { req : Request // req.isRawRead = true } Op Op.Res Outcome,
    Pool.Reachable (fun req => serve env req.1) (exec mayFail) False w₀ p → p.Quiet →
    (∀ t ∈ p.threads, ¬ Delivered (.file file.idCore) t) →
    expired file.expiresAt p.shared.now = false →
      file.toFileRow ∈ p.shared.dedupe.files.rows ∧
      p.shared.dedupe.store file.storageKey = some bytes ∧
      ∀ caller password segment, CanRead env p.shared file caller password segment →
        ∃ response, ((serve env (.raw caller password segment)).eval answer p.shared).1 = .ok response ∧
          response.status = 200 ∧ response.body = [.content (.file file.idCore) bytes]

section Run

variable {env : Env} {mayFail : Op → Prop} {w₀ : World} {file : File} {bytes : Bytes}

/-- What a request of the run obeys. -/
theorem rawRead_obeys (hheaders : ∃ headers, downloadHeaders file = .ok headers) (req : Request)
    (hreq : req.isRawRead = true) : (serve env req).Obeys (debtProtocol file) (fun outcome debts =>
      .content ∈ debts → ∃ response, outcome = .ok response ∧ response.Carries (.file file.idCore)) 0 := by
  cases req with
  | raw caller password segment =>
    refine Prog.Obeys.mono (paysOff_raw env caller password segment hheaders) fun r debts hr => ?_
    cases r with
    | ok response => exact fun hmem => ⟨response, rfl, hr hmem⟩
    | error e => exact fun hmem => absurd hmem hr
  | clock dt =>
    refine ⟨.inr rfl, fun r debts hnext => ?_⟩
    obtain rfl : debts = 0 := hnext.1
    exact fun hmem => absurd hmem (Multiset.notMem_zero _)
  | _ => cases hreq

/-- **A failed read does not consume the read**, as long as it is not the release of the objects that
fails.  In every run of raw reads in which no release of a key of the file fails, a file that is read
once stays readable until somebody gets its content. -/
theorem readKept_of_releases (hfile : BurnFile w₀ file bytes) (hword : file.idCore.val ≠ registerWord)
    (hheaders : ∃ headers, downloadHeaders file = .ok headers)
    (hreleases : ∀ op : Op, ∀ key ∈ file.keys, op.releases = some key → ¬ mayFail op) :
    ReadKept env mayFail w₀ file bytes := by
  intro p hp hquiet hnone hlive
  have hcode : ∀ req : { req : Request // req.isRawRead = true },
      (serve env req.1).Owns (Unconsumed file bytes) (exec mayFail) (fun outcome g => ∃ debts, g = id debts ∧
        (.content ∈ debts → ∃ response, outcome = .ok response ∧ response.Carries (.file file.idCore))) 0 := by
    intro req
    refine (rawRead_obeys hheaders req.1 req.2).owns ?_
    intro debts op w r w' others hmay hw hexec
    exact unconsumed_exec hreleases hmay hw hexec
  obtain ⟨gs, hgs⟩ := Pool.ledger hfile.unconsumed hcode (fun hstop => hstop.elim) hp
  have hcontent : .content ∉ gs.sum := by
    refine hgs.quiet hquiet (P := fun g => .content ∉ g) (Multiset.notMem_zero _) ?_ ?_
    · intro g f hg hf hmem
      exact (Multiset.mem_add.1 hmem).elim hg hf
    · rintro req outcome g ht ⟨debts, rfl, hpays⟩ hmem
      obtain ⟨response, rfl, hcarries⟩ := hpays hmem
      exact hnone _ ht ⟨response, rfl, hcarries⟩
  have hw : Unconsumed file bytes p.shared gs.sum := hgs.2
  have hrow : file.toFileRow ∈ p.shared.dedupe.files.rows := not_not.1 fun hgone => hcontent (hw.owed hgone)
  refine ⟨hrow, (hw.stored hrow).2, fun caller password segment hread => ?_⟩
  have hraw := triple_raw_owed hw hcontent hrow hfile.burns hfile.size hheaders hword hlive hread
  apply Triple.eval at hraw
  revert hraw
  unfold serve
  generalize (raw env caller password segment).run.eval answer p.shared = result
  obtain ⟨e | response, w'⟩ := result
  · exact False.elim
  · exact fun h => ⟨response, rfl, h⟩

end Run

/-! ### A read that fails -/

/-- The file of `burnWorld`. -/
def burnFile : File :=
  ⟨uploadRow sampleSha256 (sampleUpload coreA) coreA (fileKey coreA ⟨[], isExt_nil⟩) none, burnColumns⟩

theorem burnFile_burnWorld : BurnFile burnWorld burnFile [7] where
  row := List.mem_singleton_self _
  columns := rfl
  burns := rfl
  stored := by decide
  size := rfl
  counted := by
    intro obj hobj _
    obtain rfl := List.mem_singleton.1 hobj
    decide

theorem readKept_of_releases_burnFile :
    ReadKept .plain (fun op => op.releases = none) burnWorld burnFile [7] :=
  readKept_of_releases burnFile_burnWorld (by decide) ⟨_, rfl⟩ fun op key _ hop hnone => by
    rw [hop] at hnone
    cases hnone

/-- A read that fails, all of its operations but the last without a failure. -/
def failedRead (operations : ℕ) : List (Pool.Turn { req : Request // req.isRawRead = true } Bool) :=
  .spawn ⟨burnRequest, rfl⟩ :: List.replicate operations (.act 0 true) ++ [.act 0 false]

/-- The operation, or its failure. -/
def answerOrFail (succeeds : Bool) (w : World) (op : Op) : op.Res × World :=
  if succeeds then answer w op else (.error (.sql (.io "connection reset")), w)

theorem exec_answerOrFail (succeeds : Bool) (w : World) (op : Op) :
    exec (fun _ => True) w op (answerOrFail succeeds w op).1 (answerOrFail succeeds w op).2 := by
  cases succeeds with
  | true => exact .inl rfl
  | false => exact .inr ⟨trivial, .statement op _⟩

/-- The pool after the read. -/
def failedReadPool (operations : ℕ) : Pool World { req : Request // req.isRawRead = true } Op Op.Res Outcome :=
  Pool.play (fun req => serve .plain req.1) answerOrFail burnWorld (failedRead operations)

/-- The statement after the `DELETE` fails: the client gets an error, and the file is gone. -/
theorem consumed_by_failed_release : BurnFile burnWorld burnFile [7] ∧
    ¬ ReadKept .plain (fun _ => True) burnWorld burnFile [7] := by
  refine ⟨burnFile_burnWorld, fun h => ?_⟩
  have hreach : Pool.Reachable (fun req => serve .plain req.1) (exec fun _ => True) False burnWorld
      (failedReadPool 4) :=
    @Pool.reachable_play _ _ _ _ _ (fun req : { req : Request // req.isRawRead = true } =>
      serve .plain req.1) _ False Bool answerOrFail (fun _ _ => true)
      (fun how w op _ => exec_answerOrFail how w op) burnWorld (failedRead 4) (by rfl)
  have hthreads : (failedReadPool 4).threads.map Prod.snd =
      [.ret (.error AppError.somethingWentWrong)] := rfl
  have hnone : ∀ t ∈ (failedReadPool 4).threads, ¬ Delivered (.file burnFile.idCore) t := by
    rintro t ht ⟨response, hret, -⟩
    have hmem := List.mem_map_of_mem (f := Prod.snd) ht
    rw [hthreads, List.mem_singleton, hret] at hmem
    cases hmem
  have hrows : (failedReadPool 4).shared.dedupe.files.rows = [] := rfl
  obtain ⟨hrow, -⟩ := h _ hreach (Pool.quiet_of_allReturned (by rfl)) hnone rfl
  rw [hrows] at hrow
  cases hrow

end Server
end Uwuubox
