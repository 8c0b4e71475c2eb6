import Uwuubox.Prog.Related
import Uwuubox.Server.PublicPages

/-!
# An instance without a row

A row that has expired is there until the sweeper comes.  A handler that checks `is_expired` cannot tell the instance
from one where the row is gone, and if the row has not expired, not from one where it has no date.

* `World.seen` — the instance without the row, or with the row without its date.
* `Seen` — what a statement finds in the one and in the other.
* `Veils` — the two instances at some time, and `Veils.answer`, for the operations that do not read the row.
* `Alike`, `alike_live` — in both a handler ends alike; `alike_live` is for the check of `is_expired`.
* `alike_raw` .. `alike_viewCollection` — **the handlers end alike**.
-/

namespace Uwuubox
namespace Server

open Dedupe Storage Table Fallible

/-! ## A row, and the instance without it -/

/-- What matters of a row here. -/
structure Posted where
  visibility : Visibility
  ownerId : Option Uuid
  expiresAt : Option ℤ

def File.posted (file : File) : Posted := ⟨file.visibility, file.ownerId, file.expiresAt⟩

def PasteRow.posted (paste : PasteRow) : Posted := ⟨paste.visibility, paste.ownerId, paste.expiresAt⟩

namespace World

/-- The row of an item. -/
def posted? (w : World) : Item → Option Posted
  | .file core => (w.file? core.val).map File.posted
  | .paste core => (w.paste? core.val).map PasteRow.posted

/-- The instance without the row. -/
def without (w : World) : Item → World
  | .file core => { w with dedupe := { w.dedupe with files := w.dedupe.files.delete fun row => row.idCore = core } }
  | .paste core => { w with pastes := w.pastes.delete fun row => row.idCore = core }

/-- The instance where the row never expires. -/
def forever (w : World) : Item → World
  | .file core => { w with
      fileColumns := Function.update w.fileColumns core { w.fileColumns core with expiresAt := none } }
  | .paste core => { w with
      pastes := w.pastes.update (fun row => row.idCore = core) (fun row => { row with expiresAt := none })
        fun _ => rfl }

/-- The instance as it should look, if the row has expired and if it has not. -/
def seen (w : World) (passed : Bool) (item : Item) : World := if passed then w.without item else w.forever item

end World

/-! ## One row, in two instances -/

/-- Files or pastes. -/
structure RowKind (R : Type) where
  item : R → Item
  expiresAt : R → Option ℤ
  /-- The row with another date. -/
  postpone : R → Option ℤ → R
  postpone_self : ∀ row, postpone row (expiresAt row) = row
  expiresAt_postpone : ∀ row e, expiresAt (postpone row e) = e

def fileKind : RowKind File where
  item file := .file file.idCore
  expiresAt file := file.expiresAt
  postpone file e := { file with expiresAt := e }
  postpone_self _ := rfl
  expiresAt_postpone _ _ := rfl

def pasteKind : RowKind PasteRow where
  item paste := .paste paste.idCore
  expiresAt paste := paste.expiresAt
  postpone paste e := { paste with expiresAt := e }
  postpone_self _ := rfl
  expiresAt_postpone _ _ := rfl

/-- What a statement finds in an instance, and in the one that is seen: a row that has expired is not there, and a row
that has not may have another date. -/
inductive Seen {R : Type} (kind : RowKind R) (passed : Bool) (item : Item) (t : ℤ) : Option R → Option R → Prop
  | none : Seen kind passed item t .none .none
  | gone {row : R} : expired (kind.expiresAt row) t = true → Seen kind passed item t (.some row) .none
  | row {row : R} {e : Option ℤ} : (passed = true → item ≠ kind.item row) →
      expired e t = expired (kind.expiresAt row) t → Seen kind passed item t (.some row) (.some (kind.postpone row e))

/-- `w'` is `w` as it is seen at time `t`. -/
structure Veils (passed : Bool) (item : Item) (t : ℤ) (w w' : World) : Prop where
  now : w.now = t
  row : ∀ posted, w.posted? item = some posted → expired posted.expiresAt t = passed
  eq : w' = w.seen passed item

section

variable {passed : Bool} {item : Item} {t : ℤ} {w w' : World}

/-- A row that is found in both. -/
theorem Seen.same {R : Type} {kind : RowKind R} {o : Option R}
    (h : passed = true → ∀ row, o = some row → item ≠ kind.item row) : Seen kind passed item t o o := by
  cases o with
  | none => exact .none
  | some row =>
    have hrow : Seen kind passed item t (some row) (some (kind.postpone row (kind.expiresAt row))) :=
      .row (fun hpassed => h hpassed row rfl) rfl
    rwa [kind.postpone_self] at hrow

theorem World.fileRow?_core {core : Text} {row : FileRow} (h : w.fileRow? core = some row) : row.idCore.val = core := by
  simpa using List.find?_some h

theorem World.paste?_core {core : Text} {paste : PasteRow} (h : w.paste? core = some paste) :
    paste.idCore.val = core := by
  simpa using List.find?_some h

/-- The row of a key, after the deletion of one row. -/
theorem find?_deleteWhere {R C : Type} [DecidableEq C] {col : R → C} {p : R → Bool} {c : C}
    (hp : ∀ r, p r = true ↔ col r = c) (rows : List R) (d : C) :
    (deleteWhere p rows).find? (fun r => col r = d) = if d = c then none else rows.find? fun r => col r = d := by
  unfold deleteWhere
  rw [List.find?_filter]
  split
  · rename_i hcore
    subst hcore
    refine List.find?_eq_none.2 fun r _ => ?_
    cases hpr : p r with
    | true => simp
    | false =>
      have hne : col r ≠ d := fun heq => Bool.false_ne_true (hpr.symm.trans ((hp r).2 heq))
      simp [hne]
  · rename_i hne
    refine List.find?_congr fun r _ => ?_
    by_cases hr : col r = d
    · have hpr : p r = false := Bool.eq_false_iff.2 fun h => hne (hr.symm.trans ((hp r).1 h))
      simp [hr, hpr]
    · simp [hr]

theorem World.file?_without (w : World) (c : Core) (core : Text) :
    (w.without (.file c)).file? core = if core = c.val then none else w.file? core := by
  have hrow : (w.without (.file c)).fileRow? core = if core = c.val then none else w.fileRow? core :=
    @find?_deleteWhere _ _ _ (fun row : FileRow => row.idCore.val) _ _ (by simp [Subtype.ext_iff]) _ _
  unfold World.file?
  rw [hrow]
  split
  · rfl
  · rfl

theorem World.paste?_without (w : World) (c : Core) (core : Text) :
    (w.without (.paste c)).paste? core = if core = c.val then none else w.paste? core :=
  @find?_deleteWhere _ _ _ (fun row : PasteRow => row.idCore.val) _ _ (by simp [Subtype.ext_iff]) _ _

theorem World.fileOf_forever (w : World) (c : Core) (row : FileRow) : (w.forever (.file c)).fileOf row =
    if row.idCore = c then { w.fileOf row with expiresAt := none } else w.fileOf row := by
  simp only [World.fileOf, World.forever]
  by_cases heq : row.idCore = c
  · rw [if_pos heq, heq, Function.update_self]
  · rw [if_neg heq, Function.update_of_ne heq]

theorem World.file?_forever (w : World) (c : Core) (core : Text) : (w.forever (.file c)).file? core =
    (w.file? core).map fun file => if core = c.val then { file with expiresAt := none } else file := by
  unfold World.file?
  rw [show (w.forever (.file c)).fileRow? core = w.fileRow? core from rfl, Option.map_map]
  cases hrow : w.fileRow? core with
  | none => rfl
  | some row =>
    have hiff : core = c.val ↔ row.idCore = c := by rw [Subtype.ext_iff, World.fileRow?_core hrow]
    simp only [Option.map_some, Function.comp_apply, World.fileOf_forever, hiff]

theorem World.paste?_forever (w : World) (c : Core) (core : Text) : (w.forever (.paste c)).paste? core =
    (w.paste? core).map fun paste => if core = c.val then { paste with expiresAt := none } else paste := by
  unfold World.paste? World.forever Keyed.update updateWhere
  rw [List.find?_map]
  have hcongr : w.pastes.rows.find? ((fun row => decide (row.idCore.val = core)) ∘
      fun r => if decide (r.idCore = c) = true then { r with expiresAt := none } else r) =
      w.pastes.rows.find? fun row => row.idCore.val = core := by
    refine List.find?_congr fun row _ => ?_
    simp only [Function.comp_apply]
    split <;> rfl
  rw [hcongr]
  cases hrow : w.pastes.rows.find? fun row => row.idCore.val = core with
  | none => rfl
  | some paste =>
    have hcore : paste.idCore.val = core := World.paste?_core hrow
    have hiff : core = c.val ↔ paste.idCore = c := by rw [Subtype.ext_iff, hcore]
    simp only [Option.map_some, hiff, decide_eq_true_eq]

/-- **What `find_file` finds.** -/
theorem Veils.findFile (h : Veils passed item t w w') (core : Text) :
    Seen fileKind passed item t (w.file? core) (w'.file? core) := by
  obtain ⟨-, hrow, rfl⟩ := h
  cases item with
  | paste c =>
    have hsame : (w.seen passed (.paste c)).file? core = w.file? core := by cases passed <;> rfl
    rw [hsame]
    exact .same fun _ _ _ => nofun
  | file c =>
    cases passed with
    | true =>
      rw [show w.seen true (.file c) = w.without (.file c) from rfl, World.file?_without]
      split
      · rename_i hcore
        subst hcore
        cases hfile : w.file? c.val with
        | none => exact .none
        | some file => exact .gone (hrow file.posted (by simp [World.posted?, hfile]))
      · rename_i hcore
        refine .same fun _ file hfile heq => hcore ?_
        obtain ⟨row, -, -, hrowcore, rfl⟩ := file?_eq_some hfile
        obtain rfl : c = row.idCore := Item.file.inj heq
        exact hrowcore.symm
    | false =>
      rw [show w.seen false (.file c) = w.forever (.file c) from rfl, World.file?_forever]
      cases hfile : w.file? core with
      | none => exact .none
      | some file =>
        rw [Option.map_some]
        split
        · rename_i hcore
          subst hcore
          have hlive := hrow file.posted (by simp [World.posted?, hfile])
          exact .row nofun hlive.symm
        · exact .same nofun

/-- **What `find_paste` finds.** -/
theorem Veils.findPaste (h : Veils passed item t w w') (core : Text) :
    Seen pasteKind passed item t (w.paste? core) (w'.paste? core) := by
  obtain ⟨-, hrow, rfl⟩ := h
  cases item with
  | file c =>
    have hsame : (w.seen passed (.file c)).paste? core = w.paste? core := by cases passed <;> rfl
    rw [hsame]
    exact .same fun _ _ _ => nofun
  | paste c =>
    cases passed with
    | true =>
      rw [show w.seen true (.paste c) = w.without (.paste c) from rfl, World.paste?_without]
      split
      · rename_i hcore
        subst hcore
        cases hpaste : w.paste? c.val with
        | none => exact .none
        | some paste => exact .gone (hrow paste.posted (by simp [World.posted?, hpaste]))
      · rename_i hcore
        refine .same fun _ paste hpaste heq => hcore ?_
        obtain rfl : c = paste.idCore := Item.paste.inj heq
        exact (World.paste?_core hpaste).symm
    | false =>
      rw [show w.seen false (.paste c) = w.forever (.paste c) from rfl, World.paste?_forever]
      cases hpaste : w.paste? core with
      | none => exact .none
      | some paste =>
        rw [Option.map_some]
        split
        · rename_i hcore
          subst hcore
          have hlive := hrow paste.posted (by simp [World.posted?, hpaste])
          exact .row nofun hlive.symm
        · exact .same nofun

end

/-! ## Operations in both -/

/-- The operations that do not read the row; a removal is of another one, if the row has expired. -/
def Op.Plain (passed : Bool) (item : Item) : Op → Prop
  | .storage (.deleteFile core) => passed = true → item ≠ .file core
  | .storage (.dropObject _) | .storage (.deleteObject _) | .storage (.delete _) => True
  | .deletePaste core => passed = true → ∀ c, item = .paste c → c.val ≠ core
  | .get _ | .getStream _ _ | .getRangeStream _ _ _ | .findCollection _ | .instanceConfig | .findRole _
  | .findUserById _ | .findUserByName _ | .tokenIdentity _ | .touchToken _ | .session _ | .now => True
  | _ => False

section

variable {passed : Bool} {item : Item} {t : ℤ} {w w' : World}

theorem FileTable.delete_delete (files : FileTable) (p q : FileRow → Bool) :
    (files.delete p).delete q = (files.delete q).delete p := by
  obtain ⟨rows, hunique⟩ := files
  simp [FileTable.delete, deleteWhere, Bool.and_comm]

/-- A deletion commutes with an update of what it does not depend on. -/
theorem keyed_update_delete {R C : Type} {col : R → C} (rows : Keyed col) {p q : R → Bool} {f : R → R}
    {hf : ∀ r, col (f r) = col r} (hq : ∀ r, q (f r) = q r) :
    (rows.update p f hf).delete q = (rows.delete q).update p f hf := by
  simp only [Keyed.update, Keyed.delete, Keyed.mk.injEq]
  unfold deleteWhere updateWhere
  rw [List.filter_map]
  congr 1
  refine List.filter_congr fun r _ => ?_
  simp only [Function.comp_apply]
  split
  · rw [hq]
  · rfl

/-- Where the operation changes nothing. -/
theorem Veils.read {op : Op} (h : Veils passed item t w w') (hw : (answer w op).2 = w) (hw' : (answer w' op).2 = w')
    (hr : (answer w op).1 = (answer w' op).1) :
    Veils passed item t (answer w op).2 (answer w' op).2 ∧ (answer w op).1 = (answer w' op).1 := by
  rw [hw, hw']
  exact ⟨h, hr⟩

/-- The store is the same in both, and what reads it. -/
theorem Veils.store (h : Veils passed item t w w') (key : SafeKey) : w'.dedupe.store key = w.dedupe.store key := by
  obtain ⟨-, -, rfl⟩ := h
  cases passed <;> cases item <;> rfl

/-- Bytes are read. -/
theorem Veils.fetch {op : Op} (h : Veils passed item t w w') (hop : (∃ key, op = .get key) ∨
    (∃ key len, op = .getStream key len) ∨ ∃ key start len, op = .getRangeStream key start len) :
    Veils passed item t (answer w op).2 (answer w' op).2 ∧ (answer w op).1 = (answer w' op).1 := by
  rcases hop with ⟨key, rfl⟩ | ⟨key, len, rfl⟩ | ⟨key, start, len, rfl⟩
  all_goals
    have hstore := h.store key
    cases hbytes : w.dedupe.store key with
    | none =>
      rw [hbytes] at hstore
      simp only [answer, hbytes, hstore]
      exact ⟨h, trivial⟩
    | some bytes =>
      rw [hbytes] at hstore
      simp only [answer, hbytes, hstore]
      exact ⟨h, trivial⟩

/-- Objects and their bytes change, in both. -/
theorem Veils.objects (h : Veils passed item t w w') (objects : ObjectTable) (store : SafeKey → Option Bytes) :
    Veils passed item t { w with dedupe := { w.dedupe with objects := objects, store := store } }
      { w' with dedupe := { w'.dedupe with objects := objects, store := store } } := by
  obtain ⟨hnow, hrow, rfl⟩ := h
  refine ⟨hnow, ?_, ?_⟩
  · cases item <;> exact hrow
  · cases passed <;> cases item <;> rfl

theorem Veils.sameObjects (h : Veils passed item t w w') :
    w'.dedupe.objects = w.dedupe.objects ∧ w'.dedupe.store = w.dedupe.store := by
  obtain ⟨-, -, rfl⟩ := h
  cases passed <;> cases item <;> exact ⟨rfl, rfl⟩

/-- A reference is given back, a row of an object deleted, or bytes are. -/
theorem Veils.release {op : DbOp} (h : Veils passed item t w w')
    (hop : (∃ key, op = .dropObject key) ∨ (∃ key, op = .deleteObject key) ∨ ∃ key, op = .delete key) :
    Veils passed item t (answer w (.storage op)).2 (answer w' (.storage op)).2 ∧
      (answer w (.storage op)).1 = (answer w' (.storage op)).1 := by
  obtain ⟨hobjects, hstore⟩ := h.sameObjects
  rcases hop with ⟨key, rfl⟩ | ⟨key, rfl⟩ | ⟨key, rfl⟩
  · simp only [answer, Dedupe.answer, hobjects]
    split
    · exact ⟨h, rfl⟩
    · split
      · exact ⟨h, rfl⟩
      · have hchanged := h.objects (w.dedupe.objects.setRefcount (fun row => row.storageKey = key) (· - 1))
          w.dedupe.store
        nth_rewrite 2 [← hstore] at hchanged
        exact ⟨hchanged, rfl⟩
  · have hchanged := h.objects (w.dedupe.objects.delete fun row => row.storageKey = key) w.dedupe.store
    nth_rewrite 2 [← hstore] at hchanged
    simp only [answer, Dedupe.answer, hobjects]
    exact ⟨hchanged, trivial⟩
  · have hchanged := h.objects w.dedupe.objects (Function.update w.dedupe.store key none)
    nth_rewrite 2 [← hobjects] at hchanged
    simp only [answer, Dedupe.answer, hstore]
    exact ⟨hchanged, trivial⟩

/-- The row of a file is deleted, which is another one if the row has expired. -/
theorem Veils.deleteFile {core : Core} (h : Veils passed item t w w') (hcore : passed = true → item ≠ .file core) :
    Veils passed item t (answer w (.storage (.deleteFile core))).2 (answer w' (.storage (.deleteFile core))).2 ∧
      (answer w (.storage (.deleteFile core))).1 = (answer w' (.storage (.deleteFile core))).1 := by
  have hfind : w'.dedupe.files.rows.find? (fun row => row.idCore = core) =
      w.dedupe.files.rows.find? fun row => row.idCore = core := by
    obtain ⟨-, -, rfl⟩ := h
    cases passed with
    | false => cases item <;> rfl
    | true =>
      cases item with
      | paste c => rfl
      | file c =>
        have hne : core ≠ c := fun heq => hcore rfl (heq ▸ rfl)
        exact (@find?_deleteWhere _ _ _ FileRow.idCore _ _ (by simp) _ _).trans (if_neg hne)
  simp only [answer, Dedupe.answer, hfind]
  split
  · exact ⟨h, rfl⟩
  · refine ⟨?_, rfl⟩
    obtain ⟨hnow, hrow, rfl⟩ := h
    refine ⟨hnow, fun posted hposted => hrow posted ?_, ?_⟩
    · cases item with
      | paste c => exact hposted
      | file c =>
        have hwithout := World.file?_without w core c.val
        unfold World.without at hwithout
        simp only [World.posted?, hwithout] at hposted ⊢
        split at hposted
        · cases hposted
        · exact hposted
    · cases passed with
      | false => cases item <;> rfl
      | true =>
        cases item with
        | paste c => rfl
        | file c =>
          simp only [World.seen, World.without, if_true]
          rw [FileTable.delete_delete]

/-- A paste is deleted, which is another one if the row has expired. -/
theorem Veils.deletePaste {core : Text} (h : Veils passed item t w w')
    (hcore : passed = true → ∀ c, item = .paste c → c.val ≠ core) :
    Veils passed item t (answer w (.deletePaste core)).2 (answer w' (.deletePaste core)).2 ∧
      (answer w (.deletePaste core)).1 = (answer w' (.deletePaste core)).1 := by
  obtain ⟨hnow, hrow, rfl⟩ := h
  have hdeleted : ∀ (w : World) (other : Text), World.paste?
      { w with pastes := w.pastes.delete fun row => row.idCore.val = core } other =
        if other = core then none else w.paste? other := fun w other =>
    @find?_deleteWhere _ _ _ (fun row : PasteRow => row.idCore.val) _ _ (by simp) _ _
  refine ⟨⟨hnow, fun posted hposted => hrow posted ?_, ?_⟩, ?_⟩
  · cases item with
    | file c => exact hposted
    | paste c =>
      simp only [World.posted?, answer, hdeleted] at hposted ⊢
      split at hposted
      · cases hposted
      · exact hposted
  · cases item with
    | file c => cases passed <;> rfl
    | paste c =>
      cases passed with
      | true =>
        simp [answer, World.seen, World.without, Keyed.delete, deleteWhere, Bool.and_comm]
      | false =>
        simp only [answer, World.seen, World.forever, Bool.false_eq_true, if_false]
        rw [keyed_update_delete]
        exact fun _ => rfl
  · have hpaste : ((w.seen passed item).paste? core).isSome = (w.paste? core).isSome := by
      cases item with
      | file c => cases passed <;> rfl
      | paste c =>
        cases passed with
        | true =>
          rw [show w.seen true (.paste c) = w.without (.paste c) from rfl, World.paste?_without,
            if_neg fun heq => hcore rfl c rfl heq.symm]
        | false =>
          rw [show w.seen false (.paste c) = w.forever (.paste c) from rfl, World.paste?_forever, Option.isSome_map]
    exact congrArg Except.ok hpaste.symm

/-- **Other operations are answered alike.** -/
theorem Veils.answer {op : Op} (hop : op.Plain passed item) (h : Veils passed item t w w') :
    Veils passed item t (answer w op).2 (answer w' op).2 ∧ (answer w op).1 = (answer w' op).1 := by
  have hread : ∀ {op : Op}, (Server.answer w op).2 = w → (Server.answer w' op).2 = w' →
      (Server.answer w op).1 = (Server.answer w' op).1 →
      Veils passed item t (Server.answer w op).2 (Server.answer w' op).2 ∧
        (Server.answer w op).1 = (Server.answer w' op).1 := fun hw hw' hr => h.read hw hw' hr
  cases op with
  | storage op =>
    cases op with
    | deleteFile core => exact h.deleteFile hop
    | dropObject key => exact h.release (.inl ⟨key, rfl⟩)
    | deleteObject key => exact h.release (.inr (.inl ⟨key, rfl⟩))
    | delete key => exact h.release (.inr (.inr ⟨key, rfl⟩))
    | _ => exact hop.elim
  | deletePaste core => exact h.deletePaste hop
  | get key => exact h.fetch (.inl ⟨key, rfl⟩)
  | getStream key len => exact h.fetch (.inr (.inl ⟨key, len, rfl⟩))
  | getRangeStream key start len => exact h.fetch (.inr (.inr ⟨key, start, len, rfl⟩))
  | findCollection _ | instanceConfig | findRole _ | findUserById _ | findUserByName _ | tokenIdentity _ | touchToken _
  | session _ | now =>
    obtain ⟨-, -, rfl⟩ := h
    refine hread rfl rfl ?_
    cases passed <;> cases item <;> rfl
  | _ => exact hop.elim

end

/-! ## Handlers in both -/

/-- In both instances the handlers end alike. -/
abbrev Alike {α β : Type} (passed : Bool) (item : Item) (t : ℤ) (R : α → β → Prop) (p : Handler α) (p' : Handler β) :
    Prop :=
  Fallible.Related answer (Veils passed item t) R p p'

/-- A query does. -/
abbrev Query.Alike {α : Type} (passed : Bool) (item : Item) (t : ℤ) (p : Query α) : Prop :=
  Prog.Related answer (Veils passed item t) Eq p p

/-- A row, and the same row with another date. -/
def Redated {R : Type} (kind : RowKind R) (passed : Bool) (item : Item) (row row' : R) : Prop :=
  (passed = true → item ≠ kind.item row) ∧ ∃ e, row' = kind.postpone row e

section

variable {passed : Bool} {item : Item} {t : ℤ} {α β : Type}

theorem alike_perform {op : Op} (hop : op.Plain passed item) : Query.Alike passed item t (Prog.perform op) :=
  Prog.Related.perform fun _ _ h => h.answer hop

theorem alike_ask {op : Op} {R : op.Val → op.Val → Prop}
    (h : ∀ w w', Veils passed item t w w' → Veils passed item t (answer w op).2 (answer w' op).2 ∧
      SameEnd R (answer w op).1 (answer w' op).1) : Alike passed item t R (ask op) (ask op) := by
  refine Related.bind (Related.always (Prog.Related.perform h)) fun r r' hr => ?_
  match r, r', hr with
  | .ok v, .ok v', hv => exact Related.pure hv
  | .error e, .error _, rfl => exact Related.throw

/-- An operation that does not read the row. -/
theorem alike_plain {op : Op} (hop : op.Plain passed item) : Alike passed item t Eq (ask op) (ask op) :=
  alike_ask fun _ _ h => (h.answer hop).imp_right sameEnd_eq.2

theorem alike_findFile (core : Text) :
    Alike passed item t (Seen fileKind passed item t) (ask (.findFile core)) (ask (.findFile core)) :=
  alike_ask fun _ _ h => ⟨h, h.findFile core⟩

theorem alike_findPaste (core : Text) :
    Alike passed item t (Seen pasteKind passed item t) (ask (.findPaste core)) (ask (.findPaste core)) :=
  alike_ask fun _ _ h => ⟨h, h.findPaste core⟩

theorem alike_now : Alike passed item t (fun now now' => now = t ∧ now' = t) (ask .now) (ask .now) := by
  refine alike_ask fun w w' h => ?_
  obtain ⟨hveils, hnow⟩ := @Veils.answer _ _ _ _ _ .now trivial h
  refine ⟨hveils, h.now, ?_⟩
  exact (Except.ok.inj hnow).symm.trans h.now

/-- The clock is read in the first instance only. -/
theorem alike_skipNow {R : α → β → Prop} {k : ℤ → Handler α} {p' : Handler β} (h : Alike passed item t R (k t) p') :
    Alike passed item t R (ask .now >>= k) p' := by
  intro w w' hw
  have hskip : (ask .now >>= k).run.eval answer w = (k t).run.eval answer w := by
    rw [← hw.now]
    rfl
  rw [hskip]
  exact h w w' hw

/-- **The check of `is_expired`**, where a row that is not there is an error. -/
theorem alike_live {R : Type} {kind : RowKind R} {S : α → β → Prop} {o o' : Option R}
    (ho : Seen kind passed item t o o') {k : R → Handler α} {k' : R → Handler β}
    (hk : ∀ row row', Redated kind passed item row row' → Alike passed item t S (k row) (k' row')) :
    Alike passed item t S
      (do let row ← orThrow o (Abort.error AppError.notFound)
          let now ← ask .now
          reject (expired (kind.expiresAt row) now) (Abort.error AppError.notFound)
          k row)
      (do let row ← orThrow o' (Abort.error AppError.notFound)
          let now ← ask .now
          reject (expired (kind.expiresAt row) now) (Abort.error AppError.notFound)
          k' row) := by
  cases ho with
  | none => exact Related.throw
  | @gone row hexpired =>
    refine alike_skipNow ?_
    show Alike passed item t S (reject (expired (kind.expiresAt row) t = true) _ >>= _) (throw _)
    rw [show (reject (expired (kind.expiresAt row) t = true) (Abort.error AppError.notFound) : Handler Unit) = throw _
      from if_pos hexpired]
    exact Related.throw
  | @row row e hne hsame =>
    show Alike passed item t S (ask .now >>= _) (ask .now >>= _)
    refine Related.bind alike_now fun now now' hnow => ?_
    obtain ⟨rfl, rfl⟩ := hnow
    refine Related.bind (Related.reject ?_) fun _ _ _ => hk row _ ⟨hne, e, rfl⟩
    rw [kind.expiresAt_postpone, hsame]

end

/-! ### Who is asking -/

section

variable {passed : Bool} {item : Item} {t : ℤ} (env : Env) (caller : Caller)

theorem alike_sessionUser (sid : SessionId) : Query.Alike passed item t (sessionUser sid) := by
  refine .bind (alike_perform trivial) fun r r' hr => ?_
  subst hr
  match r with
  | .error _ => exact .pure rfl
  | .ok session =>
    cases huid : session.uid with
    | none => simp only [huid]; exact .pure rfl
    | some id =>
      simp only [huid]
      refine .bind (alike_perform trivial) fun r r' hr => ?_
      subst hr
      match r with
      | .ok user => exact .pure rfl
      | .error _ => exact .pure rfl

theorem alike_bearerIdentity (headers : Headers) : Query.Alike passed item t (bearerIdentity env headers) := by
  unfold bearerIdentity
  split
  · exact .pure rfl
  · split
    · exact .pure rfl
    · refine .bind (alike_perform trivial) fun r r' hr => ?_
      subst hr
      match r with
      | .ok (some (user, scopes)) => exact .bind (alike_perform trivial) fun _ _ _ => .pure rfl
      | .ok none => exact .pure rfl
      | .error _ => exact .pure rfl

theorem alike_currentIdentity : Query.Alike passed item t (currentIdentity env caller) := by
  refine .bind (alike_sessionUser caller.session) fun user user' huser => ?_
  subst huser
  match user with
  | some user => exact .pure rfl
  | none => exact alike_bearerIdentity env caller.headers

theorem alike_currentUser : Query.Alike passed item t (currentUser env caller) := by
  refine .bind (alike_sessionUser caller.session) fun user user' huser => ?_
  subst huser
  match user with
  | some user => exact .pure rfl
  | none =>
    refine .bind (alike_bearerIdentity env caller.headers) fun identity identity' hidentity => ?_
    subst hidentity
    exact .pure rfl

theorem alike_requireScopeIfBearer (identity : Option Identity) (scope : Scope) :
    Alike passed item t Eq (requireScopeIfBearer caller identity scope) (requireScopeIfBearer caller identity scope) :=
  .ite (.bind (.check (sameEnd_eq.2 rfl)) fun _ _ _ => .pure rfl) (.pure rfl)

theorem alike_effectiveLimits (cfg : InstanceConfig) (user : Option User) :
    Alike passed item t Eq (effectiveLimits cfg user) (effectiveLimits cfg user) := by
  refine .bind (R := Eq) ?_ fun role role' hrole => ?_
  · unfold roleOf
    split
    · exact alike_plain trivial
    · exact .pure rfl
  · subst hrole
    exact .pure rfl

theorem alike_ownerOf (ownerId : Option Uuid) : Alike passed item t Eq (ownerOf ownerId) (ownerOf ownerId) := by
  cases ownerId with
  | none => exact .pure rfl
  | some id => exact alike_plain trivial

theorem alike_isUnlocked (sid : SessionId) (hash : Option Text) (core : Core) :
    Query.Alike passed item t (isUnlocked sid hash core) := by
  unfold isUnlocked
  split
  · exact .pure rfl
  · refine .bind (alike_perform trivial) fun r r' hr => ?_
    subst hr
    match r with
    | .ok session => exact .pure rfl
    | .error _ => exact .pure rfl

theorem alike_checkPassword (sid : SessionId) (hash : Option Text) (core : Core) (password : Option Text) :
    Alike passed item t Eq (checkPassword env sid hash core password) (checkPassword env sid hash core password) := by
  cases hash with
  | none => exact .pure rfl
  | some hash =>
    refine .bind (.always (alike_isUnlocked sid _ core)) fun unlocked unlocked' hunlocked => ?_
    subst hunlocked
    exact .reject Iff.rfl

/-! ### Files and pastes -/

theorem alike_loadLiveFile (segment : Text) :
    Alike passed item t (Redated fileKind passed item) (loadLiveFile segment) (loadLiveFile segment) :=
  .bind (.reject Iff.rfl) fun _ _ _ => .bind (alike_findFile _) fun _ _ ho =>
    alike_live ho fun _ _ hrow => .pure hrow

theorem alike_loadLivePaste (segment : Text) :
    Alike passed item t (Redated pasteKind passed item) (loadLivePaste segment) (loadLivePaste segment) :=
  .bind (.reject Iff.rfl) fun _ _ _ => .bind (alike_findPaste _) fun _ _ ho =>
    alike_live ho fun _ _ hrow => .pure hrow

/-- A removal of another file, if the row has expired. -/
theorem alike_removeFile {core : Core} (hcore : passed = true → item ≠ .file core) :
    Alike passed item t Eq (removeFile core) (removeFile core) := by
  have hremove : Query.Alike passed item t (storage (Dedupe.removeFile core)) := by
    refine @Prog.Related.of_obeys _ _ _ _ _ _ (Op.Plain passed item) (fun op hop w w' h => h.answer hop) _
      (obeys_storage ?_)
    refine ⟨hcore, fun r _ _ => ?_⟩
    have hrelease : ∀ key, (Dedupe.releaseAndDelete key).Obeys
        (.flat (fun op => Op.Plain passed item (.storage op)) fun _ _ => True) (fun _ _ => True) () := fun key =>
      (releaseAndDelete_isRelease key).weaken fun op hop => by cases op <;> trivial
    match r with
    | .error e => exact trivial
    | .ok none => exact trivial
    | .ok (some (storageKey, thumbKey)) =>
      show Prog.Obeys _ _ (Dedupe.releaseAndDelete storageKey >>= _) _
      refine (Prog.obeys_bind _ _ _).2 ((hrelease storageKey).mono fun result _ _ => ?_)
      match result, thumbKey with
      | .error e, _ => exact trivial
      | .ok (), none => exact trivial
      | .ok (), some thumbKey =>
        show Prog.Obeys _ _ (Dedupe.releaseAndDelete thumbKey >>= _) _
        refine (Prog.obeys_bind _ _ _).2 ((hrelease thumbKey).mono fun result _ _ => ?_)
        match result with
        | .error e => exact trivial
        | .ok () => exact trivial
  refine .bind (.always hremove) fun removed removed' hremoved => ?_
  subst hremoved
  exact .check (sameEnd_eq.2 rfl)

theorem alike_burnRead {file : File} (hfile : passed = true → item ≠ .file file.idCore) (outcome : RangeOutcome) :
    Alike passed item t Eq (burnRead file outcome) (burnRead file outcome) := by
  refine .bind (alike_plain trivial) fun delivery delivery' hdelivery => ?_
  subst hdelivery
  refine .bind (.check (sameEnd_eq.2 rfl)) fun all all' hall => ?_
  subst hall
  refine .bind (.reject Iff.rfl) fun _ _ _ => .bind (alike_removeFile hfile) fun removed removed' hremoved => ?_
  subst hremoved
  exact .bind (.reject Iff.rfl) fun _ _ _ => .check (sameEnd_eq.2 rfl)

theorem alike_streamRead (file : File) (outcome : RangeOutcome) :
    Alike passed item t Eq (streamRead file outcome) (streamRead file outcome) := by
  refine .bind (R := Eq) ?_ fun opened opened' hopened => ?_
  · unfold openStream
    cases outcome with
    | full => exact .bind (alike_plain trivial) fun _ _ h => h ▸ .pure rfl
    | satisfiable start stop => exact .bind (alike_plain trivial) fun _ _ h => h ▸ .pure rfl
    | invalid => exact .throw
    | unsatisfiable => exact .throw
  · subst hopened
    exact .check (sameEnd_eq.2 rfl)

theorem alike_raw (password : Option Text) (segment : Text) :
    Alike passed item t Eq (raw env caller password segment) (raw env caller password segment) := by
  refine .bind (alike_loadLiveFile segment) fun file file' hfile => ?_
  obtain ⟨hne, e, rfl⟩ := hfile
  refine .bind (alike_checkPassword env _ _ _ _) fun _ _ _ =>
    .bind (.check (sameEnd_eq.2 rfl)) fun header header' hheader => ?_
  subst hheader
  refine .bind (.reject Iff.rfl) fun _ _ _ => .ite (.check (sameEnd_eq.2 rfl)) (.ite ?_ ?_)
  · exact alike_burnRead hne _
  · exact alike_streamRead file _

end

section

variable {passed : Bool} {item : Item} {t : ℤ} (env : Env) (caller : Caller)

/-- Bytes are read, and an error is answered. -/
theorem alike_textSnippet (file : File) (e : Option ℤ) (locked : Bool) :
    Prog.Related answer (Veils passed item t) Eq (textSnippet env file locked)
      (textSnippet env (fileKind.postpone file e) locked) := by
  refine .ite (.bind (alike_perform trivial) fun r r' hr => ?_) (.pure rfl)
  subst hr
  match r with
  | .ok bytes => exact .pure rfl
  | .error _ => exact .pure rfl

theorem alike_preview (segment : Text) :
    Alike passed item t Eq (preview env caller segment) (preview env caller segment) := by
  refine .bind (.always (alike_currentUser env caller)) fun _ _ _ =>
    .bind (alike_loadLiveFile segment) fun file file' hfile => ?_
  obtain ⟨-, e, rfl⟩ := hfile
  refine .bind (alike_plain trivial) fun _ _ _ => .bind (alike_ownerOf _) fun _ _ _ =>
    .bind (.always (alike_isUnlocked _ _ _)) fun unlocked unlocked' hunlocked => ?_
  subst hunlocked
  refine .bind (.always (alike_textSnippet env file e _)) fun snippet snippet' hsnippet => ?_
  subst hsnippet
  exact .bind (.reject Iff.rfl) fun _ _ _ => .pure rfl

theorem alike_rawPaste (password : Option Text) (segment : Text) :
    Alike passed item t Eq (rawPaste env caller password segment) (rawPaste env caller password segment) := by
  refine .bind (alike_loadLivePaste segment) fun paste paste' hpaste => ?_
  obtain ⟨hne, e, rfl⟩ := hpaste
  refine .bind (alike_checkPassword env _ _ _ _) fun _ _ _ =>
    .bind (.check (sameEnd_eq.2 rfl)) fun header header' hheader => ?_
  subst hheader
  refine .bind (.reject Iff.rfl) fun _ _ _ => .ite (.pure rfl) (.ite ?_ (.pure rfl))
  refine .bind (alike_plain fun hpassed c hc heq => ?_) fun deleted deleted' hdeleted => ?_
  · exact hne hpassed (hc.trans (congrArg Item.paste (Subtype.ext heq)))
  · subst hdeleted
    exact .bind (.reject Iff.rfl) fun _ _ _ => .pure rfl

theorem alike_viewPaste (segment : Text) :
    Alike passed item t Eq (viewPaste env caller segment) (viewPaste env caller segment) := by
  refine .bind (.always (alike_currentUser env caller)) fun _ _ _ =>
    .bind (alike_loadLivePaste segment) fun paste paste' hpaste => ?_
  obtain ⟨-, e, rfl⟩ := hpaste
  refine .bind (alike_plain trivial) fun _ _ _ =>
    .bind (.always (alike_isUnlocked _ _ _)) fun unlocked unlocked' hunlocked => ?_
  subst hunlocked
  refine .bind (.check (sameEnd_eq.2 rfl)) fun content content' hcontent => ?_
  subst hcontent
  exact .bind (alike_ownerOf _) fun _ _ _ => .bind (.reject Iff.rfl) fun _ _ _ => .pure rfl

/-- `thumb` checks more than the date. -/
theorem alike_thumb (segment : Text) : Alike passed item t Eq (thumb segment) (thumb segment) := by
  refine .bind (.reject Iff.rfl) fun _ _ _ => .bind (alike_findFile _) fun o o' ho => ?_
  cases ho with
  | none => exact .throw
  | @gone file hexpired =>
    refine alike_skipNow ?_
    show Alike passed item t Eq (reject _ _ >>= _) (throw _)
    rw [show (reject (expired file.expiresAt t || file.burnAfterRead || file.accessPasswordHash.isSome)
      (Abort.error AppError.notFound) : Handler Unit) = throw _ from if_pos (by
        rw [show expired file.expiresAt t = true from hexpired]; rfl)]
    exact .throw
  | @row file e hne hsame =>
    show Alike passed item t Eq (ask .now >>= _) (ask .now >>= _)
    refine .bind alike_now fun now now' hnow => ?_
    obtain ⟨rfl, rfl⟩ := hnow
    have hdate : expired (fileKind.postpone file e).expiresAt now' = expired file.expiresAt now' := hsame
    refine .bind (.reject (by rw [hdate]; rfl)) fun _ _ _ => ?_
    refine .bind .orThrow fun key key' hkey => ?_
    subst hkey
    refine .bind (alike_plain trivial) fun bytes bytes' hbytes => ?_
    subst hbytes
    exact .pure rfl

/-! ### Archives -/

/-- The check of the two loops of `zip`. -/
theorem alike_filtered {R : Type} {kind : RowKind R} {α β : Type} {S : α → β → Prop} {o o' : Option R}
    (ho : Seen kind passed item t o o') {k : R → Handler α} {k' : R → Handler β}
    (hk : ∀ row row', Redated kind passed item row row' → Alike passed item t S (k row) (k' row')) :
    Alike passed item t S
      (do let now ← ask .now
          let row ← orThrow (o.filter fun row => !expired (kind.expiresAt row) now) (Abort.error AppError.notFound)
          k row)
      (do let now ← ask .now
          let row ← orThrow (o'.filter fun row => !expired (kind.expiresAt row) now) (Abort.error AppError.notFound)
          k' row) := by
  refine .bind alike_now fun now now' hnow => ?_
  obtain ⟨rfl, rfl⟩ := hnow
  cases ho with
  | none => exact .throw
  | @gone row hexpired =>
    rw [Option.filter_some, hexpired]
    exact .throw
  | @row row e hne hsame =>
    rw [Option.filter_some, Option.filter_some, kind.expiresAt_postpone, hsame]
    by_cases hlive : expired (kind.expiresAt row) now' = true
    · rw [hlive]
      exact .throw
    · rw [Bool.not_eq_true] at hlive
      rw [hlive]
      exact hk row _ ⟨hne, e, rfl⟩

theorem alike_requestedCore (segment : Text) :
    Alike passed item t Eq (requestedCore segment) (requestedCore segment) :=
  .bind (.reject Iff.rfl) fun _ _ _ => .pure rfl

/-- The loop over the files finds the same files, whose dates may differ. -/
theorem alike_zipFiles (limits : EffectiveLimits) (segments : List Text) (total : ℤ) :
    Alike passed item t (fun x x' => List.Forall₂ (Redated fileKind passed item) x.1 x'.1 ∧ x.2 = x'.2)
      (zipFiles limits segments total) (zipFiles limits segments total) := by
  induction segments generalizing total with
  | nil => exact .pure ⟨.nil, rfl⟩
  | cons segment rest ih =>
    refine .bind (alike_requestedCore segment) fun core core' hcore => ?_
    subst hcore
    refine .bind (alike_findFile core) fun o o' ho => alike_filtered ho fun file file' hfile => ?_
    have hrow := hfile
    obtain ⟨-, e, rfl⟩ := hfile
    refine .bind (.reject Iff.rfl) fun _ _ _ => .bind (.reject Iff.rfl) fun _ _ _ => .bind (ih _) fun x x' hx => ?_
    exact .pure ⟨.cons hrow hx.1, hx.2⟩

theorem alike_zipPastes (limits : EffectiveLimits) (segments : List Text) (total : ℤ) :
    Alike passed item t (List.Forall₂ (Redated pasteKind passed item)) (zipPastes limits segments total)
      (zipPastes limits segments total) := by
  induction segments generalizing total with
  | nil => exact .pure .nil
  | cons segment rest ih =>
    refine .bind (alike_requestedCore segment) fun core core' hcore => ?_
    subst hcore
    refine .bind (alike_findPaste core) fun o o' ho => alike_filtered ho fun paste paste' hpaste => ?_
    have hrow := hpaste
    obtain ⟨-, e, rfl⟩ := hpaste
    refine .bind (.reject Iff.rfl) fun _ _ _ => .bind (.reject Iff.rfl) fun _ _ _ => .bind (ih _) fun x x' hx => ?_
    exact .pure (.cons hrow hx)

theorem alike_fileEntries {files files' : List File} (h : List.Forall₂ (Redated fileKind passed item) files files')
    (seen : List Text) : Alike passed item t Eq (fileEntries files seen) (fileEntries files' seen) := by
  induction h generalizing seen with
  | nil => exact .pure rfl
  | @cons file file' files files' hfile hfiles ih =>
    obtain ⟨-, e, rfl⟩ := hfile
    refine .bind .orThrow fun name name' hname => ?_
    subst hname
    refine .bind (alike_plain trivial) fun bytes bytes' hbytes => ?_
    subst hbytes
    refine .bind (ih _) fun x x' hx => ?_
    subst hx
    exact .pure rfl

theorem alike_pasteEntries {pastes pastes' : List PasteRow}
    (h : List.Forall₂ (Redated pasteKind passed item) pastes pastes') (seen : List Text) :
    Alike passed item t Eq (pasteEntries pastes seen) (pasteEntries pastes' seen) := by
  induction h generalizing seen with
  | nil => exact .pure rfl
  | @cons paste paste' pastes pastes' hpaste hpastes ih =>
    obtain ⟨-, e, rfl⟩ := hpaste
    refine .bind .orThrow fun stem stem' hstem => ?_
    subst hstem
    refine .bind .orThrow fun name name' hname => ?_
    subst hname
    refine .bind (ih _) fun x x' hx => ?_
    subst hx
    exact .pure rfl

theorem alike_zip (files pastes : List Text) :
    Alike passed item t Eq (zip env caller files pastes) (zip env caller files pastes) := by
  refine .bind (.reject Iff.rfl) fun _ _ _ => .bind (.reject Iff.rfl) fun _ _ _ =>
    .bind (.always (alike_currentIdentity env caller)) fun identity identity' hidentity => ?_
  subst hidentity
  refine .bind (alike_requireScopeIfBearer caller identity .read) fun _ _ _ =>
    .bind (alike_plain trivial) fun cfg cfg' hcfg => ?_
  subst hcfg
  refine .bind (alike_effectiveLimits cfg _) fun limits limits' hlimits => ?_
  subst hlimits
  refine .bind (alike_zipFiles limits files 0) fun x x' hx => ?_
  obtain ⟨files, total⟩ := x
  obtain ⟨files', total'⟩ := x'
  obtain ⟨hfiles, rfl⟩ := hx
  refine .bind (alike_zipPastes limits pastes total) fun pastes pastes' hpastes =>
    .bind (alike_fileEntries hfiles []) fun x x' hx => ?_
  subst hx
  refine .bind (alike_pasteEntries hpastes x.1) fun y y' hy => ?_
  subst hy
  exact .bind (.reject Iff.rfl) fun _ _ _ => .pure rfl

/-! ### Embeds, comments and collections -/

theorem alike_authorName (ownerId : Option Uuid) (fallback : Text) :
    Alike passed item t Eq (authorName ownerId fallback) (authorName ownerId fallback) := by
  refine .bind (alike_ownerOf ownerId) fun owner owner' howner => ?_
  subst howner
  exact .pure rfl

theorem alike_oembed (target : Option OembedTarget) : Alike passed item t Eq (oembed target) (oembed target) := by
  refine .bind .orThrow fun target target' htarget => ?_
  subst htarget
  refine .bind (alike_plain trivial) fun cfg cfg' hcfg => ?_
  subst hcfg
  have hauthor : ∀ (ownerId : Option Uuid) (title : Text), Alike passed item t Eq
      (authorName ownerId cfg.instanceName >>= fun author => pure (oembedAnswer title author))
      (authorName ownerId cfg.instanceName >>= fun author => pure (oembedAnswer title author)) := by
    intro ownerId title
    refine .bind (alike_authorName ownerId _) fun author author' hauthor => ?_
    subst hauthor
    exact .pure rfl
  cases target with
  | file segment =>
    refine .bind (alike_findFile _) fun o o' ho => alike_live ho fun file file' hfile => ?_
    obtain ⟨-, e, rfl⟩ := hfile
    exact hauthor file.ownerId file.originalName
  | paste segment =>
    refine .bind (alike_findPaste _) fun o o' ho => alike_live ho fun paste paste' hpaste => ?_
    obtain ⟨-, e, rfl⟩ := hpaste
    exact hauthor paste.ownerId _
  | collection id =>
    refine .bind (alike_plain trivial) fun o o' ho => ?_
    subst ho
    refine .bind .orThrow fun collection collection' hcollection => ?_
    subst hcollection
    exact hauthor _ _
  | other => exact .throw

theorem alike_resolveTarget (target : CommentTarget) :
    Alike passed item t Eq (resolveTarget target) (resolveTarget target) := by
  cases target with
  | file suppliedCore =>
    refine .bind (alike_findFile _) fun o o' ho => alike_live ho fun file file' hfile => ?_
    obtain ⟨-, e, rfl⟩ := hfile
    exact .pure rfl
  | paste suppliedCore =>
    refine .bind (alike_findPaste _) fun o o' ho => alike_live ho fun paste paste' hpaste => ?_
    obtain ⟨-, e, rfl⟩ := hpaste
    exact .pure rfl
  | collection id =>
    refine .bind .orThrow fun id id' hid => ?_
    subst hid
    refine .bind (alike_plain trivial) fun o o' ho => ?_
    subst ho
    refine .bind .orThrow fun collection collection' hcollection => ?_
    subst hcollection
    exact .pure rfl
  | other => exact .throw

theorem alike_moderates (identity : Option Identity) :
    Alike passed item t Eq (moderates identity) (moderates identity) := by
  cases identity with
  | none => exact .pure rfl
  | some identity =>
    refine .bind (alike_plain trivial) fun cfg cfg' hcfg => ?_
    subst hcfg
    refine .bind (alike_effectiveLimits cfg _) fun limits limits' hlimits => ?_
    subst hlimits
    exact .pure rfl

theorem alike_listComments (comments : Item ⊕ Uuid → List CommentRow) (target : CommentTarget) (page : Option ℤ) :
    Alike passed item t Eq (listComments env comments caller target page)
      (listComments env comments caller target page) := by
  refine .bind (.always (alike_currentIdentity env caller)) fun identity identity' hidentity => ?_
  subst hidentity
  refine .bind (alike_resolveTarget target) fun target target' htarget => ?_
  subst htarget
  refine .bind (alike_moderates identity) fun canModerate canModerate' hcanModerate => ?_
  subst hcanModerate
  exact .pure rfl

theorem alike_collectionItems (humans : Humans) (rows : List CollectionItem) :
    Alike passed item t Eq (collectionItems humans rows) (collectionItems humans rows) := by
  induction rows with
  | nil => exact .pure rfl
  | cons row rows ih =>
    unfold collectionItems
    split
    · refine .bind (alike_findFile _) fun o o' ho => ?_
      cases ho with
      | none => exact ih
      | @gone file hexpired =>
        refine alike_skipNow ?_
        rw [if_pos (show expired file.expiresAt t = true from hexpired)]
        exact ih
      | @row file e hne hsame =>
        refine .bind alike_now fun now now' hnow => ?_
        obtain ⟨rfl, rfl⟩ := hnow
        rw [show expired (fileKind.postpone file e).expiresAt now' = expired file.expiresAt now' from hsame]
        refine .ite ih (.bind ih fun views views' hviews => ?_)
        subst hviews
        exact .pure rfl
    · refine .bind (alike_findPaste _) fun o o' ho => ?_
      cases ho with
      | none => exact ih
      | @gone paste hexpired =>
        refine alike_skipNow ?_
        rw [if_pos (show expired paste.expiresAt t = true from hexpired)]
        exact ih
      | @row paste e hne hsame =>
        refine .bind alike_now fun now now' hnow => ?_
        obtain ⟨rfl, rfl⟩ := hnow
        rw [show expired (pasteKind.postpone paste e).expiresAt now' = expired paste.expiresAt now' from hsame]
        refine .ite ih (.bind ih fun views views' hviews => ?_)
        subst hviews
        exact .pure rfl

theorem alike_viewCollection (humans : Humans) (items : Uuid → List CollectionItem) (id : Option Uuid) :
    Alike passed item t Eq (viewCollection env humans items caller id) (viewCollection env humans items caller id) := by
  refine .bind .orThrow fun id id' hid => ?_
  subst hid
  refine .bind (alike_plain trivial) fun o o' ho => ?_
  subst ho
  refine .bind .orThrow fun collection collection' hcollection => ?_
  subst hcollection
  refine .bind (.always (alike_currentUser env caller)) fun _ _ _ => .bind (alike_plain trivial) fun o o' ho => ?_
  subst ho
  refine .bind .orThrow fun _ _ _ => .bind (alike_collectionItems humans _) fun views views' hviews => ?_
  subst hviews
  exact .bind (alike_plain trivial) fun _ _ _ => .bind (.reject Iff.rfl) fun _ _ _ => .pure rfl

theorem alike_profileOwner (username : Text) :
    Alike passed item t Eq (profileOwner env caller username) (profileOwner env caller username) := by
  refine .bind (.always (alike_currentUser env caller)) fun _ _ _ => .bind (alike_plain trivial) fun _ _ _ =>
    .bind (alike_plain trivial) fun o o' ho => ?_
  subst ho
  exact .orThrow

end

end Server
end Uwuubox
